import Yaz.Marc.Marcxml

/-! Which octets of a record the writers of `marcdisp.c` look at, in every output format, with a conversion descriptor or without.

A string is in memory with a NUL behind it; what is behind that is not the writer's. What a writer writes itself is left out.
-/

set_option autoImplicit false

namespace Yaz.Marc
open Yaz.Comstack
open Yaz.Http (cString)
open Yaz.Iconv (Decoder Encoder Cd yazIconv)

/-- What `nmem_strdupn` has copied, and what is in memory behind the NUL that it adds. -/
structure Stored where
  octets : List UInt8
  behind : List UInt8
  deriving DecidableEq

def Stored.memory (s : Stored) : List UInt8 := s.octets ++ 0 :: s.behind

/-- `strlen`. -/
def Stored.length (s : Stored) : Nat := (cString s.octets).length

/-- What `yaz_iconv` makes of a descriptor: whether octets convert (the encoder is flushed then) and how many of them it inspects for that,
what octets become that are written, and `marc_iconv_reset`. -/
structure Conversion (C : Type) where
  converts : C → List UInt8 → Bool × C
  inspected : C → List UInt8 → Nat
  write : C → List UInt8 → List UInt8 × C
  reset : C → List UInt8 × C
  /-- `inbytesleft`. -/
  given : ∀ cd octets, inspected cd octets ≤ octets.length

section
variable {D E : Type} (decoder : Decoder D) (encoder : Encoder E)

/-- `wrbuf_iconv_write2`. -/
def iconvWrite : (rounds : Nat) → Cd D E → List UInt8 → List UInt8 × Cd D E
  | 0, cd, _ => ([], cd)
  | rounds + 1, cd, inp =>
    if inp = [] then ([], cd)
    else
      let call := yazIconv decoder encoder cd (some inp) (some 128)
      if call.r = none ∧ call.cd.myErrno ≠ .e2big then ([], call.cd)
      else
        let later := iconvWrite rounds call.cd call.inbuf
        (call.out ++ later.1, later.2)

/-- The descriptors of `siconv.c`. A call with room for 128 octets takes an octet or writes a code that was kept. Where a decoder stops
to inspect is not seen in what it reads. -/
def iconvConversion (inspected : Cd D E → List UInt8 → Nat) : Conversion (Cd D E) where
  converts := fun cd inp =>
    let call := yazIconv decoder encoder cd (some inp) (some 12)
    (call.r.isSome, (yazIconv decoder encoder call.cd none (some (12 - call.out.length))).cd)
  inspected := fun cd inp => min (inspected cd inp) inp.length
  write := fun cd inp => iconvWrite decoder encoder (2 * inp.length + 1) cd inp
  reset := fun cd =>
    let call := yazIconv decoder encoder cd none (some 16)
    (if call.r.isSome then call.out else [], call.cd)
  given := fun _ _ => Nat.min_le_right _ _

end

/-- How many octets `yaz_read_UTF8_char` looks at behind a first octet, of four that it is given. -/
def utf8Following (c : UInt8) : Nat :=
  if c ≤ 0xbf then 0
  else if c ≤ 0xdf then 1
  else if c ≤ 0xef then 2
  else if c ≤ 0xf7 then 3
  else 0

def lookedFollowing : Nat → List UInt8 → Nat
  | 0, _ => 0
  | _ + 1, [] => 1
  | n + 1, c :: rest => 1 + if c.toNat / 64 = 2 then lookedFollowing n rest else 0

/-- How many octets `yaz_read_UTF8_char` looks at. -/
def utf8Looked : List UInt8 → Nat
  | [] => 1
  | c :: rest => 1 + lookedFollowing (utf8Following c) rest

section
variable {C : Type} (conversion : Conversion C)

/-- The first number of octets from `i` on that convert, how many were inspected at most, and the descriptor. -/
def guessCharacter : (rounds i : Nat) → C → List UInt8 → Option Nat × Nat × C
  | 0, _, cd, _ => (none, 0, cd)
  | rounds + 1, i, cd, buf =>
    let (good, behind) := conversion.converts cd (buf.take i)
    let inspected := conversion.inspected cd (buf.take i)
    if good then (some i, inspected, behind)
    else
      let (size, later, cd) := guessCharacter rounds (i + 1) behind buf
      (size, max inspected later, cd)

/-- `cdata_one_character`: the size, how many octets it looks at, and the descriptor. -/
def oneCharacter (cd : Option C) (buf : List UInt8) : Nat × Nat × Option C :=
  match cd with
  | none => (cdataOneCharacter buf, utf8Looked buf, none)
  | some cd =>
    let (size, looked, cd) := guessCharacter conversion 4 1 cd buf
    (size.getD 1, looked, some cd)

def Conversion.sizeofChar (cd : Option C) (buf : List UInt8) : Nat × Option C :=
  let char := oneCharacter conversion cd buf
  (char.1, char.2.2)

/-- `get_subfield_len`. -/
def subfieldLen (cd : Option C) (data : List UInt8) (identifierLength : Nat) : Nat × Nat × Option C :=
  if 2 < identifierLength then (identifierLength - 1, 0, cd) else oneCharacter conversion cd data

/-! ### What a writer does -/

/-- A call of `get_subfield_len`, a call of `cdata_one_character` for an indicator, a look at a string up to an octet. -/
inductive Event (C : Type) where
  | code (cd : Option C) (identifierLength : Nat) (data : Stored)
  | indicator (cd : Option C) (indicator : Stored) (off : Nat)
  | look (string : Stored) (upTo : Nat)

def Tour (C : Type) : Type := Option C → List (Event C) × Option C

def Tour.andThen (first second : Tour C) : Tour C := fun cd =>
  let (events, cd) := first cd
  let (later, cd) := second cd
  (events ++ later, cd)

def Tour.skip : Tour C := fun cd => ([], cd)

def Tour.all : List (Tour C) → Tour C
  | [] => Tour.skip
  | first :: rest => first.andThen (Tour.all rest)

def look (string : Stored) (upTo : Nat) : Tour C := fun cd => ([.look string upTo], cd)

/-- `wrbuf_iconv_write`. -/
def convert (octets : List UInt8) : Tour C := fun cd => ([], cd.map fun cd => (conversion.write cd octets).2)

/-- `marc_iconv_reset`. -/
def reset : Tour C := fun cd => ([], cd.map fun cd => (conversion.reset cd).2)

def puts (string : Stored) : Tour C := look string (string.length + 1)

/-- `wrbuf_iconv_puts`. -/
def iconvPuts (string : Stored) : Tour C := (puts string).andThen (convert conversion (cString string.octets))

/-- The octets of a string from `off` on. -/
def iconvWriteAt (string : Stored) (off len : Nat) : Tour C :=
  (look string (off + len)).andThen (convert conversion ((string.memory.drop off).take len))

/-- The rest of a string from `off` on. -/
def iconvPutsAt (string : Stored) (off : Nat) : Tour C :=
  let rest := cString (string.memory.drop off)
  (look string (off + rest.length + 1)).andThen (convert conversion rest)

def withCode (identifierLength : Nat) (data : Stored) (next : Nat → Tour C) : Tour C := fun cd =>
  let (len, _, behind) := subfieldLen conversion cd data.memory identifierLength
  let (events, behind) := next len behind
  (.code cd identifierLength data :: events, behind)

/-- `for (i = 0; indicator[off]; i++)`: what is done with each character. -/
def indicatorsFrom (indicator : Stored) (each : (off ilen : Nat) → Tour C) : (rounds off : Nat) → Tour C
  | 0, _ => Tour.skip
  | rounds + 1, off =>
    (look indicator (off + 1)).andThen fun cd =>
      if indicator.memory.getD off 0 = 0 then ([], cd)
      else
        let (ilen, _, behind) := oneCharacter conversion cd (indicator.memory.drop off)
        let (events, behind) := ((each off ilen).andThen (indicatorsFrom indicator each rounds (off + ilen))) behind
        (.indicator cd indicator off :: events, behind)

def indicators (indicator : Stored) (each : (off ilen : Nat) → Tour C) : Tour C :=
  indicatorsFrom conversion indicator each indicator.memory.length 0

/-! ### The writers -/

variable (beyond : List UInt8 → List UInt8)

def stored (octets : List UInt8) : Stored := { octets, behind := beyond octets }

/-- `%3.3s` and `strncpy` of three octets. -/
def lookTag (tag : List UInt8) : Tour C := look (stored beyond tag) (min 3 ((stored beyond tag).length + 1))

/-- A node in `yaz_marc_write_line`. -/
def lineNode (identifierLength : Nat) : Node → Tour C
  | .datafield tag indicator subfields =>
    Tour.all ([puts (stored beyond tag), puts (stored beyond indicator)] ++ subfields.map fun s =>
      withCode conversion identifierLength (stored beyond s) fun len =>
        Tour.all [iconvWriteAt conversion (stored beyond s) 0 len, convert conversion [32], iconvPutsAt conversion (stored beyond s) len,
          reset conversion])
  | .controlfield tag data =>
    Tour.all [puts (stored beyond tag), convert conversion [32], iconvPuts conversion (stored beyond data), reset conversion]
  | .comment comment => Tour.all [iconvPuts conversion (stored beyond comment), reset conversion]
  | .leader leader => puts (stored beyond leader)

/-- `element_name_append_attribute_value`; the octets are looked at twice. -/
def appendAttributeValue (named : Bool) (data : Stored) (codeLen : Nat) : Tour C :=
  let plain := (data.memory.take codeLen).all fun c => isDigit c || isLower c || isUpper c
  (look data codeLen).andThen (if plain || named then iconvWriteAt conversion data 0 codeLen else Tour.skip)

/-- A node in `yaz_marc_write_marcxml_wrbuf`. -/
def wrbufNode (turbo : Bool) (identifierLength : Nat) : Node → Tour C
  | .datafield tag indicator subfields =>
    Tour.all ([iconvPuts conversion (stored beyond tag),
      indicators conversion (stored beyond indicator) fun off ilen =>
        Tour.all [iconvWriteAt conversion (stored beyond indicator) off ilen, convert conversion [34]]] ++
      (subfields.map fun s => withCode conversion identifierLength (stored beyond s) fun len =>
        Tour.all [
          if turbo then appendAttributeValue conversion true (stored beyond s) len
          else (iconvWriteAt conversion (stored beyond s) 0 len).andThen (convert conversion [34, 62]),
          iconvPutsAt conversion (stored beyond s) len, reset conversion,
          if turbo then appendAttributeValue conversion false (stored beyond s) len else Tour.skip]) ++
      [if turbo then iconvPuts conversion (stored beyond tag) else Tour.skip])
  | .controlfield tag data =>
    Tour.all [iconvPuts conversion (stored beyond tag), convert conversion (if turbo then [62] else [34, 62]),
      iconvPuts conversion (stored beyond data), reset conversion, if turbo then iconvPuts conversion (stored beyond tag) else Tour.skip]
  | .comment comment => puts (stored beyond comment)
  | .leader leader => puts (stored beyond leader)

/-- `write_xml_indicator`. -/
def xmlIndicators (indicator : Stored) : Tour C :=
  indicators conversion indicator fun off ilen => if ilen < 9 then look indicator (off + ilen) else Tour.skip

/-- A node in `yaz_marc_write_xml` and `yaz_marc_write_xml_turbo_xml`. -/
def xmlNode (turbo : Bool) (identifierLength : Nat) : Node → Tour C
  | .datafield tag indicator subfields =>
    Tour.all ([if turbo then lookTag beyond tag else puts (stored beyond tag), xmlIndicators conversion (stored beyond indicator)] ++
      subfields.map fun s => withCode conversion identifierLength (stored beyond s) fun len =>
        let plain := ((stored beyond s).memory.take len).all fun c => isDigit c || isLower c || isUpper c
        Tour.all [iconvPutsAt conversion (stored beyond s) len, reset conversion,
          if turbo then appendAttributeValue conversion false (stored beyond s) len else Tour.skip,
          if turbo && plain then Tour.skip else iconvWriteAt conversion (stored beyond s) 0 len])
  | .controlfield tag data =>
    Tour.all [iconvPuts conversion (stored beyond data), reset conversion,
      if turbo then lookTag beyond tag else puts (stored beyond tag)]
  | .comment comment => puts (stored beyond comment)
  | .leader leader => puts (stored beyond leader)

/-- A node in `yaz_marc_write_json`. -/
def jsonNode (identifierLength : Nat) : Node → Tour C
  | .datafield tag indicator subfields =>
    Tour.all ([puts (stored beyond tag)] ++
      (subfields.map fun s => withCode conversion identifierLength (stored beyond s) fun len =>
        Tour.all [iconvWriteAt conversion (stored beyond s) 0 len, iconvPutsAt conversion (stored beyond s) len]) ++
      [indicators conversion (stored beyond indicator) fun off ilen => look (stored beyond indicator) (off + ilen)])
  | .controlfield tag data => Tour.all [iconvPuts conversion (stored beyond tag), iconvPuts conversion (stored beyond data)]
  | .comment _ => Tour.skip
  | .leader _ => Tour.skip

/-- A node in `yaz_marc_write_check`. -/
def checkNode : Node → Tour C
  | .comment comment => iconvPuts conversion (stored beyond comment)
  | _ => Tour.skip

/-- What the first pass of `yaz_marc_write_iso2709` converts of a node; `none` is `marc_iconv_reset`. -/
def iso2709Pieces : Node → List (Option (List UInt8))
  | .datafield _ _ subfields => (subfields.flatMap fun s => [some [32], some (cString s), none]) ++ [some [32], none]
  | .controlfield _ data => [some (cString data), none, some [32], none]
  | _ => []

def piecesLength : Option C → List (Option (List UInt8)) → Nat × Option C
  | cd, [] => (0, cd)
  | none, piece :: pieces =>
    let (length, cd) := piecesLength none pieces
    ((piece.getD []).length + length, cd)
  | some cd, piece :: pieces =>
    let (out, cd) := match piece with
      | some octets => conversion.write cd octets
      | none => conversion.reset cd
    let (length, cd) := piecesLength (some cd) pieces
    (out.length + length, cd)

def iso2709Strings : Node → List (List UInt8)
  | .datafield _ indicator subfields => indicator :: subfields
  | .controlfield _ data => [data]
  | _ => []

def iso2709First (lengthDataEntry lengthStarting : Nat) :
    List Node → (dir dataOffset : Nat) → Option C → List (Event C) × Option C × Nat
  | [], _, _, cd => ([], cd, 0)
  | n :: nodes, dir, dataOffset, cd =>
    let looks : List (Event C) := (iso2709Strings n).map fun s => .look (stored beyond s) ((stored beyond s).length + 1)
    let (length, cd) := piecesLength conversion cd (iso2709Pieces n)
    let tag := match n with
      | .datafield tag indicator _ => some (tag, (cString indicator).length + length)
      | .controlfield tag _ => some (tag, length)
      | _ => none
    match tag with
    | none => let (events, cd, kept) := iso2709First lengthDataEntry lengthStarting nodes dir dataOffset cd; (events, cd, kept + 1)
    | some (tag, dataLength) =>
      if dataLength = 0 then
        let (events, cd, kept) := iso2709First lengthDataEntry lengthStarting nodes dir dataOffset cd
        (looks ++ events, cd, kept + 1)
      else if 99999 < dir + 40 + dataOffset + dataLength then (looks, cd, 0)
      else
        let entry := 3 + (padded lengthDataEntry dataLength).length + (padded lengthStarting dataOffset).length
        let (events, cd, kept) := iso2709First lengthDataEntry lengthStarting nodes (dir + entry) (dataOffset + dataLength) cd
        (looks ++ .look (stored beyond tag) (min 3 ((stored beyond tag).length + 1)) :: events, cd, kept + 1)

def iso2709SecondNode (n : Node) : Tour C :=
  Tour.all ((iso2709Strings n).map fun s => Tour.all [iconvPuts conversion (stored beyond s), reset conversion])

/-- `YAZ_MARC_LINE` and so on. -/
inductive OutputFormat where
  | line
  | marcxml
  | turbomarc
  | xchange
  | iso2709
  | check
  | json
  deriving DecidableEq

def firstLeader (nodes : List Node) : Option (List UInt8) :=
  nodes.findSome? fun n => match n with | .leader leader => some leader | _ => none

def leaderDigit (leader : Option (List UInt8)) (offset : Nat) : Option Nat :=
  leader.bind fun leader => atoiNCheck ((leader.drop offset).take 1)

/-- `yaz_marc_write_iso2709`. -/
def iso2709Tour (nodes : List Node) : Tour C := fun cd =>
  match leaderDigit (lastLeader nodes) 10, leaderDigit (lastLeader nodes) 11, leaderDigit (lastLeader nodes) 20,
    leaderDigit (lastLeader nodes) 21, leaderDigit (lastLeader nodes) 22 with
  | some _, some _, some lengthDataEntry, some lengthStarting, some _ =>
    let (events, cd, kept) := iso2709First conversion beyond lengthDataEntry lengthStarting nodes 0 0 cd
    let (later, cd) := Tour.all ((nodes.take kept).map (iso2709SecondNode conversion beyond)) cd
    (events ++ later, cd)
  | _, _, _, _, _ => ([], cd)

def withIdentifierLength (leader : Option (List UInt8)) (tour : Nat → Tour C) : Tour C :=
  match leaderDigit leader 11 with
  | some identifierLength => tour identifierLength
  | none => Tour.skip

/-- `yaz_marc_write_marcxml_ns`. -/
def marcxmlTour (usingLibxml2 turbo : Bool) (nodes : List Node) : Tour C :=
  withIdentifierLength (firstLeader nodes) fun identifierLength =>
    Tour.all (nodes.map (if usingLibxml2 then xmlNode conversion beyond turbo identifierLength
      else wrbufNode conversion beyond turbo identifierLength))

/-- `yaz_marc_write_mode`. -/
def writeMode (format : OutputFormat) (usingLibxml2 : Bool) (nodes : List Node) : Tour C :=
  match format with
  | .line => withIdentifierLength (firstLeader nodes) fun identifierLength =>
      Tour.all (nodes.map (lineNode conversion beyond identifierLength))
  | .marcxml => marcxmlTour conversion beyond usingLibxml2 false (modifyLeader 9 [97] nodes)
  | .turbomarc => marcxmlTour conversion beyond usingLibxml2 true (modifyLeader 9 [97] nodes)
  | .xchange => marcxmlTour conversion beyond usingLibxml2 false nodes
  | .iso2709 => iso2709Tour conversion beyond nodes
  | .check => withIdentifierLength (firstLeader nodes) fun _ => Tour.all (nodes.map (checkNode conversion beyond))
  | .json => withIdentifierLength (lastLeader nodes) fun identifierLength =>
      Tour.all (nodes.map (jsonNode conversion beyond identifierLength))

end

end Yaz.Marc
