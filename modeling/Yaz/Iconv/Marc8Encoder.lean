import Yaz.Iconv.Encoders

/-! The encoder for MARC-8, `iconv_encode_marc8.c`, in its four modes.

What is written is kept as a list of escape sequences and characters, so that a reader of the octets
can be compared with the writer; the octets are those that the source writes one by one.
-/

set_option autoImplicit false

namespace Yaz.Iconv

/-! ### Pages -/

/-- The escape sequences of the source: `ESC "(B"` and so on. -/
def escAscii : List UInt8 := [27, 40, 66]
def escSubscript : List UInt8 := [27, 98]
def escSuperscript : List UInt8 := [27, 112]
def escGreekSymbols : List UInt8 := [27, 103]
def escLeave : List UInt8 := [27, 115]
def escHebrew : List UInt8 := [27, 40, 50]
def escCyrillic : List UInt8 := [27, 40, 78]
def escExtendedCyrillic : List UInt8 := [27, 40, 81]
def escArabic : List UInt8 := [27, 40, 51]
def escExtendedArabic : List UInt8 := [27, 40, 52]
def escGreek : List UInt8 := [27, 40, 83]
def escEastAsian : List UInt8 := [27, 36, 49]

/-- A set of characters: the last octet of the sequence that a decoder knows it by, the generated
function for the way back, and the page that the encoder writes it on. -/
structure CharSet where
  final : UInt8
  conv : List UInt8 → Conv
  page : List UInt8

/-- The functions that are generated for the way back, `yaz_marc8r_42_conv` and so on. -/
structure Marc8rConv where
  conv42 : List UInt8 → Conv
  conv45 : List UInt8 → Conv
  conv62 : List UInt8 → Conv
  conv70 : List UInt8 → Conv
  conv32 : List UInt8 → Conv
  conv4E : List UInt8 → Conv
  conv51 : List UInt8 → Conv
  conv33 : List UInt8 → Conv
  conv34 : List UInt8 → Conv
  conv53 : List UInt8 → Conv
  conv31 : List UInt8 → Conv

/-- The sets in the order in which `lookup_marc8` tries them. -/
def Marc8rConv.sets (r : Marc8rConv) : List CharSet :=
  [⟨66, r.conv42, escAscii⟩, ⟨69, r.conv45, escAscii⟩, ⟨98, r.conv62, escSubscript⟩, ⟨112, r.conv70, escSuperscript⟩,
   ⟨50, r.conv32, escHebrew⟩, ⟨78, r.conv4E, escCyrillic⟩, ⟨81, r.conv51, escExtendedCyrillic⟩, ⟨51, r.conv33, escArabic⟩,
   ⟨52, r.conv34, escExtendedArabic⟩, ⟨83, r.conv53, escGreek⟩, ⟨49, r.conv31, escEastAsian⟩]

/-- What was found for a code: the character, if it is a combining one, and its set. -/
structure Found where
  y : Nat
  comb : Bool
  set : CharSet

def utf8Text (x : Nat) : List UInt8 := ((yazWriteUTF8Char x 6).getD []).takeWhile (· ≠ 0)

/-- `lookup_marc8`; there is always room for the UTF-8 of a code. -/
def Marc8rConv.lookupMarc8 (r : Marc8rConv) (x : Nat) : Option Found :=
  r.sets.findSome? fun set =>
    let conv := set.conv (utf8Text x)
    if conv.x ≠ 0 then some { y := conv.x, comb := conv.comb, set := set } else none

/-! ### What is written -/

inductive Item where
  | escape (page : List UInt8)
  | looked (x : Nat) (final : UInt8) (comb : Bool) (octets : List UInt8)
  | plain (c : UInt8)
  deriving DecidableEq

def Item.octets : Item → List UInt8
  | .escape page => page
  | .looked _ _ _ octets => octets
  | .plain c => [c]

def Item.isChar : Item → Bool
  | .escape _ => false
  | .looked .. | .plain _ => true

/-- `struct encoder_data`. `origin` is the code and the set of `last`, where it was looked up; the source does not keep it. -/
structure Marc8Encoder where
  secondHalfChar : UInt8
  last : Nat
  ncr : Bool
  lpage : Option (List UInt8)
  g0 : Option (List UInt8)
  g1 : Option (List UInt8)
  origin : Option (Nat × UInt8)
  deriving DecidableEq

structure Put where
  items : List Item
  data : Marc8Encoder
  failed : Bool := false
  errno : Option Errno := none
  deriving DecidableEq

def Put.out (put : Put) : List UInt8 := put.items.flatMap Item.octets

def Put.written (put : Put) : Written Marc8Encoder :=
  { out := put.out, data := put.data, failed := put.failed, errno := put.errno }

/-- What is done behind a part that did not fail; `outbytesleft` is what that part had. -/
def Put.andThen (put : Put) (outbytesleft : Nat) (next : Marc8Encoder → Nat → Put) : Put :=
  if put.failed then put
  else
    let later := next put.data (outbytesleft - put.out.length)
    { later with items := put.items ++ later.items, errno := later.errno.or put.errno }

def Marc8Encoder.refuse (w : Marc8Encoder) : Put := { items := [], data := w, failed := true, errno := some .e2big }

def yazWriteMarc8PageChr (page : List UInt8) (w : Marc8Encoder) (outbytesleft : Nat) : Put :=
  -- no page of `lookup_marc8` is for G1
  let toG1 := page[1]? = some 41
  let old := if toG1 then w.g1 else w.g0
  if old = some page then { items := [], data := w }
  else if outbytesleft < 8 then w.refuse
  else
    let data := if toG1 then { w with g1 := some page } else { w with g0 := some page }
    if old = some escSuperscript ∨ old = some escGreekSymbols ∨ old = some escSubscript then
      if page = escAscii then { items := [.escape escLeave], data := data }
      else { items := [.escape escLeave, .escape escAscii], data := data }
    else { items := [.escape page], data := data }

def marcOctets (y : Nat) : List UInt8 := [UInt8.ofNat (y / 65536), UInt8.ofNat (y / 256), UInt8.ofNat y].filter (· ≠ 0)

/-- A digit of `%x`. -/
def lowerHexDigit (n : Nat) : UInt8 := if n < 10 then UInt8.ofNat (48 + n) else UInt8.ofNat (87 + n)

/-- `&#x%04x;` in a buffer for eight octets; the code has 32 bits there. -/
def ncrOctets (y : Nat) : List UInt8 :=
  let digits := [7, 6, 5, 4, 3, 2, 1, 0].map fun k => lowerHexDigit (y / 16 ^ k % 16)
  ([38, 35, 120] ++ ((digits.take 4).dropWhile (· = 48) ++ digits.drop 4) ++ [59]).take 8

def Marc8Encoder.letter (w : Marc8Encoder) : List Item :=
  if w.ncr then (ncrOctets w.last).map .plain
  else
    match w.origin with
    | some (x, final) => [.looked x final false (marcOctets w.last)]
    | none => (marcOctets w.last).map .plain

/-- `flush_combos` behind the page of the letter. -/
def putLetter (w : Marc8Encoder) (outbytesleft : Nat) : Put :=
  if outbytesleft ≤ 9 then w.refuse
  else
    { items := w.letter ++ if w.secondHalfChar = 0 then [] else [.plain w.secondHalfChar]
      data := { w with last := 0, ncr := false, lpage := none, secondHalfChar := 0, origin := none } }

def flushCombos (w : Marc8Encoder) (outbytesleft : Nat) : Put :=
  if w.last = 0 then { items := [], data := w }
  else
    match w.lpage with
    | none => putLetter w outbytesleft
    | some page => (yazWriteMarc8PageChr page w outbytesleft).andThen outbytesleft putLetter

/-- The mode of `yaz_write_marc8_generic`, 0 to 3. -/
inductive LossMode where
  | normal
  | lossy
  | lossless
  | control
  deriving DecidableEq

def putMark (x : Nat) (found : Found) (w : Marc8Encoder) (outbytesleft : Nat) : Put :=
  let w := if x = 0x361 then { w with secondHalfChar := 0xec } else if x = 0x360 then { w with secondHalfChar := 0xfb } else w
  if outbytesleft ≤ 1 then w.refuse else { items := [.looked x found.set.final true [UInt8.ofNat found.y]], data := w }

def keepLetter (y : Nat) (page : List UInt8) (ncr : Bool) (origin : Option (Nat × UInt8)) (w : Marc8Encoder) (outbytesleft : Nat) : Put :=
  (flushCombos w outbytesleft).andThen outbytesleft fun w _ =>
    { items := [], data := { w with last := y, lpage := some page, ncr := ncr, origin := origin } }

section
variable (r : Marc8rConv) (lossMode : LossMode)

def LossMode.standIn (x : Nat) : LossMode → Option (Nat × Bool)
  | .normal => none
  | .lossy => some (124, false)
  | .lossless => some (x, true)
  | .control => if x < 32 ∧ x ≠ 27 then some (x, false) else none

def yazWriteMarc82 (w : Marc8Encoder) (x outbytesleft : Nat) : Put :=
  match r.lookupMarc8 x with
  | some found =>
    if found.comb then (yazWriteMarc8PageChr found.set.page w outbytesleft).andThen outbytesleft (putMark x found)
    else keepLetter found.y found.set.page false (some (x, found.set.final)) w outbytesleft
  | none =>
    match lossMode.standIn x with
    | none => { items := [], data := w, failed := true, errno := some .eilseq }
    | some (y, ncr) =>
      let put := keepLetter y escAscii ncr none w outbytesleft
      { put with errno := put.errno.or (some .eilseq) }

/-- An `unsigned long` that was kept in an `int`. -/
def keptInt (y : Nat) : Nat := if y % 2 ^ 32 < 2 ^ 31 then y % 2 ^ 32 else y % 2 ^ 32 + (2 ^ 64 - 2 ^ 32)

def Put.takenBack (put : Put) (w : Marc8Encoder) : Put :=
  { put with items := [], data := { put.data with last := keptInt w.last, ncr := w.ncr, lpage := w.lpage, origin := w.origin } }

/-- `yaz_write_marc8_generic`: a letter with a mark is written as two codes. -/
def yazWriteMarc8Generic (w : Marc8Encoder) (x outbytesleft : Nat) : Put :=
  match yazIso88591LookupY x with
  | none => yazWriteMarc82 r lossMode w x outbytesleft
  | some (x1, x2) =>
    let first := yazWriteMarc82 r lossMode w x1 outbytesleft
    if first.failed then first
    else
      let second := yazWriteMarc82 r lossMode first.data x2 (outbytesleft - first.out.length)
      if second.failed ∧ second.errno = some .e2big then second.takenBack w
      else { second with items := first.items ++ second.items, errno := second.errno.or first.errno }

def flushMarc8 (w : Marc8Encoder) (outbytesleft : Nat) : Put :=
  (flushCombos w outbytesleft).andThen outbytesleft fun w outbytesleft =>
    yazWriteMarc8PageChr escAscii { w with g1 := none } outbytesleft

/-- `init_marc8` of the encoder. -/
def initMarc8Encoder : Marc8Encoder :=
  { secondHalfChar := 0, last := 0, ncr := false, lpage := none, g0 := some escAscii, g1 := none, origin := none }

/-- The encoder that `yaz_marc8_encoder` finds: `MARC8` and `MARC8s`, `MARC8lossy`, `MARC8lossless`, `MARC8c`. -/
def marc8Encoder : Encoder Marc8Encoder :=
  { initHandle := fun _ => initMarc8Encoder
    writeHandle := fun w x outbytesleft => (yazWriteMarc8Generic r lossMode w x outbytesleft).written
    flushHandle := some fun w outbytesleft => (flushMarc8 w outbytesleft).written }

end

end Yaz.Iconv
