import Yaz.Json.Value

/-! The parser of `pquery.c` for the Prefix Query Format.

A text is the list of its octets before the NUL. A pointer into it is the list of what is
left there: `lexBuf` goes on behind the token, whose length is `lexLen`. Attribute sets are
found by `attset`, the table of object identifiers.
-/

set_option autoImplicit false

namespace Yaz.Pqf
open Yaz.Ber Yaz.Comstack Yaz.Json

inductive Term where
  | general (octets : List UInt8)
  | numeric (value : Int64)
  | characterString (octets : List UInt8)
  | null
  deriving DecidableEq

inductive StringOrNumeric where
  | string (octets : List UInt8)
  | numeric (value : Int64)
  deriving DecidableEq

inductive AttributeValue where
  | numeric (value : Int64)
  | complex (list : List StringOrNumeric)
  deriving DecidableEq

/-- `Z_AttributeElement`. -/
structure AttributeElement (Oid : Type) where
  attributeSet : Option Oid
  attributeType : Int64
  value : AttributeValue
  deriving DecidableEq

/-- `Z_AttributesPlusTerm`; a scan may come without a list of attributes. -/
structure AttributesPlusTerm (Oid : Type) where
  attributes : Option (List (AttributeElement Oid))
  term : Term
  deriving DecidableEq

inductive ProximityUnit where
  | known
  | zprivate
  deriving DecidableEq

/-- `Z_ProximityOperator`. -/
structure Proximity where
  exclusion : Option Int32
  distance : Int64
  ordered : Int32
  relationType : Int64
  which : ProximityUnit
  unit : Int64
  deriving DecidableEq

inductive Operator where
  | and
  | or
  | andNot
  | prox (proximity : Proximity)
  deriving DecidableEq

/-- `Z_RPNStructure`. -/
inductive Rpn (Oid : Type) where
  | apt (operand : AttributesPlusTerm Oid)
  | resultSet (name : List UInt8)
  | complex (op : Operator) (s1 s2 : Rpn Oid)
  deriving DecidableEq

structure RpnQuery (Oid : Type) where
  attributeSetId : Option Oid
  rpnStructure : Rpn Oid
  deriving DecidableEq

/-! ### Tokens -/

/-- What `query_token` returns; `attr` is also an `@` with a digit behind it. -/
inductive Look where
  | ends
  | and
  | or
  | not
  | attr
  | set
  | attrset
  | prox
  | termType
  | text
  deriving DecidableEq

/-- `term_type`, as far as `@term` can set it. -/
inductive TermType where
  | general
  | numeric
  | characterString
  | oid
  | dateTime
  | null
  deriving DecidableEq

/-- The codes of `yaz_pqf_error`. -/
inductive PqfError where
  | none
  | extra
  | missing
  | attset
  | tooMany
  | badAttr
  | internal
  | proximity
  | badInteger
  deriving DecidableEq

/-- `struct yaz_pqf_parser`, with the separators and the escape character of `yaz_pqf_create`. -/
structure Parser where
  queryPtr : List UInt8
  lexBuf : List UInt8
  lexLen : Nat
  queryLook : Look
  termType : TermType
  error : PqfError
  deriving DecidableEq

def Parser.fail (li : Parser) (error : PqfError) : Parser := { li with error := error }

/-- `compare_term`, which leaves the last `off` characters of `src` out. -/
def compareTerm (li : Parser) (src : List UInt8) (off : Nat) : Bool :=
  li.lexLen = src.length + off && (li.lexBuf.drop off).take (src.length - off) = src.take (src.length - off)

def tokenLength (sepChar : UInt8) : List UInt8 → Nat
  | [] => 0
  | [c] => if c = sepChar then 0 else 1
  | c :: d :: rest =>
    if c = sepChar then 0
    else if c = 92 then tokenLength sepChar rest + 2
    else tokenLength sepChar (d :: rest) + 1

def openSep : List UInt8 → UInt8 × List UInt8
  | 123 :: rest => (125, rest)
  | 34 :: rest => (34, rest)
  | mem => (32, mem)

def keyword (li : Parser) : Look :=
  if compareTerm li (ascii "and") 1 then .and
  else if compareTerm li (ascii "or") 1 then .or
  else if compareTerm li (ascii "not") 1 then .not
  else if compareTerm li (ascii "attr") 1 then .attr
  else if compareTerm li (ascii "set") 1 then .set
  else if compareTerm li (ascii "attrset") 1 then .attrset
  else if compareTerm li (ascii "prox") 1 then .prox
  else if compareTerm li (ascii "term") 1 then .termType
  else .text

/-- `query_token`. At the end of the text the token before stays in `lexBuf`. -/
def queryToken (li : Parser) : Look × Parser :=
  let mem := li.queryPtr.dropWhile (· = 32)
  if mem = [] then (.ends, { li with queryPtr := [] })
  else
    let (sepChar, buf) := openSep mem
    if buf.head? = some 64 ∧ (buf.drop 1).head?.any isDigit then
      (.attr, { li with lexBuf := buf, lexLen := 1, queryPtr := buf.drop 1 })
    else
      let len := tokenLength sepChar buf
      let li := { li with lexBuf := buf, lexLen := len, queryPtr := buf.drop (len + 1) }
      if sepChar = 32 ∧ 1 ≤ len ∧ buf.head? = some 64 then (keyword li, li) else (.text, li)

def lex (li : Parser) : Parser :=
  let (look, li) := queryToken li
  { li with queryLook := look }

def Parser.lexeme (li : Parser) : List UInt8 := li.lexBuf.take li.lexLen

/-- Digits to `base`: the value, from one that is there already. -/
def digitsValue (base : Nat) : List UInt8 → Nat → Nat
  | [], value => value
  | c :: rest, value =>
    match digitValue c with
    | some digit => if digit < base then digitsValue base rest (value * base + digit) else value
    | none => value

/-- `sscanf` with `%x` or `%o` for a number that is 0 when there is none. -/
def scanInt (base : Nat) (mem : List UInt8) : Int :=
  let mem := mem.dropWhile isSpace
  let magnitude (mem : List UInt8) : Int :=
    if base = 16 ∧ mem.head? = some 48 ∧ ((mem.drop 1).head? = some 120 ∨ (mem.drop 1).head? = some 88) then
      digitsValue base (mem.drop 2) 0
    else digitsValue base mem 0
  if mem.head? = some 43 then magnitude (mem.drop 1)
  else if mem.head? = some 45 then - magnitude (mem.drop 1)
  else magnitude mem

/-- `odr_atoi`: `strtoll`, which stays inside of 64 bits. -/
def odrAtoi (mem : List UInt8) : Int64 := Int64.ofInt (max (-2 ^ 63) (min (2 ^ 63 - 1) (scanInt 10 mem)))

def octetOf (n : Int) : UInt8 := UInt8.ofNat (n % 256).toNat

def escapeString : List UInt8 → List UInt8
  | [] => []
  | [c] => [c]
  | 92 :: 116 :: rest => 9 :: escapeString rest
  | 92 :: 110 :: rest => 10 :: escapeString rest
  | 92 :: 114 :: rest => 13 :: escapeString rest
  | 92 :: 102 :: rest => 12 :: escapeString rest
  | 92 :: 120 :: a :: b :: rest => octetOf (scanInt 16 [a, b]) :: escapeString rest
  | 92 :: c :: rest =>
    if c = 120 then escapeString rest
    else if 48 ≤ c.toNat ∧ c.toNat ≤ 51 then
      match rest with
      | a :: b :: rest => octetOf (scanInt 8 [c, a, b]) :: escapeString rest
      | rest => escapeString rest
    else c :: escapeString rest
  | c :: rest => c :: escapeString rest

def cString (octets : List UInt8) : List UInt8 := octets.takeWhile (· ≠ 0)

def zTermCreate (termType : TermType) (octets : List UInt8) : Term :=
  match termType with
  | .general => .general octets
  | .characterString => .characterString (cString octets)
  | .numeric => .numeric (odrAtoi octets)
  | .null | .oid | .dateTime => .null

section
variable {Oid : Type} (attset : List UInt8 → Option Oid)

/-- An entry of `attr_list`, `attr_clist` and `attr_set`. -/
structure Attr (Oid : Type) where
  type : Int64
  value : Int64
  text : Option (List UInt8)
  set : Option Oid

def queryOidGetvalbyname (li : Parser) : Option Oid := if 31 ≤ li.lexLen then none else attset li.lexeme

/-- The octets before `=`, and those behind it, to the end of the text. -/
def splitEquals (mem : List UInt8) : Option (Nat × List UInt8) :=
  if 61 ∈ mem then some ((mem.takeWhile (· ≠ 61)).length, (mem.dropWhile (· ≠ 61)).drop 1) else none

/-- `p_query_parse_attr` behind the attribute set: `at` is where `=` stands and `value` what follows it. -/
def parseTypeValue (li : Parser) (set : Option Oid) (at' : Nat) (value : List UInt8) : Option (Attr Oid) × Parser :=
  if ¬ li.lexBuf.head?.any isDigit then (none, li.fail .badInteger)
  else
    let type := odrAtoi li.lexBuf
    let inside := value.take (li.lexLen - (at' + 1))
    if inside.all isDigit then (some { type := type, value := odrAtoi value, text := none, set := set }, li)
    else (some { type := type, value := 0, text := some (cString (escapeString inside)), set := set }, li)

def pQueryParseAttr (li : Parser) (attrs : List (Attr Oid)) : Option (Attr Oid) × Parser :=
  match splitEquals li.lexBuf with
  | some (at', value) =>
    if at' > li.lexLen then named li else parseTypeValue li ((attrs.getLast?).bind (·.set)) at' value
  | none => named li
where
  /-- The attribute set stands before the type. -/
  named (li : Parser) : Option (Attr Oid) × Parser :=
    match queryOidGetvalbyname attset li with
    | none => (none, li.fail .attset)
    | some set =>
      let li := lex li
      if li.queryLook = .ends then (none, li.fail .missing)
      else match splitEquals li.lexBuf with
        | none => (none, li.fail .badAttr)
        | some (at', value) => parseTypeValue li (some set) at' value

def Attr.element (attr : Attr Oid) : AttributeElement Oid :=
  { attributeSet := attr.set, attributeType := attr.type
    value := match attr.text with
      | some text => .complex [.string text]
      | none => .numeric attr.value }

/-- The loop of `get_attributeList`, from the last entry to the first: of each type the last is kept. -/
def lastOfType : List (Attr Oid) → List Int64 → List (AttributeElement Oid)
  | [], _ => []
  | attr :: rest, seen =>
    if attr.type ∈ seen then lastOfType rest seen else attr.element :: lastOfType rest (attr.type :: seen)

def getAttributeList (attrs : List (Attr Oid)) : List (AttributeElement Oid) := lastOfType attrs.reverse []

/-! ### Operands and operators -/

def rpnTermAttributes (li : Parser) (attributes : Option (List (AttributeElement Oid))) : AttributesPlusTerm Oid :=
  { attributes := attributes, term := zTermCreate li.termType (escapeString li.lexeme) }

def rpnSimple (li : Parser) (attrs : List (Attr Oid)) : Option (Rpn Oid) × Parser :=
  match li.queryLook with
  | .text => (some (.apt (rpnTermAttributes li (some (getAttributeList attrs)))), lex li)
  | .set =>
    let li := lex li
    if li.queryLook = .ends then (none, li.fail .missing)
    else (some (.resultSet li.lexeme), lex li)
  | _ => (none, li.fail .internal)

/-- A number of `rpn_proximity`. -/
def proxInteger (li : Parser) : Option Int64 × Parser :=
  let li := lex li
  if li.queryLook = .ends then (none, li.fail .missing)
  else if li.lexBuf.head?.any isDigit then (some (odrAtoi li.lexBuf), li)
  else (none, li.fail .badInteger)

def proxExclusion (li : Parser) : Option (Option Int32) × Parser :=
  let li := lex li
  if li.queryLook = .ends then (none, li.fail .missing)
  else if li.lexBuf.head? = some 49 then (some (some 1), li)
  else if li.lexBuf.head? = some 48 then (some (some 0), li)
  else if li.lexBuf.head? = some 118 ∨ li.lexBuf.head? = some 110 then (some none, li)
  else (none, li.fail .proximity)

def proxOrdered (li : Parser) : Option Int32 × Parser :=
  let li := lex li
  if li.queryLook = .ends then (none, li.fail .missing)
  else if li.lexBuf.head? = some 49 then (some 1, li)
  else if li.lexBuf.head? = some 48 then (some 0, li)
  else (none, li.fail .proximity)

/-- The unit is `known` or `private`, by its letter or by its number in the choice. -/
def proxWhich (li : Parser) : Option ProximityUnit × Parser :=
  let li := lex li
  if li.queryLook = .ends then (none, li.fail .missing)
  else if li.lexBuf.head? = some 107 then (some .known, li)
  else if li.lexBuf.head? = some 112 then (some .zprivate, li)
  else if wrapInt (odrAtoi li.lexBuf).toInt = 1 then (some .known, li)
  else if wrapInt (odrAtoi li.lexBuf).toInt = 2 then (some .zprivate, li)
  else (none, li.fail .proximity)

def rpnProximity (li : Parser) : Option Proximity × Parser :=
  match proxExclusion li with
  | (none, li) => (none, li)
  | (some exclusion, li) =>
  match proxInteger li with
  | (none, li) => (none, li)
  | (some distance, li) =>
  match proxOrdered li with
  | (none, li) => (none, li)
  | (some ordered, li) =>
  match proxInteger li with
  | (none, li) => (none, li)
  | (some relationType, li) =>
  match proxWhich li with
  | (none, li) => (none, li)
  | (some which, li) =>
  match proxInteger li with
  | (none, li) => (none, li)
  | (some unit, li) =>
    (some { exclusion := exclusion, distance := distance, ordered := ordered, relationType := relationType
            which := which, unit := unit }, li)

/-- The operator of `rpn_complex`. -/
def rpnOperator (li : Parser) : Option Operator × Parser :=
  match li.queryLook with
  | .and => (some .and, li)
  | .or => (some .or, li)
  | .not => (some .andNot, li)
  | .prox =>
    match rpnProximity li with
    | (none, li) => (none, li)
    | (some proximity, li) => (some (.prox proximity), li)
  | _ => (none, li.fail .internal)

def rpnTermType (li : Parser) : Parser :=
  if li.queryLook = .ends then li
  else lex { li with
    termType :=
      if compareTerm li (ascii "general") 0 then .general
      else if compareTerm li (ascii "numeric") 0 then .numeric
      else if compareTerm li (ascii "string") 0 then .characterString
      else if compareTerm li (ascii "oid") 0 then .oid
      else if compareTerm li (ascii "datetime") 0 then .dateTime
      else if compareTerm li (ascii "null") 0 then .null
      else li.termType }

def maxAttr : Nat := 512

/-- An attribute behind `@attr`. -/
def rpnAttr (li : Parser) (attrs : List (Attr Oid)) : Option (List (Attr Oid)) × Parser :=
  let li := lex li
  if li.queryLook = .ends then (none, li.fail .missing)
  else if attrs.length ≥ maxAttr then (none, li.fail .tooMany)
  else match pQueryParseAttr attset li attrs with
    | (none, li) => (none, li)
    | (some attr, li) => (some (attrs ++ [attr]), lex li)

/-- `rpn_complex`, whose operands are read by `operand`. -/
def rpnComplex (operand : Parser → Option (Rpn Oid) × Parser) (li : Parser) : Option (Rpn Oid) × Parser :=
  match rpnOperator li with
  | (none, li) => (none, li)
  | (some op, li) =>
  match operand (lex li) with
  | (none, li) => (none, li)
  | (some s1, li) =>
  match operand li with
  | (none, li) => (none, li)
  | (some s2, li) => (some (.complex op s1 s2), li)

/-- `rpn_structure`; every round reads a token, so there are fewer rounds than octets. -/
def rpnStructure : Nat → Parser → List (Attr Oid) → Option (Rpn Oid) × Parser
  | 0, li, _ => (none, li)
  | rounds + 1, li, attrs =>
    match li.queryLook with
    | .and | .or | .not | .prox => rpnComplex (fun li => rpnStructure rounds li attrs) li
    | .text | .set => rpnSimple li attrs
    | .attr =>
      match rpnAttr attset li attrs with
      | (none, li) => (none, li)
      | (some attrs, li) => rpnStructure rounds li attrs
    | .termType => rpnStructure rounds (rpnTermType (lex li)) attrs
    | .ends => (none, li.fail .missing)
    -- no case of the switch: what is returned has no contents, and the token that stays makes the query fail
    | .attrset => (some (.resultSet []), li)

variable (bib1 : Oid)

def topSet (li : Parser) : Option Oid × Parser :=
  let li := lex li
  if li.queryLook = .attrset then
    let li := lex li
    match queryOidGetvalbyname attset li with
    | none => (none, li.fail .attset)
    | some set => (some set, lex li)
  else (some bib1, li)

def pQueryRpnMk (li : Parser) : Option (RpnQuery Oid) × Parser :=
  let rounds := li.queryPtr.length + 1
  match topSet attset bib1 li with
  | (none, li) => (none, li)
  | (some set, li) =>
    match rpnStructure attset rounds li [] with
    | (none, li) => (none, li)
    | (some structure', li) =>
      if li.queryLook ≠ .ends then (none, li.fail .extra)
      else (some { attributeSetId := some set, rpnStructure := structure' }, li)

/-- The loop of `p_query_scan_attributes_mk`. -/
def scanAttributes : Nat → Parser → List (Attr Oid) → Option (List (Attr Oid)) × Parser
  | 0, li, attrs => (some attrs, li)
  | rounds + 1, li, attrs =>
    match li.queryLook with
    | .attr =>
      match rpnAttr attset li attrs with
      | (none, li) => (none, li)
      | (some attrs, li) => scanAttributes rounds li attrs
    | .termType => scanAttributes rounds (rpnTermType (lex li)) attrs
    | _ => (some attrs, li)

/-- `p_query_scan_attributes_mk`: the attribute set, when it is given back, and the attributes. -/
def pQueryScanAttributesMk (li : Parser) : Option Oid × Option (List (AttributeElement Oid)) × Parser :=
  let rounds := li.queryPtr.length + 1
  match topSet attset bib1 li with
  | (none, li) => (none, none, li)
  | (some set, li) =>
    match scanAttributes attset rounds li [] with
    | (none, li) => (some set, none, li)
    | (some attrs, li) => (some set, some (getAttributeList attrs), li)

/-- `p_query_scan_mk`. Behind attributes that failed it goes on. -/
def pQueryScanMk (li : Parser) : Option Oid × Option (AttributesPlusTerm Oid) × Parser :=
  let (set, attributes, li) := pQueryScanAttributesMk attset bib1 li
  if li.queryLook = .ends then (set, none, li.fail .missing)
  else
    let apt := rpnTermAttributes li attributes
    let li := lex li
    if li.queryLook ≠ .ends then (set, none, li.fail .extra) else (set, some apt, li)

/-- `yaz_pqf_create`; what it does not set is set by the first call. -/
def yazPqfCreate : Parser :=
  { queryPtr := [], lexBuf := [], lexLen := 0, queryLook := .ends, termType := .general, error := .none }

def pqfParserBegin (li : Parser) (buf : List UInt8) : Parser := { li with queryPtr := buf, lexBuf := [] }

def yazPqfParse (li : Parser) (qbuf : List UInt8) : Option (RpnQuery Oid) × Parser :=
  pQueryRpnMk attset bib1 (pqfParserBegin li qbuf)

def yazPqfScan (li : Parser) (qbuf : List UInt8) : Option Oid × Option (AttributesPlusTerm Oid) × Parser :=
  pQueryScanMk attset bib1 (pqfParserBegin li qbuf)

def yazPqfScanAttributeList (li : Parser) (qbuf : List UInt8) :
    Option Oid × Option (List (AttributeElement Oid)) × Parser :=
  pQueryScanAttributesMk attset bib1 (pqfParserBegin li qbuf)

def pQueryRpn (qbuf : List UInt8) : Option (RpnQuery Oid) := (yazPqfParse attset bib1 yazPqfCreate qbuf).1

end

end Yaz.Pqf
