import Yaz.Pqf.Tokens
import Yaz.Http.Message

/-! The printer of `querytowrbuf.c`, from queries to the Prefix Query Format.

The names of object identifiers come from `oidName`, the table that the parser looks them up
in. A C string is the list of its octets before the NUL.
-/

set_option autoImplicit false

namespace Yaz.Pqf
open Yaz.Comstack Yaz.Http

/-- A character for which a term is put in quotes; `strchr` finds the NUL too. -/
def needsQuotes (c : UInt8) : Bool := c = 32 || c = 34 || c = 123 || c = 0

def yazEncodePqfTerm (term : List UInt8) : List UInt8 :=
  if term ≠ [] ∧ ¬ term.any needsQuotes then
    (if term.head? = some 64 then [92] else []) ++ term.flatMap (fun c => if c = 92 then [92, c] else [c]) ++ [32]
  else 34 :: term.flatMap (fun c => if c = 34 ∨ c = 92 then [92, c] else [c]) ++ [34, 32]

/-- `%lld`. -/
def intText (n : Int) : List UInt8 := if n < 0 then 45 :: decimal n.natAbs else decimal n.toNat

def StringOrNumeric.text : StringOrNumeric → List UInt8
  | .string octets => octets
  | .numeric value => intText value.toInt

def AttributeValue.text : AttributeValue → List UInt8
  | .numeric value => intText value.toInt
  | .complex list => ((list.map StringOrNumeric.text).intersperse [44]).flatten

section
variable {Oid : Type} (oidName : Oid → Option (List UInt8))

def yazAttributeElementToWrbuf (element : AttributeElement Oid) : List UInt8 :=
  ascii "@attr " ++ (match element.attributeSet.bind oidName with
    | some name => name ++ [32]
    | none => []) ++ intText element.attributeType.toInt ++ [61] ++ element.value.text ++ [32]

def yazAttributesToWrbuf (attributes : List (AttributeElement Oid)) : List UInt8 :=
  attributes.flatMap (yazAttributeElementToWrbuf oidName)

/-- The term of `yaz_apt_to_wrbuf`. -/
def Term.text : Term → List UInt8
  | .general octets => yazEncodePqfTerm octets
  | .characterString octets => ascii "@term string " ++ yazEncodePqfTerm octets
  | .numeric value => ascii "@term numeric " ++ intText value.toInt ++ [32]
  | .null => ascii "@term null x"

/-- `yaz_apt_to_wrbuf`, of an operand with a list of attributes. -/
def yazAptToWrbuf (apt : AttributesPlusTerm Oid) : List UInt8 :=
  yazAttributesToWrbuf oidName (apt.attributes.getD []) ++ apt.term.text

def complexOpName : Operator → List UInt8
  | .and => ascii "and"
  | .or => ascii "or"
  | .andNot => ascii "not"
  | .prox _ => ascii "prox"

def exclusionText : Option Int32 → List UInt8
  | none => ascii "n"
  | some exclusion => if exclusion ≠ 0 then ascii "1" else ascii "0"

def ProximityUnit.text : ProximityUnit → List UInt8
  | .known => ascii "k"
  | .zprivate => ascii "p"

def Proximity.text (prox : Proximity) : List UInt8 :=
  exclusionText prox.exclusion ++ [32] ++ intText prox.distance.toInt ++ [32] ++ intText prox.ordered.toInt ++ [32] ++
    intText prox.relationType.toInt ++ [32] ++ prox.which.text ++ [32] ++ intText prox.unit.toInt ++ [32]

def Operator.text (op : Operator) : List UInt8 :=
  ascii "@" ++ complexOpName op ++ [32] ++ (match op with
    | .prox proximity => proximity.text
    | _ => [])

def yazRpnstructureToWrbuf : Rpn Oid → List UInt8
  | .apt operand => yazAptToWrbuf oidName operand
  | .resultSet name => ascii "@set " ++ yazEncodePqfTerm name
  | .complex op s1 s2 => op.text ++ yazRpnstructureToWrbuf s1 ++ yazRpnstructureToWrbuf s2

def wrbufChopRight (text : List UInt8) : List UInt8 := (text.reverse.dropWhile (· = 32)).reverse

/-- `yaz_rpnquery_to_wrbuf`, into an empty buffer. -/
def yazRpnqueryToWrbuf (query : RpnQuery Oid) : List UInt8 :=
  wrbufChopRight ((match query.attributeSetId.bind oidName with
    | some name => ascii "@attrset " ++ name ++ [32]
    | none => []) ++ yazRpnstructureToWrbuf oidName query.rpnStructure)

end

end Yaz.Pqf
