import Yaz.Oid.Standard
import Yaz.Zoom.SortSpec

/-! Reading a query from any document in memory: `yaz_xml2query` with what it leaves behind when it fails.

A property may come without a child, or with one that is not a text. A pointer that is not set is `none`, or `unset`; following the child of
a property that has none gives no result at all.
-/

set_option autoImplicit false

namespace Yaz.Xml.Decoding
open Yaz.Comstack (ascii isDigit)
open Yaz.Oid (yazStringToOidOdr)
open Yaz.Pqf (AttributeElement Operator Proximity Term)

local instance lawfulText : LawfulBEq (List UInt8) := inferInstance

structure Content where
  isText : Bool
  content : List UInt8
  deriving DecidableEq

/-- `xmlAttr`. -/
structure Property where
  name : List UInt8
  children : Option Content
  deriving DecidableEq

/-- `xmlNode`; what is neither an element nor a text is a comment, an instruction and so on. -/
inductive Node where
  | element (name : List UInt8) (properties : List Property) (children : List Node)
  | text (content : List UInt8)
  | other

def Property.text (attr : Property) : Option (List UInt8) :=
  attr.children.bind fun child => if child.isText then some child.content else none

/-- `nmem_text_node_cdata` for a node and those behind it. -/
def nmemTextNodeCdata : List Node → List UInt8
  | [] => []
  | .text content :: rest => content ++ nmemTextNodeCdata rest
  | .element _ _ _ :: rest => nmemTextNodeCdata rest
  | .other :: rest => nmemTextNodeCdata rest

abbrev Arcs := List Nat

/-- `error_code`, and `addinfo` where it is set with it. -/
structure Diagnostic where
  errorCode : Int32
  addinfo : Option (List UInt8)
  deriving DecidableEq

def bad (addinfo : String) : Diagnostic := { errorCode := 1, addinfo := some (ascii addinfo) }

/-- What a function leaves where it returns: a value, and the diagnostics, each of which replaces the ones before. -/
structure Left (α : Type) where
  value : α
  diagnostics : List Diagnostic
  deriving DecidableEq

/-- `*error_code`, which was zero. -/
def Left.errorCode {α : Type} (left : Left α) : Int32 := (left.diagnostics.getLast?.map Diagnostic.errorCode).getD 0

def Left.silent {α : Type} (value : α) : Left α := { value, diagnostics := [] }

def Left.failed {α : Type} (value : α) (diagnostic : Diagnostic) : Left α := { value, diagnostics := [diagnostic] }

/-- `yaz_xml_get_prop` for one property: `none` inside where there is none of that name. -/
def yazXmlGetProp (properties : List Property) (name : List UInt8) : Option (Option (List UInt8)) :=
  match properties.find? fun attr => attr.name = name with
  | none => some none
  | some attr => attr.children.map fun child => some child.content

def textsOf (properties : List Property) (name : List UInt8) : List (List UInt8) :=
  (properties.filter fun attr => attr.name = name).filterMap Property.text

def hasBad (properties : List Property) (names : List (List UInt8)) : Bool :=
  properties.any fun attr => !(attr.name ∈ names) || attr.text.isNone

/-- `check_diagnostic` for an element; `none` where it is not one. -/
def checkDiagnostic (name : List UInt8) (properties : List Property) : Option Diagnostic :=
  if name = ascii "diagnostic" then
    if hasBad properties [ascii "code", ascii "addinfo"] then some (bad "bad attribute for diagnostic element")
    else
      match (textsOf properties (ascii "code")).getLast? with
      | none => some (bad "missing @code for diagnostic element")
      | some code => some { errorCode := Zoom.atoi code, addinfo := (textsOf properties (ascii "addinfo")).getLast? }
  else none

def boolVal (str : List UInt8) : Int32 :=
  match str with
  | [] => 0
  | c :: _ => if c ∈ ascii "0fF" then 0 else 1

/-- `intVal`: `atoi`. -/
def intVal (str : List UInt8) : Int64 := (Zoom.atoi str).toInt64

def defaultProximity : Proximity :=
  { exclusion := none, distance := 1, ordered := 1, relationType := 2, which := .known, unit := 2 }

/-- `Z_Operator`, with `which` and what belongs to it or without. -/
abbrev OperatorPart := Option Operator

def proxProperties : List Property → Proximity → Option (Left (Option OperatorPart))
  | [], pop => some (.silent (some (some (.prox pop))))
  | attr :: rest, pop =>
    attr.children.bind fun child =>
      if attr.name = ascii "type" then proxProperties rest pop
      else if attr.name = ascii "exclusion" then proxProperties rest { pop with exclusion := some (boolVal child.content) }
      else if attr.name = ascii "distance" then proxProperties rest { pop with distance := intVal child.content }
      else if attr.name = ascii "ordered" then proxProperties rest { pop with ordered := boolVal child.content }
      else if attr.name = ascii "relationType" then proxProperties rest { pop with relationType := intVal child.content }
      else if attr.name = ascii "knownProximityUnit" then proxProperties rest { pop with which := .known, unit := intVal child.content }
      else if attr.name = ascii "privateProximityUnit" then
        proxProperties rest { pop with which := .zprivate, unit := intVal child.content }
      else some (.failed (some (some (.prox pop))) (bad "bad proximity attribute"))

def yazXml2queryOperator (properties : List Property) : Option (Left (Option OperatorPart)) :=
  (yazXmlGetProp properties (ascii "type")).bind fun
    | none => some (.failed none (bad "no operator type"))
    | some type =>
      if type = ascii "and" then some (.silent (some (some .and)))
      else if type = ascii "or" then some (.silent (some (some .or)))
      else if type = ascii "not" then some (.silent (some (some .andNot)))
      else if type = ascii "prox" then proxProperties properties defaultProximity
      else some (.failed (some none) (bad "bad operator type"))

def yazXml2queryAttributeElement (properties : List Property) : Left (Option (AttributeElement Arcs)) :=
  if hasBad properties [ascii "set", ascii "type", ascii "value"] then .failed none (bad "bad attribute for attr content")
  else
    match (textsOf properties (ascii "type")).getLast? with
    | none => .failed none (bad "missing type attribute for att content")
    | some type =>
      let values := textsOf properties (ascii "value")
      match values.getLast? with
      | none => .failed none (bad "missing value attribute for att content")
      | some value =>
        .silent (some {
          attributeSet := (textsOf properties (ascii "set")).getLast?.bind (yazStringToOidOdr .attset)
          attributeType := intVal type
          value := if 1 < values.length ∨ value.all isDigit = false then .complex (values.map .string) else .numeric (intVal value) })

/-- `yaz_xml2query_term`: the pointer, and the term if it is of a kind. -/
def yazXml2queryTerm (properties : List Property) (children : List Node) : Left (Option (Option Term)) :=
  let cdata := nmemTextNodeCdata children
  if hasBad properties [ascii "type"] then .failed none (bad "bad attribute for attr content")
  else
    let type := (textsOf properties (ascii "type")).getLast?.getD (ascii "general")
    if type = ascii "general" then .silent (some (some (.general cdata)))
    else if type = ascii "numeric" then .silent (some (some (.numeric (intVal cdata))))
    else if type = ascii "string" then .silent (some (some (.characterString cdata)))
    else if type = ascii "oid" then .failed (some none) (bad "unhandled term type: oid")
    else if type = ascii "dateTime" then .failed (some none) (bad "unhandled term type: dateTime")
    else if type = ascii "integerAndUnit" then .failed (some none) (bad "unhandled term type: integerAndUnit")
    else if type = ascii "null" then .silent (some (some .null))
    else .failed (some none) (bad "unhandled term type")

structure Element where
  name : List UInt8
  properties : List Property
  children : List Node

/-- The properties of the `attr` elements in front, and the element behind them. -/
def aptContent : List Node → List (List Property) × Option Element
  | [] => ([], none)
  | .text _ :: rest => aptContent rest
  | .other :: rest => aptContent rest
  | .element name properties children :: rest =>
    if name = ascii "attr" then (properties :: (aptContent rest).1, (aptContent rest).2) else ([], some { name, properties, children })

def aptTerm : Option Element → Left (Option (Option Term))
  | none => .failed none (bad "missing term node in apt content")
  | some element =>
    match checkDiagnostic element.name element.properties with
    | some diagnostic => .failed none diagnostic
    | none =>
      if element.name = ascii "term" then yazXml2queryTerm element.properties element.children
      else .failed none (bad "bad element in apt content")

/-- `Z_RPNStructure` with the pointers inside, and a pointer to it that may be `unset`; an operand may be of no kind. -/
inductive Structure where
  | unset
  | complex (roperator : Option OperatorPart) (s1 s2 : Structure)
  | simple
  | apt (attributes : List (Option (AttributeElement Arcs))) (term : Option (Option Term))
  | resultSet (name : Option (List UInt8))
  deriving DecidableEq

def yazXml2queryApt (children : List Node) : Left Structure :=
  let attributes := (aptContent children).1.map yazXml2queryAttributeElement
  let term := aptTerm (aptContent children).2
  { value := .apt (attributes.map Left.value) term.value, diagnostics := attributes.flatMap Left.diagnostics ++ term.diagnostics }

def yazXml2queryRset (children : List Node) : Left Structure :=
  match children with
  | [] => .failed (.resultSet none) (bad "missing rset content")
  | children => .silent (.resultSet (some (nmemTextNodeCdata children)))

def firstOf (read : List (Option (Left Structure))) : Option (Left Structure) :=
  read.head?.getD (some (.failed .unset (bad "missing rpn operator, rset, apt node")))

mutual

/-- `yaz_xml2query_rpnstructure` for an element. -/
def yazXml2queryElement : Node → Option (Left Structure)
  | .text _ => some (.failed .unset (bad "missing rpn operator, rset, apt node"))
  | .other => some (.failed .unset (bad "missing rpn operator, rset, apt node"))
  | .element name properties children =>
    match checkDiagnostic name properties with
    | some diagnostic => some (.failed .unset diagnostic)
    | none =>
      if name = ascii "operator" then do
        let operands := yazXml2queryElements children
        let roperator ← yazXml2queryOperator properties
        let s1 ← firstOf operands
        let s2 ← firstOf (operands.drop 1)
        return {
          value := .complex roperator.value s1.value s2.value
          diagnostics := roperator.diagnostics ++ s1.diagnostics ++ s2.diagnostics }
      else if name = ascii "apt" then some (yazXml2queryApt children)
      else if name = ascii "rset" then some (yazXml2queryRset children)
      else some (.failed .simple (bad "bad element: expected binary, apt or rset"))

def yazXml2queryElements : List Node → List (Option (Left Structure))
  | [] => []
  | .text _ :: rest => yazXml2queryElements rest
  | .other :: rest => yazXml2queryElements rest
  | .element name properties children :: rest =>
    yazXml2queryElement (.element name properties children) :: yazXml2queryElements rest

end

/-- `Z_RPNQuery`. -/
structure RpnQuery where
  attributeSetId : Option Arcs
  rpnStructure : Structure
  deriving DecidableEq

def yazXml2queryRpn (properties : List Property) (children : List Node) : Option (Left RpnQuery) := do
  let set ← yazXmlGetProp properties (ascii "set")
  let rpnStructure ← firstOf (yazXml2queryElements children)
  return {
    value := { attributeSetId := set.bind (yazStringToOidOdr .attset), rpnStructure := rpnStructure.value }
    diagnostics := rpnStructure.diagnostics }

def firstElement : List Node → Option Element
  | [] => none
  | .text _ :: rest => firstElement rest
  | .other :: rest => firstElement rest
  | .element name properties children :: _ => some { name, properties, children }

/-- `Z_Query`: the pointer, and the query if it is of a kind that is read. -/
abbrev Query := Option (Option RpnQuery)

def yazXml2query : Node → Option (Left Query)
  | .text _ => some (.failed none (bad "missing query element"))
  | .other => some (.failed none (bad "missing query element"))
  | .element name properties children =>
    match checkDiagnostic name properties with
    | some diagnostic => some (.failed none diagnostic)
    | none =>
      if name = ascii "query" then
        match firstElement children with
        | none => some (.failed none (bad "missing query content"))
        | some element =>
          if element.name = ascii "rpn" then
            (yazXml2queryRpn element.properties element.children).map fun rpn =>
              { value := some (some rpn.value), diagnostics := rpn.diagnostics }
          else if element.name = ascii "ccl" then some (.failed (some none) (bad "ccl not supported yet"))
          else if element.name = ascii "z39.58" then some (.failed (some none) (bad "z39.58 not supported yet"))
          else if element.name = ascii "cql" then some (.failed (some none) (bad "cql not supported yet"))
          else some (.failed (some none) (bad "unsupported query type"))
      else some (.failed none (bad "missing query element"))

def Structure.Whole : Structure → Prop
  | .unset => False
  | .complex roperator s1 s2 => (∃ operator, roperator = some (some operator)) ∧ s1.Whole ∧ s2.Whole
  | .simple => False
  | .apt attributes term => (∀ element ∈ attributes, element.isSome) ∧ ∃ kind, term = some (some kind)
  | .resultSet name => name.isSome

def Whole (query : Query) : Prop := ∃ rpn, query = some (some rpn) ∧ rpn.rpnStructure.Whole

end Yaz.Xml.Decoding
