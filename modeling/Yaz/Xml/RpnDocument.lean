import Yaz.Xml.Decoding

/-! Queries as XML: the writers of `xmlquery.c`.

`newChildContent` is what `xmlNewChild` makes of a content, which it parses for references. A query in memory has what `Yaz.Pqf` has of it.
-/

set_option autoImplicit false

namespace Yaz.Xml
open Yaz.Comstack (ascii)
open Yaz.Oid (yazOidToStringBuf)
open Yaz.Pqf (AttributeElement AttributesPlusTerm Operator Rpn RpnQuery Term cString intText)
open Yaz.Xml.Decoding (Arcs Node Property)

/-- A property with a text node. -/
def xmlNewProp (name : String) (value : List UInt8) : Property :=
  { name := ascii name, children := some { isText := true, content := value } }

def formstr (size : Nat) (n : Int64) : List UInt8 := (intText n.toInt).take (size - 1)

/-- `yaz_query2xml_attribute_element`; a complex value gives an element for each of its parts. -/
def yazQuery2xmlAttributeElement (element : AttributeElement Arcs) : List Node :=
  let attr (value : List UInt8) : Node :=
    .element (ascii "attr") (element.attributeSet.toList.map (fun oid => xmlNewProp "set" (yazOidToStringBuf oid)) ++
      [xmlNewProp "type" (formstr 30 element.attributeType), xmlNewProp "value" value]) []
  match element.value with
  | .numeric n => [attr (formstr 30 n)]
  | .complex list =>
    list.map fun
      | .string octets => attr octets
      | .numeric n => attr (formstr 30 n)

def yazQuery2xmlTerm : Term → Node
  | .general octets => .element (ascii "term") [xmlNewProp "type" (ascii "general")] [.text (cString octets)]
  | .numeric n => .element (ascii "term") [xmlNewProp "type" (ascii "numeric")] [.text (formstr 20 n)]
  | .characterString octets => .element (ascii "term") [xmlNewProp "type" (ascii "string")] [.text (cString octets)]
  | .null => .element (ascii "term") [xmlNewProp "type" (ascii "null")] []

/-- `yaz_query2xml_apt`; there is a list of attributes. -/
def yazQuery2xmlApt (zapt : AttributesPlusTerm Arcs) : Node :=
  .element (ascii "apt") [] ((zapt.attributes.getD []).flatMap yazQuery2xmlAttributeElement ++ [yazQuery2xmlTerm zapt.term])

def trueOrFalse (value : Int32) : List UInt8 := ascii (if value ≠ 0 then "true" else "false")

/-- The properties that `yaz_query2xml_operator` sets. -/
def yazQuery2xmlOperator : Operator → List Property
  | .and => [xmlNewProp "type" (ascii "and")]
  | .or => [xmlNewProp "type" (ascii "or")]
  | .andNot => [xmlNewProp "type" (ascii "not")]
  | .prox prox =>
    xmlNewProp "type" (ascii "prox") :: (prox.exclusion.toList.map (fun exclusion => xmlNewProp "exclusion" (trueOrFalse exclusion)) ++
      [xmlNewProp "distance" (formstr 30 prox.distance), xmlNewProp "ordered" (trueOrFalse prox.ordered),
        xmlNewProp "relationType" (formstr 30 prox.relationType),
        match prox.which with
        | .known => xmlNewProp "knownProximityUnit" (formstr 30 prox.unit)
        | .zprivate => xmlNewProp "privateProximityUnit" (ascii "private")])

section
variable (newChildContent : List UInt8 → List Node)

def yazQuery2xmlRpnstructure : Rpn Arcs → Node
  | .complex roperator s1 s2 =>
    .element (ascii "operator") (yazQuery2xmlOperator roperator) [yazQuery2xmlRpnstructure s1, yazQuery2xmlRpnstructure s2]
  | .apt zapt => yazQuery2xmlApt zapt
  | .resultSet name => .element (ascii "rset") [] (newChildContent name)

/-- `yaz_query2xml` for an RPN query, with `yaz_query2xml_rpn`. -/
def yazQuery2xml (rpn : RpnQuery Arcs) : Node :=
  .element (ascii "query") [] [.element (ascii "rpn")
    (rpn.attributeSetId.toList.map fun oid => xmlNewProp "set" (yazOidToStringBuf oid))
      [yazQuery2xmlRpnstructure newChildContent rpn.rpnStructure]]

end

end Yaz.Xml
