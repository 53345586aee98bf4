import Yaz.Foundation.Markup
import Yaz.Marc.Iso2709

/-! Records as MARCXML: `yaz_marc_write_marcxml` of `marcdisp.c`, without a collection and without Libxml2.

`beyond` is what is in memory behind the NUL of a subfield: a code of more octets than the subfield has is read from there.
-/

set_option autoImplicit false

namespace Yaz.Marc
open Yaz.Comstack (ascii)
open Yaz.Http (cString decimal)
open Yaz.Foundation.Markup (Token)

/-- `wrbuf_xmlputs_n`. -/
def xmlputs (text : List UInt8) : List UInt8 :=
  text.flatMap fun c =>
    if c ≤ 31 ∧ c ≠ 9 ∧ c ≠ 10 ∧ c ≠ 13 then []
    else if c = 60 then ascii "&lt;"
    else if c = 62 then ascii "&gt;"
    else if c = 38 then ascii "&amp;"
    else if c = 34 then ascii "&quot;"
    else if c = 39 then ascii "&apos;"
    else [c]

/-- `yaz_marc_modify_leader`. -/
def modifyLeader (off : Nat) (str : List UInt8) : List Node → List Node
  | [] => []
  | .leader leader :: nodes => .leader (leader.take off ++ str ++ leader.drop (off + str.length)) :: nodes
  | n :: nodes => n :: modifyLeader off str nodes

def characters : (rounds : Nat) → (indicator : List UInt8) → List (List UInt8)
  | 0, _ => []
  | _ + 1, [] => []
  | rounds + 1, c :: indicator =>
    let ilen := cdataOneCharacter (c :: indicator)
    (c :: indicator).take ilen :: characters rounds ((c :: indicator).drop ilen)

def indicatorCharacters (indicator : List UInt8) : List (List UInt8) := characters (cString indicator).length (cString indicator)

def writeIndicators : (i : Nat) → List (List UInt8) → List UInt8
  | _, [] => []
  | i, c :: cs => ascii " ind" ++ decimal (i + 1) ++ ascii "=\"" ++ xmlputs c ++ ascii "\"" ++ writeIndicators (i + 1) cs

def writeSubfield (beyond : List UInt8 → List UInt8) (identifierLength : Nat) (codeData : List UInt8) : List UInt8 :=
  let memory := codeData ++ 0 :: beyond codeData
  let usingCodeLen := getSubfieldLen memory identifierLength
  ascii "    <subfield code=\"" ++ xmlputs (memory.take usingCodeLen) ++ ascii "\">" ++
    xmlputs (cString (memory.drop usingCodeLen)) ++ ascii "</subfield>\n"

def writeNode (beyond : List UInt8 → List UInt8) (identifierLength : Nat) : Node → List UInt8
  | .datafield tag indicator subfields =>
    ascii "  <datafield tag=\"" ++ xmlputs (cString tag) ++ ascii "\"" ++ writeIndicators 0 (indicatorCharacters indicator) ++
      ascii ">\n" ++ subfields.flatMap (writeSubfield beyond identifierLength) ++ ascii "  </datafield>\n"
  | .controlfield tag data =>
    ascii "  <controlfield tag=\"" ++ xmlputs (cString tag) ++ ascii "\">" ++ xmlputs (cString data) ++
      ascii "</controlfield>\n"
  | .comment comment => ascii "<!-- " ++ cString comment ++ ascii " -->\n"
  | .leader leader => ascii "  <leader>" ++ xmlputs (cString leader) ++ ascii "</leader>\n"

/-- `yaz_marc_write_marcxml_wrbuf` for elements with full names, without a format and a type; `none` for the return value -1. -/
def writeMarcxmlWrbuf (beyond : List UInt8 → List UInt8) (nodes : List Node) (ns : String) : Option (List UInt8) := do
  let leader ← nodes.findSome? fun n => match n with | .leader leader => some leader | _ => none
  let identifierLength ← atoiNCheck ((leader.drop 11).take 1)
  return ascii "<record xmlns=\"" ++ ascii ns ++ ascii "\"" ++ ascii ">\n" ++
    nodes.flatMap (writeNode beyond identifierLength) ++ ascii "</record>\n"

/-- `yaz_marc_write_marcxml`. -/
def writeMarcxml (beyond : List UInt8 → List UInt8) (nodes : List Node) : Option (List UInt8) :=
  writeMarcxmlWrbuf beyond (modifyLeader 9 (ascii "a") nodes) "http://www.loc.gov/MARC21/slim"

inductive Shape where
  | datafield (indicators subfields : Nat)
  | controlfield
  | comment
  | leader
  deriving DecidableEq

def Node.shape : Node → Shape
  | .datafield _ indicator subfields => .datafield (indicatorCharacters indicator).length subfields.length
  | .controlfield _ _ => .controlfield
  | .comment _ => .comment
  | .leader _ => .leader

def indicatorNames : (i count : Nat) → List UInt8
  | _, 0 => []
  | i, count + 1 => ascii " ind" ++ decimal (i + 1) ++ ascii "=\"\"" ++ indicatorNames (i + 1) count

def Shape.markup : Shape → List Token
  | .datafield indicators subfields =>
    .start (ascii "datafield tag=\"\"" ++ indicatorNames 0 indicators) ::
      (List.replicate subfields [Token.start (ascii "subfield code=\"\""), .stop (ascii "subfield")]).flatten ++
      [.stop (ascii "datafield")]
  | .controlfield => [.start (ascii "controlfield tag=\"\""), .stop (ascii "controlfield")]
  | .comment => [.comment]
  | .leader => [.start (ascii "leader"), .stop (ascii "leader")]

def markup (shapes : List Shape) : List Token :=
  .start (ascii "record xmlns=\"\"") :: shapes.flatMap Shape.markup ++ [.stop (ascii "record")]

end Yaz.Marc
