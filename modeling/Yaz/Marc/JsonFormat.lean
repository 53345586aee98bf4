import Yaz.Json.Writing
import Yaz.Marc.Record

/-! Records as JSON: `yaz_marc_write_json` of `marcdisp.c` and `marc_read_json.c`.

`beyond` is what is in memory behind the NUL of a subfield: a code of more octets than the subfield has is written from there. The reader
gets a tree; a link that is null and followed nevertheless gives `none`.
-/

set_option autoImplicit false

namespace Yaz.Json

section
variable {Number : Type}

def Members.toList : Members Number → List (List UInt8 × Node Number)
  | .nil => []
  | .cons key value rest => (key, value) :: rest.toList

def Elements.toList : Elements Number → List (Node Number)
  | .nil => []
  | .cons value rest => value :: rest.toList

end

end Yaz.Json

namespace Yaz.Marc
open Yaz.Comstack
open Yaz.Http (cString decimal)

/-- `wrbuf_json_write`. -/
def jsonWrite (octets : List UInt8) : List UInt8 := octets.flatMap Json.writeChar

def writeJsonSubfield (beyond : List UInt8 → List UInt8) (identifierLength : Nat) (codeData : List UInt8) : List UInt8 :=
  let memory := codeData ++ 0 :: beyond codeData
  let usingCodeLen := getSubfieldLen memory identifierLength
  ascii "          \x7b\n            \"" ++ jsonWrite (memory.take usingCodeLen) ++ ascii "\": \"" ++
    jsonWrite (cString (memory.drop usingCodeLen)) ++ ascii "\"\n          \x7d"

def writeJsonSubfields (beyond : List UInt8 → List UInt8) (identifierLength : Nat) : (sep : List UInt8) → List (List UInt8) → List UInt8
  | _, [] => []
  | sep, s :: subfields =>
    sep ++ writeJsonSubfield beyond identifierLength s ++ writeJsonSubfields beyond identifierLength (ascii ",\n") subfields

def writeJsonIndicators : (rounds i : Nat) → (indicator : List UInt8) → List UInt8
  | 0, _, _ => []
  | _ + 1, _, [] => []
  | rounds + 1, i, c :: indicator =>
    let ilen := cdataOneCharacter (c :: indicator)
    ascii ",\n        \"ind" ++ decimal (i + 1) ++ ascii "\": \"" ++ jsonWrite ((c :: indicator).take ilen) ++ ascii "\"" ++
      writeJsonIndicators rounds (i + 1) ((c :: indicator).drop ilen)

def writeJsonField (beyond : List UInt8 → List UInt8) (identifierLength : Nat) : Node → List UInt8
  | .controlfield tag data =>
    ascii "\n    \x7b\n      \"" ++ jsonWrite (cString tag) ++ ascii "\": \"" ++ jsonWrite (cString data) ++
      ascii "\"\n    \x7d"
  | .datafield tag indicator subfields =>
    ascii "\n    \x7b\n      \"" ++ jsonWrite (cString tag) ++ ascii "\": \x7b\n        \"subfields\": [\n" ++
      writeJsonSubfields beyond identifierLength [] subfields ++ ascii "\n        ]" ++
      writeJsonIndicators (cString indicator).length 0 (cString indicator) ++ ascii "\n      \x7d" ++ ascii "\n    \x7d"
  | _ => []

def writeJsonFields (beyond : List UInt8 → List UInt8) (identifierLength : Nat) : (first : Bool) → List Node → List UInt8
  | first, [] => if first then [] else ascii "\n  "
  | first, n :: nodes =>
    if n.isField then
      (if first then [] else ascii ",") ++ writeJsonField beyond identifierLength n ++ writeJsonFields beyond identifierLength false nodes
    else writeJsonFields beyond identifierLength first nodes

/-- `yaz_marc_write_json`; `none` for the return value -1. -/
def writeJson (beyond : List UInt8 → List UInt8) (nodes : List Node) : Option (List UInt8) := do
  let leader ← (nodes.filterMap fun n => match n with | .leader leader => some leader | _ => none).getLast?
  let identifierLength ← atoiNCheck ((leader.drop 11).take 1)
  return ascii "\x7b\n" ++ ascii "  \"leader\": \"" ++ jsonWrite (cString leader) ++ ascii "\",\n" ++
    ascii "  \"fields\": [" ++ writeJsonFields beyond identifierLength true nodes ++ ascii "]\n" ++ ascii "\x7d\n"

/-! ### Reading -/

section
variable {Number : Type}

def nodeString : Json.Node Number → Option (List UInt8)
  | .string octets => some (cString octets)
  | _ => none

def pairSubfields (pairs : List (List UInt8 × Json.Node Number)) : List (List UInt8) :=
  pairs.filterMap fun (code, value) => (nodeString value).map (cString code ++ ·)

/-- The values in the list of `parse_subfields`. -/
def parseSubfieldValues : List (Json.Node Number) → Option (List (List UInt8))
  | [] => some []
  | .object .nil :: _ => none
  | .object (.cons key value rest) :: values =>
    (parseSubfieldValues values).map (pairSubfields (Json.Members.cons key value rest).toList ++ ·)
  | _ :: values => parseSubfieldValues values

/-- `parse_subfields`; an array without elements has no list. -/
def parseSubfields : Json.Elements Number → Option (List (List UInt8))
  | .nil => none
  | .cons value rest => parseSubfieldValues (Json.Elements.cons value rest).toList

def indicatorOf (pairs : List (List UInt8 × Json.Node Number)) (j : Nat) : List UInt8 :=
  (pairs.filterMap fun (key, value) =>
    if (cString key).take 3 = ascii "ind" ∧ ((cString key).getD 3 0).toNat = 48 + j then nodeString value else none).flatten

def memberSubfields : List (List UInt8 × Json.Node Number) → Option (List (List UInt8))
  | [] => some []
  | (key, .array elements) :: pairs =>
    if cString key = ascii "subfields" then do
      let first ← parseSubfields elements
      let rest ← memberSubfields pairs
      return first ++ rest
    else memberSubfields pairs
  | _ :: pairs => memberSubfields pairs

/-- `parse_field` on a pair: the nodes that are added. -/
def parseField (indicatorLength : Nat) (key : List UInt8) : Json.Node Number → Option (List Node)
  | .string data => some [.controlfield (cString key) (cString data)]
  | .object .nil => none
  | .object (.cons first value rest) => do
    let pairs := (Json.Members.cons first value rest).toList
    let subfields ← memberSubfields pairs
    return [.datafield (cString key) (((List.range indicatorLength).map fun j => indicatorOf pairs (j + 1)).flatten) subfields]
  | _ => some []

def parsePairs (indicatorLength : Nat) : List (List UInt8 × Json.Node Number) → Option (List Node)
  | [] => some []
  | (key, value) :: pairs => do
    let first ← parseField indicatorLength key value
    let rest ← parsePairs indicatorLength pairs
    return first ++ rest

def parseFieldValues (indicatorLength : Nat) : List (Json.Node Number) → Option (List Node)
  | [] => some []
  | .object members :: values => do
    let first ← parsePairs indicatorLength members.toList
    let rest ← parseFieldValues indicatorLength values
    return first ++ rest
  | _ :: values => parseFieldValues indicatorLength values

/-- The arrays that are members `fields` of the record. -/
def parseFieldArrays (indicatorLength : Nat) : List (List UInt8 × Json.Node Number) → Option (List Node)
  | [] => some []
  | (key, .array elements) :: pairs =>
    if cString key = ascii "fields" then do
      let first ← parseFieldValues indicatorLength elements.toList
      let rest ← parseFieldArrays indicatorLength pairs
      return first ++ rest
    else parseFieldArrays indicatorLength pairs
  | _ :: pairs => parseFieldArrays indicatorLength pairs

def jsonLeader (pairs : List (List UInt8 × Json.Node Number)) : Option (List UInt8) :=
  (pairs.filterMap fun (key, value) =>
    if cString key = ascii "leader" then (nodeString value).filter fun leader => leader.length = 24 else none).getLast?

def fakeLeader : List UInt8 := ascii "00000nam a22000000a 4500"

/-- `yaz_marc_read_json_node`: the return value and the nodes. -/
def readJsonNode : Json.Node Number → Option (Int × List Node)
  | .object members => do
    let pairs := members.toList
    let missing := if (jsonLeader pairs).isSome then [] else [marcCprintf (ascii "Missing leader. Inserting fake leader")]
    let (lengths, leader) := setLeader ((jsonLeader pairs).getD fakeLeader)
    let nodes ← parseFieldArrays lengths.indicatorLength pairs
    return (0, missing ++ leader ++ nodes)
  | _ => some (-1, [])

end

end Yaz.Marc
