import Yaz.Marc.Record

/-! Records as lines: `yaz_marc_write_line` of `marcdisp.c`, with the separators it has if none are set, and `marc_read_line.c`.

`getbyte` gives 0 where the octets end. `beyond` is what is in memory behind the NUL of a subfield.
-/

set_option autoImplicit false

namespace Yaz.Marc
open Yaz.Comstack
open Yaz.Http (cString)

def writeLineSubfield (beyond : List UInt8 → List UInt8) (identifierLength : Nat) (codeData : List UInt8) : List UInt8 :=
  let memory := codeData ++ 0 :: beyond codeData
  let usingCodeLen := getSubfieldLen memory identifierLength
  ascii " $" ++ memory.take usingCodeLen ++ ascii " " ++ cString (memory.drop usingCodeLen)

def writeLineNode (beyond : List UInt8 → List UInt8) (identifierLength : Nat) : Node → List UInt8
  | .datafield tag indicator subfields =>
    cString tag ++ ascii " " ++ cString indicator ++ subfields.flatMap (writeLineSubfield beyond identifierLength) ++ ascii "\n"
  | .controlfield tag data => cString tag ++ ascii " " ++ cString data ++ ascii "\n"
  | .comment comment => ascii "(" ++ cString comment ++ ascii ")\n"
  | .leader leader => cString leader ++ ascii "\n"

/-- `yaz_marc_write_line`; `none` for the return value -1. -/
def writeLine (beyond : List UInt8 → List UInt8) (nodes : List Node) : Option (List UInt8) := do
  let leader ← nodes.findSome? fun n => match n with | .leader leader => some leader | _ => none
  let identifierLength ← atoiNCheck ((leader.drop 11).take 1)
  return nodes.flatMap (writeLineNode beyond identifierLength) ++ ascii "\n"

/-! ### Reading -/

def endsLine (c : UInt8) : Bool := c = 0 || c = 13 || c = 10

def skipLineEnd : List UInt8 → List UInt8
  | [] => []
  | c :: rest =>
    match rest with
    | [] => []
    | ch :: more =>
      if c = 13 then (if ch ≠ 10 ∧ ch ≠ 0 then rest else more)
      else if c = 10 then (if ch ≠ 13 ∧ ch ≠ 0 then rest else more)
      else rest

/-- `yaz_gets`: the octets of a line, and what is left. -/
def yazGets (stream : List UInt8) : List UInt8 × List UInt8 :=
  let text := stream.takeWhile fun c => !endsLine c
  (text, skipLineEnd (stream.drop text.length))

def fourBlanks : (missing : Nat) → List UInt8 → Bool × List UInt8
  | 0, stream => (true, stream)
  | _ + 1, [] => (false, [])
  | missing + 1, ch :: stream =>
    if ch = 32 then fourBlanks missing stream
    else if ch = 0 then (false, stream)
    else (false, ch :: stream)

def continueLine : (rounds : Nat) → (w stream : List UInt8) → List UInt8 × List UInt8
  | 0, w, stream => (w, stream)
  | rounds + 1, w, stream =>
    match fourBlanks 4 stream with
    | (false, stream) => (w, stream)
    | (true, stream) =>
      let w := if 60 < w.length ∧ w.getLast? = some 61 then w.dropLast else w ++ [32]
      match yazGets stream with
      | ([], stream) => (w, stream)
      | (text, stream) => continueLine rounds (w ++ text) stream

/-- `yaz_marc_line_gets`; `none` for an empty line, and at the end. -/
def yazMarcLineGets (stream : List UInt8) : Option (List UInt8) × List UInt8 :=
  match yazGets stream with
  | ([], stream) => (none, stream)
  | (text, stream) =>
    let line := continueLine (stream.length + 1) text stream
    (some line.1, line.2)

def isAlnum (c : UInt8) : Bool := isUpper c || isLower c || isDigit c

/-- Where the next subfield starts; `before` is the octet in front, and with `markerSkip` that must be a blank. -/
def nextMarker (markerCh : UInt8) (markerSkip : Bool) : (before : UInt8) → List UInt8 → Option Nat
  | _, [] => none
  | before, c :: rest =>
    if c = markerCh ∧ rest.head?.any isAlnum ∧ (markerSkip = false ∨ before = 32) then some 0
    else (nextMarker markerCh markerSkip c rest).map (· + 1)

def lineCodeData (markerSkip : Bool) (cp : List UInt8) (len : Nat) : List UInt8 :=
  if markerSkip ∧ 1 < len ∧ cp.getD 1 0 = 32 then cp.getD 0 0 :: (cp.take len).drop 2 else cp.take len

def lineSubfields (markerCh : UInt8) (markerSkip : Bool) : (rounds : Nat) → (cp : List UInt8) → List (List UInt8)
  | 0, _ => []
  | rounds + 1, cp =>
    match nextMarker markerCh markerSkip markerCh cp with
    | some offset =>
      lineCodeData markerSkip cp (offset - markerSkip.toNat) :: lineSubfields markerCh markerSkip rounds (cp.drop (offset + 1))
    | none => [lineCodeData markerSkip cp cp.length]

def lineField (line : List UInt8) : Node :=
  let start := if line.getD 6 0 = 32 then 7 else 6
  let ch := line.getD start 0
  let markerCh := if 8 ≤ line.length ∧ (ch = 36 ∨ ch = 95 ∨ ch = 42) then ch else 0
  if markerCh = 0 then .controlfield (line.take 3) (line.drop 4)
  else
    .datafield (line.take 3) ((line.drop 4).take 2)
      (lineSubfields markerCh (line.getD (start + 2) 0 = 32) line.length (line.drop (start + 1)))

def assumedLeader : List UInt8 := ascii "01000cam  2200265 i 4500"

/-- The loop of `yaz_marc_read_line`: whether there is a leader, the nodes, and what is left. -/
def readLines : (rounds : Nat) → (headerCreated : Bool) → (stream : List UInt8) → Bool × List Node × List UInt8
  | 0, headerCreated, stream => (headerCreated, [], stream)
  | rounds + 1, headerCreated, stream =>
    match yazMarcLineGets stream with
    | (none, stream) => (headerCreated, [], stream)
    | (some line, stream) =>
      if line.length = 0 then
        if headerCreated then (headerCreated, [], stream) else readLines rounds headerCreated stream
      else if line.head? = some 36 then
        if headerCreated then (headerCreated, [], stream) else readLines rounds headerCreated stream
      else if line.head? = some 40 then readLines rounds headerCreated stream
      else if line.length = 24 ∧ (atoiNCheck (line.take 5)).isSome then
        if headerCreated then (headerCreated, [], stream)
        else
          let (headerCreated, nodes, stream) := readLines rounds true stream
          (headerCreated, (setLeader line).2 ++ nodes, stream)
      else if 4 < line.length ∧ line.getD 0 0 ≠ 32 ∧ line.getD 1 0 ≠ 32 ∧ line.getD 2 0 ≠ 32 ∧ line.getD 3 0 = 32 then
        let leader := if headerCreated then [] else (setLeader assumedLeader).2
        let (headerCreated, nodes, stream) := readLines rounds true stream
        (headerCreated, leader ++ lineField line :: nodes, stream)
      else
        let (headerCreated, nodes, stream) := readLines rounds headerCreated stream
        (headerCreated, marcCprintf (ascii "Ignoring line: " ++ line) :: nodes, stream)

/-- `yaz_marc_read_line`: the return value, the nodes, and what is left to be read. -/
def readLine (stream : List UInt8) : Int × List Node × List UInt8 :=
  let (headerCreated, nodes, stream) := readLines (stream.length + 1) false stream
  (if headerCreated then 0 else -1, nodes, stream)

end Yaz.Marc
