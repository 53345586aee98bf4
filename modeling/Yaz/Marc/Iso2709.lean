import Yaz.Marc.Numbers

/-! Records as ISO 2709: `yaz_marc_write_iso2709` of `marcdisp.c` and `yaz_marc_read_iso2709` of `marc_read_iso2709.c`.

The reader has the octets of the record and those behind it in memory; where these end it reads 0.
-/

set_option autoImplicit false

namespace Yaz.Marc
open Yaz.Comstack
open Yaz.Http (cString decimal)

def ISO2709_RS : UInt8 := 0x1d
def ISO2709_FS : UInt8 := 0x1e
def ISO2709_IDFS : UInt8 := 0x1f

/-- `%3.3s`. -/
def tagField (tag : List UInt8) : List UInt8 := List.replicate (3 - (cString tag).length) 32 ++ (cString tag).take 3

def Node.fieldData : Node → List UInt8
  | .datafield _ indicator subfields => cString indicator ++ (subfields.flatMap fun s => ISO2709_IDFS :: cString s) ++ [ISO2709_FS]
  | .controlfield _ data => cString data ++ [ISO2709_FS]
  | _ => []

def Node.entry : Node → Option (List UInt8 × Nat)
  | .datafield tag indicator subfields => some (tag, (cString indicator).length + ((subfields.map fun s => 1 + (cString s).length).sum + 1))
  | .controlfield tag data => some (tag, (cString data).length + 1)
  | _ => none

/-- A directory that is written, the length of the data, and the nodes before the one that has no room. -/
structure Directory where
  dir : List UInt8
  dataOffset : Nat
  nodes : List Node
  deriving DecidableEq

def writeDirectory (lengthDataEntry lengthStarting : Nat) : List Node → (dir : List UInt8) → (dataOffset : Nat) → Directory
  | [], dir, dataOffset => { dir, dataOffset, nodes := [] }
  | n :: nodes, dir, dataOffset =>
    match n.entry with
    | none =>
      let directory := writeDirectory lengthDataEntry lengthStarting nodes dir dataOffset
      { directory with nodes := n :: directory.nodes }
    | some (tag, dataLength) =>
      if 99999 < dir.length + 40 + dataOffset + dataLength then { dir, dataOffset, nodes := [] }
      else
        let directory := writeDirectory lengthDataEntry lengthStarting nodes
          (dir ++ tagField tag ++ padded lengthDataEntry dataLength ++ padded lengthStarting dataOffset) (dataOffset + dataLength)
        { directory with nodes := n :: directory.nodes }

def lastLeader (nodes : List Node) : Option (List UInt8) :=
  (nodes.filterMap fun n => match n with | .leader leader => some leader | _ => none).getLast?

/-- `yaz_marc_write_iso2709`; `none` for the return value -1. -/
def writeIso2709 (nodes : List Node) : Option (List UInt8) := do
  let leader ← lastLeader nodes
  let _ ← atoiNCheck ((leader.drop 10).take 1)
  let _ ← atoiNCheck ((leader.drop 11).take 1)
  let lengthDataEntry ← atoiNCheck ((leader.drop 20).take 1)
  let lengthStarting ← atoiNCheck ((leader.drop 21).take 1)
  let _ ← atoiNCheck ((leader.drop 22).take 1)
  let directory := writeDirectory lengthDataEntry lengthStarting nodes [] 0
  let dir := directory.dir ++ [ISO2709_FS]
  let baseAddress := 24 + dir.length
  let head := padded 5 (baseAddress + directory.dataOffset + 1) ++ (leader.drop 5).take 7 ++ padded 5 baseAddress ++ (leader.drop 17).take 7
  return head.take 24 ++ dir ++ directory.nodes.flatMap Node.fieldData ++ [ISO2709_RS]

/-! ### Reading -/

/-- `wrbuf_write_escaped`. -/
def writeEscaped (str : List UInt8) : List UInt8 :=
  str.flatMap fun c =>
    if c < 32 ∨ 126 < c then ascii "\\x" ++ [hexDigit (c.toNat / 16), hexDigit (c.toNat % 16)] else [c]
where
  hexDigit (n : Nat) : UInt8 := UInt8.ofNat (if n < 10 then 48 + n else 55 + n)

def isSeparator (c : UInt8) : Bool := c = ISO2709_RS || c = ISO2709_FS

def scanDirectory (mem : List UInt8) (recordLength lengthDataEntry lengthStarting : Nat) :
    (rounds : Nat) → (entryP : Nat) → Option Nat × List Node
  | 0, _ => (none, [])
  | rounds + 1, entryP =>
    let l := 3 + lengthDataEntry + lengthStarting
    if mem.getD entryP 0 = ISO2709_FS then (some entryP, [])
    else if recordLength ≤ entryP + l then
      (none, [marcCprintf (ascii "Directory offset " ++ decimal entryP ++ ascii ": end of record. Missing FS char")])
    else if ((mem.drop (entryP + 3)).take (lengthDataEntry + lengthStarting)).all isDigit then
      scanDirectory mem recordLength lengthDataEntry lengthStarting rounds (entryP + l)
    else
      (some entryP, [marcCprintf (ascii "Directory offset " ++ decimal entryP ++
        ascii ": Bad value for data length and/or length starting (" ++ writeEscaped ((mem.drop entryP).take l) ++ ascii ")")])

def someSubfield (codeData : List UInt8) : List (List UInt8) := if codeData = [] then [] else [codeData]

def startsCode : List UInt8 → Bool
  | [] => false
  | c :: _ => 32 < c

/-- The subfields in what is left of a field, and how many octets were read; `codeData` is the one that is read, and `first` says that
the octet is left out with which the loop starts. -/
def splitSubfields : List UInt8 → (first : Bool) → (codeData : List UInt8) → List (List UInt8) × Nat
  | [], _, codeData => (someSubfield codeData, 0)
  | c :: rest, first, codeData =>
    if isSeparator c then (someSubfield codeData, 0)
    else if c = ISO2709_IDFS ∧ startsCode rest then
      let split := splitSubfields rest false []
      (someSubfield codeData ++ split.1, split.2 + 1)
    else
      let split := splitSubfields rest false (if first then codeData else codeData ++ [c])
      (split.1, split.2 + 1)

def endComments (mem : List UInt8) (i endOffset dataLength : Nat) : List Node :=
  (if i < endOffset then [marcCprintf (ascii "Separator but not at end of field length=" ++ decimal dataLength)] else []) ++
  (if isSeparator (mem.getD i 0) then []
   else [marcCprintf (ascii "No separator at end of field length=" ++ decimal dataLength)])

/-- `identifier_flag`: 0 for a control field; a field 00X may have subfields nevertheless. -/
def identifierFlag (mem : List UInt8) (indicatorLength : Nat) (tag : List UInt8) (i : Nat) : Nat :=
  if tag.take 2 ≠ [48, 48] then 1
  else if indicatorLength < 4 ∧ 0 < indicatorLength then
    if mem.getD (i + indicatorLength) 0 = ISO2709_IDFS then 1
    else if mem.getD (i + indicatorLength + 1) 0 = ISO2709_IDFS then 2
    else 0
  else 0

section
variable {C : Type} (sizeofChar : C → List UInt8 → Nat × C) (mem : List UInt8)

/-- Where the indicators end, and the descriptor that `sizeofChar` leaves. -/
def indicatorEndWith : (indicatorLength : Nat) → (i : Nat) → C → Nat × C
  | 0, i, cd => (i, cd)
  | j + 1, i, cd =>
    let char := sizeofChar cd (mem.drop i)
    indicatorEndWith j (i + char.1) char.2

def readFieldWith (indicatorLength : Nat) (tag : List UInt8) (i dataLength : Nat) (cd : C) : List Node × C :=
  let endOffset := i + dataLength - 1
  let flag := identifierFlag mem indicatorLength tag i
  if flag ≠ 0 then
    let start := i + (flag - 1)
    let next := indicatorEndWith sizeofChar mem indicatorLength start cd
    let split := splitSubfields ((mem.drop next.1).take (endOffset - next.1)) true []
    (.datafield (cString tag) (cString ((mem.drop start).take (next.1 - start))) split.1 ::
      endComments mem (next.1 + split.2) endOffset dataLength, next.2)
  else
    let data := ((mem.drop i).take (endOffset - i)).takeWhile fun c => !isSeparator c
    (.controlfield (cString tag) (cString data) :: endComments mem (i + data.length) endOffset dataLength, cd)

def readFieldsWith (recordLength : Nat) (lengths : Lengths) (endOfDirectory : Nat) : (rounds : Nat) → (entryP : Nat) → C → List Node × C
  | 0, _, cd => ([], cd)
  | rounds + 1, entryP, cd =>
    if entryP = endOfDirectory then ([], cd)
    else
      let tag := (mem.drop entryP).take 3
      let dataLength := atoiN ((mem.drop (entryP + 3)).take lengths.lengthDataEntry)
      let dataOffset := atoiN ((mem.drop (entryP + 3 + lengths.lengthDataEntry)).take lengths.lengthStarting)
      let i := dataOffset + lengths.baseAddress
      let endOffset := i + dataLength - 1
      if dataLength = 0 then ([], cd)
      else if recordLength ≤ endOffset then
        ([marcCprintf (ascii "Directory offset " ++ decimal entryP ++ ascii ": Data out of bounds " ++ decimal endOffset ++
          ascii " >= " ++ decimal recordLength)], cd)
      else
        let field := readFieldWith sizeofChar mem lengths.indicatorLength tag i dataLength cd
        let later := readFieldsWith recordLength lengths endOfDirectory rounds
          (entryP + 3 + lengths.lengthDataEntry + lengths.lengthStarting) field.2
        (field.1 ++ later.1, later.2)

/-- `yaz_marc_read_iso2709`: the return value, the nodes, and the descriptor behind it; a `bsize` of -1 is unknown. -/
def readIso2709With (bsize : Int) (cd : C) : Int × List Node × C :=
  match atoiNCheck (mem.take 5) with
  | none => (-1, [marcCprintf (ascii "Bad leader")], cd)
  | some recordLength =>
    if recordLength < 25 then
      (-1, [marcCprintf (ascii "Record length " ++ decimal recordLength ++ ascii " < 24")], cd)
    else if bsize ≠ -1 ∧ bsize < recordLength then
      (-1, [marcCprintf (ascii "Record appears to be larger than buffer " ++ decimal recordLength ++ ascii " < " ++
        ascii (toString bsize))], cd)
    else
      let (lengths, leader) := setLeader mem
      match scanDirectory mem recordLength lengths.lengthDataEntry lengths.lengthStarting recordLength 24 with
      | (none, comments) => (-1, leader ++ comments, cd)
      | (some endOfDirectory, comments) =>
        let base :=
          if lengths.baseAddress ≠ endOfDirectory + 1 then
            [marcCprintf (ascii "Base address not at end of directory, base " ++ decimal lengths.baseAddress ++
              ascii ", end " ++ decimal (endOfDirectory + 1))]
          else []
        let fields := readFieldsWith sizeofChar mem recordLength lengths endOfDirectory endOfDirectory 24 cd
        (recordLength, leader ++ comments ++ base ++ fields.1, fields.2)

end

/-- `cdata_one_character` without a descriptor. -/
def sizeofPlain (_ : Unit) (buf : List UInt8) : Nat × Unit := (cdataOneCharacter buf, ())

def readField (mem : List UInt8) (indicatorLength : Nat) (tag : List UInt8) (i dataLength : Nat) : List Node :=
  (readFieldWith sizeofPlain mem indicatorLength tag i dataLength ()).1

def readFields (mem : List UInt8) (recordLength : Nat) (lengths : Lengths) (endOfDirectory rounds entryP : Nat) : List Node :=
  (readFieldsWith sizeofPlain mem recordLength lengths endOfDirectory rounds entryP ()).1

/-- The same without a descriptor: the return value and the nodes. -/
def readIso2709 (mem : List UInt8) (bsize : Int) : Int × List Node :=
  let read := readIso2709With sizeofPlain mem bsize ()
  (read.1, read.2.1)

end Yaz.Marc
