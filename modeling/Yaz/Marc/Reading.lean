import Yaz.Foundation.Watched
import Yaz.Marc.Inspection

/-! Which octets `yaz_marc_read_iso2709` looks at, and the numbers that it keeps in an `int`, with a conversion descriptor or without.

The buffer is in memory with other octets behind it. There is no debugging.
-/

set_option autoImplicit false

namespace Yaz.Marc.Reading
open Yaz.Foundation
open Yaz.Comstack
open Yaz.Http (cString decimal)

/-- What the reader does: it looks at an octet at an offset of the buffer, or computes an `int`. -/
inductive Access where
  | octet (offset : Nat)
  | int (value : Int)
  deriving DecidableEq

def memory (buf : List UInt8) (beyond : Nat → UInt8) : List UInt8 := buf ++ (List.range 64).map beyond

def octets (i size : Nat) : List Access := (List.range' i size).map Access.octet

def compute (value : Int) : Watched Access Unit := .tell [.int value]

section
variable (mem : List UInt8)

/-- `buf[i]`. -/
def look (i : Nat) : Watched Access UInt8 := ⟨mem.getD i 0, [.octet i]⟩

/-- All of the octets from `i` on, as `memcpy`. -/
def copy (i size : Nat) : Watched Access (List UInt8) := ⟨(mem.drop i).take size, octets i size⟩

/-- The first pass; `none` if it has not come to an end. -/
def scanDirectory (recordLength lengthDataEntry lengthStarting : Nat) :
    (rounds : Nat) → (entryP : Nat) → Watched Access (Option (Option Nat × List Node))
  | 0, _ => pure none
  | rounds + 1, entryP => do
    let c ← look mem entryP
    if c = ISO2709_FS then return some (some entryP, [])
    else
      let l := 3 + lengthDataEntry + lengthStarting
      compute l
      compute (entryP + l)
      if recordLength ≤ entryP + l then
        return some (none,
          [marcCprintf (ascii "Directory offset " ++ decimal entryP ++ ascii ": end of record. Missing FS char")])
      else
        -- from the end on; what is not a digit is looked at again
        let digits ← copy mem (entryP + 3) (lengthDataEntry + lengthStarting)
        if digits.all isDigit then scanDirectory recordLength lengthDataEntry lengthStarting rounds (entryP + l)
        else
          let entry ← copy mem entryP l
          return some (some entryP, [marcCprintf (ascii "Directory offset " ++ decimal entryP ++
            ascii ": Bad value for data length and/or length starting (" ++ writeEscaped entry ++ ascii ")")])

def identifierFlag (indicatorLength : Nat) (tag : List UInt8) (i : Nat) : Watched Access Nat :=
  if tag.take 2 ≠ [48, 48] then pure 1
  else if indicatorLength < 4 ∧ 0 < indicatorLength then do
    compute (i + indicatorLength)
    let c ← look mem (i + indicatorLength)
    if c = ISO2709_IDFS then return 1
    else
      compute (i + indicatorLength + 1)
      let c ← look mem (i + indicatorLength + 1)
      return if c = ISO2709_IDFS then 2 else 0
  else pure 0

def keep (i : Nat) (octetsBefore : List UInt8) : Watched Access Unit := .tell (octets (i - octetsBefore.length) octetsBefore.length)

/-- The loop over the octets of a field from `i` on; there is none to look at behind the last but one. -/
def subfieldLoop : (i : Nat) → List UInt8 → (first : Bool) → (codeData : List UInt8) → Watched Access (List (List UInt8) × Nat)
  | i, [], _, codeData => do
    keep i codeData
    return (someSubfield codeData, 0)
  | i, c :: rest, first, codeData => do
    Watched.tell [.octet i]
    if isSeparator c then
      keep i codeData
      return (someSubfield codeData, 0)
    else
      Watched.tell (if c = ISO2709_IDFS ∧ rest ≠ [] then [.octet (i + 1)] else [])
      compute (i + 1)
      if c = ISO2709_IDFS ∧ startsCode rest then
        keep i codeData
        let split ← subfieldLoop (i + 1) rest false []
        return (someSubfield codeData ++ split.1, split.2 + 1)
      else
        let split ← subfieldLoop (i + 1) rest false (if first then codeData else codeData ++ [c])
        return (split.1, split.2 + 1)

def dataLoop : (i : Nat) → List UInt8 → (data : List UInt8) → Watched Access (List UInt8)
  | i, [], data => do
    keep i data
    return data
  | i, c :: rest, data => do
    Watched.tell [.octet i]
    if isSeparator c then
      keep i data
      return data
    else
      compute (i + 1)
      dataLoop (i + 1) rest (data ++ [c])

def ending (i endOffset dataLength : Nat) : Watched Access (List Node) := do
  let c ← look mem i
  return (if i < endOffset then [marcCprintf (ascii "Separator but not at end of field length=" ++ decimal dataLength)] else []) ++
    (if isSeparator c then []
     else [marcCprintf (ascii "No separator at end of field length=" ++ decimal dataLength)])

variable {C : Type} (conversion : Conversion C)

/-- `yaz_marc_sizeof_char`. -/
def sizeofChar (i : Nat) (cd : Option C) : Watched Access (Nat × Option C) :=
  let (size, looked, cd) := oneCharacter conversion cd (mem.drop i)
  ⟨(size, cd), octets i looked⟩

def indicatorEnd : (indicatorLength : Nat) → (i : Nat) → Option C → Watched Access (Nat × Option C)
  | 0, i, cd => pure (i, cd)
  | j + 1, i, cd => do
    let (size, cd) ← sizeofChar mem conversion i cd
    compute (i + size)
    indicatorEnd j (i + size) cd

def readField (indicatorLength : Nat) (tag : List UInt8) (i dataLength : Nat) (cd : Option C) : Watched Access (List Node × Option C) := do
  let endOffset := i + dataLength - 1
  let flag ← identifierFlag mem indicatorLength tag i
  if flag ≠ 0 then
    let start := i + (flag - 1)
    compute start
    let (next, cd) ← indicatorEnd mem conversion indicatorLength start cd
    let indicator ← copy mem start (next - start)
    compute (next + 1)
    let split ← subfieldLoop next ((mem.drop next).take (endOffset - next)) true []
    let comments ← ending mem (next + split.2) endOffset dataLength
    return (.datafield (cString tag) (cString indicator) split.1 :: comments, cd)
  else
    let data ← dataLoop i ((mem.drop i).take (endOffset - i)) []
    let comments ← ending mem (i + data.length) endOffset dataLength
    return (.controlfield (cString tag) (cString data) :: comments, cd)

/-- The second pass; `none` if it has not come to an end. -/
def readFields (recordLength : Nat) (lengths : Lengths) (endOfDirectory : Nat) :
    (rounds : Nat) → (entryP : Nat) → Option C → Watched Access (Option (List Node × Option C))
  | 0, _, _ => pure none
  | rounds + 1, entryP, cd =>
    if entryP = endOfDirectory then pure (some ([], cd))
    else do
      let tag ← copy mem entryP 3
      compute (entryP + 3)
      let first ← copy mem (entryP + 3) lengths.lengthDataEntry
      compute (entryP + 3 + lengths.lengthDataEntry)
      let second ← copy mem (entryP + 3 + lengths.lengthDataEntry) lengths.lengthStarting
      compute (entryP + 3 + lengths.lengthDataEntry + lengths.lengthStarting)
      let dataLength := atoiN first
      let dataOffset := atoiN second
      let i := dataOffset + lengths.baseAddress
      compute dataLength
      compute dataOffset
      compute i
      compute (i + dataLength)
      compute (i + dataLength - 1)
      let endOffset := i + dataLength - 1
      if dataLength = 0 then return some ([], cd)
      else if recordLength ≤ endOffset then
        return some ([marcCprintf (ascii "Directory offset " ++ decimal entryP ++ ascii ": Data out of bounds " ++
          decimal endOffset ++ ascii " >= " ++ decimal recordLength)], cd)
      else
        let (field, cd) ← readField mem conversion lengths.indicatorLength tag i dataLength cd
        let later ← readFields recordLength lengths endOfDirectory rounds
          (entryP + 3 + lengths.lengthDataEntry + lengths.lengthStarting) cd
        return later.map fun (nodes, cd) => (field ++ nodes, cd)

/-- `yaz_marc_read_iso2709`. -/
def readIso2709 (bsize : Int) (cd : Option C) : Watched Access (Option (Int × List Node × Option C)) := do
  let digits ← copy mem 0 5
  match atoiNCheck digits with
  | none => return some (-1, [marcCprintf (ascii "Bad leader")], cd)
  | some recordLength =>
    compute recordLength
    if recordLength < 25 then
      return some (-1, [marcCprintf (ascii "Record length " ++ decimal recordLength ++ ascii " < 24")], cd)
    else if bsize ≠ -1 ∧ bsize < recordLength then
      return some (-1, [marcCprintf (ascii "Record appears to be larger than buffer " ++ decimal recordLength ++ ascii " < " ++
        ascii (toString bsize))], cd)
    else
      let leaderC ← copy mem 0 24
      let (lengths, leader) := setLeader leaderC
      match ← scanDirectory mem recordLength lengths.lengthDataEntry lengths.lengthStarting recordLength 24 with
      | none => return none
      | some (none, comments) => return some (-1, leader ++ comments, cd)
      | some (some endOfDirectory, comments) =>
        compute (endOfDirectory + 1)
        let base :=
          if lengths.baseAddress ≠ endOfDirectory + 1 then
            [marcCprintf (ascii "Base address not at end of directory, base " ++ decimal lengths.baseAddress ++
              ascii ", end " ++ decimal (endOfDirectory + 1))]
          else []
        let fields ← readFields mem conversion recordLength lengths endOfDirectory endOfDirectory 24 cd
        return fields.map fun (nodes, cd) => (recordLength, leader ++ comments ++ base ++ nodes, cd)

variable {mem} {conversion}

/-! ### What is read -/

section
variable {α : Type}

theorem val_look (i : Nat) (f : UInt8 → Watched Access α) : (look mem i >>= f).val = (f (mem.getD i 0)).val := rfl

theorem val_copy (i size : Nat) (f : List UInt8 → Watched Access α) : (copy mem i size >>= f).val = (f ((mem.drop i).take size)).val := rfl

theorem val_ite (p : Prop) [Decidable p] (x y : Watched Access α) : (if p then x else y).val = if p then x.val else y.val := by
  split <;> rfl

end

theorem identifierFlag_val (indicatorLength : Nat) (tag : List UInt8) (i : Nat) :
    (identifierFlag mem indicatorLength tag i).val = Marc.identifierFlag mem indicatorLength tag i := by
  simp only [identifierFlag, Marc.identifierFlag, val_ite, Watched.val_bind, Watched.val_pure, ↓val_look]

theorem subfieldLoop_val (i : Nat) (octets : List UInt8) (first : Bool) (codeData : List UInt8) :
    (subfieldLoop i octets first codeData).val = splitSubfields octets first codeData := by
  induction octets generalizing i first codeData with
  | nil => rfl
  | cons _ _ ih => simp only [subfieldLoop, splitSubfields, val_ite, Watched.val_bind, Watched.val_pure, ih]

theorem dataLoop_val (i : Nat) (octets data : List UInt8) :
    (dataLoop i octets data).val = data ++ octets.takeWhile fun c => !isSeparator c := by
  induction octets generalizing i data with
  | nil => simp [dataLoop]
  | cons c _ ih =>
    simp only [dataLoop, val_ite, Watched.val_bind, Watched.val_pure, ih, List.takeWhile_cons]
    cases isSeparator c with
    | true => simp
    | false => simp

theorem ending_val (i endOffset dataLength : Nat) : (ending mem i endOffset dataLength).val = endComments mem i endOffset dataLength := rfl

theorem indicatorEnd_val (indicatorLength i : Nat) (cd : Option C) :
    (indicatorEnd mem conversion indicatorLength i cd).val = indicatorEndWith conversion.sizeofChar mem indicatorLength i cd := by
  induction indicatorLength generalizing i cd with
  | zero => rfl
  | succ _ ih => exact ih _ _

theorem readField_val (indicatorLength : Nat) (tag : List UInt8) (i dataLength : Nat) (cd : Option C) :
    (readField mem conversion indicatorLength tag i dataLength cd).val =
      readFieldWith conversion.sizeofChar mem indicatorLength tag i dataLength cd := by
  simp only [readField, readFieldWith, val_ite, Watched.val_bind, Watched.val_pure, identifierFlag_val, indicatorEnd_val, subfieldLoop_val,
    dataLoop_val, ending_val, ↓val_copy, List.nil_append]

theorem scanDirectory_val {recordLength lengthDataEntry lengthStarting rounds entryP : Nat} (inside : entryP < recordLength)
    (enough : recordLength < rounds + entryP) :
    (scanDirectory mem recordLength lengthDataEntry lengthStarting rounds entryP).val =
        some (Marc.scanDirectory mem recordLength lengthDataEntry lengthStarting rounds entryP) ∧
      ∀ endOfDirectory ∈ (Marc.scanDirectory mem recordLength lengthDataEntry lengthStarting rounds entryP).1,
        endOfDirectory < recordLength ∧ ∃ n, endOfDirectory = entryP + n * (3 + lengthDataEntry + lengthStarting) := by
  induction rounds generalizing entryP with
  | zero => omega
  | succ _ ih =>
    have here : entryP < recordLength ∧ ∃ n, entryP = entryP + n * (3 + lengthDataEntry + lengthStarting) := ⟨inside, 0, by simp⟩
    rw [scanDirectory, Marc.scanDirectory]
    simp only [val_ite, Watched.val_bind, Watched.val_pure, ↓val_look, ↓val_copy]
    by_cases found : mem.getD entryP 0 = ISO2709_FS
    · simp only [if_pos found, Option.mem_def, Option.some.injEq, forall_eq', true_and]
      exact here
    · rw [if_neg found, if_neg found]
      by_cases beyond : recordLength ≤ entryP + (3 + lengthDataEntry + lengthStarting)
      · simp [beyond]
      · rw [if_neg beyond, if_neg beyond]
        by_cases digits : ((mem.drop (entryP + 3)).take (lengthDataEntry + lengthStarting)).all isDigit = true
        · rw [if_pos digits, if_pos digits]
          obtain ⟨same, ends⟩ := @ih (entryP + (3 + lengthDataEntry + lengthStarting)) (by omega) (by omega)
          refine ⟨same, fun endOfDirectory is => ?_⟩
          obtain ⟨less, n, further⟩ := ends endOfDirectory is
          exact ⟨less, n + 1, by rw [further, Nat.succ_mul]; omega⟩
        · simp only [if_neg digits, Option.mem_def, Option.some.injEq, forall_eq', true_and]
          exact here

theorem readFields_val {recordLength : Nat} {lengths : Lengths} {endOfDirectory rounds entryP n : Nat} {cd : Option C}
    (ends : endOfDirectory = entryP + n * (3 + lengths.lengthDataEntry + lengths.lengthStarting)) (enough : n < rounds) :
    (readFields mem conversion recordLength lengths endOfDirectory rounds entryP cd).val =
      some (readFieldsWith conversion.sizeofChar mem recordLength lengths endOfDirectory rounds entryP cd) := by
  induction rounds generalizing entryP n cd with
  | zero => omega
  | succ _ ih =>
    rw [readFields, readFieldsWith]
    by_cases done : entryP = endOfDirectory
    · rw [if_pos done, if_pos done]
      rfl
    · rw [if_neg done, if_neg done]
      cases n with
      | zero => omega
      | succ n =>
        have later (cd : Option C) :=
          @ih (entryP + 3 + lengths.lengthDataEntry + lengths.lengthStarting) n cd (by rw [ends, Nat.succ_mul]; omega)
          (Nat.lt_of_succ_lt_succ enough)
        simp only [val_ite, Watched.val_bind, Watched.val_pure, ↓val_copy, readField_val, later, Option.map_some]
        split
        · rfl
        · split
          · rfl
          · rfl

theorem setLeader_take : setLeader (mem.take 24) = setLeader mem := by rw [setLeader, setLeader, List.take_take, Nat.min_self]

theorem readIso2709_val (bsize : Int) (cd : Option C) :
    (readIso2709 mem conversion bsize cd).val = some (readIso2709With conversion.sizeofChar mem bsize cd) := by
  rw [readIso2709, readIso2709With, val_copy, List.drop_zero]
  cases atoiNCheck (mem.take 5) with
  | none => rfl
  | some recordLength =>
    simp only [val_ite, Watched.val_bind, Watched.val_pure, ↓val_copy, List.drop_zero, setLeader_take]
    by_cases short : recordLength < 25
    · rw [if_pos short, if_pos short]
    · rw [if_neg short, if_neg short]
      split
      · rfl
      · have long : 24 < recordLength := by omega
        obtain ⟨same, ends⟩ := @scanDirectory_val mem recordLength (setLeader mem).1.lengthDataEntry
          (setLeader mem).1.lengthStarting recordLength 24
          long (by omega)
        rw [same]
        rcases scanned : Marc.scanDirectory mem recordLength (setLeader mem).1.lengthDataEntry
          (setLeader mem).1.lengthStarting recordLength 24 with
          ⟨_ | endOfDirectory, comments⟩
        · rfl
        · rw [scanned] at ends
          obtain ⟨_, n, is⟩ := ends endOfDirectory rfl
          have few : n < endOfDirectory := by
            have most : n * 1 ≤ n * (3 + (setLeader mem).1.lengthDataEntry + (setLeader mem).1.lengthStarting) :=
              Nat.mul_le_mul_left _ (by omega)
            omega
          simp only [Watched.val_bind, Watched.val_pure, readFields_val is few, Option.map_some]

end

end Yaz.Marc.Reading
