import Yaz.Marc.Boundaries
import Yaz.Marc.Reading

/-! `yaz_marc_read_iso2709` stays inside its buffer as long as what it looks at for indicators does. -/

set_option autoImplicit false

namespace Yaz.Marc.Reading
open List
open Yaz.Comstack (ascii)
open Yaz.Foundation
open Yaz.Foundation.Watched (All all_bind all_pure all_tell)
open Yaz.Iconv (yazReadUTF8Char)

/-- An octet that is looked at is one of the `n` octets of the buffer. -/
def Access.Within (n : Nat) : Access → Prop
  | .octet i => i < n
  | .int _ => True

/-- An `int` does not overflow. -/
def Access.Fits : Access → Prop
  | .octet _ => True
  | .int value => -2 ^ 31 ≤ value ∧ value < 2 ^ 31

/-- Octets before `n` may be looked at, and numbers computed that are not large. -/
structure Permits (P : Access → Prop) (n : Nat) : Prop where
  octet : ∀ {i : Nat}, i < n → P (.octet i)
  int : ∀ {value : Int}, -1 ≤ value → value < 2 ^ 31 → P (.int value)

theorem permits_within (n : Nat) : Permits (Access.Within n) n := ⟨id, fun _ _ => trivial⟩

theorem within_compute {n : Nat} (value : Int) : All (Access.Within n) (compute value) := fun e inside => by
  rw [mem_singleton.mp inside]
  trivial

theorem permits_fits (n : Nat) : Permits Access.Fits n := ⟨fun _ => trivial, fun least most => ⟨by omega, most⟩⟩

variable {P : Access → Prop} {n : Nat} {mem : List UInt8}

theorem forall_octets {i size : Nat} : (∀ e ∈ octets i size, P e) ↔ ∀ k < size, P (.octet (i + k)) := by
  constructor
  · intro all k less
    exact all _ (mem_map_of_mem (mem_range'_1.mpr ⟨by omega, by omega⟩))
  · intro all e inside
    obtain ⟨j, between, rfl⟩ := mem_map.mp inside
    obtain ⟨least, most⟩ := mem_range'_1.mp between
    have here := all (j - i) (by omega)
    rwa [Nat.add_sub_cancel' least] at here

theorem Permits.octets (permits : Permits P n) {i size : Nat} (inside : i + size ≤ n) : ∀ e ∈ Reading.octets i size, P e :=
  forall_octets.mpr fun _ less => permits.octet (by omega)

theorem Permits.compute (permits : Permits P n) {value : Int} (least : -1 ≤ value) (most : value < 2 ^ 31) :
    All P (Reading.compute value) := by
  intro e inside
  rw [mem_singleton.mp inside]
  exact permits.int least most

section
variable {α : Type}

theorem all_look (i : Nat) (f : UInt8 → Watched Access α) : All P (look mem i >>= f) ↔ P (.octet i) ∧ All P (f (mem.getD i 0)) := by
  rw [all_bind]
  exact and_congr_left fun _ => by simp [All, look]

theorem all_copy (i size : Nat) (f : List UInt8 → Watched Access α) :
    All P (copy mem i size >>= f) ↔ (∀ e ∈ octets i size, P e) ∧ All P (f ((mem.drop i).take size)) := all_bind _ _

end

theorem scanDirectory_all (permits : Permits P n) {recordLength lengthDataEntry lengthStarting rounds entryP : Nat}
    (whole : recordLength ≤ n)
    (few : recordLength ≤ 99999) (short : lengthDataEntry ≤ 9 ∧ lengthStarting ≤ 9) (inside : entryP < recordLength) :
    All P (scanDirectory mem recordLength lengthDataEntry lengthStarting rounds entryP) := by
  induction rounds generalizing entryP with
  | zero => exact all_pure _
  | succ _ ih =>
    rw [scanDirectory, all_look]
    refine ⟨permits.octet (by omega), ?_⟩
    split
    · exact all_pure _
    · rw [all_bind, all_bind]
      refine ⟨permits.compute (by omega) (by omega), permits.compute (by omega) (by omega), ?_⟩
      split
      · exact all_pure _
      · rw [all_copy]
        refine ⟨permits.octets (by omega), ?_⟩
        split
        · exact ih (by omega)
        · rw [all_copy]
          exact ⟨permits.octets (by omega), all_pure _⟩

variable {i : Nat}

theorem Permits.keep (permits : Permits P n) {octetsBefore : List UInt8} (inside : i ≤ n) (passed : octetsBefore.length ≤ i) :
    All P (Reading.keep i octetsBefore) := permits.octets (by omega)

theorem subfieldLoop_all (permits : Permits P n) {octets : List UInt8} {first : Bool} {codeData : List UInt8}
    (inside : i + octets.length ≤ n) (few : i + octets.length ≤ 10 ^ 6) (passed : codeData.length ≤ i) :
    All P (subfieldLoop i octets first codeData) := by
  induction octets generalizing i first codeData with
  | nil => exact (all_bind _ _).mpr ⟨permits.keep (by omega) passed, all_pure _⟩
  | cons _ rest ih =>
    rw [length_cons] at inside few
    have kept := permits.keep (Nat.le_of_lt (Nat.lt_of_lt_of_le (by omega : i < i + (rest.length + 1)) inside)) passed
    rw [subfieldLoop, all_bind]
    refine ⟨?_, ?_⟩
    · exact fun e is => mem_singleton.mp is ▸ permits.octet (by omega)
    · split
      · rw [all_bind]
        exact ⟨kept, all_pure _⟩
      · rw [all_bind, all_bind]
        refine ⟨?_, permits.compute (by omega) (by omega), ?_⟩
        · rw [all_tell]
          split
          next ahead =>
            have more := length_pos_iff.mpr ahead.2
            exact fun e is => mem_singleton.mp is ▸ permits.octet (by omega)
          · exact fun e is => absurd is not_mem_nil
        · split
          · rw [all_bind, all_bind]
            exact ⟨kept, ih (by omega) (by omega) (Nat.zero_le _), all_pure _⟩
          · rw [all_bind]
            refine ⟨ih (by omega) (by omega) ?_, all_pure _⟩
            split
            · omega
            · rw [length_append, length_singleton]
              omega

theorem dataLoop_all (permits : Permits P n) {octets data : List UInt8} (inside : i + octets.length ≤ n)
    (few : i + octets.length ≤ 10 ^ 6) (passed : data.length ≤ i) : All P (dataLoop i octets data) := by
  induction octets generalizing i data with
  | nil => exact (all_bind _ _).mpr ⟨permits.keep (by omega) passed, all_pure _⟩
  | cons _ _ ih =>
    rw [length_cons] at inside few
    rw [dataLoop, all_bind]
    refine ⟨?_, ?_⟩
    · exact fun e is => mem_singleton.mp is ▸ permits.octet (by omega)
    · split
      · rw [all_bind]
        exact ⟨permits.keep (by omega) passed, all_pure _⟩
      · rw [all_bind]
        refine ⟨permits.compute (by omega) (by omega), ih (by omega) (by omega) ?_⟩
        rw [length_append, length_singleton]
        omega

variable (buf : List UInt8)

theorem cdataOneCharacter_le : cdataOneCharacter buf ≤ 4 := by
  rw [cdataOneCharacter]
  split
  next good =>
    cases buf with
    | nil => simp [yazReadUTF8Char] at good
    | cons =>
      obtain ⟨following, size, few, -⟩ := yazReadUTF8Char_noRead good.1
      exact size.le.trans (Nat.succ_le_succ (few.trans (length_take_le _ _)))
  · decide

theorem lookedFollowing_le_self (size : Nat) (buf : List UInt8) : lookedFollowing size buf ≤ size := by
  induction size generalizing buf with
  | zero => exact Nat.zero_le _
  | succ _ ih =>
    cases buf with
    | nil => exact Nat.succ_le_succ (Nat.zero_le _)
    | cons _ rest =>
      have later := ih rest
      rw [lookedFollowing]
      split <;> omega

theorem utf8Looked_le_four : utf8Looked buf ≤ 4 := by
  cases buf with
  | nil => decide
  | cons c rest =>
    have following : utf8Following c ≤ 3 := by
      rw [utf8Following]
      split_ifs <;> decide
    have looked := lookedFollowing_le_self (utf8Following c) rest
    rw [utf8Looked]
    omega

section
variable {C : Type} (conversion : Conversion C)

theorem guessCharacter_le (rounds i : Nat) (cd : C) (buf : List UInt8) :
    (∀ size ∈ (guessCharacter conversion rounds i cd buf).1, size ≤ i + rounds - 1) ∧
      (guessCharacter conversion rounds i cd buf).2.1 ≤ i + rounds - 1 := by
  induction rounds generalizing i cd with
  | zero =>
    refine ⟨?_, Nat.zero_le _⟩
    rintro size ⟨⟩
  | succ _ ih =>
    have given : conversion.inspected cd (buf.take i) ≤ i := (conversion.given cd _).trans (length_take_le _ _)
    obtain ⟨sizes, looked⟩ := ih (i + 1) (conversion.converts cd (buf.take i)).2
    rw [guessCharacter]
    dsimp only
    split
    · refine ⟨?_, by dsimp only; omega⟩
      rintro size ⟨⟩
      omega
    · refine ⟨fun size is => (sizes size is).trans (by omega), max_le (by omega) (looked.trans (by omega))⟩

theorem oneCharacter_le (cd : Option C) (buf : List UInt8) :
    (oneCharacter conversion cd buf).1 ≤ 4 ∧ (oneCharacter conversion cd buf).2.1 ≤ 4 := by
  cases cd with
  | none => exact ⟨cdataOneCharacter_le buf, utf8Looked_le_four buf⟩
  | some cd =>
    obtain ⟨sizes, looked⟩ := guessCharacter_le conversion 4 1 cd buf
    refine ⟨?_, looked⟩
    rw [oneCharacter]
    dsimp only
    cases size : (guessCharacter conversion 4 1 cd buf).1 with
    | none => decide
    | some size' => exact sizes size' size

variable (mem)

/-- From an offset on there are `n` characters for an indicator, with what is looked at for them, and an octet behind them. -/
def IndicatorsFit (n : Nat) : (indicatorLength : Nat) → (i : Nat) → Option C → Prop
  | 0, i, _ => i < n
  | j + 1, i, cd =>
    (∀ k < (oneCharacter conversion cd (mem.drop i)).2.1, i + k < n) ∧
      IndicatorsFit n j (i + (oneCharacter conversion cd (mem.drop i)).1) (oneCharacter conversion cd (mem.drop i)).2.2

variable {conversion mem}

theorem indicatorEnd_between (indicatorLength i : Nat) (cd : Option C) :
    i ≤ (indicatorEndWith conversion.sizeofChar mem indicatorLength i cd).1 ∧
      (indicatorEndWith conversion.sizeofChar mem indicatorLength i cd).1 ≤ i + 4 * indicatorLength := by
  induction indicatorLength generalizing i cd with
  | zero => exact ⟨Nat.le_refl _, Nat.le_refl _⟩
  | succ _ ih =>
    have size := (oneCharacter_le conversion cd (mem.drop i)).1
    have later := ih (i + (oneCharacter conversion cd (mem.drop i)).1) (oneCharacter conversion cd (mem.drop i)).2.2
    exact ⟨(Nat.le_add_right _ _).trans later.1, later.2.trans (by omega)⟩

variable {indicatorLength i : Nat} {cd : Option C}

theorem indicatorEnd_all (permits : Permits P n)
    (fit : IndicatorsFit mem conversion n indicatorLength i cd) (few : i + 4 * indicatorLength ≤ 10 ^ 6) :
    All P (indicatorEnd mem conversion indicatorLength i cd) ∧ (indicatorEndWith conversion.sizeofChar mem indicatorLength i cd).1 < n := by
  induction indicatorLength generalizing i cd with
  | zero => exact ⟨all_pure _, fit⟩
  | succ _ ih =>
    have size := (oneCharacter_le conversion cd (mem.drop i)).1
    obtain ⟨all, less⟩ := ih fit.2 (by omega)
    rw [indicatorEnd, all_bind]
    refine ⟨⟨?_, (all_bind _ _).mpr ⟨?_, all⟩⟩, less⟩
    · exact forall_octets.mpr fun k looked => permits.octet (fit.1 k looked)
    · exact permits.compute (by omega) (by simp only [sizeofChar]; omega)

theorem indicatorsFit_of_all (all : All (Access.Within n) (indicatorEnd mem conversion indicatorLength i cd))
    (less : (indicatorEndWith conversion.sizeofChar mem indicatorLength i cd).1 < n) :
      IndicatorsFit mem conversion n indicatorLength i cd := by
  induction indicatorLength generalizing i cd with
  | zero => exact less
  | succ _ ih =>
    rw [indicatorEnd, all_bind, all_bind] at all
    exact ⟨forall_octets.mp all.1, ih all.2.2 less⟩

theorem indicatorsFit_far (far : i + 4 * indicatorLength < n) :
    IndicatorsFit mem conversion n indicatorLength i cd := by
  induction indicatorLength generalizing i cd with
  | zero => exact far
  | succ _ ih =>
    obtain ⟨size, looked⟩ := oneCharacter_le conversion cd (mem.drop i)
    exact ⟨fun k less => by omega, ih (by omega)⟩

variable (mem conversion)

/-- What is looked at where a field starts is in the buffer: for a field 00X the octet behind the indicators, and the next one unless that
begins a subfield; for a field with subfields what `IndicatorsFit` says. -/
def FieldFits (n indicatorLength : Nat) (tag : List UInt8) (i : Nat) (cd : Option C) : Prop :=
  if tag.take 2 ≠ [48, 48] then IndicatorsFit mem conversion n indicatorLength i cd
  else if indicatorLength < 4 ∧ 0 < indicatorLength then
    i + indicatorLength < n ∧
      if mem.getD (i + indicatorLength) 0 = ISO2709_IDFS then IndicatorsFit mem conversion n indicatorLength i cd
      else i + indicatorLength + 1 < n ∧
        (mem.getD (i + indicatorLength + 1) 0 = ISO2709_IDFS → IndicatorsFit mem conversion n indicatorLength (i + 1) cd)
  else True

def behindField (indicatorLength : Nat) (tag : List UInt8) (i : Nat) (cd : Option C) : Option C :=
  let flag := Marc.identifierFlag mem indicatorLength tag i
  if flag ≠ 0 then (indicatorEndWith conversion.sizeofChar mem indicatorLength (i + (flag - 1)) cd).2 else cd

def FieldsFit (n indicatorLength : Nat) : List (List UInt8 × Nat) → Option C → Prop
  | [], _ => True
  | (tag, i) :: fields, cd =>
    FieldFits mem conversion n indicatorLength tag i cd ∧
      FieldsFit n indicatorLength fields (behindField mem conversion indicatorLength tag i cd)

variable {mem conversion}

theorem readFieldWith_cd (indicatorLength : Nat) (tag : List UInt8) (i dataLength : Nat) (cd : Option C) :
    (readFieldWith conversion.sizeofChar mem indicatorLength tag i dataLength cd).2 =
      behindField mem conversion indicatorLength tag i cd := by
  rw [readFieldWith, behindField]
  split <;> rfl

theorem fieldFits_iff (indicatorLength : Nat) (tag : List UInt8) (i : Nat) (cd : Option C) :
    FieldFits mem conversion n indicatorLength tag i cd ↔
      All (Access.Within n) (identifierFlag mem indicatorLength tag i) ∧
        (Marc.identifierFlag mem indicatorLength tag i ≠ 0 →
          IndicatorsFit mem conversion n indicatorLength (i + (Marc.identifierFlag mem indicatorLength tag i - 1)) cd) := by
  rw [FieldFits, identifierFlag, Marc.identifierFlag]
  by_cases other : tag.take 2 ≠ [48, 48]
  · simp only [if_pos other]
    exact ⟨fun fit => ⟨all_pure _, fun _ => fit⟩, fun fit => fit.2 (by decide)⟩
  · simp only [if_neg other]
    by_cases few : indicatorLength < 4 ∧ 0 < indicatorLength
    · simp only [if_pos few]
      rw [all_bind, all_look]
      by_cases first : mem.getD (i + indicatorLength) 0 = ISO2709_IDFS
      · simp only [if_pos first]
        exact ⟨fun fit => ⟨⟨within_compute _, fit.1, all_pure _⟩, fun _ => fit.2⟩, fun fit => ⟨fit.1.2.1, fit.2 (by decide)⟩⟩
      · simp only [if_neg first]
        rw [all_bind, all_look]
        by_cases second : mem.getD (i + indicatorLength + 1) 0 = ISO2709_IDFS
        · simp only [if_pos second]
          constructor
          · exact fun fit => ⟨⟨within_compute _, fit.1, within_compute _, fit.2.1, all_pure _⟩, fun _ => fit.2.2 second⟩
          · exact fun fit => ⟨fit.1.2.1, fit.1.2.2.2.1, fun _ => fit.2 (by decide)⟩
        · simp only [if_neg second]
          constructor
          · exact fun fit => ⟨⟨within_compute _, fit.1, within_compute _, fit.2.1, all_pure _⟩, fun none => absurd rfl none⟩
          · exact fun fit => ⟨fit.1.2.1, fit.1.2.2.2.1, fun is => absurd is second⟩
    · simp only [if_neg few]
      exact ⟨fun _ => ⟨all_pure _, fun none => absurd rfl none⟩, fun _ => trivial⟩

variable {indicatorLength : Nat} {tag : List UInt8}

theorem identifierFlag_all (permits : Permits P n) (few : i ≤ 10 ^ 6)
    (within : All (Access.Within n) (identifierFlag mem indicatorLength tag i)) : All P (identifierFlag mem indicatorLength tag i) := by
  rw [identifierFlag] at within ⊢
  by_cases other : tag.take 2 ≠ [48, 48]
  · simp only [if_pos other]
    exact all_pure _
  · simp only [if_neg other] at within ⊢
    by_cases short : indicatorLength < 4 ∧ 0 < indicatorLength
    · simp only [if_pos short] at within ⊢
      rw [all_bind, all_look] at within ⊢
      refine ⟨permits.compute (by omega) (by omega), permits.octet within.2.1, ?_⟩
      have later := within.2.2
      by_cases first : mem.getD (i + indicatorLength) 0 = ISO2709_IDFS
      · simp only [if_pos first]
        exact all_pure _
      · simp only [if_neg first] at later ⊢
        rw [all_bind, all_look] at later ⊢
        exact ⟨permits.compute (by omega) (by omega), permits.octet later.2.1, all_pure _⟩
    · simp only [if_neg short]
      exact all_pure _

theorem splitSubfields_le (octets : List UInt8) (first : Bool) (codeData : List UInt8) :
    (splitSubfields octets first codeData).2 ≤ octets.length := by
  induction octets generalizing first codeData with
  | nil => exact Nat.le_refl _
  | cons _ _ ih =>
    rw [splitSubfields, length_cons]
    split
    · exact Nat.zero_le _
    · split
      · exact Nat.succ_le_succ (ih _ _)
      · exact Nat.succ_le_succ (ih _ _)

theorem ending_all (permits : Permits P n) {i endOffset dataLength : Nat} (inside : i < n) : All P (ending mem i endOffset dataLength) :=
  (all_look _ _).mpr ⟨permits.octet inside, all_pure _⟩

theorem readField_all (permits : Permits P n) {i dataLength : Nat}
    (short : indicatorLength ≤ 9) (some : 0 < dataLength) (inside : i + dataLength - 1 < n) (few : i + dataLength ≤ 10 ^ 5)
    (fit : FieldFits mem conversion n indicatorLength tag i cd) : All P (readField mem conversion indicatorLength tag i dataLength cd) := by
  obtain ⟨flagged, indicators⟩ := (fieldFits_iff indicatorLength tag i cd).mp fit
  have flagFew : Marc.identifierFlag mem indicatorLength tag i ≤ 2 := by
    rw [Marc.identifierFlag]
    split_ifs <;> decide
  rw [readField, all_bind, identifierFlag_val]
  refine ⟨identifierFlag_all permits (by omega) flagged, ?_⟩
  by_cases flag : Marc.identifierFlag mem indicatorLength tag i ≠ 0
  · rw [if_pos flag]
    obtain ⟨all, less⟩ := indicatorEnd_all permits (indicators flag) (by omega)
    obtain ⟨least, most⟩ := @indicatorEnd_between mem C conversion indicatorLength
      (i + (Marc.identifierFlag mem indicatorLength tag i - 1)) cd
    simp only [all_bind, indicatorEnd_val, subfieldLoop_val, all_pure, and_true]
    generalize indicatorEndWith conversion.sizeofChar mem indicatorLength
      (i + (Marc.identifierFlag mem indicatorLength tag i - 1)) cd = ended at all less least most ⊢
    have long : ((mem.drop ended.1).take (i + dataLength - 1 - ended.1)).length ≤ i + dataLength - 1 - ended.1 := length_take_le _ _
    have passed := splitSubfields_le ((mem.drop ended.1).take (i + dataLength - 1 - ended.1)) true []
    refine ⟨permits.compute (by omega) (by omega), all, permits.octets (by omega), permits.compute (by omega) (by omega), ?_, ?_⟩
    · exact subfieldLoop_all permits (by omega) (by omega) (Nat.zero_le _)
    · exact ending_all permits (by omega)
  · rw [if_neg flag]
    have long : ((mem.drop i).take (i + dataLength - 1 - i)).length ≤ i + dataLength - 1 - i := length_take_le _ _
    have passed : (((mem.drop i).take (i + dataLength - 1 - i)).takeWhile fun c => !isSeparator c).length ≤
        ((mem.drop i).take (i + dataLength - 1 - i)).length := ( takeWhile_prefix _).length_le
    simp only [all_bind, dataLoop_val, nil_append, all_pure, and_true]
    exact ⟨dataLoop_all permits (by omega) (by omega) (Nat.zero_le _), ending_all permits (by omega)⟩

theorem fieldFits_of_all {i dataLength : Nat}
    (all : All (Access.Within n) (readField mem conversion indicatorLength tag i dataLength cd)) :
    FieldFits mem conversion n indicatorLength tag i cd := by
  rw [readField, all_bind, identifierFlag_val] at all
  refine (fieldFits_iff indicatorLength tag i cd).mpr ⟨all.1, fun flag => ?_⟩
  have later := all.2
  rw [if_pos flag] at later
  simp only [all_bind, indicatorEnd_val, subfieldLoop_val, all_pure, and_true] at later
  obtain ⟨-, indicators, -, -, -, last⟩ := later
  have inside := ((all_look _ _).mp last).1
  exact indicatorsFit_of_all indicators (lt_of_le_of_lt (Nat.le_add_right _ _) inside)

theorem fieldFits_far (far : i + 4 * indicatorLength + 6 ≤ n) :
    FieldFits mem conversion n indicatorLength tag i cd := by
  rw [FieldFits]
  split
  · exact indicatorsFit_far (by omega)
  · split
    · refine ⟨by omega, ?_⟩
      split
      · exact indicatorsFit_far (by omega)
      · exact ⟨by omega, fun _ => indicatorsFit_far (by omega)⟩
    · trivial

/-! ### Records -/

variable (mem) in
def fieldStarts (recordLength : Nat) (lengths : Lengths) (endOfDirectory : Nat) : (rounds : Nat) → (entryP : Nat) → List (List UInt8 × Nat)
  | 0, _ => []
  | rounds + 1, entryP =>
    let dataLength := atoiN ((mem.drop (entryP + 3)).take lengths.lengthDataEntry)
    let i := atoiN ((mem.drop (entryP + 3 + lengths.lengthDataEntry)).take lengths.lengthStarting) + lengths.baseAddress
    if entryP = endOfDirectory ∨ dataLength = 0 ∨ recordLength ≤ i + dataLength - 1 then []
    else
      ((mem.drop entryP).take 3, i) ::
        fieldStarts recordLength lengths endOfDirectory rounds (entryP + 3 + lengths.lengthDataEntry + lengths.lengthStarting)

variable (mem) in
def recordFields (bsize : Int) : Nat × List (List UInt8 × Nat) :=
  match atoiNCheck (mem.take 5) with
  | none => (0, [])
  | some recordLength =>
    if recordLength < 25 ∨ bsize ≠ -1 ∧ bsize < recordLength then (0, [])
    else
      let lengths := (setLeader mem).1
      match (Marc.scanDirectory mem recordLength lengths.lengthDataEntry lengths.lengthStarting recordLength 24).1 with
      | none => (0, [])
      | some endOfDirectory => (lengths.indicatorLength, fieldStarts mem recordLength lengths endOfDirectory endOfDirectory 24)

theorem atoiN_lt : atoiN buf < 10 ^ buf.length := by
  rw [atoiN]
  cases is : atoiNCheck buf with
  | none => exact Nat.pow_pos (by decide)
  | some => exact atoiNCheck_lt is

theorem atoiN_take_lt {octets : List UInt8} {size : Nat} (short : size ≤ 9) : atoiN (octets.take size) < 10 ^ 9 :=
  (atoiN_lt _).trans_le (Nat.pow_le_pow_right (by decide) ((length_take_le _ _).trans short))

/-- What the leader says of the lengths of an entry, and where the data is at most. -/
structure SmallLengths (lengths : Lengths) : Prop where
  indicator : lengths.indicatorLength ≤ 9
  entry : lengths.lengthDataEntry ≤ 9
  starting : lengths.lengthStarting ≤ 9
  base : lengths.baseAddress < 10 ^ 5

theorem readFields_all (permits : Permits P n) {recordLength : Nat} {lengths : Lengths} (small : SmallLengths lengths)
    (whole : recordLength ≤ n) (few : recordLength ≤ 99999) {endOfDirectory rounds entryP rest : Nat} {cd : Option C}
    (ends : endOfDirectory = entryP + rest * (3 + lengths.lengthDataEntry + lengths.lengthStarting))
      (inside : endOfDirectory < recordLength)
    (fit : FieldsFit mem conversion n lengths.indicatorLength (fieldStarts mem recordLength lengths endOfDirectory rounds entryP) cd) :
    All P (readFields mem conversion recordLength lengths endOfDirectory rounds entryP cd) := by
  obtain ⟨indicatorFew, entryFew, startingFew, baseFew⟩ := small
  -- over the entries: each is in front of `endOfDirectory`, a whole number of them away
  induction rounds generalizing entryP rest cd with
  | zero => exact all_pure _
  | succ _ ih =>
    rw [readFields]
    by_cases done : entryP = endOfDirectory
    · rw [if_pos done]
      exact all_pure _
    · rw [if_neg done]
      obtain ⟨rest, rfl⟩ : ∃ k, rest = k + 1 := Nat.exists_eq_succ_of_ne_zero (by rintro rfl; omega)
      rw [Nat.succ_mul] at ends
      have lengthFew := @atoiN_take_lt (mem.drop (entryP + 3)) _ entryFew
      have offsetFew := @atoiN_take_lt (mem.drop (entryP + 3 + lengths.lengthDataEntry)) _ startingFew
      rw [fieldStarts] at fit
      simp only [all_bind, ↓all_copy]
      generalize atoiN ((mem.drop (entryP + 3)).take lengths.lengthDataEntry) = dataLength at lengthFew fit ⊢
      generalize atoiN ((mem.drop (entryP + 3 + lengths.lengthDataEntry)).take lengths.lengthStarting) = dataOffset at offsetFew fit ⊢
      refine ⟨permits.octets (by omega), permits.compute (by omega) (by omega), permits.octets (by omega),
        permits.compute (by omega) (by omega),
        permits.octets (by omega), permits.compute (by omega) (by omega), permits.compute (by omega) (by omega),
        permits.compute (by omega) (by omega), permits.compute (by omega) (by omega), permits.compute (by omega) (by omega),
        permits.compute (by omega) (by omega), ?_⟩
      by_cases empty : dataLength = 0
      · rw [if_pos empty]
        exact all_pure _
      · rw [if_neg empty]
        -- behind this check the last octet of the field is in the record
        by_cases beyond : recordLength ≤ dataOffset + lengths.baseAddress + dataLength - 1
        · rw [if_pos beyond]
          exact all_pure _
        · rw [if_neg (by simp [done, empty, beyond])] at fit
          rw [if_neg beyond]
          simp only [all_bind, readField_val, readFieldWith_cd, all_pure, and_true]
          refine ⟨readField_all permits indicatorFew (by omega) (by omega) (by omega) fit.1, ?_⟩
          exact @ih _ rest _ (by rw [ends]; omega) fit.2

theorem fieldsFit_of_all {recordLength : Nat} {lengths : Lengths} {endOfDirectory rounds entryP : Nat}
    (all : All (Access.Within n) (readFields mem conversion recordLength lengths endOfDirectory rounds entryP cd)) :
    FieldsFit mem conversion n lengths.indicatorLength (fieldStarts mem recordLength lengths endOfDirectory rounds entryP) cd := by
  induction rounds generalizing entryP cd with
  | zero => trivial
  | succ _ ih =>
    rw [readFields] at all
    rw [fieldStarts]
    split
    · trivial
    next goesOn =>
      obtain ⟨notDone, notEmpty, notBeyond⟩ := by simpa only [not_or] using goesOn
      rw [if_neg notDone] at all
      simp only [all_bind, ↓all_copy] at all
      obtain ⟨-, -, -, -, -, -, -, -, -, -, -, field⟩ := all
      rw [if_neg notEmpty, if_neg notBeyond] at field
      simp only [all_bind, readField_val, readFieldWith_cd, all_pure, and_true] at field
      exact ⟨fieldFits_of_all field.1, ih field.2⟩

theorem fieldsFit_far {recordLength : Nat} {lengths : Lengths} (small : SmallLengths lengths)
    {endOfDirectory rounds entryP : Nat} (far : recordLength + 42 ≤ n) :
    FieldsFit mem conversion n lengths.indicatorLength (fieldStarts mem recordLength lengths endOfDirectory rounds entryP) cd := by
  have few := small.indicator
  induction rounds generalizing entryP cd with
  | zero => trivial
  | succ _ ih =>
    rw [fieldStarts]
    split
    · trivial
    next goesOn => exact ⟨fieldFits_far (by omega), ih⟩

theorem number_lt (check : LeaderCheck) (offset : Nat) {size : Nat} (least : Nat) {assumed : Nat} (digit : Option UInt8) (text : String)
    (small : assumed < 10 ^ size) : (check.number offset size least assumed digit text).1 < 10 ^ size := by
  rw [LeaderCheck.number]
  split
  next value is =>
    split
    · exact (atoiNCheck_lt is).trans_le (Nat.pow_le_pow_right (by decide) (length_take_le _ _))
    · exact small
  · exact small

theorem setLeader_small (leaderC : List UInt8) : SmallLengths (setLeader leaderC).1 := by
  obtain ⟨entry, starting⟩ := setLeader_le leaderC
  refine ⟨setLeader_indicatorLength_le leaderC, entry, starting, ?_⟩
  rw [setLeader]
  apply number_lt
  decide

theorem readIso2709_all (permits : Permits P n) {bsize : Nat} (enough : 5 ≤ bsize) (within : bsize ≤ n)
    (fit : FieldsFit mem conversion n (recordFields mem bsize).1 (recordFields mem bsize).2 cd) :
    All P (readIso2709 mem conversion bsize cd) := by
  rw [readIso2709, all_copy, drop_zero]
  refine ⟨permits.octets (by omega), ?_⟩
  rw [recordFields] at fit
  cases length : atoiNCheck (mem.take 5) with
  | none => exact all_pure _
  | some recordLength =>
    have few := atoiNCheck_lt length
    have five : 10 ^ (mem.take 5).length ≤ 10 ^ 5 := Nat.pow_le_pow_right (by decide) (length_take_le _ _)
    rw [length] at fit
    dsimp only at fit ⊢
    rw [all_bind]
    refine ⟨permits.compute (by omega) (by omega), ?_⟩
    by_cases short : recordLength < 25
    · rw [if_pos short]
      exact all_pure _
    · rw [if_neg short]
      by_cases larger : (bsize : Int) ≠ -1 ∧ (bsize : Int) < recordLength
      · rw [if_pos larger]
        exact all_pure _
      -- the record is in memory; the numbers of the new leader are digits
      · have fits : recordLength ≤ bsize := by omega
        rw [if_neg larger, all_copy, drop_zero, setLeader_take]
        rw [if_neg (not_or.mpr ⟨short, larger⟩)] at fit
        have small := setLeader_small mem
        obtain ⟨same, ends⟩ := @scanDirectory_val mem recordLength (setLeader mem).1.lengthDataEntry
          (setLeader mem).1.lengthStarting recordLength 24
          (by omega) (by omega)
        refine ⟨permits.octets (by omega), ?_⟩
        rw [all_bind, same]
        refine ⟨scanDirectory_all permits (by omega) (by omega) ⟨small.entry, small.starting⟩ (by omega), ?_⟩
        rcases scanned : Marc.scanDirectory mem recordLength (setLeader mem).1.lengthDataEntry
          (setLeader mem).1.lengthStarting recordLength 24 with
          ⟨_ | endOfDirectory, comments⟩
        · exact all_pure _
        · rw [scanned] at ends fit
          obtain ⟨inside, entries, is⟩ := ends endOfDirectory rfl
          dsimp only at fit ⊢
          simp only [all_bind, all_pure, and_true]
          exact ⟨permits.compute (by omega) (by omega), readFields_all permits small (by omega) (by omega) is inside fit⟩

theorem recordFields_fit_of_all {bsize : Nat} (all : All (Access.Within n) (readIso2709 mem conversion bsize cd)) :
    FieldsFit mem conversion n (recordFields mem bsize).1 (recordFields mem bsize).2 cd := by
  rw [readIso2709, all_copy, drop_zero] at all
  have later := all.2
  rw [recordFields]
  cases length : atoiNCheck (mem.take 5) with
  | none => trivial
  | some recordLength =>
    rw [length] at later
    dsimp only at later ⊢
    rw [all_bind] at later
    by_cases stop : recordLength < 25 ∨ (bsize : Int) ≠ -1 ∧ (bsize : Int) < recordLength
    · rw [if_pos stop]
      trivial
    · obtain ⟨long, fits⟩ := not_or.mp stop
      rw [if_neg stop]
      have rest := later.2
      rw [if_neg long, if_neg fits, all_copy, drop_zero, setLeader_take] at rest
      have scan := rest.2
      obtain ⟨same, -⟩ := @scanDirectory_val mem recordLength (setLeader mem).1.lengthDataEntry
        (setLeader mem).1.lengthStarting recordLength 24
        (by omega) (by omega)
      rw [all_bind, same] at scan
      rcases scanned : Marc.scanDirectory mem recordLength (setLeader mem).1.lengthDataEntry
        (setLeader mem).1.lengthStarting recordLength 24 with
        ⟨_ | endOfDirectory, comments⟩
      · trivial
      · have fields := scan.2
        rw [scanned] at fields
        rw [all_bind, all_bind] at fields
        have fit : FieldsFit mem conversion n (setLeader mem).1.indicatorLength
            (fieldStarts mem recordLength (setLeader mem).1 endOfDirectory endOfDirectory 24) cd := fieldsFit_of_all fields.2.1
        dsimp only
        exact fit

theorem recordFields_fit_far {bsize : Nat} (far : bsize + 42 ≤ n) :
    FieldsFit mem conversion n (recordFields mem bsize).1 (recordFields mem bsize).2 cd := by
  rw [recordFields]
  split
  · trivial
  · split
    · trivial
    next recordLength _ goesOn =>
      have fit (endOfDirectory : Nat) : FieldsFit mem conversion n (setLeader mem).1.indicatorLength
          (fieldStarts mem recordLength (setLeader mem).1 endOfDirectory endOfDirectory 24) cd :=
            fieldsFit_far (setLeader_small mem) (by omega)
      dsimp only
      split
      · trivial
      next endOfDirectory _ =>
        dsimp only
        exact fit endOfDirectory

end

/-- The reader comes to an end and no `int` overflows. It stays inside the buffer exactly if what it looks at where a field
starts is there. -/
theorem readIso2709_staysInside_iff {C : Type} (conversion : Conversion C) (buf : List UInt8) (beyond : Nat → UInt8)
    (enough : 5 ≤ buf.length)
    (cd : Option C) :
    (readIso2709 (memory buf beyond) conversion buf.length cd).val =
        some (readIso2709With conversion.sizeofChar (memory buf beyond) buf.length cd) ∧
      All Access.Fits (readIso2709 (memory buf beyond) conversion buf.length cd) ∧
      (All (Access.Within buf.length) (readIso2709 (memory buf beyond) conversion buf.length cd) ↔
        FieldsFit (memory buf beyond) conversion buf.length (recordFields (memory buf beyond) buf.length).1
          (recordFields (memory buf beyond) buf.length).2 cd) := by
  have far : FieldsFit (memory buf beyond) conversion (buf.length + 42) (recordFields (memory buf beyond) buf.length).1
      (recordFields (memory buf beyond) buf.length).2 cd := recordFields_fit_far (Nat.le_refl _)
  refine ⟨readIso2709_val _ _, readIso2709_all (permits_fits _) enough (by omega) far, ?_⟩
  constructor
  · exact fun all => recordFields_fit_of_all all
  · exact fun fit => readIso2709_all (permits_within _) enough (Nat.le_refl _) fit

def controlRecord (recordLength dataLength : String) (data : List UInt8) : List UInt8 :=
  ascii recordLength ++ ascii "nam  2200037   4500" ++ ascii "001" ++ ascii dataLength ++
    ascii "00000" ++ [ISO2709_FS] ++ data ++ [ISO2709_FS, ISO2709_RS]

theorem readIso2709_staysInside_short :
    All (Access.Within 44) (readIso2709 (memory shortRecord fun _ => 0) plainConversion 44 none) := by
  have inside := readIso2709_staysInside_iff plainConversion shortRecord (fun _ => 0) (by decide) none
  have fields : recordFields (memory shortRecord fun _ => 0) (44 : Nat) = (2, [(ascii "245", 37)]) := by decide
  refine inside.2.2.mpr ?_
  have length : shortRecord.length = 44 := by decide
  rw [length, fields]
  refine ⟨?_, trivial⟩
  rw [FieldFits, if_pos (by decide)]
  exact ⟨by decide, by decide, show 39 < 44 by decide⟩

/-- A field 001 without an octet is the last in its record: the octet behind the record is looked at for indicators. -/
theorem readIso2709_outside :
    (controlRecord "00039" "0001" []).length = 39 ∧
      Access.octet 39 ∈ (readIso2709 (memory (controlRecord "00039" "0001" []) fun _ => 0) plainConversion 39 none).events := by
  decide +kernel

end Yaz.Marc.Reading
