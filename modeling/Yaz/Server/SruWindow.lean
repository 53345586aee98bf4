import Yaz.Server.Records

/-! The records of an SRU search: `srw_bend_search` from the number of hits on.

Positions and counts of the request and the hits have 64 bits, those of the loop are of type `int`; a sum that does not fit an `int` leaves
the run undefined.
-/

set_option autoImplicit false

namespace Yaz.Server

/-- What `retrieve_fetch` leaves of `bend_fetch_rr`. -/
structure SruFetched where
  errcode : Int
  surrogateFlag : Bool
  record : Option (List UInt8)
  len : Int
  lastInSet : Bool
  deriving DecidableEq

/-- What `srw_bend_fetch` returns, and leaves in the record of the response. -/
structure SruRecord where
  errcode : Int
  hasData : Bool
  lastInSet : Bool
  deriving DecidableEq

/-- `srw_bend_fetch`; a surrogate diagnostic is a record. -/
def srwBendFetch (bendFetch : Option (Int → SruFetched)) (pos : Int) : SruRecord :=
  match bendFetch with
  | none => { errcode := 1, hasData := false, lastInSet := false }
  | some bendFetch =>
    let rr := bendFetch pos
    if rr.errcode ≠ 0 ∧ rr.surrogateFlag = true then { errcode := 0, hasData := true, lastInSet := rr.lastInSet }
    else { errcode := rr.errcode, hasData := 0 ≤ rr.len ∧ rr.record.isSome, lastInSet := rr.lastInSet }

/-- A sum of two numbers of type `int`. -/
def addInt (a b : Int) : Option Int := if -2 ^ 31 ≤ a + b ∧ a + b ≤ intMax then some (a + b) else none

/-- What becomes of the records: the slots of `records` and of `extra_records`, and how many of them are used; the positions that are
fetched and the slots that are stored to are a log. -/
structure SruRecords where
  slots : Nat := 0
  numRecords : Nat := 0
  fetched : List Int := []
  stored : List Nat := []
  deriving DecidableEq

def SruRecords.behind (records : SruRecords) (pos : Int) (slot : Nat) : SruRecords :=
  { records with fetched := pos :: records.fetched, stored := slot :: records.stored }

section
variable (bendFetch : Option (Int → SruFetched)) (start : Int)

/-- The loop over the records; `left` of them are to be fetched. -/
def fetchLoop (slots : Nat) : (left i j : Nat) → Option SruRecords
  | 0, _, j => some { slots, numRecords := j }
  | left + 1, i, j =>
    (addInt i start).bind fun pos =>
      let fetched := srwBendFetch bendFetch pos
      let j' := if fetched.hasData then j + 1 else j
      if fetched.errcode ≠ 0 then some ({ slots, numRecords := j : SruRecords }.behind pos j)
      else if fetched.lastInSet then some ({ slots, numRecords := j' : SruRecords }.behind pos j)
      else (fetchLoop slots left (i + 1) j').map fun records => records.behind pos j

end

/-- The handlers of a backend; `bend_present` is given a position and a number and returns a code. -/
structure SruBackend where
  bendPresent : Option (Int → Int → Int)
  bendFetch : Option (Int → SruFetched)

structure SruRequest where
  startRecord : Option Int
  maximumRecords : Option Int
  deriving DecidableEq

/-- The number of records, cut where `start + number` goes beyond the hits. -/
def cutNumber (hits start number : Int) : Option Int :=
  (addInt start number).bind fun sum =>
    if hits < sum then (addInt (odrIntToInt hits) (-start)).bind fun left => addInt left 1 else some number

/-- `bend_present`, and the loop if it returns no error. -/
def presentAndFetch (backend : SruBackend) (start number : Int) : Option (Except Int SruRecords) :=
  let errcode := backend.bendPresent.elim 0 fun bendPresent => bendPresent start number
  if errcode ≠ 0 then some (.error errcode)
  else (fetchLoop backend.bendFetch start number.toNat number.toNat 0 0).map .ok

/-- The part of `srw_bend_search` behind a search without an error: what becomes of the records, or the code of `bend_present`. -/
def srwBendSearch (backend : SruBackend) (hits : Int) (srwReq : SruRequest) : Option (Except Int SruRecords) :=
  let number := srwReq.maximumRecords.elim 0 odrIntToInt
  let start := srwReq.startRecord.elim 1 odrIntToInt
  if hits < start ∨ start < 1 then some (.ok {})
  else if 0 < number then (cutNumber hits start number).bind (presentAndFetch backend start)
  else some (.ok {})

/-! ### The window -/

def positionsFrom : Int → Nat → List Int
  | _, 0 => []
  | pos, left + 1 => pos :: positionsFrom (pos + 1) left

theorem positionsFrom_length (pos : Int) (left : Nat) : (positionsFrom pos left).length = left := by
  induction left generalizing pos with
  | zero => rfl
  | succ _ ih => rw [positionsFrom, List.length_cons, ih]

def untilStop (bendFetch : Option (Int → SruFetched)) : List Int → List Int
  | [] => []
  | pos :: rest =>
    let fetched := srwBendFetch bendFetch pos
    if fetched.errcode ≠ 0 ∨ fetched.lastInSet = true then [pos] else pos :: untilStop bendFetch rest

/-- The positions from `start` to the smaller of `start + maximumRecords - 1` and `hits`. -/
def sruWindow (start maximumRecords hits : Int) : List Int :=
  positionsFrom start (min (start + maximumRecords - 1) hits - start + 1).toNat

structure Windowed (bendFetch : Option (Int → SruFetched)) (window : List Int) (records : SruRecords) : Prop where
  fetched : records.fetched = untilStop bendFetch window
  slots : records.slots = window.length
  stored : ∀ slot ∈ records.stored, slot < records.slots

/-- A search without an error is defined, and has the records of its window if `bend_present` returns no error. -/
def ServesWindow (backend : SruBackend) (hits : Int) (srwReq : SruRequest) : Prop :=
  ∃ served, srwBendSearch backend hits srwReq = some served ∧ ∀ records, served = .ok records →
    Windowed backend.bendFetch (sruWindow (srwReq.startRecord.getD 1) (srwReq.maximumRecords.getD 0) hits) records

section
variable {bendFetch : Option (Int → SruFetched)} {start : Int}

theorem addInt_eq {a b : Int} (low : -2 ^ 31 ≤ a + b) (high : a + b ≤ intMax) : addInt a b = some (a + b) := if_pos ⟨low, high⟩

theorem fetchLoop_windowed (slots : Nat) (left i j : Nat) (positive : 1 ≤ start) (fits : i + start + left - 1 ≤ intMax) (used : j ≤ i) :
    ∃ records, fetchLoop bendFetch start slots left i j = some records ∧ records.slots = slots ∧
      records.fetched = untilStop bendFetch (positionsFrom (i + start) left) ∧ ∀ slot ∈ records.stored, slot < i + left := by
  induction left generalizing i j with
  | zero => exact ⟨_, rfl, rfl, rfl, fun slot none => nomatch none⟩
  | succ _ ih =>
    have sum : addInt i start = some (i + start) := addInt_eq (by omega) (by omega)
    rw [fetchLoop, sum, Option.bind_some, positionsFrom, untilStop]
    by_cases failed : (srwBendFetch bendFetch (i + start)).errcode ≠ 0
    · rw [if_pos failed, if_pos (Or.inl failed)]
      refine ⟨_, rfl, rfl, rfl, ?_⟩
      intro slot stored
      rw [List.mem_singleton.mp stored]
      omega
    · rw [if_neg failed]
      by_cases last : (srwBendFetch bendFetch (i + start)).lastInSet = true
      · rw [if_pos last, if_pos (Or.inr last)]
        refine ⟨_, rfl, rfl, rfl, ?_⟩
        intro slot stored
        rw [List.mem_singleton.mp stored]
        omega
      · rw [if_neg last, if_neg (not_or.mpr ⟨failed, last⟩)]
        obtain ⟨records, run, same, fetched, stored⟩ := ih (i + 1) (if (srwBendFetch bendFetch (i + start)).hasData then j + 1 else j)
          (by push_cast; omega) (by split <;> omega)
        rw [run]
        refine ⟨_, rfl, same, ?_, ?_⟩
        · have next : ((i + 1 : Nat) : Int) + start = i + start + 1 := by omega
          change (i + start) :: records.fetched = _
          rw [fetched, next]
        · intro slot inside
          rcases List.mem_cons.mp inside with rfl | inside
          · omega
          · have bound := stored slot inside
            omega

end

structure SruRequest.Valid (srwReq : SruRequest) : Prop where
  start : 1 ≤ srwReq.startRecord.getD 1
  maximum : 0 ≤ srwReq.maximumRecords.getD 0

/-- The window is empty from the start, nothing is asked for, or the position behind the last one asked for is an `int`. -/
def SruRequest.InRange (srwReq : SruRequest) (hits : Int) : Prop :=
  hits < min (srwReq.startRecord.getD 1) intMax ∨ srwReq.maximumRecords.getD 0 = 0 ∨
    srwReq.startRecord.getD 1 + srwReq.maximumRecords.getD 0 ≤ intMax

instance (srwReq : SruRequest) (hits : Int) : Decidable (srwReq.InRange hits) := inferInstanceAs (Decidable (_ ∨ _))

theorem odrIntToInt_min {v : Int} (positive : 0 ≤ v) : odrIntToInt v = min v intMax := by
  rw [odrIntToInt, intMax]
  split_ifs <;> omega

theorem elim_odrIntToInt (numeral : Option Int) {absent : Int} (same : odrIntToInt absent = absent) :
    numeral.elim absent odrIntToInt = odrIntToInt (numeral.getD absent) := by
  cases numeral with
  | none => exact same.symm
  | some => rfl

theorem windowed_empty {bendFetch : Option (Int → SruFetched)} {start maximum hits : Int} (empty : hits < start ∨ maximum = 0) :
    Windowed bendFetch (sruWindow start maximum hits) {} := by
  have none : (min (start + maximum - 1) hits - start + 1).toNat = 0 := by omega
  rw [sruWindow, none]
  exact ⟨rfl, rfl, fun slot inside => nomatch inside⟩

theorem cutNumber_window {hits start number : Int} (positive : 1 ≤ start) (within : start ≤ hits) (asked : 0 < number)
    (fits : start + number ≤ intMax) : cutNumber hits start number = some (min (start + number - 1) hits - start + 1) := by
  rw [cutNumber, addInt_eq (by omega) fits, Option.bind_some]
  split_ifs with beyond
  · have clamped : odrIntToInt hits = hits := by rw [odrIntToInt_min (by omega)]; omega
    rw [clamped, addInt_eq (by omega) (by omega), Option.bind_some, addInt_eq (by omega) (by omega)]
    congr 1
    omega
  · congr 1
    omega

theorem presentAndFetch_window {backend : SruBackend} {start number : Int} (positive : 1 ≤ start) (fits : start + number - 1 ≤ intMax)
    (asked : 0 ≤ number) : ∃ served, presentAndFetch backend start number = some served ∧
      ∀ records, served = .ok records → Windowed backend.bendFetch (positionsFrom start number.toNat) records := by
  rw [presentAndFetch]
  split_ifs
  · exact ⟨_, rfl, fun records impossible => nomatch impossible⟩
  · obtain ⟨records, run, slots, fetched, stored⟩ := @fetchLoop_windowed backend.bendFetch start number.toNat number.toNat 0 0 positive
      (by push_cast; omega) le_rfl
    rw [run]
    refine ⟨_, rfl, ?_⟩
    rintro found ⟨⟩
    rw [Nat.cast_zero, zero_add] at fetched
    refine ⟨fetched, by rw [slots, positionsFrom_length], ?_⟩
    intro slot inside
    have bound := stored slot inside
    omega

/-- Which searches have the records of their windows. -/
theorem servesWindow_iff {backend : SruBackend} {hits : Int} {srwReq : SruRequest} (valid : srwReq.Valid) :
    ServesWindow backend hits srwReq ↔ srwReq.InRange hits := by
  obtain ⟨start, maximum⟩ := valid
  rw [ServesWindow, SruRequest.InRange, srwBendSearch, elim_odrIntToInt _ rfl, elim_odrIntToInt _ rfl]
  generalize srwReq.startRecord.getD 1 = s at *
  generalize srwReq.maximumRecords.getD 0 = m at *
  rw [odrIntToInt_min (by omega : 0 ≤ s), odrIntToInt_min maximum]
  have wide : (0 : Int) < intMax := by decide
  by_cases behind : hits < min s intMax
  · rw [if_pos (Or.inl behind)]
    refine iff_of_true ⟨_, rfl, ?_⟩ (Or.inl behind)
    rintro records ⟨⟩
    exact windowed_empty (Or.inl (by omega))
  · rw [if_neg (by omega)]
    by_cases nothing : m = 0
    · rw [if_neg (by omega)]
      refine iff_of_true ⟨_, rfl, ?_⟩ (Or.inr (Or.inl nothing))
      rintro records ⟨⟩
      exact windowed_empty (Or.inr nothing)
    · rw [if_pos (by omega)]
      by_cases fits : s + m ≤ intMax
      · have unclamped : min s intMax = s ∧ min m intMax = m := by omega
        rw [unclamped.1, unclamped.2, cutNumber_window start (by omega) (by omega) fits, Option.bind_some]
        exact iff_of_true (presentAndFetch_window start (by omega) (by omega)) (Or.inr (Or.inr fits))
      · -- the sum goes beyond `INT_MAX`, clamped or not
        have overflow : cutNumber hits (min s intMax) (min m intMax) = none := by
          rw [cutNumber, addInt, if_neg (by omega), Option.bind_none]
        rw [overflow, Option.bind_none]
        refine iff_of_false ?_ (by omega)
        rintro ⟨served, impossible, -⟩
        cases impossible

/-- Ten records from the second on, of a backend with three, the last of which says so. -/
theorem servesWindow_three :
    ServesWindow { bendPresent := none, bendFetch := some fun pos =>
        { errcode := 0, surrogateFlag := false, record := some [60], len := 1, lastInSet := pos = 3 } } 3
      { startRecord := some 2, maximumRecords := some 10 } :=
  (servesWindow_iff ⟨by decide, by decide⟩).mpr (by decide)

/-- One hit, and as many records as an `int` holds from the first on: the sum of both is beyond it. -/
theorem maximumRecords_overflows :
    ¬ ServesWindow { bendPresent := none, bendFetch := none } 1 { startRecord := some 1, maximumRecords := some (2 ^ 31 - 1) } := by
  rintro ⟨served, run, -⟩
  have overflow : srwBendSearch { bendPresent := none, bendFetch := none } 1
      { startRecord := some 1, maximumRecords := some (2 ^ 31 - 1) } = none := by decide
  rw [overflow] at run
  cases run

end Yaz.Server
