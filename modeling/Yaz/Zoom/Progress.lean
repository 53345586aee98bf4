import Yaz.Foundation.Exchanges
import Yaz.Zoom.Retrieval
import Yaz.Zoom.Sru

/-! A search task does not send requests for ever, whatever the server answers.

For Z39.50 a present response lowers the count of the task or leaves nothing of it, and no other response raises it. For SRU the
same is true of each response that serves something.
-/

set_option autoImplicit false

namespace Yaz.Zoom
open Yaz.Server Yaz.Foundation

section
variable {R : Type}

/-- The ends of what a task wants are in the range of an `int`. -/
structure Search.InInts (task : Search R) : Prop where
  start : -2 ^ 31 ≤ task.start ∧ task.start ≤ intMax
  count : -2 ^ 31 ≤ task.count ∧ task.count ≤ intMax
  sum : -2 ^ 31 ≤ task.start + task.count ∧ task.start + task.count ≤ intMax
  size : 0 ≤ task.resultset.size

/-! ### Z39.50 -/

def Sent.request : Sent → Option Request
  | .pending request => some request
  | _ => none

def z3950Client (R : Type) : Client (Search R × Int × Sent) (Received R) Request where
  waiting state := state.2.2.request
  receive state response := state.1.receive state.2.1 response

def ReceivedRecords.list : Option (ReceivedRecords R) → List (NamePlusRecord R)
  | some (.databaseOrSurDiagnostics list) => list
  | _ => []

/-- A hit count is no negative number, and a list has a length that is an `int`. -/
def Received.WellFormed : Received R → Prop
  | .search resultCount records => 0 ≤ resultCount ∧ ((ReceivedRecords.list records).length : Int) ≤ intMax
  | .sort _ => True
  | .present records => ((ReceivedRecords.list records).length : Int) ≤ intMax

def Received.answers : Received R → Request → Bool
  | .search _ _, .search _ => true
  | .sort _, .sort => true
  | .present _, .present _ => true
  | _, _ => false

def Received.diagnoses : Received R → Bool
  | .search _ (some (.databaseOrSurDiagnostics _)) => false
  | .present (some (.databaseOrSurDiagnostics _)) => false
  | .search _ none => false
  | .present none => false
  | .sort [] => false
  | _ => true

def idle (exchange : (Search R × Int × Sent) × Received R) : Bool :=
  match exchange.2 with
  | .present _ => !(exchange.1.2.2.request.any fun request => exchange.2.answers request)
  | .search _ records => !exchange.2.diagnoses && ((ReceivedRecords.list records).isEmpty || exchange.1.1.count = 0)
  | .sort _ => !exchange.2.diagnoses

def Request.phase : Request → Nat
  | .search _ => 2
  | .sort => 1
  | .present _ => 0

theorem Request.phase_le (request : Request) : request.phase ≤ 2 := by
  cases request with
  | search => exact Nat.le_refl 2
  | sort => exact Nat.le_succ 1
  | present => exact Nat.zero_le 2

/-- A task that can be fetched; a `start` that has overflowed belongs to one that wants nothing. -/
structure Search.Fits (task : Search R) : Prop where
  low : -2 ^ 31 ≤ task.start
  start : task.start < 0 → task.count = 0
  count : 0 ≤ task.count
  sum : task.start + task.count ≤ intMax
  size : 0 ≤ task.resultset.size

def Request.Due (task : Search R) : Request → Prop
  | .search _ => True
  | .sort => task.resultset.liveSet = .realSet
  | .present _ => task.resultset.liveSet = .realSet ∧ 0 < task.count ∧ task.start < task.resultset.size

def Kept (state : Search R × Int × Sent) : Prop :=
  state.2.2 ≠ .aborted ∧ ∀ request, state.2.2.request = some request → state.1.Fits ∧ request.Due state.1

structure Sends (task : Search R) (phase : Nat) (state : Search R × Int × Sent) : Prop where
  kept : Kept state
  settled : state.2.2 = .complete → state.2.1 ≠ 0 ∨ state.1.count = 0
  atMost : ∀ request, state.2.2.request = some request →
    state.1.count ≤ task.count ∧ (task.resultset.liveSet = .realSet → request.phase ≤ phase)

variable {task : Search R} {error : Int}

theorem int32_range (v : Int) : -2 ^ 31 ≤ int32 v ∧ int32 v ≤ intMax := by
  rw [int32, intMax]
  omega

theorem cachedNext_le (cache : Cache R) (format : Format) (start : Int) (count : Nat) : cachedNext cache format start count ≤ count := by
  induction count generalizing start with
  | zero => exact Nat.le_refl 0
  | succ _ ih =>
    rw [cachedNext]
    split
    · exact Nat.succ_le_succ (ih (start + 1))
    · exact Nat.zero_le _

theorem Search.skipped_spec (low : -2 ^ 31 ≤ task.start) (small : task.start ≤ intMax) (sum : task.start + task.count ≤ intMax) :
    task.skipped.resultset = task.resultset ∧ task.start ≤ task.skipped.start ∧
      task.skipped.start + task.skipped.count = task.start + task.count ∧ (0 ≤ task.count → 0 ≤ task.skipped.count) ∧
      (task.count ≤ 0 → task.skipped.count = task.count) := by
  have few := cachedNext_le task.resultset.cache task.format task.start task.count.toNat
  rw [Search.skipped]
  dsimp only
  rw [int32_eq (by omega) (by omega)]
  refine ⟨rfl, ?_, ?_, ?_, ?_⟩ <;> omega

theorem Search.clamped_spec (fits : task.Fits) (positive : 0 ≤ task.start) :
    task.clamped.start = task.start ∧ 0 ≤ task.clamped.count ∧ task.clamped.count ≤ task.count ∧
      (task.resultset.liveSet ≠ .noHitCount → task.start + task.clamped.count ≤ task.resultset.size ∨ task.clamped.count = 0) := by
  obtain ⟨-, -, count, sum, size⟩ := fits
  have same : int32 (task.start + task.count) = task.start + task.count := int32_eq (by omega) sum
  rw [Search.clamped]
  split
  next notLive => exact ⟨rfl, count, Int.le_refl _, fun live => absurd notLive live⟩
  next live =>
    split
    next behind => exact ⟨rfl, Int.le_refl 0, count, fun _ => .inr rfl⟩
    next inside =>
      rw [same]
      split
      next ends =>
        have rest : int32 (task.resultset.size - task.start) = task.resultset.size - task.start := int32_eq (by omega) (by omega)
        rw [rest]
        dsimp only
        exact ⟨rfl, by omega, by omega, fun _ => .inl (by omega)⟩
      next more => exact ⟨rfl, count, Int.le_refl _, fun _ => .inl (by omega)⟩

theorem Search.sendPresent_spec (some : 0 < task.count) (inside : task.start < task.resultset.size) :
    ∃ numbers, task.sendPresent = .pending (.present numbers) := by
  have number : ∀ n : Int, 0 < n → 0 < if task.resultset.size < n + task.start then task.resultset.size - task.start else n := by
    intro n positive
    split <;> omega
  rw [Search.sendPresent, if_pos]
  · exact ⟨_, rfl⟩
  · apply number
    split <;> omega

/-- `ZOOM_connection_Z3950_search` sends nothing that the task does not want. -/
theorem zoomConnectionZ3950Search_sends (sum : task.start + task.count ≤ intMax) (size : 0 ≤ task.resultset.size) :
    Sends task 0 (zoomConnectionZ3950Search task error) := by
  rw [zoomConnectionZ3950Search]
  dsimp only
  generalize set : (if task.start < 0 ∨ task.count < 0 then presentRequestOutOfRange else error) = error'
  split
  next stops => exact ⟨⟨by simp, fun request is => by cases is⟩, fun _ => .inl stops, fun request is => by cases is⟩
  next goesOn =>
    -- a task with a negative number stops with an error
    have positive : 0 ≤ task.start ∧ 0 ≤ task.count := by
      by_cases negative : task.start < 0 ∨ task.count < 0
      · rw [if_pos negative] at set
        rw [← set] at goesOn
        exact absurd (by decide) goesOn
      · omega
    have fits : task.Fits := ⟨by omega, by omega, positive.2, sum, size⟩
    obtain ⟨start, least, most, ends⟩ := Search.clamped_spec fits positive.1
    obtain ⟨resultset, further, sameEnd, notNegative, -⟩ := @Search.skipped_spec R task.clamped (by omega) (by omega) (by omega)
    rw [Search.clamped_resultset] at resultset
    have fits' : task.clamped.skipped.Fits := ⟨by omega, by omega, notNegative least, by omega, by rw [resultset]; exact size⟩
    have fewer : task.clamped.skipped.count ≤ task.count := by omega
    split
    next nothing => exact ⟨⟨by simp, fun request is => by cases is⟩, fun _ => .inr nothing.1, fun request is => by cases is⟩
    next something =>
      rw [resultset] at something ⊢
      split
      next real =>
        have notNone : task.resultset.liveSet ≠ .noHitCount := by
          rw [real]
          decide
        have some : 0 < task.clamped.skipped.count := by
          have notZero : task.clamped.skipped.count ≠ 0 := fun none => something ⟨none, notNone⟩
          omega
        have inside : task.clamped.skipped.start < task.clamped.skipped.resultset.size := by
          rw [resultset]
          rcases ends notNone with ends | none <;> omega
        obtain ⟨numbers, is⟩ := Search.sendPresent_spec some inside
        rw [is]
        refine ⟨⟨by simp, ?_⟩, fun done => Sent.noConfusion done, ?_⟩
        · intro request asked
          cases asked
          exact ⟨fits', by rw [resultset]; exact real, some, inside⟩
        · intro request asked
          cases asked
          exact ⟨fewer, fun _ => Nat.le_refl 0⟩
      next notReal =>
        rw [Search.sendSearch]
        split
        · refine ⟨⟨by simp, ?_⟩, fun done => Sent.noConfusion done, ?_⟩
          · intro request asked
            cases asked
            exact ⟨fits', trivial⟩
          · intro request asked
            cases asked
            exact ⟨fewer, fun real => absurd real notReal⟩
        · exact ⟨⟨by simp, fun request asked => by cases asked⟩, fun _ => .inl (show zoomErrorInvalidQuery ≠ 0 by decide),
            fun request asked => by cases asked⟩

theorem sendZ3950SortPresent_sends (fits : task.Fits) (real : task.resultset.liveSet = .realSet) :
    Sends task 1 (sendZ3950SortPresent task error) := by
  have sends : ∀ resultset : Resultset R, resultset.size = task.resultset.size → resultset.liveSet = task.resultset.liveSet →
      Sends task 1 (zoomConnectionZ3950Search { task with resultset := resultset } error) := by
    intro resultset size live
    have sum : ({ task with resultset := resultset } : Search R).start +
      ({ task with resultset := resultset } : Search R).count ≤ intMax := fits.sum
    obtain ⟨kept, settled, atMost⟩ := @zoomConnectionZ3950Search_sends R { task with resultset := resultset } error sum
      (by dsimp only; rw [size]; exact fits.size)
    refine ⟨kept, settled, ?_⟩
    intro request asked
    obtain ⟨fewer, phase⟩ := atMost request asked
    exact ⟨fewer, fun isReal => Nat.le_succ_of_le (phase (live.trans isReal))⟩
  by_cases stops : error ≠ 0
  · have none : sendZ3950Sort task.resultset error = ({ task.resultset with sortSpec := false }, .complete) := by
      rw [sendZ3950Sort, if_pos stops]
    rw [sendZ3950SortPresent, none]
    exact sends _ rfl rfl
  · cases sorted : task.resultset.sortSpec with
    | false =>
      have none : sendZ3950Sort task.resultset error = (task.resultset, .complete) := by
        rw [sendZ3950Sort, if_neg stops, sorted, if_neg Bool.false_ne_true]
      rw [sendZ3950SortPresent, none]
      exact sends _ rfl rfl
    | true =>
      have sort : sendZ3950Sort task.resultset error = ({ task.resultset with sortSpec := false }, .pending .sort) := by
        rw [sendZ3950Sort, if_neg stops, sorted, if_pos rfl]
      rw [sendZ3950SortPresent, sort]
      refine ⟨⟨by simp, ?_⟩, fun done => Sent.noConfusion done, ?_⟩
      · intro request asked
        cases asked
        exact ⟨⟨fits.low, fits.start, fits.count, fits.sum, fits.size⟩, real⟩
      · intro request asked
        cases asked
        exact ⟨Int.le_refl _, fun _ => Nat.le_refl 1⟩

theorem Search.cut_spec (fits : task.Fits) :
    task.cut.start = task.start ∧ task.cut.resultset = task.resultset ∧ 0 ≤ task.cut.count ∧ task.cut.count ≤ task.count := by
  obtain ⟨low, start, count, sum, size⟩ := fits
  have same : int32 (task.count + task.start) = task.count + task.start := int32_eq (by omega) (by omega)
  rw [Search.cut, same]
  split
  next ends =>
    have rest : int32 (task.resultset.size - task.start) = task.resultset.size - task.start := by
      apply int32_eq
      · rw [intMax] at sum
        omega
      · omega
    rw [rest]
    refine ⟨rfl, rfl, ?_, ?_⟩
    · dsimp only
      split <;> omega
    · dsimp only
      split <;> omega
  next inside =>
    refine ⟨rfl, rfl, ?_, ?_⟩
    · dsimp only
      split <;> omega
    · dsimp only
      split <;> omega

structure Leaves (task : Search R) (sr : Option (ReceivedRecords R)) (presentPhase : Bool) (task' : Search R) : Prop where
  fits : task'.Fits
  live : task'.resultset.liveSet = task.resultset.liveSet
  atMost : task'.count ≤ task.count
  fewer : ReceivedRecords.list sr ≠ [] → 0 < task.count → task'.count < task.count
  nothing : presentPhase = true → ReceivedRecords.list sr = [] → task'.count = 0

theorem Search.Fits.missing {first : Search R} {sr : Option (ReceivedRecords R)} {presentPhase : Bool} (fits : task.Fits)
    (live : task.resultset.liveSet = first.resultset.liveSet) (count : 0 ≤ first.count) (none : ReceivedRecords.list sr = [])
      (addinfo : String) :
    Leaves first sr presentPhase (task.storeMissing addinfo) := by
  have small : task.start + 0 ≤ intMax := by
    have sum := fits.sum
    have least := fits.count
    omega
  exact ⟨⟨fits.low, fun _ => rfl, Int.le_refl 0, small, fits.size⟩, live, count, fun some => absurd none some, fun _ _ => rfl⟩

def Search.behindList (task : Search R) (list : List (NamePlusRecord R)) : Search R :=
  { task with
    start := int32 (task.start + list.length)
    count := if int32 (task.count - list.length) < 0 then 0 else int32 (task.count - list.length)
    resultset := { task.resultset with cache := task.store list 0 } }

theorem Search.behindList_spec {list : List (NamePlusRecord R)} (fits : task.Fits) (length : (list.length : Int) ≤ intMax) :
    (task.behindList list).Fits ∧ (task.behindList list).resultset.liveSet = task.resultset.liveSet ∧
      (task.behindList list).count ≤ task.count ∧ (list ≠ [] → 0 < task.count → (task.behindList list).count < task.count) := by
  obtain ⟨low, start, count, sum, size⟩ := fits
  have left : int32 (task.count - list.length) = task.count - list.length := by
    apply int32_eq
    · rw [intMax] at length
      omega
    · omega
  obtain ⟨least, most⟩ := int32_range (task.start + list.length)
  -- a `start` that overflows has passed all that is wanted
  have next : 0 < task.count - list.length → int32 (task.start + list.length) = task.start + list.length := by
    intro some
    exact int32_eq (by omega) (by omega)
  rw [Search.behindList, left]
  refine ⟨⟨least, ?_, ?_, ?_, size⟩, rfl, ?_, ?_⟩
  · dsimp only
    intro negative
    split
    · rfl
    · by_cases some : 0 < task.count - list.length
      · rw [next some] at negative
        omega
      · omega
  · dsimp only
    split <;> omega
  · dsimp only
    by_cases some : 0 < task.count - list.length
    · rw [next some, if_neg (by omega)]
      omega
    · split <;> omega
  · dsimp only
    split <;> omega
  · dsimp only
    intro some positive
    have one : 0 < list.length := List.length_pos_of_ne_nil some
    split <;> omega

theorem handleZ3950Records_leaves {sr : Option (ReceivedRecords R)} {presentPhase : Bool} {task' : Search R} (fits : task.Fits)
    (length : ((ReceivedRecords.list sr).length : Int) ≤ intMax) (kept : handleZ3950Records task sr presentPhase = .kept task') :
    Leaves task sr presentPhase task' := by
  obtain ⟨start, resultset, least, most⟩ := Search.cut_spec fits
  have cutFits : task.cut.Fits := by
    have negative := fits.start
    have low := fits.low
    have sum := fits.sum
    refine ⟨by omega, by omega, least, by omega, ?_⟩
    rw [resultset]
    exact fits.size
  match sr, presentPhase with
  | some (.nonSurrogateDiagnostic condition), _ => cases kept
  | some (.multipleNonSurDiagnostics diagRecs), _ => cases kept
  | none, true =>
    cases kept
    exact cutFits.missing (congrArg Resultset.liveSet resultset) fits.count rfl _
  | none, false =>
    cases kept
    exact ⟨cutFits, congrArg Resultset.liveSet resultset, most, fun some => absurd rfl some, fun no => Bool.noConfusion no⟩
  | some (.databaseOrSurDiagnostics list), presentPhase =>
    obtain ⟨behindFits, behindLive, behindMost, behindFewer⟩ := Search.behindList_spec cutFits length
    by_cases noRecord : presentPhase = true ∧ list = []
    · obtain ⟨rfl, rfl⟩ := noRecord
      cases kept
      exact behindFits.missing (behindLive.trans (congrArg Resultset.liveSet resultset)) fits.count rfl _
    · rw [handleZ3950Records_list list presentPhase fun phase none => noRecord ⟨phase, none⟩] at kept
      cases kept
      refine ⟨behindFits, behindLive.trans (congrArg Resultset.liveSet resultset), Int.le_trans behindMost most, ?_, ?_⟩
      · intro some positive
        by_cases left : 0 < task.cut.count
        · exact Int.lt_of_lt_of_le (behindFewer some left) most
        · have none : task.cut.count ≤ 0 := by omega
          exact Int.lt_of_le_of_lt (Int.le_trans behindMost none) positive
      · intro phase none
        exact absurd ⟨phase, none⟩ noRecord

structure Progresses (state : Search R × Int × Sent) (response : Received R) (request : Request)
    (after : Search R × Int × Sent) : Prop where
  kept : Kept after
  settled : after.2.2 = .complete → after.2.1 ≠ 0 ∨ response.diagnoses = true ∨ after.1.count = 0
  atMost : ∀ request', after.2.2.request = some request' → after.1.count ≤ state.1.count
  lower : ∀ request', after.2.2.request = some request' → idle (state, response) = false → after.1.count < state.1.count
  phase : ∀ request', after.2.2.request = some request' → response.answers request = true →
    after.1.count.toNat + request'.phase < state.1.count.toNat + request.phase

variable {state : Search R × Int × Sent}

theorem Progresses.removed {response : Received R} {request : Request} {task' : Search R} {error' : Int}
    (diagnoses : response.diagnoses = true) : Progresses state response request (task', error', .complete) := by
  have none : ∀ request', ¬ (Sent.complete.request = some request') := fun request' is => by cases is
  exact ⟨⟨by simp, fun request' is => absurd is (none request')⟩, fun _ => .inr (.inl diagnoses), fun request' is =>
    absurd is (none request'),
    fun request' is => absurd is (none request'), fun request' is => absurd is (none request')⟩

theorem progresses_present {request : Request} {records : Option (ReceivedRecords R)} (fits : task.Fits) (due : request.Due task)
    (length : ((ReceivedRecords.list records).length : Int) ≤ intMax) :
    Progresses (task, error, .pending request) (.present records) request (task.receive error (.present records)) := by
  rw [Search.receive]
  cases handled : handleZ3950PresentResponse task records with
  | removed =>
    apply Progresses.removed
    cases records with
    | none => cases handled
    | some records =>
      cases records with
      | databaseOrSurDiagnostics => cases handled
      | _ => rfl
  | kept task' =>
    have leaves := handleZ3950Records_leaves fits length handled
    obtain ⟨kept, settled, atMost⟩ := @zoomConnectionZ3950Search_sends R task' error leaves.fits.sum leaves.fits.size
    have lower : ∀ request', (zoomConnectionZ3950Search task' error).2.2.request = some request' →
        (Received.present records).answers request = true → (zoomConnectionZ3950Search task' error).1.count < task.count := by
      intro request' asked answers
      cases request with
      | search => cases answers
      | sort => cases answers
      | present =>
        have fewer := (atMost request' asked).1
        have positive : 0 < task.count := due.2.1
        by_cases none : ReceivedRecords.list records = []
        · have nothing := leaves.nothing rfl none
          omega
        · have less := leaves.fewer none positive
          omega
    refine ⟨kept, fun done => ?_, fun request' asked => ?_, fun request' asked notIdle => ?_, fun request' asked answers => ?_⟩
    · rcases settled done with error | none
      · exact .inl error
      · exact .inr (.inr none)
    · exact Int.le_trans (atMost request' asked).1 leaves.atMost
    · apply lower request' asked
      simpa [idle, Sent.request] using notIdle
    · have less := lower request' asked answers
      have least := (kept.2 request' asked).1.count
      cases request with
      | search => cases answers
      | sort => cases answers
      | present =>
        have real : task'.resultset.liveSet = .realSet := leaves.live.trans due.1
        have phase := (atMost request' asked).2 real
        change (zoomConnectionZ3950Search task' error).1.count.toNat + request'.phase < task.count.toNat + 0
        omega

theorem progresses_search {request : Request} {resultCount : Int} {records : Option (ReceivedRecords R)} (fits : task.Fits)
    (size : 0 ≤ resultCount) (length : ((ReceivedRecords.list records).length : Int) ≤ intMax) :
    Progresses (task, error, .pending request) (.search resultCount records) request
      (task.receive error (.search resultCount records)) := by
  rw [Search.receive]
  cases handled : handleZ3950SearchResponse task resultCount records with
  | removed =>
    apply Progresses.removed
    cases records with
    | none => cases handled
    | some records =>
      cases records with
      | databaseOrSurDiagnostics => cases handled
      | _ => rfl
  | kept task' =>
    have fits' : ({ task with resultset := { task.resultset with size := resultCount, liveSet := .realSet } } : Search R).Fits :=
      ⟨fits.low, fits.start, fits.count, fits.sum, size⟩
    have leaves := handleZ3950Records_leaves fits' length handled
    have real : task'.resultset.liveSet = .realSet := leaves.live
    have fewer' : task'.count ≤ task.count := leaves.atMost
    obtain ⟨kept, settled, atMost⟩ := @sendZ3950SortPresent_sends R task' error leaves.fits real
    refine ⟨kept, fun done => ?_, fun request' asked => ?_, fun request' asked notIdle => ?_, fun request' asked answers => ?_⟩
    · rcases settled done with error | none
      · exact .inl error
      · exact .inr (.inr none)
    · exact Int.le_trans (atMost request' asked).1 fewer'
    · have fewer := (atMost request' asked).1
      have noDiagnostic : (Received.search resultCount records).diagnoses = false := by
        cases records with
        | none => rfl
        | some records =>
          cases records with
          | databaseOrSurDiagnostics => rfl
          | _ => cases handled
      have counts : ReceivedRecords.list records ≠ [] ∧ task.count ≠ 0 := by
        simpa [idle, noDiagnostic] using notIdle
      have positive := fits.count
      have some : 0 < task.count := by omega
      have less : task'.count < task.count := leaves.fewer counts.1 some
      exact Int.lt_of_le_of_lt fewer less
    · have fewer := (atMost request' asked).1
      have phase := (atMost request' asked).2 real
      cases request with
      | search =>
        change (sendZ3950SortPresent task' error).1.count.toNat + request'.phase < task.count.toNat + 2
        omega
      | sort => cases answers
      | present => cases answers

theorem progresses_sort {request : Request} {diagnostics : List DiagRec} (fits : task.Fits) (due : request.Due task) :
    Progresses (task, error, .pending request) (.sort diagnostics) request (task.receive error (.sort diagnostics)) := by
  cases diagnostics with
  | cons => exact Progresses.removed rfl
  | nil =>
    obtain ⟨kept, settled, atMost⟩ := @zoomConnectionZ3950Search_sends R task error fits.sum fits.size
    refine ⟨kept, fun done => ?_, fun request' asked => (atMost request' asked).1, fun request' asked notIdle => ?_,
      fun request' asked answers => ?_⟩
    · rcases settled done with error | none
      · exact .inl error
      · exact .inr (.inr none)
    · cases notIdle
    · cases request with
      | search => cases answers
      | sort =>
        have fewer : (zoomConnectionZ3950Search task error).1.count ≤ task.count := (atMost request' asked).1
        have phase := (atMost request' asked).2 due
        change (zoomConnectionZ3950Search task error).1.count.toNat + request'.phase < task.count.toNat + 1
        omega
      | present => cases answers

theorem receive_progresses {response : Received R} {request : Request} (kept : Kept state)
    (asked : state.2.2.request = some request) (wellFormed : response.WellFormed) :
    Progresses state response request ((z3950Client R).receive state response) := by
  obtain ⟨fits, due⟩ := kept.2 request asked
  obtain ⟨task, error, sent⟩ := state
  cases sent with
  | complete => cases asked
  | aborted => cases asked
  | pending =>
    cases asked
    cases response with
    | search => exact progresses_search fits wellFormed.1 wellFormed.2
    | sort => exact progresses_sort fits due
    | present => exact progresses_present fits due wellFormed

theorem Search.InInts.kept (ints : task.InInts) : Kept (zoomConnectionZ3950Search task error) ∧
    ∀ request, (zoomConnectionZ3950Search task error).2.2.request = some request →
      (zoomConnectionZ3950Search task error).1.count ≤ task.count := by
  have sends := @zoomConnectionZ3950Search_sends R task error ints.sum.2 ints.size
  exact ⟨sends.kept, fun request asked => (sends.atMost request asked).1⟩

def SentSrw.request : SentSrw → Option SearchRetrieveRequest
  | .pending request => some request
  | .complete => none

def sruClient (R : Type) : Client (Search R × Int × SentSrw) (SearchRetrieveResponse R) SearchRetrieveRequest where
  waiting state := state.2.2.request
  receive state response := handleSrwResponse state.1 state.2.1 response

/-- A response that serves a task: with a record, a diagnostic, or a hit count that leaves nothing to ask for. What is left of the count is
computed as an `int`. -/
def SearchRetrieveResponse.Serves (task : Search R) (res : SearchRetrieveResponse R) : Prop :=
  -2 ^ 31 ≤ task.count - res.records.length ∧
    (res.records ≠ [] ∨ res.diagnostics ≠ [] ∨ res.numberOfRecords.getD 0 ≤ task.start ∨ task.count ≤ 0)

structure Search.FitsSrw (task : Search R) : Prop where
  start : -2 ^ 31 ≤ task.start ∧ task.start ≤ intMax
  sum : -2 ^ 31 ≤ task.start + task.count ∧ task.start + task.count ≤ intMax
  count : task.count ≤ intMax

theorem Search.clampedSrw_spec (fits : task.FitsSrw) (inside : task.resultset.liveSet ≠ .noHitCount → task.start < task.resultset.size) :
    task.clampedSrw.start = task.start ∧ task.clampedSrw.resultset = task.resultset ∧ task.clampedSrw.count ≤ task.count ∧
      (task.count < 0 → task.clampedSrw.count = task.count) ∧ (0 ≤ task.count → 0 ≤ task.clampedSrw.count) := by
  obtain ⟨start, sum, count⟩ := fits
  have same : int32 (task.start + task.count) = task.start + task.count := int32_eq sum.1 sum.2
  rw [Search.clampedSrw, same]
  split
  next ends =>
    have before := inside ends.1
    have rest : int32 (task.resultset.size - task.start) = task.resultset.size - task.start := int32_eq (by omega) (by omega)
    rw [rest]
    refine ⟨rfl, rfl, ?_, ?_, ?_⟩ <;> dsimp only <;> omega
  · exact ⟨rfl, rfl, Int.le_refl _, fun _ => rfl, fun least => least⟩

/-- What is sent next wants no more than the task. -/
theorem zoomConnectionSrwSendSearch_sends (fits : task.FitsSrw) :
    ∀ request, (zoomConnectionSrwSendSearch task error).2.2.request = some request →
      (zoomConnectionSrwSendSearch task error).1.FitsSrw ∧ (zoomConnectionSrwSendSearch task error).1.count ≤ task.count ∧
        (task.resultset.liveSet ≠ .noHitCount → task.start < task.resultset.size ∧ task.count ≠ 0) := by
  intro request asked
  rw [zoomConnectionSrwSendSearch] at asked ⊢
  split at asked
  · cases asked
  next noError =>
    rw [if_neg noError]
    split at asked
    · cases asked
    next goesOn =>
      rw [if_neg goesOn]
      have inside : task.resultset.liveSet ≠ .noHitCount → task.start < task.resultset.size := by
        intro live
        have notBehind : ¬ task.resultset.size ≤ task.start := fun behind => goesOn ⟨live, behind⟩
        omega
      obtain ⟨start, resultset, fewer, negative, positive⟩ := Search.clampedSrw_spec fits inside
      have low := fits.start.1
      have small := fits.start.2
      have least := fits.sum.1
      have most := fits.sum.2
      have few := fits.count
      obtain ⟨resultset', further, sameEnd, notNegative, unskipped⟩ :=
        @Search.skipped_spec R task.clampedSrw (by omega) (by omega) (by omega)
      have fits' : task.clampedSrw.skipped.FitsSrw := by
        refine ⟨?_, ?_, ?_⟩
        · by_cases none : task.clampedSrw.count ≤ 0
          · have same := unskipped none
            omega
          · omega
        · omega
        · omega
      dsimp only at asked ⊢
      split at asked
      · cases asked
      next something =>
        rw [if_neg something]
        refine ⟨fits', ?_, ?_⟩
        · dsimp only
          omega
        · intro live
          refine ⟨inside live, ?_⟩
          intro none
          rw [resultset', resultset] at something
          exact something ⟨by omega, live⟩

theorem handleSrwResponse_progresses {res : SearchRetrieveResponse R} (fits : task.FitsSrw) (serves : res.Serves task) :
    ∀ request, (handleSrwResponse task error res).2.2.request = some request →
      (handleSrwResponse task error res).1.FitsSrw ∧ (handleSrwResponse task error res).1.count < task.count ∧ 0 < task.count := by
  intro request asked
  obtain ⟨numberOfRecords, records, diagnostics⟩ := res
  rw [handleSrwResponse] at asked ⊢
  cases diagnostics with
  | cons => cases asked
  | nil =>
    dsimp only at asked ⊢
    have few := fits.count
    have low := fits.start.1
    have most := fits.sum.2
    have large : (0 : Int) ≤ intMax := by decide
    obtain ⟨notOver, some⟩ := serves
    dsimp only at notOver some
    have left : int32 (task.count - records.length) = task.count - records.length := int32_eq notOver (by omega)
    rw [left] at asked ⊢
    obtain ⟨atLeast, atMost⟩ := int32_range (task.start + records.length)
    have next : 0 < task.count - records.length → int32 (task.start + records.length) = task.start + records.length := by
      intro more
      exact int32_eq (by omega) (by omega)
    generalize count : (if task.count - (records.length : Int) < 0 then 0 else task.count - (records.length : Int)) = count' at asked ⊢
    have wants : (0 < task.count - records.length ∧ count' = task.count - records.length) ∨ count' = 0 := by
      rw [← count]
      split
      · exact .inr rfl
      · omega
    generalize behind : ({ task with
      start := int32 (task.start + records.length), count := count'
      resultset := { task.resultset with
        size := numberOfRecords.getD 0, liveSet := .realSet
        cache := Search.storeSrw
          { task with resultset := { task.resultset with size := numberOfRecords.getD 0, liveSet := .realSet } } records 0 } } :
        Search R) = task' at asked ⊢
    have start' : task'.start = int32 (task.start + records.length) := by rw [← behind]
    have count'' : task'.count = count' := by rw [← behind]
    have live' : task'.resultset.liveSet ≠ .noHitCount := by
      rw [← behind]
      exact LiveSet.noConfusion
    have size' : task'.resultset.size = numberOfRecords.getD 0 := by rw [← behind]
    have fits' : task'.FitsSrw := by
      rcases wants with ⟨more, is⟩ | none
      · have same := next more
        exact ⟨by omega, by omega, by omega⟩
      · exact ⟨by omega, by omega, by omega⟩
    obtain ⟨fitsAfter, fewer, inside⟩ := zoomConnectionSrwSendSearch_sends fits' request asked
    obtain ⟨before, notNone⟩ := inside live'
    refine ⟨fitsAfter, ?_, by omega⟩
    rcases some with record | diagnostic | ends | none
    · have one : 0 < records.length := List.length_pos_of_ne_nil record
      omega
    · exact absurd rfl diagnostic
    · by_cases empty : records.length = 0
      · have same := next (by omega)
        omega
      · omega
    · omega

/-! ### Runs -/

def Completes (exchange : (Search R × Int × Sent) × Received R) : Prop :=
  let after := (z3950Client R).receive exchange.1 exchange.2
  after.2.2 = .complete ∧ (after.2.1 ≠ 0 ∨ exchange.2.diagnoses = true ∨ after.1.count = 0)

def GoesOnWithLess (exchange : (Search R × Int × Sent) × Received R) : Prop :=
  let after := (z3950Client R).receive exchange.1 exchange.2
  after.2.2 ≠ .aborted ∧ (after.1.count < exchange.1.1.count ∨ (idle exchange = true ∧ after.1.count ≤ exchange.1.1.count))

theorem Progresses.either {response : Received R} {request : Request}
    (progresses : Progresses state response request ((z3950Client R).receive state response)) :
    Completes (state, response) ∨ GoesOnWithLess (state, response) := by
  have notAborted := progresses.kept.1
  cases sent : ((z3950Client R).receive state response).2.2 with
  | complete => exact .inl ⟨sent, progresses.settled sent⟩
  | aborted => exact absurd sent notAborted
  | pending request' =>
    have asked : ((z3950Client R).receive state response).2.2.request = some request' := by rw [sent, Sent.request]
    right
    refine ⟨notAborted, ?_⟩
    cases brings : idle (state, response) with
    | false => exact .inl (progresses.lower request' asked brings)
    | true => exact .inr ⟨rfl, progresses.atMost request' asked⟩

def ProgressesSrw (exchange : (Search R × Int × SentSrw) × SearchRetrieveResponse R) : Prop :=
  let after := (sruClient R).receive exchange.1 exchange.2
  after.2.2 = .complete ∨ after.1.count < exchange.1.1.count

/-- Over Z39.50, with responses of any kind in any order. -/
theorem z3950_progresses (ints : task.InInts) (responses : List (Received R)) (wellFormed : ∀ response ∈ responses, response.WellFormed) :
    let state := zoomConnectionZ3950Search task error
    (∀ exchange ∈ (z3950Client R).exchanges state responses, Completes exchange ∨ GoesOnWithLess exchange) ∧
      ((z3950Client R).requests state responses).length ≤ task.count.toNat + 1 + ((z3950Client R).exchanges state responses).countP idle ∧
      ((∀ exchange ∈ (z3950Client R).exchanges state responses, exchange.1.2.2.request.any exchange.2.answers = true) →
        ((z3950Client R).requests state responses).length ≤ task.count.toNat + 2) := by
  intro state
  obtain ⟨kept, least⟩ := @Search.InInts.kept R task error ints
  have fair : ∀ exchange ∈ (z3950Client R).exchanges state responses, exchange.2.WellFormed :=
    fun exchange among => wellFormed _ ((z3950Client R).exchanges_received responses state among)
  have all := @Client.exchanges_kept _ _ _ (z3950Client R) Kept (fun _ response => response.WellFormed)
    (fun state response request kept asked wellFormed => (receive_progresses kept asked wellFormed).kept) responses state kept fair
  refine ⟨?_, ?_, ?_⟩
  · intro exchange among
    obtain ⟨keptHere, request, asked⟩ := all exchange among
    exact (receive_progresses keptHere asked (fair exchange among)).either
  · have few := @Client.requests_length_le _ _ _ (z3950Client R) Kept (fun _ response => response.WellFormed)
      (fun state => state.1.count.toNat + 1) idle (fun _ _ _ _ => Nat.succ_pos _) (by
        intro state response request kept asked wellFormed
        have progresses := receive_progresses kept asked wellFormed
        refine ⟨progresses.kept, ?_⟩
        cases next : (z3950Client R).waiting ((z3950Client R).receive state response) with
        | none => exact .inl rfl
        | some request' =>
          right
          have atMost := progresses.atMost request' next
          have notNegative := (progresses.kept.2 request' next).1.count
          cases brings : idle (state, response) with
          | true =>
            rw [if_pos rfl]
            omega
          | false =>
            have less := progresses.lower request' next brings
            rw [if_neg Bool.false_ne_true]
            omega) responses state kept fair
    cases asked : state.2.2.request with
    | none =>
      rw [(z3950Client R).requests_none asked]
      exact Nat.zero_le _
    | some request =>
      have atMost : state.1.count ≤ task.count := least request asked
      omega
  · intro answered
    have few := @Client.requests_length_le _ _ _ (z3950Client R) Kept
      (fun state response => response.WellFormed ∧ state.2.2.request.any response.answers = true)
      (fun state => state.1.count.toNat + state.2.2.request.elim 0 Request.phase) (fun _ => false) (by
        intro state request kept asked
        obtain ⟨fits, due⟩ := kept.2 request asked
        have is : state.2.2.request = some request := asked
        rw [is]
        cases request with
        | search => exact Nat.succ_pos _
        | sort => exact Nat.succ_pos _
        | present =>
          have some := due.2.1
          omega) (by
        intro state response request kept asked fair
        have progresses := receive_progresses kept asked fair.1
        refine ⟨progresses.kept, ?_⟩
        cases next : (z3950Client R).waiting ((z3950Client R).receive state response) with
        | none => exact .inl rfl
        | some request' =>
          right
          have is : state.2.2.request = some request := asked
          have is' : ((z3950Client R).receive state response).2.2.request = some request' := next
          have answers : response.answers request = true := by
            have fair' := fair.2
            rw [is] at fair'
            exact fair'
          have lower := progresses.phase request' next answers
          rw [is, is']
          exact lower) responses state kept fun exchange among => ⟨fair exchange among, answered exchange among⟩
    cases asked : state.2.2.request with
    | none =>
      rw [(z3950Client R).requests_none asked]
      exact Nat.zero_le _
    | some request =>
      have atMost : state.1.count ≤ task.count := least request asked
      have phase := request.phase_le
      rw [asked] at few
      simp only [Option.elim_some, List.countP_false, Function.const_apply, Nat.add_zero] at few
      omega

theorem sru_progresses (ints : task.InInts) (responses : List (SearchRetrieveResponse R)) :
    let state := zoomConnectionSrwSendSearch task error
    (∀ exchange ∈ (sruClient R).exchanges state responses, exchange.2.Serves exchange.1.1) →
      (∀ exchange ∈ (sruClient R).exchanges state responses, ProgressesSrw exchange) ∧
        ((sruClient R).requests state responses).length ≤ task.count.toNat + 1 := by
  intro state fair
  let Kept : Search R × Int × SentSrw → Prop := fun state => ∀ request, state.2.2.request = some request → state.1.FitsSrw
  have fits : task.FitsSrw := ⟨ints.start, ints.sum, ints.count.2⟩
  have kept : Kept state := fun request asked => (zoomConnectionSrwSendSearch_sends fits request asked).1
  have step : ∀ (state : Search R × Int × SentSrw) (response : SearchRetrieveResponse R) (request : SearchRetrieveRequest), Kept state →
      (sruClient R).waiting state = some request → response.Serves state.1 → Kept ((sruClient R).receive state response) :=
    fun state response request kept asked serves request' asked' =>
      (handleSrwResponse_progresses (kept request asked) serves request' asked').1
  constructor
  · intro exchange among
    obtain ⟨keptHere, request, asked⟩ :=
      @Client.exchanges_kept _ _ _ (sruClient R) Kept (fun state response =>
        response.Serves state.1) step responses state kept fair exchange among
    rw [ProgressesSrw]
    cases sent : ((sruClient R).receive exchange.1 exchange.2).2.2 with
    | complete => exact .inl rfl
    | pending request' =>
      right
      exact (handleSrwResponse_progresses (keptHere request asked) (fair exchange among) request' (congrArg SentSrw.request sent)).2.1
  · have few := @Client.requests_length_le _ _ _ (sruClient R) Kept (fun state response => response.Serves state.1)
      (fun state => state.1.count.toNat + 1) (fun _ => false) (fun _ _ _ _ => Nat.succ_pos _) (by
        intro state response request kept asked serves
        refine ⟨step state response request kept asked serves, ?_⟩
        cases next : (sruClient R).waiting ((sruClient R).receive state response) with
        | none => exact .inl rfl
        | some request' =>
          right
          have less := (@handleSrwResponse_progresses R state.1 state.2.1 response (kept request asked) serves request' next).2
          change (handleSrwResponse state.1 state.2.1 response).1.count.toNat + 1 < state.1.count.toNat + 1
          omega) responses state kept fair
    simp only [List.countP_false, Function.const_apply, Nat.add_zero] at few
    cases asked : state.2.2.request with
    | none =>
      rw [(sruClient R).requests_none asked]
      exact Nat.zero_le _
    | some request =>
      have atMost : state.1.count ≤ task.count := (zoomConnectionSrwSendSearch_sends fits request asked).2.1
      omega

/-- A search task makes progress against each server. -/
theorem task_progresses (ints : task.InInts) :
    (∀ responses : List (Received R), (∀ response ∈ responses, response.WellFormed) →
      let exchanges := (z3950Client R).exchanges (zoomConnectionZ3950Search task error) responses
      let requests := (z3950Client R).requests (zoomConnectionZ3950Search task error) responses
      (∀ exchange ∈ exchanges, Completes exchange ∨ GoesOnWithLess exchange) ∧
        requests.length ≤ task.count.toNat + 1 + exchanges.countP idle ∧
        ((∀ exchange ∈ exchanges, exchange.1.2.2.request.any exchange.2.answers = true) → requests.length ≤ task.count.toNat + 2)) ∧
    (∀ responses : List (SearchRetrieveResponse R),
      let exchanges := (sruClient R).exchanges (zoomConnectionSrwSendSearch task error) responses
      let requests := (sruClient R).requests (zoomConnectionSrwSendSearch task error) responses
      (∀ exchange ∈ exchanges, exchange.2.Serves exchange.1.1) →
        (∀ exchange ∈ exchanges, ProgressesSrw exchange) ∧ requests.length ≤ task.count.toNat + 1) :=
  ⟨fun responses wellFormed => z3950_progresses ints responses wellFormed, fun responses serves => sru_progresses ints responses serves⟩

end

def stalledTask : Search Unit := { start := 0, count := 1, format := {}, resultset := { piggyback := false } }

/-- A set of five records, two of which are wanted and cached, in a task whose end is beyond `INT_MAX`. -/
def overflowingTask : Search Unit :=
  let npr : NamePlusRecord Unit := .databaseRecord none { directReference := .sutrs, record := (), len := 0 }
  { start := 3, count := intMax, format := {}
    resultset := { size := 5, liveSet := .realSet, cache := [⟨3, {}, npr⟩, ⟨4, {}, npr⟩] } }

theorem stalledTask_inInts : stalledTask.InInts := ⟨by decide, by decide, by decide, by decide⟩

/-- A search response without records leaves the count as it is, a server that answers with it again and again gets more requests than there
are records, one over SRU that announces records and sends none gets them too, and an assertion fails where the end of a task
is no `int`. -/
theorem task_stalls :
    (let state := zoomConnectionZ3950Search stalledTask 0
     let after := (z3950Client Unit).receive state (.search 10 none)
     after.2.2 = .pending (.present ⟨1, 1⟩) ∧ after.1.count = state.1.count) ∧
    (stalledTask.count + 2 < ((z3950Client Unit).requests (zoomConnectionZ3950Search stalledTask 0)
      [.search 10 none, .search 10 none, .search 10 none]).length) ∧
    (stalledTask.count + 2 < ((sruClient Unit).requests (zoomConnectionSrwSendSearch stalledTask 0)
      [⟨some 10, [], []⟩, ⟨some 10, [], []⟩, ⟨some 10, [], []⟩]).length) ∧
    (zoomConnectionZ3950Search overflowingTask 0).2.2 = .aborted := by
  decide

theorem stalledTask_progresses :
    ((z3950Client Unit).requests (zoomConnectionZ3950Search stalledTask 0) [.search 10 none, .present none]).length ≤ 3 ∧
      ((sruClient Unit).requests (zoomConnectionSrwSendSearch stalledTask 0) [⟨some 10, [], [none]⟩]).length ≤ 2 := by
  obtain ⟨z3950, sru⟩ := @task_progresses Unit stalledTask 0 stalledTask_inInts
  constructor
  · exact (z3950 [.search 10 none, .present none] (by simp [Received.WellFormed, ReceivedRecords.list]; decide)).2.2 (by decide)
  · exact (sru [⟨some 10, [], [none]⟩] (by
      intro exchange among
      have only : (sruClient Unit).exchanges (zoomConnectionSrwSendSearch stalledTask 0) [⟨some 10, [], [none]⟩] =
        [(zoomConnectionSrwSendSearch stalledTask 0, ⟨some 10, [], [none]⟩)] := by decide
      rw [only, List.mem_singleton] at among
      rw [among]
      exact ⟨by decide, .inr (.inl (List.cons_ne_nil _ _))⟩)).2

end Yaz.Zoom
