import Yaz.Zoom.Resultset

/-! A task fetches the records of a result set from a server that answers each request.

What is shown of one exchange is that it keeps `Fetching`: the records before `start` are there, and those that are wanted yet are
before `start + count`.
-/

set_option autoImplicit false

namespace Yaz.Zoom
open Yaz.Server

/-- The responses that a task of the kind `ZOOM_TASK_SEARCH` waits for. -/
inductive Received (R : Type) where
  | search (resultCount : Int) (records : Option (ReceivedRecords R))
  | sort (diagnostics : List DiagRec)
  | present (records : Option (ReceivedRecords R))
  deriving DecidableEq

section
variable {R : Type}

/-- What `ZOOM_handle_Z3950_apdu` does for such a task; a task that was removed is complete. -/
def Search.receive (task : Search R) (error : Int) : Received R → Search R × Int × Sent
  | .search resultCount records =>
    match handleZ3950SearchResponse task resultCount records with
    | .removed error => (task, error, .complete)
    | .kept task => sendZ3950SortPresent task error
  | .present records =>
    match handleZ3950PresentResponse task records with
    | .removed error => (task, error, .complete)
    | .kept task => zoomConnectionZ3950Search task error
  | .sort diagnostics =>
    match diagnostics with
    | [] => zoomConnectionZ3950Search task error
    | diagnostic :: _ => (task, responseDiag diagnostic, .complete)

structure ResultSetServer (R : Type) where
  size : Nat
  record : Int → NamePlusRecord R

def ResultSetServer.records (server : ResultSetServer R) (start : Int) (number : Nat) : List (NamePlusRecord R) :=
  (List.range number).map fun i : Nat => server.record (start + i)

structure Presented where
  numbers : PresentRequest
  returned : Nat
  deriving DecidableEq

/-- A task that has sent something, and a server: the present requests, and what is left when the task is complete. With a search
response come no more records than were asked for, and with a present response at least one and no more than were asked for. -/
inductive Conversation (server : ResultSetServer R) : Search R × Int × Sent → List Presented → Option (Search R × Int) → Prop where
  | stopped {state : Search R × Int × Sent} : Conversation server state [] none
  | unanswered {task : Search R} {error : Int} {numbers : PresentRequest} :
      Conversation server (task, error, .pending (.present numbers)) [⟨numbers, 0⟩] none
  | complete {task : Search R} {error : Int} : Conversation server (task, error, .complete) [] (some (task, error))
  | search {task : Search R} {error : Int} {bounds : SearchRequest} {number : Nat} {records : Option (ReceivedRecords R)}
      {presents : List Presented} {last : Option (Search R × Int)} :
      (number : Int) ≤ bounds.toget server.size →
      (records = some (.databaseOrSurDiagnostics (server.records 0 number)) ∨ (number = 0 ∧ records = none)) →
      Conversation server (task.receive error (.search server.size records)) presents last →
      Conversation server (task, error, .pending (.search bounds)) presents last
  | sort {task : Search R} {error : Int} {presents : List Presented} {last : Option (Search R × Int)} :
      Conversation server (task.receive error (.sort [])) presents last →
      Conversation server (task, error, .pending .sort) presents last
  | present {task : Search R} {error : Int} {numbers : PresentRequest} {number : Nat} {presents : List Presented}
      {last : Option (Search R × Int)} :
      1 ≤ number → (number : Int) ≤ numbers.numberOfRecordsRequested →
      Conversation server (task.receive error
        (.present (some (.databaseOrSurDiagnostics (server.records (numbers.resultSetStartPoint - 1) number))))) presents last →
      Conversation server (task, error, .pending (.present numbers)) (⟨numbers, number⟩ :: presents) last

/-! ### What is kept -/

theorem int32_eq {v : Int} (low : -2 ^ 31 ≤ v) (high : v ≤ intMax) : int32 v = v := by
  rw [intMax] at high
  rw [int32]
  omega

def Search.wanted (task : Search R) (server : ResultSetServer R) : Int := min (task.start + task.count) server.size

def Faithful (server : ResultSetServer R) (before cache : Cache R) (format : Format) : Prop :=
  ∀ pos npr, cache.lookup pos format = some npr → npr = server.record pos ∨ before.lookup pos format = some npr

/-- The numbers of a task that fetches what `first` wants, and what is cached. -/
structure Fetching (server : ResultSetServer R) (first task : Search R) : Prop where
  format : task.format = first.format
  step : task.resultset.step = first.resultset.step
  atStart : first.start ≤ task.start
  small : task.start ≤ intMax
  count : 0 ≤ task.count
  within : 0 < task.count → task.start + task.count ≤ first.start + first.count
  enough : first.wanted server ≤ task.start + task.count
  covered : ∀ pos, first.start ≤ pos → pos < task.start → pos < first.wanted server →
    (task.resultset.cache.lookup pos first.format).isSome = true
  faithful : Faithful server first.resultset.cache task.resultset.cache first.format

structure Live (server : ResultSetServer R) (task : Search R) : Prop where
  real : task.resultset.liveSet = .realSet
  size : task.resultset.size = server.size

variable {server : ResultSetServer R} {first task : Search R}

theorem cachedNext_covered {cache : Cache R} {format : Format} {start : Int} {count : Nat} (low : 0 ≤ start)
    (high : start + count ≤ intMax + 1) :
    cachedNext cache format start count ≤ count ∧
      ∀ pos, start ≤ pos → pos < start + cachedNext cache format start count → (cache.lookup pos format).isSome = true := by
  induction count generalizing start with
  | zero =>
    rw [cachedNext]
    exact ⟨Nat.le_refl 0, fun pos least most => by omega⟩
  | succ _ ih =>
    have same : int32 start = start := int32_eq (by omega) (by omega)
    rw [cachedNext, same]
    split
    next cached =>
      obtain ⟨few, covered⟩ := @ih (start + 1) (by omega) (by omega)
      refine ⟨by omega, ?_⟩
      intro pos least most
      by_cases here : pos = start
      · rw [here]
        exact cached
      · exact covered pos (by omega) (by omega)
    · exact ⟨Nat.zero_le _, fun pos least most => by omega⟩

/-- The ends of what a task wants are in the range of an `int`. -/
def Search.InRange (task : Search R) : Prop := 0 ≤ task.start ∧ 0 ≤ task.count ∧ task.start + task.count ≤ intMax

theorem Fetching.skipped (fetching : Fetching server first task) (inRange : first.InRange) :
    Fetching server first task.skipped ∧ task.start ≤ task.skipped.start ∧
      task.skipped.start + task.skipped.count = task.start + task.count := by
  obtain ⟨positive, -, high⟩ := inRange
  have atStart := fetching.atStart
  have small := fetching.small
  have count := fetching.count
  have within := fetching.within
  obtain ⟨short, covered⟩ := @cachedNext_covered R task.resultset.cache task.format task.start task.count.toNat (by omega) (by omega)
  have same : int32 (task.start + cachedNext task.resultset.cache task.format task.start task.count.toNat) =
      task.start + cachedNext task.resultset.cache task.format task.start task.count.toNat := int32_eq (by omega) (by omega)
  have start : task.skipped.start = task.start + cachedNext task.resultset.cache task.format task.start task.count.toNat := same
  have left : task.skipped.count = task.count - cachedNext task.resultset.cache task.format task.start task.count.toNat := rfl
  have sum : task.skipped.start + task.skipped.count = task.start + task.count := by omega
  refine ⟨⟨fetching.format, fetching.step, by omega, by omega, by omega, ?_, ?_, ?_, fetching.faithful⟩, by omega, sum⟩
  · intro some
    rw [sum]
    exact within (by omega)
  · rw [sum]
    exact fetching.enough
  · intro pos least most wanted
    by_cases before : pos < task.start
    · exact fetching.covered pos least before wanted
    · have here := covered pos (by omega) (by omega)
      rw [fetching.format] at here
      exact here

theorem Fetching.clamped (fetching : Fetching server first task) (live : Live server task) (inRange : first.InRange) :
    Fetching server first task.clamped ∧ task.clamped.start = task.start ∧
      (0 < task.clamped.count → task.clamped.start + task.clamped.count ≤ server.size) := by
  obtain ⟨positive, -, high⟩ := inRange
  have atStart := fetching.atStart
  have small := fetching.small
  have count := fetching.count
  have within := fetching.within
  have enough := fetching.enough
  have atMost : first.wanted server ≤ server.size := Int.min_le_right _ _
  have real : ¬ task.resultset.liveSet = .noHitCount := by simp [live.real]
  have cut {number : Int} (notNegative : 0 ≤ number) (smaller : 0 < number → 0 < task.count ∧ number ≤ task.count)
      (enough : first.wanted server ≤ task.start + number) : Fetching server first { task with count := number } := by
    refine ⟨fetching.format, fetching.step, atStart, small, notNegative, ?_, enough, fetching.covered, fetching.faithful⟩
    intro some
    obtain ⟨was, less⟩ := smaller some
    have before := within was
    dsimp only
    omega
  rw [Search.clamped, if_neg real, live.size]
  split
  next beyond =>
    refine ⟨cut (Int.le_refl 0) (fun some => absurd some (by omega)) (by omega), rfl, ?_⟩
    intro some
    exact absurd some (by simp)
  next before =>
    split
    next ends =>
      have some : 0 < task.count := by
        by_contra none
        have zero : task.count = 0 := by omega
        rw [zero, add_zero, int32_eq (by omega) small] at ends
        omega
      have sum := within some
      have same : int32 (task.start + task.count) = task.start + task.count := int32_eq (by omega) (by omega)
      have rest : int32 (server.size - task.start) = server.size - task.start := int32_eq (by omega) (by omega)
      rw [rest]
      refine ⟨cut (by omega) (fun _ => ⟨some, by omega⟩) (by omega), rfl, ?_⟩
      intro _
      dsimp only
      omega
    next inside =>
      refine ⟨fetching, rfl, ?_⟩
      intro some
      have same : int32 (task.start + task.count) = task.start + task.count := int32_eq (by omega) (by omega)
      omega

theorem Search.clamped_resultset (task : Search R) : task.clamped.resultset = task.resultset := by
  rw [Search.clamped]
  repeat' split
  all_goals rfl

structure Asks (server : ResultSetServer R) (first task : Search R) (numbers : PresentRequest) : Prop where
  start : numbers.resultSetStartPoint = task.start + 1
  some : 1 ≤ numbers.numberOfRecordsRequested
  count : numbers.numberOfRecordsRequested ≤ task.count
  step : 0 < first.resultset.step → numbers.numberOfRecordsRequested ≤ first.resultset.step
  wanted : task.start + task.count ≤ first.wanted server

/-- A task that is live asks for records, or has all. -/
theorem Fetching.next (fetching : Fetching server first task) (live : Live server task) (inRange : first.InRange) :
    ∃ task', Fetching server first task' ∧ Live server task' ∧ task.start ≤ task'.start ∧
      ((zoomConnectionZ3950Search task 0 = (task', 0, .complete) ∧ first.wanted server ≤ task'.start) ∨
        ∃ numbers, Asks server first task' numbers ∧ zoomConnectionZ3950Search task 0 = (task', 0, .pending (.present numbers))) := by
  obtain ⟨clamped, sameStart, inside⟩ := fetching.clamped live inRange
  obtain ⟨skipped, further, sum⟩ := clamped.skipped inRange
  have atStart := fetching.atStart
  have count := fetching.count
  have positive := inRange.1
  have high := inRange.2.2
  have resultset : task.clamped.skipped.resultset = task.resultset := task.clamped_resultset
  have live' : Live server task.clamped.skipped := ⟨by rw [resultset]; exact live.real, by rw [resultset]; exact live.size⟩
  have noError : ¬ (task.start < 0 ∨ task.count < 0) := by omega
  refine ⟨task.clamped.skipped, skipped, live', by omega, ?_⟩
  rw [zoomConnectionZ3950Search, if_neg noError]
  rw [if_neg (by simp)]
  by_cases all : task.clamped.skipped.count = 0
  · left
    have enough := skipped.enough
    rw [if_pos ⟨all, by simp [live'.real]⟩]
    exact ⟨rfl, by omega⟩
  · right
    have left := skipped.count
    have within := skipped.within (by omega)
    have positiveCount : 0 < task.clamped.count := by
      omega
    have wanted : task.clamped.skipped.start + task.clamped.skipped.count ≤ first.wanted server := by
      rw [Search.wanted]
      exact Int.le_min.mpr ⟨within, by omega⟩
    rw [if_neg (fun both => all both.1), if_pos live'.real, Search.sendPresent, live'.size]
    have notOver (number : Int) (few : number ≤ task.clamped.skipped.count) :
      ¬ (server.size : Int) < number + task.clamped.skipped.start := by omega
    have start : int32 (task.clamped.skipped.start + 1) = task.clamped.skipped.start + 1 := int32_eq (by omega) (by omega)
    have sameStep : task.clamped.skipped.resultset.step = first.resultset.step := skipped.step
    rw [start, sameStep]
    split
    next stepped =>
      rw [if_neg (notOver _ (by omega)), if_pos stepped.1]
      exact ⟨_, ⟨rfl, by dsimp only; omega, by dsimp only; omega, fun _ => Int.le_refl _, wanted⟩, rfl⟩
    next whole =>
      rw [if_neg (notOver _ (Int.le_refl _)), if_pos (by omega)]
      refine ⟨_, ⟨rfl, ?_, Int.le_refl _, ?_, wanted⟩, rfl⟩
      · dsimp only
        omega
      · intro positive
        dsimp only
        by_contra less
        exact whole ⟨positive, by omega⟩

/-! ### Responses -/

theorem ResultSetServer.records_succ (server : ResultSetServer R) (start : Int) (number : Nat) :
    server.records start (number + 1) = server.record start :: server.records (start + 1) number := by
  rw [ResultSetServer.records, ResultSetServer.records, List.range_succ_eq_map, List.map_cons, List.map_map, Nat.cast_zero, add_zero]
  congr 1
  apply List.map_congr_left
  intro i _
  simp only [Function.comp_apply, Nat.cast_succ]
  congr 1
  omega

theorem ResultSetServer.records_length (server : ResultSetServer R) (start : Int) (number : Nat) :
    (server.records start number).length = number := by
  rw [ResultSetServer.records, List.length_map, List.length_range]

theorem Search.store_lookup {number : Nat} {i : Int} (low : 0 ≤ task.start + i) (high : task.start + i + number ≤ intMax + 1) (pos : Int) :
    (task.store (server.records (task.start + i) number) i).lookup pos task.format =
      if task.start + i ≤ pos ∧ pos < task.start + i + number then some (server.record pos)
      else task.resultset.cache.lookup pos task.format := by
  induction number generalizing task i with
  | zero =>
    have none : ¬ (task.start + i ≤ pos ∧ pos < task.start + i + (0 : Nat)) := by omega
    rw [if_neg none]
    rfl
  | succ number ih =>
    have same : int32 (i + task.start) = task.start + i := by rw [int32_eq (by omega) (by omega), Int.add_comm]
    have next : task.start + i + 1 = task.start + (i + 1) := Int.add_assoc _ _ _
    rw [server.records_succ, Search.store, same, next]
    have later := @ih { task with resultset := { task.resultset with
      cache := task.resultset.cache.add (server.record (task.start + i)) (task.start + i) task.format } } (i + 1)
      (by dsimp only; omega) (by dsimp only; omega)
    rw [later, Cache.lookup_add]
    by_cases here : pos = task.start + i
    · have notLater : ¬ (task.start + (i + 1) ≤ pos ∧ pos < task.start + (i + 1) + number) := by omega
      have inside : task.start + i ≤ pos ∧ pos < task.start + i + ((number + 1 : Nat) : Int) := by omega
      rw [if_neg notLater, if_pos inside, if_pos ⟨here, rfl⟩, here]
    · rw [if_neg (fun both : pos = task.start + i ∧ task.format = task.format => here both.1)]
      have same : (task.start + (i + 1) ≤ pos ∧ pos < task.start + (i + 1) + number) ↔
          (task.start + i ≤ pos ∧ pos < task.start + i + ((number + 1 : Nat) : Int)) := by omega
      simp only [same]

def Search.behind (task : Search R) (server : ResultSetServer R) (number : Nat) : Search R :=
  { task with
    start := int32 (task.start + number)
    count := if int32 (task.count - number) < 0 then 0 else int32 (task.count - number)
    resultset := { task.resultset with cache := task.store (server.records task.start number) 0 } }

theorem Fetching.behind (fetching : Fetching server first task) (inRange : first.InRange) {number : Nat}
    (small : task.start + number ≤ intMax) : Fetching server first (task.behind server number) := by
  obtain ⟨positive, -, high⟩ := inRange
  have atStart := fetching.atStart
  have count := fetching.count
  have within := fetching.within
  have enough := fetching.enough
  have start : (task.behind server number).start = task.start + number := int32_eq (by omega) small
  have rest : int32 (task.count - number) = task.count - number := int32_eq (by rw [intMax] at small high; omega) (by omega)
  have left : (task.behind server number).count = if task.count - number < 0 then 0 else task.count - number := by
    rw [Search.behind, rest]
  have stored (pos : Int) : (task.behind server number).resultset.cache.lookup pos first.format =
      if task.start ≤ pos ∧ pos < task.start + number then some (server.record pos) else task.resultset.cache.lookup pos first.format := by
    have lookup := @Search.store_lookup R server task number 0 (by omega) (by omega) pos
    rw [add_zero, fetching.format] at lookup
    exact lookup
  refine ⟨fetching.format, fetching.step, ?_, ?_, ?_, ?_, ?_, ?_, ?_⟩
  · omega
  · omega
  · rw [left]
    split <;> omega
  · rw [left, start]
    intro some
    split at some
    · omega
    next notNegative =>
      rw [if_neg notNegative]
      omega
  · rw [left, start]
    split <;> omega
  · intro pos least most wanted
    rw [stored]
    split
    · rfl
    · rw [start] at most
      exact fetching.covered pos least (by omega) wanted
  · intro pos npr is
    rw [stored] at is
    split at is
    · exact .inl (Option.some.inj is).symm
    · exact fetching.faithful pos npr is

/-- The first lines of `handle_Z3950_records`: the count is cut where the set ends. -/
def Search.cut (task : Search R) : Search R :=
  let count := if task.resultset.size < int32 (task.count + task.start) then int32 (task.resultset.size - task.start) else task.count
  { task with count := if count < 0 then 0 else count }

theorem Fetching.cut (fetching : Fetching server first task) (size : task.resultset.size = server.size) (inRange : first.InRange) :
    Fetching server first task.cut := by
  obtain ⟨positive, -, high⟩ := inRange
  have atStart := fetching.atStart
  have small := fetching.small
  have count := fetching.count
  have within := fetching.within
  have atMost : first.wanted server ≤ server.size := Int.min_le_right _ _
  have sum : task.count + task.start ≤ intMax := by
    by_cases some : 0 < task.count
    · have most := within some
      omega
    · omega
  have same : int32 (task.count + task.start) = task.count + task.start := int32_eq (by omega) sum
  rw [Search.cut, size, same]
  split
  next ends =>
    have rest : int32 (server.size - task.start) = server.size - task.start := int32_eq (by rw [intMax] at small; omega) (by omega)
    rw [rest]
    refine ⟨fetching.format, fetching.step, atStart, small, ?_, ?_, ?_, fetching.covered, fetching.faithful⟩
    · dsimp only
      split <;> omega
    · dsimp only
      intro some
      split at some
      · omega
      next notNegative =>
        rw [if_neg notNegative]
        omega
    · dsimp only
      split <;> omega
  next inside =>
    rw [if_neg (by omega)]
    exact fetching

theorem handleZ3950Records_list (list : List (NamePlusRecord R)) (presentPhase : Bool) (some : presentPhase = true → list ≠ []) :
    handleZ3950Records task (Option.some (.databaseOrSurDiagnostics list)) presentPhase =
      .kept { task.cut with
        start := int32 (task.cut.start + list.length)
        count := if int32 (task.cut.count - list.length) < 0 then 0 else int32 (task.cut.count - list.length)
        resultset := { task.cut.resultset with cache := task.cut.store list 0 } } := by
  have notMissing : ¬ (presentPhase = true ∧ list = []) := fun both => some both.1 both.2
  rw [handleZ3950Records]
  rw [if_neg notMissing]
  rfl

theorem handleZ3950Records_none : handleZ3950Records task none false = .kept task.cut := rfl

theorem Fetching.present (fetching : Fetching server first task) (live : Live server task) (inRange : first.InRange)
    {numbers : PresentRequest}
    (asks : Asks server first task numbers) {number : Nat} (some : 1 ≤ number) (few : (number : Int) ≤ numbers.numberOfRecordsRequested) :
    ∃ task', handleZ3950PresentResponse task
      (Option.some (.databaseOrSurDiagnostics (server.records (numbers.resultSetStartPoint - 1) number))) =
        .kept task' ∧ Fetching server first task' ∧ Live server task' ∧ task'.start = task.start + number := by
  have atStart := fetching.atStart
  have within := fetching.within
  have wanted := asks.wanted
  have start := asks.start
  have most := asks.count
  have positive := inRange.1
  have high := inRange.2.2
  have atMost : first.wanted server ≤ server.size := Int.min_le_right _ _
  have same : int32 (task.count + task.start) = task.count + task.start := int32_eq (by omega) (by omega)
  -- nothing is cut where no more was asked for than there is
  have uncut : task.cut = task := by
    rw [Search.cut, live.size, same, if_neg (by omega), if_neg (by omega)]
  have next : numbers.resultSetStartPoint - 1 = task.start := by omega
  have nonempty : server.records task.start number ≠ [] := by
    intro none
    have length := server.records_length task.start number
    rw [none] at length
    simp at length
    omega
  refine ⟨task.behind server number, ?_, fetching.behind inRange (by omega), ⟨live.real, live.size⟩, int32_eq (by omega) (by omega)⟩
  rw [handleZ3950PresentResponse, next, handleZ3950Records_list _ _ (fun _ => nonempty), uncut, server.records_length]
  rfl

/-- The three expert bounds are not all set, or they are for a search from the front of the set. -/
def Search.Fronted (task : Search R) : Prop :=
  (task.resultset.largeSetLowerBound = -1 ∨ task.resultset.smallSetUpperBound = -1 ∨ task.resultset.mediumSetPresentNumber = -1) ∨
    task.start = 0 ∧ task.resultset.smallSetUpperBound ≤ intMax ∧ task.resultset.mediumSetPresentNumber ≤ intMax

theorem Search.bounds_toget (fronted : task.Fronted) (step : task.resultset.step ≤ intMax) (few : task.count ≤ intMax)
    {number : Nat} (asked : (number : Int) ≤ task.bounds.toget server.size) : number = 0 ∨ (task.start = 0 ∧ (number : Int) ≤ intMax) := by
  rw [Search.bounds] at asked
  split at asked
  next expert =>
    right
    obtain ⟨front, small, medium⟩ := fronted.resolve_left (by omega)
    refine ⟨front, ?_⟩
    have room : 0 ≤ intMax := by decide
    rw [SearchRequest.toget] at asked
    dsimp only at asked
    repeat' split at asked
    all_goals omega
  next usual =>
    split at asked
    next piggyback =>
      right
      refine ⟨piggyback.1, ?_⟩
      rw [SearchRequest.toget] at asked
      dsimp only at asked
      have bound : (if 0 < task.resultset.step then task.resultset.step else task.count) ≤ intMax := by
        split
        · exact step
        · exact few
      generalize (if 0 < task.resultset.step then task.resultset.step else task.count) = medium at asked bound
      repeat' split at asked
      all_goals omega
    · left
      rw [SearchRequest.toget] at asked
      dsimp only at asked
      repeat' split at asked
      all_goals omega

theorem Fetching.search (fetching : Fetching server first task) (inRange : first.InRange) {number : Nat}
    (front : number = 0 ∨ (task.start = 0 ∧ (number : Int) ≤ intMax)) {records : Option (ReceivedRecords R)}
    (is : records = some (.databaseOrSurDiagnostics (server.records 0 number)) ∨ (number = 0 ∧ records = none)) :
    ∃ task', handleZ3950SearchResponse task server.size records = .kept task' ∧ Fetching server first task' ∧ Live server task' ∧
      task.start ≤ task'.start := by
  let found : Search R := { task with resultset := { task.resultset with size := server.size, liveSet := .realSet } }
  have fetchingFound : Fetching server first found :=
    ⟨fetching.format, fetching.step, fetching.atStart, fetching.small, fetching.count, fetching.within, fetching.enough, fetching.covered,
      fetching.faithful⟩
  have cut := fetchingFound.cut rfl inRange
  have atStart := fetching.atStart
  have positive := inRange.1
  have small := fetching.small
  rcases is with is | ⟨-, is⟩
  · have behind : (found.cut.start : Int) + number ≤ intMax := by
      have same : found.cut.start = task.start := rfl
      omega
    have after := cut.behind inRange behind
    have start : (found.cut.behind server number).start = task.start + number := by
      have same : found.cut.start = task.start := rfl
      rw [Search.behind]
      rw [same, int32_eq (by omega) (by omega)]
    refine ⟨found.cut.behind server number, ?_, after, ⟨rfl, rfl⟩, by omega⟩
    have first : server.records 0 number = server.records found.cut.start number := by
      rcases front with none | ⟨zero, -⟩
      · rw [none]
        rfl
      · have same : found.cut.start = task.start := rfl
        rw [same, zero]
    rw [handleZ3950SearchResponse, is, first, handleZ3950Records_list _ _ (by simp), server.records_length]
    rfl
  · refine ⟨found.cut, ?_, cut, ⟨rfl, rfl⟩, Int.le_refl _⟩
    rw [handleZ3950SearchResponse, is, handleZ3950Records_none]

def Sound (server : ResultSetServer R) (first : Search R) : Search R × Int × Sent → Prop
  | (task, error, .complete) => error = 0 → Fetching server first task ∧ first.wanted server ≤ task.start
  | (task, error, .pending (.search bounds)) => error = 0 ∧ Fetching server first task ∧
      ∀ number : Nat, (number : Int) ≤ bounds.toget server.size → number = 0 ∨ (task.start = 0 ∧ (number : Int) ≤ intMax)
  | (task, error, .pending .sort) => error = 0 ∧ Fetching server first task ∧ Live server task
  | (task, error, .pending (.present numbers)) => error = 0 ∧ Fetching server first task ∧ Live server task ∧ Asks server first task numbers
  | (_, _, .aborted) => False

/-- A state that goes on from `start`. -/
def GoesOn (server : ResultSetServer R) (first : Search R) (start : Int) (state : Search R × Int × Sent) : Prop :=
  Sound server first state ∧ start ≤ state.1.start

theorem Fetching.goesOn (fetching : Fetching server first task) (live : Live server task) (inRange : first.InRange) :
    GoesOn server first task.start (zoomConnectionZ3950Search task 0) := by
  obtain ⟨task', fetching', live', further, ⟨is, all⟩ | ⟨numbers, asks, is⟩⟩ := fetching.next live inRange
  · rw [is]
    exact ⟨fun _ => ⟨fetching', all⟩, further⟩
  · rw [is]
    exact ⟨⟨rfl, fetching', live', asks⟩, further⟩

theorem Fetching.sortPresent (fetching : Fetching server first task) (live : Live server task) (inRange : first.InRange) :
    GoesOn server first task.start (sendZ3950SortPresent task 0) := by
  cases sorted : task.resultset.sortSpec with
  | false =>
    have none : sendZ3950Sort task.resultset 0 = (task.resultset, .complete) := by simp [sendZ3950Sort, sorted]
    rw [sendZ3950SortPresent, none]
    exact fetching.goesOn live inRange
  | true =>
    have sort : sendZ3950Sort task.resultset 0 = ({ task.resultset with sortSpec := false }, .pending .sort) := by
      simp [sendZ3950Sort, sorted]
    rw [sendZ3950SortPresent, sort]
    refine ⟨⟨rfl, ?_, ⟨live.real, live.size⟩⟩, Int.le_refl _⟩
    exact ⟨fetching.format, fetching.step, fetching.atStart, fetching.small, fetching.count, fetching.within, fetching.enough,
      fetching.covered, fetching.faithful⟩

structure Presenting (server : ResultSetServer R) (first : Search R) (start : Int) (presents : List Presented) : Prop where
  ordered : presents.Pairwise fun earlier later =>
    earlier.numbers.resultSetStartPoint + max (earlier.returned : Int) 1 ≤ later.numbers.resultSetStartPoint
  each : ∀ present ∈ presents, start + 1 ≤ present.numbers.resultSetStartPoint ∧ 1 ≤ present.numbers.numberOfRecordsRequested ∧
    (0 < first.resultset.step → present.numbers.numberOfRecordsRequested ≤ first.resultset.step) ∧
    present.numbers.resultSetStartPoint + present.numbers.numberOfRecordsRequested ≤ first.wanted server + 1

theorem Presenting.earlier {start later : Int} {presents : List Presented} (presenting : Presenting server first later presents)
    (before : start ≤ later) : Presenting server first start presents := by
  refine ⟨presenting.ordered, ?_⟩
  intro present inside
  obtain ⟨least, rest⟩ := presenting.each present inside
  exact ⟨by omega, rest⟩

theorem Conversation.sound {state : Search R × Int × Sent} {presents : List Presented} {last : Option (Search R × Int)}
    (run : Conversation server state presents last) (inRange : first.InRange) (sound : Sound server first state) :
    Presenting server first state.1.start presents ∧
      ∀ final, last = some (final, 0) → Fetching server first final ∧ first.wanted server ≤ final.start := by
  induction run with
  | stopped => exact ⟨⟨.nil, by simp⟩, by simp⟩
  | @unanswered task error numbers =>
    obtain ⟨-, -, -, asks⟩ := sound
    have start := asks.start
    have count := asks.count
    have wanted := asks.wanted
    refine ⟨⟨List.pairwise_singleton _ _, ?_⟩, by simp⟩
    intro present inside
    rw [List.mem_singleton] at inside
    subst inside
    exact ⟨by dsimp only; omega, asks.some, asks.step, by dsimp only; omega⟩
  | @complete task error =>
    refine ⟨⟨.nil, by simp⟩, ?_⟩
    intro final is
    rw [Option.some.injEq, Prod.mk.injEq] at is
    rw [← is.1]
    exact sound is.2
  | @search task error bounds number records presents last asked is run ih =>
    obtain ⟨rfl, fetching, front⟩ := sound
    obtain ⟨task', handled, fetching', live', further⟩ := fetching.search inRange (front number asked) is
    have next : task.receive 0 (.search server.size records) = sendZ3950SortPresent task' 0 := by
      rw [Search.receive, handled]
    have goesOn := fetching'.sortPresent live' inRange
    rw [← next] at goesOn
    obtain ⟨presenting, retrieved⟩ := ih goesOn.1
    exact ⟨presenting.earlier (Int.le_trans further goesOn.2), retrieved⟩
  | @sort task error presents last run ih =>
    obtain ⟨rfl, fetching, live⟩ := sound
    have goesOn := fetching.goesOn live inRange
    obtain ⟨presenting, retrieved⟩ := ih goesOn.1
    exact ⟨presenting.earlier goesOn.2, retrieved⟩
  | @present task error numbers number presents last some few run ih =>
    obtain ⟨rfl, fetching, live, asks⟩ := sound
    obtain ⟨task', handled, fetching', live', start⟩ := fetching.present live inRange asks some few
    have next : task.receive 0
      (.present (Option.some (.databaseOrSurDiagnostics (server.records (numbers.resultSetStartPoint - 1) number)))) =
        zoomConnectionZ3950Search task' 0 := by
      rw [Search.receive, handled]
    have goesOn := fetching'.goesOn live' inRange
    rw [← next] at goesOn
    obtain ⟨presenting, retrieved⟩ := ih goesOn.1
    have further := goesOn.2
    have first := asks.start
    have count := asks.count
    have wanted := asks.wanted
    have later := presenting.earlier further
    refine ⟨⟨List.pairwise_cons.mpr ⟨?_, later.ordered⟩, ?_⟩, retrieved⟩
    · intro present inside
      have least := (later.each present inside).1
      dsimp only
      omega
    · intro present inside
      rcases List.mem_cons.mp inside with rfl | inside
      · exact ⟨by dsimp only; omega, asks.some, asks.step, by dsimp only; omega⟩
      · obtain ⟨least, rest⟩ := later.each present inside
        exact ⟨by dsimp only; omega, rest⟩

/-- A task as it is when it is begun: the set is not there yet, or has the size that the server gave. -/
structure Search.Begins (task : Search R) (server : ResultSetServer R) : Prop where
  inRange : task.InRange
  step : task.resultset.step ≤ intMax
  known : task.resultset.liveSet = .noHitCount ∨ Live server task
  fronted : task.skipped.Fronted

theorem Search.Begins.sound (begins : task.Begins server) : Sound server task (zoomConnectionZ3950Search task 0) ∧
    task.start ≤ (zoomConnectionZ3950Search task 0).1.start := by
  obtain ⟨positive, count, high⟩ := begins.inRange
  have fetching : Fetching server task task := by
    refine ⟨rfl, rfl, Int.le_refl _, by omega, count, fun _ => Int.le_refl _, Int.min_le_left _ _, ?_, fun _ _ is => .inr is⟩
    intro pos least most
    omega
  rcases begins.known with unknown | live
  · have same : task.clamped = task := if_pos unknown
    obtain ⟨skipped, further, sum⟩ := fetching.skipped begins.inRange
    have noError : ¬ (task.start < 0 ∨ task.count < 0) := by omega
    have unknown' : task.skipped.resultset.liveSet = .noHitCount := unknown
    rw [zoomConnectionZ3950Search, if_neg noError, same]
    rw [if_neg (by simp), if_neg (by simp [unknown']), if_neg (by simp [unknown']), Search.sendSearch]
    refine ⟨?_, further⟩
    split
    · refine ⟨rfl, skipped, ?_⟩
      intro number asked
      exact @Search.bounds_toget R server task.skipped begins.fronted begins.step (by omega) number asked
    · intro zero
      simp [zoomErrorInvalidQuery] at zero
  · exact fetching.goesOn live begins.inRange

/-- A task asks for records in order, each time for those that are wanted yet, and when it is complete without an error, all that was
wanted is cached. -/
theorem conversation_retrieves {presents : List Presented} {last : Option (Search R × Int)} (begins : task.Begins server)
    (run : Conversation server (zoomConnectionZ3950Search task 0) presents last) :
    (presents.Pairwise fun earlier later =>
      earlier.numbers.resultSetStartPoint + max (earlier.returned : Int) 1 ≤ later.numbers.resultSetStartPoint) ∧
    (∀ present ∈ presents,
      task.start + 1 ≤ present.numbers.resultSetStartPoint ∧ 1 ≤ present.numbers.numberOfRecordsRequested ∧
        (0 < task.resultset.step → present.numbers.numberOfRecordsRequested ≤ task.resultset.step) ∧
        present.numbers.resultSetStartPoint + present.numbers.numberOfRecordsRequested ≤ min (task.start + task.count) server.size + 1) ∧
    ∀ final, last = some (final, 0) → ∀ pos, task.start ≤ pos → pos < min (task.start + task.count) server.size →
      ∃ npr, final.resultset.cache.lookup pos task.format = some npr ∧
        (npr = server.record pos ∨ task.resultset.cache.lookup pos task.format = some npr) := by
  obtain ⟨sound, further⟩ := begins.sound
  obtain ⟨presenting, retrieved⟩ := run.sound begins.inRange sound
  have all := presenting.earlier further
  refine ⟨all.ordered, all.each, ?_⟩
  intro final complete pos least wanted
  obtain ⟨fetching, enough⟩ := retrieved final complete
  have cached := fetching.covered pos least (by rw [Search.wanted] at enough; omega) wanted
  obtain ⟨npr, is⟩ := Option.isSome_iff_exists.mp cached
  exact ⟨npr, is, fetching.faithful pos npr is⟩

end

def sampleServer : ResultSetServer Unit :=
  { size := 2, record := fun pos => .databaseRecord none { directReference := .sutrs, record := (), len := pos } }

def sampleTask : Search Unit := { start := 0, count := 2, format := {}, resultset := { size := 2, liveSet := .realSet } }

def sampleFinal : Search Unit × Int :=
  let first := sampleTask.receive 0 (.present (some (.databaseOrSurDiagnostics (sampleServer.records 0 1))))
  let second := first.1.receive 0 (.present (some (.databaseOrSurDiagnostics (sampleServer.records 1 1))))
  (second.1, second.2.1)

theorem sampleTask_run : Conversation sampleServer (zoomConnectionZ3950Search sampleTask 0) [⟨⟨1, 2⟩, 1⟩, ⟨⟨2, 1⟩, 1⟩]
    (some sampleFinal) := by
  have begun : zoomConnectionZ3950Search sampleTask 0 = (sampleTask, 0, .pending (.present ⟨1, 2⟩)) := by decide
  rw [begun]
  apply Conversation.present (by decide) (by decide)
  have first : sampleTask.receive 0 (.present (some (.databaseOrSurDiagnostics (sampleServer.records (1 - 1) 1)))) =
      ((sampleTask.receive 0 (.present (some (.databaseOrSurDiagnostics (sampleServer.records 0 1))))).1, 0,
        .pending (.present ⟨2, 1⟩)) := by
    decide
  rw [first]
  apply Conversation.present (by decide) (by decide)
  have second : ((sampleTask.receive 0 (.present (some (.databaseOrSurDiagnostics (sampleServer.records 0 1))))).1.receive 0
      (.present (some (.databaseOrSurDiagnostics (sampleServer.records (2 - 1) 1))))) = (sampleFinal.1, sampleFinal.2, .complete) := by
    decide
  rw [second]
  exact .complete

def Apart (numbers numbers' : PresentRequest) : Prop :=
  numbers.resultSetStartPoint + numbers.numberOfRecordsRequested ≤ numbers'.resultSetStartPoint ∨
    numbers'.resultSetStartPoint + numbers'.numberOfRecordsRequested ≤ numbers.resultSetStartPoint

/-- All is there behind the second request, which asks again for a record that the first was to bring. -/
theorem conversation_overlap :
    Conversation sampleServer (zoomConnectionZ3950Search sampleTask 0) [⟨⟨1, 2⟩, 1⟩, ⟨⟨2, 1⟩, 1⟩] (some sampleFinal) ∧
      ¬ List.Pairwise Apart [⟨1, 2⟩, ⟨2, 1⟩] := by
  refine ⟨sampleTask_run, ?_⟩
  rw [List.pairwise_pair]
  rintro (before | behind)
  · simp at before
  · simp at behind

theorem sampleTask_begins : sampleTask.Begins sampleServer :=
  { inRange := ⟨by decide, by decide, by decide⟩, step := by decide, known := .inr ⟨rfl, rfl⟩, fronted := .inl (.inl rfl) }

theorem conversation_sampleFinal : ∃ npr, sampleFinal.1.resultset.cache.lookup 1 {} = some npr ∧
    (npr = sampleServer.record 1 ∨ sampleTask.resultset.cache.lookup 1 {} = some npr) :=
  (conversation_retrieves sampleTask_begins sampleTask_run).2.2 sampleFinal.1 (by decide) 1 (by decide) (by decide)

end Yaz.Zoom
