import Yaz.Server.Accounting
import Yaz.Zoom.Retrieval

/-! A search task of ZOOM and the frontend server: what `zoom-z3950.c` asks for and `seshigh.c` answers, until the task is complete.

The backend may depend on the position with which a response begins, as the size of the memory that it finds does.
-/

set_option autoImplicit false

namespace Yaz.Zoom
open Yaz.Server

variable {R : Type}

/-- The records of a response as a client gets them. -/
def receivedRecords : Records R → ReceivedRecords R
  | .nonSurrogateDiagnostic diagnostic => .nonSurrogateDiagnostic diagnostic.condition
  | .databaseOrSurDiagnostics list => .databaseOrSurDiagnostics list

def respond (a : Association) (backend : Int → Backend R) (hits : Nat) : Request → Option (Received R)
  | .search bounds =>
    (responseSearchRequest a (backend 1) bounds { hits := hits }).response.map fun response =>
      .search hits (response.records.map receivedRecords)
  | .sort => some (.sort [])
  | .present numbers =>
    (processPresentRequest a (backend numbers.resultSetStartPoint) numbers).response.map fun response =>
      .present (response.records.map receivedRecords)

/-- A request and its response. -/
def exchange (a : Association) (backend : Int → Backend R) (hits : Nat) : Search R × Int × Sent → Search R × Int × Sent
  | (task, error, .pending request) => ((respond a backend hits request).map (task.receive error)).getD (task, error, .pending request)
  | state => state

/-- The records of the set can be fetched, each fits in a message, and the one at `start` does so behind what is in memory already. -/
structure Presents (a : Association) (server : ResultSetServer R) (start : Int) (backend : Backend R) : Prop where
  present (number : Int) : (backend.presentError start number).1 = 0
  record (pos : Int) : 0 ≤ pos → pos < server.size → let freq := backend.fetch (pos + 1)
    freq.errcode = 0 ∧ (∃ buf record, freq.record = some buf ∧ freq.external buf = .kept record ∧
      server.record pos = .databaseRecord freq.basename record) ∧
    (0 < a.preferredMessageSize →
      freq.thisLength 0 + (if pos + 1 = start then freq.totalLength 0 else 0) ≤ a.preferredMessageSize)

variable {a : Association} {server : ResultSetServer R}

section
variable {start : Int} {backend : Backend R} (presents : Presents a server start backend)
include presents

theorem Presents.taken (toget : Int) {pos : Int} (low : 0 ≤ pos) (high : pos < server.size) (behind : start ≤ pos + 1) :
    ∃ record, server.record pos = .databaseRecord (backend.fetch (pos + 1)).basename record ∧
      ((backend.fetch (pos + 1)).taken a start toget (pos + 1) 0 = .kept record ∨
        ((backend.fetch (pos + 1)).taken a start toget (pos + 1) 0 = .dropped ∧ start < pos + 1)) := by
  obtain ⟨noError, ⟨buf, record, isBuf, kept, is⟩, fits⟩ := presents.record pos low high
  refine ⟨record, is, ?_⟩
  rw [FetchRr.taken, if_neg (not_not_intro noError), isBuf]
  dsimp only
  split
  next long =>
    have small := fits long.1
    split at small
    · omega
    next later =>
      rw [if_pos ⟨by omega, by omega⟩]
      exact .inr ⟨rfl, by omega⟩
  · exact .inl kept

/-- What is packed are the records from a position on, and at least the first one of a response. -/
theorem Presents.packLoop (toget : Int) (small : server.size < intMax) {left : Nat} {pos next : Int} (low : 0 ≤ pos)
    (behind : start ≤ pos + 1)
    (inside : pos + left ≤ server.size) : ∃ number,
      (packLoop a start toget backend.fetch left (pos + 1) 0 next).records = some (.databaseOrSurDiagnostics (server.records pos number)) ∧
        number ≤ left ∧ (start = pos + 1 → 0 < left → 0 < number) := by
  induction left generalizing pos next with
  | zero => exact ⟨0, rfl, le_rfl, fun _ some => some⟩
  | succ left ih =>
    obtain ⟨record, is, taken⟩ := presents.taken toget low (by omega) behind
    rw [Server.packLoop]
    dsimp only [Packed.asking]
    rw [if_neg (by omega)]
    rcases taken with kept | ⟨dropped, later⟩
    · rw [kept]
      dsimp only
      split
      · refine ⟨1, ?_, by omega, fun _ _ => Nat.one_pos⟩
        rw [server.records_succ, is]
        rfl
      · obtain ⟨number, packed, few, -⟩ := @ih (pos + 1) (pos + 1 + 1) (by omega) (by omega) (by omega)
        refine ⟨number + 1, ?_, by omega, fun _ _ => Nat.succ_pos _⟩
        rw [if_neg (by omega), Packed.behind, packed, server.records_succ, is]
    · -- a record that does not fit is not the first
      rw [dropped]
      exact ⟨0, rfl, Nat.zero_le _, fun same => by omega⟩

theorem Presents.serve (small : server.size < intMax) {num : Int} (one : 1 ≤ start) (some : 1 ≤ num)
    (inside : start + num ≤ server.size + 1)
    (refused : Int) (status : PresentStatus) : ∃ (number : Nat) (response : _), 1 ≤ number ∧ (number : Int) ≤ num ∧
      (serve a backend start num refused status).response = .some response ∧
      response.records = .some (.databaseOrSurDiagnostics (server.records (start - 1) number)) := by
  obtain ⟨number, packed, few, least⟩ := @Presents.packLoop R a server start backend presents num small num.toNat (start - 1) 0
    (by omega) (by omega) (by omega)
  rw [Int.sub_add_cancel] at packed
  have same {v : Int} (low : 0 ≤ v) (high : v < intMax) : odrIntToInt v = v := by
    rw [odrIntToInt, if_neg (by omega), if_neg (by omega)]
  rw [Server.serve, packRecords, same (by omega) (by omega), same (by omega) (by omega)]
  dsimp only
  rw [if_neg (not_not_intro (presents.present num)), if_neg (by omega), packed]
  exact ⟨number, _, least (by omega) (by omega), by omega, rfl, rfl⟩

end

variable {backend : Int → Backend R} {first task : Search R}

/-- A sound state without an error that is at most `n` exchanges before the end. -/
def Left (server : ResultSetServer R) (first : Search R) (n : Nat) : Search R × Int × Sent → Prop
  | (task, error, sent) => Sound server first (task, error, sent) ∧ error = 0 ∧
    match sent with
    | .pending (.search bounds) => 2 ≤ n ∧ 0 ≤ bounds.toget server.size ∧ first.wanted server + 2 ≤ task.start + n
    | .pending .sort => 1 ≤ n ∧ first.wanted server + 1 ≤ task.start + n
    | .pending (.present _) => 1 ≤ n ∧ first.wanted server ≤ task.start + n
    | _ => True

section
variable (fetching : Fetching server first task) (live : Live server task) (inRange : first.InRange) {n : Nat}
include fetching live inRange

theorem Fetching.left (enough : first.wanted server ≤ task.start + n) : Left server first n (zoomConnectionZ3950Search task 0) := by
  obtain ⟨task', fetching', live', further, ⟨is, all⟩ | ⟨numbers, ⟨start, asked, count, step, wanted⟩, is⟩⟩ := fetching.next live inRange
  · rw [is]
    exact ⟨fun _ => ⟨fetching', all⟩, rfl, trivial⟩
  · rw [is]
    exact ⟨⟨rfl, fetching', live', start, asked, count, step, wanted⟩, rfl, by omega, by omega⟩

theorem Fetching.left_sortPresent (some : 1 ≤ n) (enough : first.wanted server + 1 ≤ task.start + n) :
    Left server first n (sendZ3950SortPresent task 0) := by
  have goesOn := fetching.sortPresent live inRange
  rw [sendZ3950SortPresent, sendZ3950Sort, if_neg (not_not_intro rfl)] at goesOn ⊢
  by_cases sorted : task.resultset.sortSpec = true
  · rw [if_pos sorted] at goesOn ⊢
    exact ⟨goesOn.1, rfl, some, enough⟩
  · rw [if_neg sorted]
    exact fetching.left live inRange (by omega)

end

/-- One of the expert bounds at least is not set. -/
def Search.NotExpert (task : Search R) : Prop :=
  task.resultset.largeSetLowerBound = -1 ∨ task.resultset.smallSetUpperBound = -1 ∨ task.resultset.mediumSetPresentNumber = -1

theorem Search.Begins.left (begins : task.Begins server) (notExpert : task.NotExpert) (query : task.resultset.query = true) {n : Nat}
    (enough : task.count ≤ n) : Left server task (n + 2) (zoomConnectionZ3950Search task 0) := by
  obtain ⟨sound, further⟩ := begins.sound
  obtain ⟨positive, count, high⟩ := begins.inRange
  have most : task.wanted server ≤ task.start + task.count := min_le_left _ _
  rcases begins.known with unknown | live
  · have same : task.clamped = task := if_pos unknown
    have kept : task.skipped.resultset = task.resultset := rfl
    have is : zoomConnectionZ3950Search task 0 = (task.skipped, 0, .pending (.search task.skipped.bounds)) := by
      simp [zoomConnectionZ3950Search, Int.not_lt.mpr positive, Int.not_lt.mpr count, same, kept, unknown, Search.sendSearch, query]
    rw [is] at sound further ⊢
    refine ⟨sound, rfl, by omega, ?_, by dsimp only at further ⊢; omega⟩
    rw [Search.NotExpert] at notExpert
    rw [Search.bounds, kept, if_neg (by omega)]
    split
    all_goals
      rw [SearchRequest.toget]
      dsimp only
      repeat' split
      all_goals omega
  · have fetching : Fetching server task task :=
      ⟨rfl, rfl, Int.le_refl _, by omega, count, fun _ => Int.le_refl _, most, fun pos least most => by omega, fun _ _ is => .inr is⟩
    exact fetching.left live begins.inRange (by omega)

section
variable (small : server.size < intMax) (presents : ∀ start : Int, 1 ≤ start → start ≤
    server.size → Presents a server start (backend start))
include small presents

theorem respond_search {bounds : SearchRequest} (notNegative : 0 ≤ bounds.toget server.size) :
    ∃ (number : Nat) (records : Option (ReceivedRecords R)), (number : Int) ≤ bounds.toget server.size ∧
      (records = some (.databaseOrSurDiagnostics (server.records 0 number)) ∨ (number = 0 ∧ records = none)) ∧
      respond a backend server.size (.search bounds) = some (.search server.size records) := by
  by_cases none : bounds.toget server.size = 0
  · refine ⟨0, .none, notNegative, .inr ⟨rfl, rfl⟩, ?_⟩
    rw [respond, responseSearchRequest, if_neg (not_not_intro rfl)]
    dsimp only
    rw [if_neg (not_not_intro none)]
    rfl
  · have inside : bounds.toget server.size ≤ server.size := by
      rw [SearchRequest.toget]
      repeat' split
      all_goals omega
    obtain ⟨number, response, -, few, served, records⟩ :=
      (presents 1 le_rfl (by omega)).serve small le_rfl (show 1 ≤ bounds.toget server.size by omega) (by omega)
        (bounds.toget server.size) .success
    refine ⟨number, _, few, .inl rfl, ?_⟩
    rw [respond, responseSearchRequest_eq _ rfl none, served, Option.map_some, records]
    rfl

theorem Left.exchange (inRange : first.InRange) {n : Nat} {state : Search R × Int × Sent} (left : Left server first (n + 1) state) :
    Left server first n (exchange a backend server.size state) := by
  obtain ⟨task, error, sent⟩ := state
  obtain ⟨sound, rfl, few⟩ := left
  rcases sent with _ | (bounds | _ | numbers) | _
  · exact ⟨sound, rfl, trivial⟩
  · obtain ⟨-, fetching, front⟩ := sound
    obtain ⟨number, records, asked, are, response⟩ := respond_search small presents few.2.1
    obtain ⟨task', handled, fetching', live', further⟩ := fetching.search inRange (front number asked) are
    rw [Zoom.exchange, response, Option.map_some, Option.getD_some, Search.receive, handled]
    exact fetching'.left_sortPresent live' inRange (by omega) (by omega)
  · obtain ⟨-, fetching, live⟩ := sound
    exact fetching.left live inRange (by omega)
  · obtain ⟨-, fetching, live, start, asked, count, step, wanted⟩ := sound
    have atStart := fetching.atStart
    have positive := inRange.1
    have atMost : first.wanted server ≤ server.size := min_le_right _ _
    obtain ⟨number, response, least, few, served, records⟩ :=
      (presents numbers.resultSetStartPoint (by omega) (by omega)).serve small (by omega) asked (by omega) 0 .failure
    obtain ⟨task', handled, fetching', live', further⟩ := fetching.present live inRange ⟨start, asked, count, step, wanted⟩ least few
    have response : respond a backend server.size (.present numbers) =
        .some (.present (.some (.databaseOrSurDiagnostics (server.records (numbers.resultSetStartPoint - 1) number)))) := by
      rw [respond, processPresentRequest_eq, served, Option.map_some, records]
      rfl
    rw [Zoom.exchange, response, Option.map_some, Option.getD_some, Search.receive, handled]
    -- at least one record came
    exact fetching'.left live' inRange (by omega)
  · exact sound.elim

theorem Left.exchanges (inRange : first.InRange) {n : Nat} {state : Search R × Int × Sent} (left : Left server first n state) :
    Left server first 0 ((Zoom.exchange a backend server.size)^[n] state) := by
  induction n generalizing state with
  | zero => exact left
  | succ n ih => exact ih (left.exchange small presents inRange)

/-- A task is complete without an error after at most two exchanges more than records are wanted, and all that was wanted is cached. -/
theorem exchanges_retrieve (begins : task.Begins server) (notExpert : task.NotExpert) (query : task.resultset.query = true) {n : Nat}
    (enough : task.count ≤ n) : ∃ final, (exchange a backend server.size)^[n + 2] (zoomConnectionZ3950Search task 0) =
      (final, 0, .complete) ∧
      ∀ pos, task.start ≤ pos → pos < min (task.start + task.count) server.size →
        ∃ npr, final.resultset.cache.lookup pos task.format = some npr ∧
          (npr = server.record pos ∨ task.resultset.cache.lookup pos task.format = some npr) := by
  have left := (begins.left notExpert query enough).exchanges small presents begins.inRange
  generalize (exchange a backend server.size)^[n + 2] (zoomConnectionZ3950Search task 0) = state at left ⊢
  obtain ⟨final, error, sent⟩ := state
  obtain ⟨sound, rfl, few⟩ := left
  rcases sent with _ | (bounds | _ | numbers) | _
  · obtain ⟨fetching, all⟩ := sound rfl
    refine ⟨final, rfl, fun pos least wanted => ?_⟩
    obtain ⟨npr, cached⟩ := Option.isSome_iff_exists.mp (fetching.covered pos least (wanted.trans_le all) wanted)
    exact ⟨npr, cached, fetching.faithful pos npr cached⟩
  · exact absurd few.1 (by decide)
  · exact absurd few.1 (by decide)
  · exact absurd few.1 (by decide)
  · exact sound.elim

end

/-- The second record does not fit in a message behind the first. -/
def sampleBackends (start : Int) : Backend Unit where
  bendPresent := none
  fetch position := { record := some (), len := position - 1, outputFormat := some .sutrs, totalBefore := if position = start then 0 else 1 }

theorem exchanges_retrieve_two : ∃ final, (exchange ⟨1, 1⟩ sampleBackends 2)^[4] (zoomConnectionZ3950Search sampleTask 0) =
    (final, 0, .complete) ∧
    ∀ pos, 0 ≤ pos → pos < 2 → ∃ npr, final.resultset.cache.lookup pos {} = some npr ∧
      (npr = sampleServer.record pos ∨ sampleTask.resultset.cache.lookup pos {} = some npr) := by
  refine exchanges_retrieve (by decide) (fun start one two => ⟨fun _ => rfl, fun pos low high => ?_⟩) sampleTask_begins
    (.inl rfl) rfl (by decide)
  have few : pos < 2 := high
  have same : pos + 1 - 1 = pos := by omega
  refine ⟨rfl, ⟨(), ⟨.sutrs, (), pos⟩, rfl, ?_, rfl⟩, fun _ => ?_⟩
  · simp [sampleBackends, FetchRr.external, zExtRecordOid, same, Int.not_lt.mpr low]
  · simp [sampleBackends, FetchRr.thisLength, FetchRr.totalLength, low]
    split <;> omega

end Yaz.Zoom
