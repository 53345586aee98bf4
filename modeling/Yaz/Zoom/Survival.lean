import Yaz.Zoom.Connection

/-! Which responses a connection survives, and what it does with those that do not belong to the task in front.

`Connection.Safe` is kept by each step that `Connection.Allows`; it is what keeps the assertion of `Z3950_send_present` from failing.
-/

set_option autoImplicit false

open List

namespace Yaz.Zoom
open Yaz.Server

section
variable {R : Type}

/-- The numbers of a task are in the range of an `int`, and so is the end of what it wants. -/
structure Ints (start count : Int) : Prop where
  ofStart : -2 ^ 31 ≤ start ∧ start ≤ intMax
  ofCount : -2 ^ 31 ≤ count ∧ count ≤ intMax
  sum : start + count ≤ intMax

def Apdu.belongs : Apdu R → TaskKind → Bool
  | .initAccepted, .connect => true
  | .initRefused _, .connect => true
  | .search _ _, .search _ _ _ _ => true
  | .present _, .search _ _ _ _ => true
  | .sort _, .search _ _ _ _ => true
  | .sort _, .sort _ _ => true
  | .scan _, .scan _ => true
  | .extendedServices _, .package => true
  | _, _ => false

def Connection.Leaves (c c' : Connection R) : Prop := c.tasks.map Task.kind <:+ c'.tasks.map Task.kind

/-- A step ends without a failure, and one with a response that does not belong to the task in front leaves that task, or sets an
error. -/
def Connection.Survives (c : Connection R) (step : Step R) : Prop :=
  ∃ c', c.step step = .ok c' ∧
    ∀ apdu network head rest, step = .apdu apdu network → c.tasks = head :: rest → apdu.belongs head.kind = false →
      c.Leaves c' ∨ c'.error ≠ 0

def Connection.Reconnects (c : Connection R) : Prop := c.reconnectOk = true → c.tasks ≠ []

def Apdu.Suits (error : Int) (head : TaskKind) : Apdu R → Prop
  | .initAccepted => head = .connect
  | .initRefused _ => True
  | .search resultCount records =>
    match head with
    | .search _ _ _ _ => Received.WellFormed (.search resultCount records)
    | .sort _ _ => error ≠ 0
    | _ => False
  | .present records =>
    match head with
    | .search _ _ _ _ => Received.WellFormed (.present records)
    | .sort _ _ => error ≠ 0
    | _ => False
  | .sort diagnostics =>
    match head with
    | .search _ _ _ _ => True
    | .sort _ _ => True
    | _ => firstDiag 0 diagnostics ≠ 0
  | .scan _ =>
    match head with
    | .scan _ => True
    | _ => error ≠ 0
  | .extendedServices _ => head = .package
  | .close => True
  | .other => True

def Connection.Allows (c : Connection R) : Step R → Prop
  | .call (.search _ start count _) => Ints start count
  | .call (.retrieve _ start count _) => Ints start count
  | .call _ => True
  | .process _ => True
  | .connected transport => transport = .lost → c.Reconnects
  | .notConnected => True
  | .lost => c.Reconnects
  | .timeout => True
  | .apdu apdu _ => (∀ head rest, c.tasks = head :: rest → apdu.Suits c.error head.kind) ∧ (apdu = .close → c.Reconnects)

def TaskKind.Safe : TaskKind → Prop
  | .search _ start count _ => Ints start count
  | _ => True

structure Connection.Safe (c : Connection R) : Prop where
  sizes : ∀ resultset ∈ c.resultsets, 0 ≤ resultset.size
  tasks : ∀ task ∈ c.tasks, task.kind.Safe

variable {c : Connection R}

namespace Connection

theorem Leaves.refl (c : Connection R) : c.Leaves c := suffix_refl _

theorem Safe.resultset (safe : c.Safe) (set : Nat) : 0 ≤ (c.resultset set).size := by
  rw [Connection.resultset, getD_eq_getElem?_getD]
  cases found : c.resultsets[set]? with
  | none => exact Int.le_refl 0
  | some resultset => exact safe.sizes resultset (mem_of_getElem? found)

theorem Safe.sizes_set (safe : c.Safe) {set : Nat} {resultset : Resultset R} (size : 0 ≤ resultset.size) :
    ∀ other ∈ c.resultsets.set set resultset, 0 ≤ other.size := by
  intro other among
  rcases mem_or_eq_of_mem_set among with before | rfl
  · exact safe.sizes other before
  · exact size

theorem Safe.tail (safe : c.Safe) : c.removeTask.Safe :=
  ⟨safe.sizes, fun task among => safe.tasks task (mem_of_mem_tail among)⟩

theorem Safe.removeTasks (safe : c.Safe) : c.removeTasks.Safe :=
  ⟨safe.sizes, fun _ among => absurd among not_mem_nil⟩

theorem Safe.addTask (safe : c.Safe) {kind : TaskKind} (kindSafe : kind.Safe) : (c.addTask kind).Safe := by
  refine ⟨safe.sizes, ?_⟩
  intro task among
  rcases mem_append.mp among with before | last
  · exact safe.tasks task before
  · rw [mem_singleton.mp last]
    exact kindSafe

theorem testReconnect_ok (safe : c.Safe) (reconnects : c.Reconnects) :
    ∃ result, c.testReconnect = .ok result ∧ ∀ c', result = some c' → c'.Safe ∧ c.Leaves c' := by
  rw [testReconnect]
  split
  · exact ⟨none, rfl, fun c' is => nomatch is⟩
  next ok =>
    split
    next empty => exact absurd empty (reconnects (by simpa using ok))
    next head rest is =>
      refine ⟨_, rfl, ?_⟩
      intro c' same
      cases same
      refine ⟨⟨safe.sizes, ?_⟩, ?_⟩
      · intro task among
        rcases mem_cons.mp among with rfl | among
        · trivial
        · rcases mem_cons.mp among with rfl | among
          · exact safe.tasks head (by rw [is]; exact mem_cons_self)
          · exact safe.tasks task (by rw [is]; exact mem_cons_of_mem _ among)
      · rw [Leaves, is]
        exact suffix_cons _ _

theorem lose_ok (safe : c.Safe) (reconnects : c.Reconnects) (error : Int) :
    ∃ c' ret, c.lose error = .ok (c', ret) ∧ c'.Safe ∧ c.Leaves c' ∧ (ret = .complete → c'.tasks = c.tasks ∧ c'.error = error) := by
  obtain ⟨result, is, kept⟩ := testReconnect_ok safe reconnects
  rw [lose, is]
  cases result with
  | none => exact ⟨_, _, rfl, ⟨safe.sizes, safe.tasks⟩, Leaves.refl c, fun _ => ⟨rfl, rfl⟩⟩
  | some c' =>
    obtain ⟨safe', leaves⟩ := kept c' rfl
    exact ⟨_, _, rfl, safe', leaves, fun complete => nomatch complete⟩

theorem sendApdu_ok (safe : c.Safe) {transport : Transport} (reconnects : transport = .lost → c.Reconnects) :
    ∃ c' ret, c.sendApdu transport = .ok (c', ret) ∧ c'.Safe ∧ (ret = .complete → c'.tasks = c.tasks ∧ c'.error ≠ 0) := by
  cases transport with
  | sent => exact ⟨c, .pending, rfl, safe, fun complete => nomatch complete⟩
  | notEncoded => exact ⟨_, .complete, rfl, ⟨safe.sizes, safe.tasks⟩, fun _ => ⟨rfl, show zoomErrorEncode ≠ 0 by decide⟩⟩
  | lost =>
    obtain ⟨c', ret, is, safe', -, failed⟩ :=
      lose_ok safe (reconnects rfl) (if c.connecting then zoomErrorConnect else zoomErrorConnectionLost)
    refine ⟨c', ret, is, safe', ?_⟩
    intro complete
    obtain ⟨tasks, error⟩ := failed complete
    refine ⟨tasks, ?_⟩
    rw [error]
    split <;> decide

theorem sendApdu_settles (safe : c.Safe) (some : c.tasks ≠ []) (transport : Transport) :
    ∃ c' ret, c.sendApdu transport = .ok (c', ret) ∧ c'.Safe ∧ (c'.settle ret).Safe ∧ (ret = .complete → c'.tasks = c.tasks) := by
  obtain ⟨c', ret, is, safe', failed⟩ := sendApdu_ok safe fun _ _ => some
  refine ⟨c', ret, is, safe', ?_, fun complete => (failed complete).1⟩
  cases ret with
  | complete => exact safe'.tail
  | pending => exact safe'

/-! ### Searches -/

theorem Safe.head (safe : c.Safe) {head : Task} {rest : List Task} (is : c.tasks = head :: rest) : head.kind.Safe :=
  safe.tasks head (by rw [is]; exact mem_cons_self)

theorem Safe.putHead (safe : c.Safe) {head : Task} {rest : List Task} (is : c.tasks = head :: rest) {set : Nat}
    {task : Search R} {error : Int}
    (size : 0 ≤ task.resultset.size) (ints : Ints task.start task.count) : (c.putHead head rest set task error).Safe := by
  refine ⟨safe.sizes_set size, ?_⟩
  intro other among
  rcases mem_cons.mp among with rfl | among
  · exact ints
  · exact safe.tasks other (by rw [is]; exact mem_cons_of_mem _ among)

theorem Safe.putHead_tail (safe : c.Safe) {head : Task} {rest : List Task} (is : c.tasks = head :: rest) {set : Nat}
    {task : Search R} {error : Int}
    (size : 0 ≤ task.resultset.size) : (c.putHead head rest set task error).removeTask.Safe := by
  refine ⟨safe.sizes_set size, ?_⟩
  intro other among
  exact safe.tasks other (by rw [is]; exact mem_cons_of_mem _ among)

end Connection

theorem Search.skipped_resultset (task : Search R) : task.skipped.resultset = task.resultset := rfl

theorem zoomConnectionZ3950Search_resultset (task : Search R) (error : Int) :
    (zoomConnectionZ3950Search task error).1.resultset = task.resultset := by
  rw [zoomConnectionZ3950Search]
  dsimp only
  repeat' split
  all_goals simp only [Search.skipped_resultset, Search.clamped_resultset]

theorem Search.Fits.ints {task : Search R} (fits : task.Fits) : Ints task.start task.count := by
  obtain ⟨low, start, count, sum, size⟩ := fits
  have large : intMax = 2 ^ 31 - 1 := rfl
  exact ⟨by omega, by omega, sum⟩

namespace Connection

def Searching (c : Connection R) : Prop :=
  ∀ head rest, c.tasks = head :: rest → (∃ set start count format, head.kind = .search set start count format) ∨
    ∃ set spec, head.kind = .sort set spec

theorem search_ok (safe : c.Safe) (transport : Transport)
    (suits : c.Searching) :
    ∃ c' ret, c.search transport = .ok (c', ret) ∧ (c'.settle ret).Safe := by
  cases is : c.tasks with
  | nil =>
    refine ⟨c, .complete, ?_, safe.tail⟩
    rw [search, is]
  | cons head rest =>
    rcases suits head rest is with ⟨set, start, count, format, kind⟩ | ⟨set, spec, kind⟩
    · have ints : Ints start count := by
        have headSafe := safe.head is
        rw [kind] at headSafe
        exact headSafe
      have size : 0 ≤ (c.headSearch set start count format).resultset.size := safe.resultset set
      have sends := @zoomConnectionZ3950Search_sends R (c.headSearch set start count format) c.error ints.sum size
      have same := zoomConnectionZ3950Search_resultset (c.headSearch set start count format) c.error
      rw [search, is]
      dsimp only
      rw [kind]
      dsimp only
      generalize zoomConnectionZ3950Search (c.headSearch set start count format) c.error = result at sends same
      obtain ⟨task, error, sent⟩ := result
      have size' : 0 ≤ task.resultset.size := by
        rw [same]
        exact size
      cases sent with
      | aborted => exact absurd rfl sends.kept.1
      | complete => exact ⟨_, _, rfl, safe.putHead_tail is size'⟩
      | pending request =>
        have fits := (sends.kept.2 request rfl).1
        have safe' := @Safe.putHead R c safe head rest is set task error size' fits.ints
        obtain ⟨c', ret, ok, -, settles, -⟩ := sendApdu_settles safe' (cons_ne_nil _ _) transport
        exact ⟨c', ret, ok, settles⟩
    · refine ⟨c, .complete, ?_, safe.tail⟩
      rw [search, is]
      dsimp only
      rw [kind]

theorem sendZ3950Sort_size (resultset : Resultset R) (error : Int) : (sendZ3950Sort resultset error).1.size = resultset.size := by
  rw [sendZ3950Sort]
  split
  · rfl
  · split <;> rfl

theorem sendZ3950Sort_sent (resultset : Resultset R) (error : Int) :
    (sendZ3950Sort resultset error).2 = .complete ∨ (sendZ3950Sort resultset error).2 = .pending .sort := by
  rw [sendZ3950Sort]
  split
  · exact .inl rfl
  · split
    · exact .inr rfl
    · exact .inl rfl

theorem sendSort_ok (safe : c.Safe) (some : c.tasks ≠ []) (set : Nat) (transport : Transport) :
    ∃ c' ret, c.sendSort set transport = .ok (c', ret) ∧ c'.Safe ∧ (c'.settle ret).Safe ∧ (ret = .complete → c'.tasks = c.tasks) := by
  have size : 0 ≤ (sendZ3950Sort (c.resultset set) c.error).1.size := by
    rw [sendZ3950Sort_size]
    exact safe.resultset set
  have safe' : ({ c with resultsets := c.resultsets.set set (sendZ3950Sort (c.resultset set) c.error).1 } : Connection R).Safe :=
    ⟨safe.sizes_set size, safe.tasks⟩
  rw [sendSort]
  rcases sendZ3950Sort_sent (c.resultset set) c.error with sent | sent
  · rw [sent]
    exact ⟨_, _, rfl, safe', safe'.tail, fun _ => rfl⟩
  · rw [sent]
    exact sendApdu_settles safe' some transport

theorem sendSortPresent_ok (safe : c.Safe) (transport : Transport)
    (suits : c.Searching) :
    ∃ c' ret, c.sendSortPresent transport = .ok (c', ret) ∧ (c'.settle ret).Safe := by
  rw [sendSortPresent]
  split
  next set start count format running rest is =>
    obtain ⟨c', ret, sorted, safe', settles, same⟩ := sendSort_ok safe (by rw [is]; exact cons_ne_nil _ _) set transport
    rw [sorted]
    cases ret with
    | pending => exact ⟨c', .pending, rfl, settles⟩
    | complete =>
      apply search_ok safe' transport
      intro head rest' is'
      rw [same rfl] at is'
      exact suits head rest' is'
  · exact search_ok safe transport suits

theorem doConnect_ok (safe : c.Safe) (some : c.tasks ≠ []) (network : Network) :
    ∃ c' ret, c.doConnect network = .ok (c', ret) ∧ (c'.settle ret).Safe := by
  have safe' : ({ c with cs := true } : Connection R).Safe := ⟨safe.sizes, safe.tasks⟩
  rw [doConnect]
  split
  · obtain ⟨c', ret, is, afterSafe, -⟩ := sendApdu_ok safe' fun _ _ => some
    rw [is]
    exact ⟨_, .pending, rfl, ⟨afterSafe.sizes, afterSafe.tasks⟩⟩
  · exact ⟨_, .pending, rfl, ⟨safe.sizes, safe.tasks⟩⟩
  · exact ⟨_, .complete, rfl, Safe.tail (c := { c with cs := _, connecting := false, error := zoomErrorConnect }) ⟨safe.sizes, safe.tasks⟩⟩

theorem exec_ok (safe : c.Safe) {head : Task} {rest : List Task} (is : c.tasks = head :: rest) (network : Network) :
    ∃ c' ret, c.exec head.kind network = .ok (c', ret) ∧ (c'.settle ret).Safe := by
  have some : c.tasks ≠ [] := by
    rw [is]
    exact cons_ne_nil _ _
  cases kind : head.kind with
  | connect => exact doConnect_ok safe some network
  | search set start count format =>
    apply search_ok safe
    intro head' rest' is'
    cases is.symm.trans is'
    exact .inl ⟨set, start, count, format, kind⟩
  | scan error =>
    rw [exec]
    split
    · obtain ⟨c', ret, sent, -, settles, -⟩ := sendApdu_settles safe some network.transport
      exact ⟨c', ret, sent, settles⟩
    · exact ⟨_, .complete, rfl, Safe.tail (c := { c with error := error }) ⟨safe.sizes, safe.tasks⟩⟩
  | package =>
    rw [exec]
    split
    · obtain ⟨c', ret, sent, -, settles, -⟩ := sendApdu_settles safe some .lost
      exact ⟨c', ret, sent, settles⟩
    · exact ⟨c, .pending, rfl, safe⟩
  | sort set spec =>
    have size : 0 ≤ ({ c.resultset set with sortSpec := spec } : Resultset R).size := safe.resultset set
    have safe' : ({ c with resultsets := c.resultsets.set set { c.resultset set with sortSpec := spec } } : Connection R).Safe :=
      ⟨safe.sizes_set size, safe.tasks⟩
    obtain ⟨c', ret, sorted, -, settles, -⟩ := sendSort_ok safe' some set network.transport
    exact ⟨c', ret, sorted, settles⟩

theorem execTask_ok (safe : c.Safe) (network : Network) : ∃ c', c.execTask network = .ok c' ∧ c'.Safe := by
  rw [execTask]
  split
  · exact ⟨c, rfl, safe⟩
  next head rest is =>
    split
    · exact ⟨_, rfl, safe.removeTasks⟩
    · split
      · exact ⟨c, rfl, safe⟩
      · split
        · have running : ({ c with tasks := { head with running := true } :: rest } : Connection R).Safe := by
            refine ⟨safe.sizes, ?_⟩
            intro task among
            rcases mem_cons.mp among with rfl | among
            · have headSafe := safe.head is
              exact headSafe
            · exact safe.tasks task (by rw [is]; exact mem_cons_of_mem _ among)
          obtain ⟨c', ret, done, settles⟩ := @exec_ok R _ running { head with running := true } rest rfl network
          rw [done]
          exact ⟨_, rfl, settles⟩
        · exact ⟨_, rfl, safe.removeTasks⟩

end Connection

/-! ### Responses -/

theorem Search.cut_ints {task : Search R} (ints : Ints task.start task.count) (size : 0 ≤ task.resultset.size) :
    Ints task.cut.start task.cut.count ∧ 0 ≤ task.cut.count := by
  obtain ⟨⟨low, high⟩, ⟨least, most⟩, sum⟩ := ints
  have large : intMax = 2 ^ 31 - 1 := rfl
  have cut : 0 ≤ task.cut.count ∧ task.cut.count ≤ intMax ∧ task.start + task.cut.count ≤ intMax := by
    obtain ⟨cutLeast, cutMost⟩ := int32_range (task.resultset.size - task.start)
    rw [Search.cut]
    dsimp only
    by_cases negative : task.start < 0
    · split <;> split <;> omega
    · have same : int32 (task.count + task.start) = task.count + task.start := int32_eq (by omega) (by omega)
      rw [same]
      split
      next ends =>
        have rest : int32 (task.resultset.size - task.start) = task.resultset.size - task.start := int32_eq (by omega) (by omega)
        rw [rest]
        split <;> omega
      next inside => split <;> omega
  have start : task.cut.start = task.start := rfl
  exact ⟨⟨by omega, by omega, by omega⟩, cut.1⟩

theorem Search.behindList_ints {task : Search R} {list : List (NamePlusRecord R)} (ints : Ints task.start task.count)
    (least : 0 ≤ task.count)
    (length : (list.length : Int) ≤ intMax) : Ints (task.behindList list).start (task.behindList list).count := by
  obtain ⟨⟨low, high⟩, ⟨-, most⟩, sum⟩ := ints
  have large : intMax = 2 ^ 31 - 1 := rfl
  have left : int32 (task.count - list.length) = task.count - list.length := int32_eq (by omega) (by omega)
  obtain ⟨nextLow, nextHigh⟩ := int32_range (task.start + list.length)
  have next : 0 < task.count - list.length → int32 (task.start + list.length) = task.start + list.length :=
    fun some => int32_eq (by omega) (by omega)
  rw [Search.behindList, left]
  by_cases some : 0 < task.count - list.length
  · have same := next some
    refine ⟨⟨nextLow, nextHigh⟩, ?_, ?_⟩
    · dsimp only
      split <;> omega
    · dsimp only
      split <;> omega
  · refine ⟨⟨nextLow, nextHigh⟩, ?_, ?_⟩
    · dsimp only
      split <;> omega
    · dsimp only
      split <;> omega

theorem Ints.storeMissing {task : Search R} (ints : Ints task.start task.count) (addinfo : String) :
    Ints (task.storeMissing addinfo).start (task.storeMissing addinfo).count := by
  have start : (task.storeMissing addinfo).start = task.start := rfl
  have count : (task.storeMissing addinfo).count = 0 := rfl
  have large : intMax = 2 ^ 31 - 1 := rfl
  have range := ints.ofStart
  rw [start, count]
  exact ⟨range, by omega, by omega⟩

theorem handleZ3950Records_ints {task task' : Search R} {sr : Option (ReceivedRecords R)} {presentPhase : Bool}
    (ints : Ints task.start task.count)
    (size : 0 ≤ task.resultset.size) (length : ((ReceivedRecords.list sr).length : Int) ≤ intMax)
    (kept : handleZ3950Records task sr presentPhase = .kept task') :
    Ints task'.start task'.count ∧ task'.resultset.size = task.resultset.size := by
  obtain ⟨cutInts, least⟩ := Search.cut_ints ints size
  match sr, presentPhase with
  | some (.nonSurrogateDiagnostic condition), _ => cases kept
  | some (.multipleNonSurDiagnostics diagRecs), _ => cases kept
  | none, true =>
    cases kept
    exact ⟨cutInts.storeMissing _, rfl⟩
  | none, false =>
    cases kept
    exact ⟨cutInts, rfl⟩
  | some (.databaseOrSurDiagnostics list), presentPhase =>
    have behind : Ints (task.cut.behindList list).start (task.cut.behindList list).count := Search.behindList_ints cutInts least length
    by_cases noRecord : presentPhase = true ∧ list = []
    · obtain ⟨rfl, rfl⟩ := noRecord
      cases kept
      exact ⟨behind.storeMissing _, rfl⟩
    · rw [handleZ3950Records_list list presentPhase fun phase none => noRecord ⟨phase, none⟩] at kept
      cases kept
      exact ⟨behind, rfl⟩

namespace Connection

variable {head : Task} {resultset : Resultset R}

theorem Safe.putHandled (safe : c.Safe) {rest : List Task} (is : c.tasks = head :: rest) {set : Nat}
    {handled : Handled R} (size : 0 ≤ resultset.size)
    (ints : ∀ task, handled = .kept task → Ints task.start task.count ∧ 0 ≤ task.resultset.size) :
    (c.putHandled head rest set resultset handled).Safe := by
  cases handled with
  | removed => exact ⟨safe.sizes_set size, fun _ among => absurd among not_mem_nil⟩
  | kept task =>
    obtain ⟨taskInts, taskSize⟩ := ints task rfl
    exact safe.putHead is taskSize taskInts

theorem putHandled_front {rest : List Task} {set : Nat} {handled : Handled R} :
    ∀ head' rest', (c.putHandled head rest set resultset handled).tasks = head' :: rest' →
      ∃ set start count format, head'.kind = .search set start count format := by
  intro head' rest' is
  cases handled with
  | removed => cases is
  | kept task =>
    cases is
    exact ⟨set, task.start, task.count, task.format, rfl⟩

variable {records : Option (ReceivedRecords R)}

theorem Safe.putRecords (safe : c.Safe) {rest : List Task} (is : c.tasks = head :: rest) {set : Nat}
    {task : Search R} {presentPhase : Bool} (ints : Ints task.start task.count)
    (size : 0 ≤ resultset.size) (taskSize : 0 ≤ task.resultset.size) (length : ((ReceivedRecords.list records).length : Int) ≤ intMax) :
    (c.putHandled head rest set resultset (handleZ3950Records task records presentPhase)).Safe := by
  apply safe.putHandled is size
  intro task' kept
  obtain ⟨taskInts, same⟩ := handleZ3950Records_ints ints taskSize length kept
  exact ⟨taskInts, by rw [same]; exact taskSize⟩

theorem searching_of_suits {apdu : Apdu R}
    (no : ¬ apdu.Suits c.error .connect ∧ (∀ error, ¬ apdu.Suits c.error (.scan error)) ∧ ¬ apdu.Suits c.error .package)
    (suits : ∀ head rest, c.tasks = head :: rest → apdu.Suits c.error head.kind) : c.Searching := by
  intro head rest is
  have suitsHead := suits head rest is
  cases kind : head.kind with
  | search set start count format => exact .inl ⟨set, start, count, format, rfl⟩
  | sort set spec => exact .inr ⟨set, spec, rfl⟩
  | connect => exact absurd (kind ▸ suitsHead) no.1
  | scan error => exact absurd (kind ▸ suitsHead) (no.2.1 error)
  | package => exact absurd (kind ▸ suitsHead) no.2.2

theorem handleSearchResponse_ok (safe : c.Safe) {resultCount : Int} {network : Network}
    (suits : ∀ head rest, c.tasks = head :: rest → (Apdu.search resultCount records).Suits c.error head.kind) :
    ∃ c', c.handleApdu network (.search resultCount records) = .ok c' ∧ c'.Safe := by
  have searching : c.Searching := searching_of_suits ⟨id, fun _ => id, id⟩ suits
  obtain ⟨safe', front⟩ : (c.handleSearchResponse resultCount records).Safe ∧ (c.handleSearchResponse resultCount records).Searching := by
    rw [handleSearchResponse]
    split
    next head rest is =>
      split
      next set start count format kind =>
        have suitsHead := suits head rest is
        have headSafe := safe.head is
        rw [kind] at suitsHead headSafe
        obtain ⟨size, length⟩ : 0 ≤ resultCount ∧ ((ReceivedRecords.list records).length : Int) ≤ intMax := suitsHead
        exact ⟨safe.putRecords is headSafe size size length, fun head' rest' is' => .inl (putHandled_front head' rest' is')⟩
      next => exact ⟨safe, searching⟩
    next => exact ⟨safe, searching⟩
  obtain ⟨c', ret, sent, settles⟩ := sendSortPresent_ok safe' network.transport front
  rw [handleApdu, sent]
  exact ⟨_, rfl, settles⟩

theorem handlePresentResponse_ok (safe : c.Safe) {network : Network}
    (suits : ∀ head rest, c.tasks = head :: rest → (Apdu.present records).Suits c.error head.kind) :
    ∃ c', c.handleApdu network (.present records) = .ok c' ∧ c'.Safe := by
  have searching : c.Searching := searching_of_suits ⟨id, fun _ => id, id⟩ suits
  obtain ⟨safe', front⟩ : (c.handlePresentResponse records).Safe ∧ (c.handlePresentResponse records).Searching := by
    rw [handlePresentResponse]
    split
    next head rest is =>
      split
      next set start count format kind =>
        have suitsHead := suits head rest is
        have headSafe := safe.head is
        rw [kind] at suitsHead headSafe
        have size : 0 ≤ (c.resultset set).size := safe.resultset set
        exact ⟨safe.putRecords is headSafe size size suitsHead, fun head' rest' is' => .inl (putHandled_front head' rest' is')⟩
      next => exact ⟨safe, searching⟩
    next => exact ⟨safe, searching⟩
  obtain ⟨c', ret, sent, settles⟩ := search_ok safe' network.transport front
  rw [handleApdu, sent]
  exact ⟨_, rfl, settles⟩

theorem handleSortResponse_ok (safe : c.Safe) {diagnostics : List DiagRec} {network : Network}
    (suits : ∀ head rest, c.tasks = head :: rest → (Apdu.sort diagnostics : Apdu R).Suits c.error head.kind) :
    ∃ c', c.handleApdu network (.sort diagnostics) = .ok c' ∧ c'.Safe := by
  obtain ⟨safe', front⟩ : (c.handleSortResponse diagnostics).Safe ∧ (c.handleSortResponse diagnostics).Searching := by
    cases diagnostics with
    | nil =>
      refine ⟨safe, searching_of_suits ?_ suits⟩
      exact ⟨fun error => error rfl, fun _ error => error rfl, fun error => error rfl⟩
    | cons => exact ⟨⟨safe.sizes, fun _ among => absurd among not_mem_nil⟩, fun _ _ is => nomatch is⟩
  obtain ⟨c', ret, sent, settles⟩ := search_ok safe' network.transport front
  rw [handleApdu, sent]
  exact ⟨_, rfl, settles⟩

theorem handleApdu_ok (safe : c.Safe) (network : Network) (apdu : Apdu R)
    (suits : ∀ head rest, c.tasks = head :: rest → apdu.Suits c.error head.kind) (reconnects : apdu = .close → c.Reconnects) :
    ∃ c', c.handleApdu network apdu = .ok c' ∧ c'.Safe := by
  cases apdu with
  | initAccepted =>
    rw [handleApdu]
    split
    · exact execTask_ok safe network
    next head rest is =>
      have connects : head.kind = .connect := suits head rest is
      rw [if_pos connects]
      exact execTask_ok safe.tail network
  | initRefused => exact ⟨_, rfl, ⟨safe.sizes, safe.tasks⟩⟩
  | search => exact handleSearchResponse_ok safe suits
  | present => exact handlePresentResponse_ok safe suits
  | sort => exact handleSortResponse_ok safe suits
  | scan diagnostics =>
    have safe' : (c.handleScanResponse diagnostics).Safe := by
      unfold handleScanResponse
      split
      · exact ⟨safe.sizes, safe.tasks⟩
      · exact safe
    exact ⟨_, rfl, safe'.tail⟩
  | extendedServices =>
    rw [handleApdu, handleEsResponse]
    split
    next failure failed =>
      split at failed
      · cases failed
      next head rest is =>
        have package : head.kind = .package := suits head rest is
        rw [if_pos package] at failed
        cases failed
    next c' done =>
      refine ⟨_, rfl, Safe.tail ?_⟩
      split at done
      · cases done
        exact safe
      · split at done
        · cases done
          exact ⟨safe.sizes, safe.tasks⟩
        · cases done
  | close =>
    obtain ⟨c', ret, lost, safe', -⟩ := lose_ok safe (reconnects rfl) zoomErrorConnectionLost
    rw [handleApdu, lost]
    exact ⟨c', rfl, safe'⟩
  | other => exact ⟨_, rfl, ⟨safe.sizes, safe.tasks⟩⟩

theorem call_safe (safe : c.Safe) {call : Call R} (allows : c.Allows (.call call)) : (c.call call).Safe := by
  cases call with
  | connect error =>
    have emptied : ({ c.removeTasks with error := 0 } : Connection R).Safe := ⟨safe.sizes, fun _ among => absurd among not_mem_nil⟩
    rw [Connection.call]
    split
    · exact ⟨emptied.sizes, emptied.tasks⟩
    · split
      · exact ⟨emptied.sizes, emptied.tasks⟩
      · exact emptied.addTask trivial
  | search options =>
    have grown : ({ c with resultsets := c.resultsets ++
      [{ options with size := 0, liveSet := .noHitCount, cache := [] }] } : Connection R).Safe := by
      refine ⟨?_, safe.tasks⟩
      intro resultset among
      rcases mem_append.mp among with before | last
      · exact safe.sizes resultset before
      · rw [mem_singleton.mp last]
    exact grown.addTask allows
  | retrieve =>
    rw [Connection.call]
    split
    · exact safe.addTask allows
    · exact safe
  | sort set =>
    rw [Connection.call]
    split
    · have size : 0 ≤ ({ c.resultset set with cache := [] } : Resultset R).size := safe.resultset set
      have changed : ({ c with resultsets := c.resultsets.set set { c.resultset set with cache := [] } } : Connection R).Safe :=
        ⟨safe.sizes_set size, safe.tasks⟩
      exact changed.addTask trivial
    · exact safe
  | scan => exact safe.addTask trivial
  | package => exact safe.addTask trivial

theorem step_ok (safe : c.Safe) {step : Step R} (allows : c.Allows step) : ∃ c', c.step step = .ok c' ∧ c'.Safe := by
  cases step with
  | call => exact ⟨_, rfl, call_safe safe allows⟩
  | process network => exact execTask_ok safe network
  | connected =>
    obtain ⟨c', ret, sent, safe', -⟩ := sendApdu_ok safe allows
    rw [Connection.step, sent]
    exact ⟨_, rfl, ⟨safe'.sizes, safe'.tasks⟩⟩
  | notConnected => exact ⟨_, rfl, ⟨safe.sizes, safe.tasks⟩⟩
  | lost =>
    obtain ⟨c', ret, lost, safe', -⟩ := lose_ok safe allows zoomErrorConnectionLost
    rw [Connection.step, lost]
    exact ⟨c', rfl, safe'⟩
  | timeout => exact ⟨_, rfl, ⟨safe.sizes, safe.tasks⟩⟩
  | apdu apdu network => exact handleApdu_ok safe network apdu allows.1 allows.2

/-- A response that suits a task it does not belong to leaves it, or leaves an error. -/
theorem handleApdu_foreign (safe : c.Safe) {network : Network} {apdu : Apdu R} {rest : List Task} {c' : Connection R}
    (is : c.tasks = head :: rest) (suits : apdu.Suits c.error head.kind) (foreign : apdu.belongs head.kind = false)
    (reconnects : c.Reconnects) (done : c.handleApdu network apdu = .ok c') : c.Leaves c' ∨ c'.error ≠ 0 := by
  obtain ⟨kind, running⟩ := head
  cases apdu with
  | initAccepted =>
    have connects : kind = .connect := suits
    rw [connects] at foreign
    cases foreign
  | initRefused =>
    cases done
    exact .inl (Leaves.refl c)
  | search resultCount records =>
    cases kind with
    | search => cases foreign
    | sort =>
      right
      have error : c.error ≠ 0 := suits
      have same : c.handleSearchResponse resultCount records = c := by simp only [handleSearchResponse, is]
      have sent : c.sendSortPresent network.transport = .ok (c, .complete) := by simp only [sendSortPresent, search, is]
      rw [handleApdu, same, sent] at done
      cases done
      exact error
    | _ => exact suits.elim
  | present records =>
    cases kind with
    | search => cases foreign
    | sort =>
      right
      have error : c.error ≠ 0 := suits
      have same : c.handlePresentResponse records = c := by simp only [handlePresentResponse, is]
      have sent : c.search network.transport = .ok (c, .complete) := by simp only [search, is]
      rw [handleApdu, same, sent] at done
      cases done
      exact error
    | _ => exact suits.elim
  | sort diagnostics =>
    right
    have error : firstDiag 0 diagnostics ≠ 0 := by
      cases kind with
      | search => cases foreign
      | sort => cases foreign
      | _ => exact suits
    cases diagnostics with
    | nil => exact absurd rfl error
    | cons =>
      cases done
      exact error
  | scan diagnostics =>
    right
    have error : c.error ≠ 0 := by
      cases kind with
      | scan => cases foreign
      | _ => exact suits
    have same : c.handleScanResponse diagnostics = c := by
      cases kind with
      | scan => cases foreign
      | _ => simp only [handleScanResponse, is]
    rw [handleApdu, same] at done
    cases done
    exact error
  | extendedServices =>
    have package : kind = .package := suits
    rw [package] at foreign
    cases foreign
  | close =>
    left
    obtain ⟨c'', ret, lost, -, leaves, -⟩ := lose_ok safe reconnects zoomErrorConnectionLost
    rw [handleApdu, lost] at done
    cases done
    exact leaves
  | other =>
    cases done
    exact .inr (show zoomErrorDecode ≠ 0 by decide)

inductive Reachable : Connection R → Prop
  | created : Reachable {}
  | step {c c' : Connection R} (step : Step R) : Reachable c → c.Allows step → c.step step = .ok c' → Reachable c'

theorem Reachable.safe (reachable : Reachable c) : c.Safe := by
  induction reachable with
  | created => exact ⟨fun _ among => absurd among not_mem_nil, fun _ among => absurd among not_mem_nil⟩
  | step _ _ allows done ih =>
    obtain ⟨c', is, safe⟩ := step_ok ih allows
    cases is.symm.trans done
    exact safe

/-- A connection survives each step that it allows, in each run of such steps. -/
theorem reachable_survives (reachable : Reachable c) {step : Step R} (allows : c.Allows step) : c.Survives step := by
  have safe := reachable.safe
  obtain ⟨c', done, -⟩ := step_ok safe allows
  refine ⟨c', done, ?_⟩
  intro apdu network head rest is front foreign
  rw [is] at allows done
  have some : c.Reconnects := fun _ none => nomatch none.symm.trans front
  exact handleApdu_foreign safe front (allows.1 head rest front) foreign some done

end Connection

end

def searching : List (Step Unit) :=
  [.call (.connect 0), .process {}, .apdu .initAccepted {}, .call (.search {} 0 1 {}), .process {}]

def reconnecting : List (Step Unit) := searching ++ [.call (.connect 0)]

/-- An extended services response to a search fails an assertion, a scan response removes the search without an error, and a Close finds no
task where a client has been told to connect again. -/
theorem searching_fails :
    (Connection.run {} (searching ++ [.apdu (.extendedServices {}) {}]) = .error .assertion) ∧
    ((Connection.run {} searching).map (fun c => (c.tasks.length, c.error)) = .ok (1, 0) ∧
      (Connection.run {} (searching ++ [.apdu (.scan []) {}])).map (fun c => (c.tasks.length, c.error)) = .ok (0, 0)) ∧
    Connection.run {} (reconnecting ++ [.apdu .close {}]) = .error .nullHead := by
  decide

def searchingState : Connection Unit :=
  { tasks := [{ kind := .search 0 0 1 {}, running := true }], cs := true
    resultsets := [{}] }

theorem searchingState_reachable : Connection.Reachable searchingState := by
  have asked : Connection.Reachable ({ tasks := [{ kind := .connect }] } : Connection Unit) :=
    .step (.call (.connect 0)) .created trivial (by decide)
  have connecting : Connection.Reachable ({ tasks := [{ kind := .connect, running := true }], cs := true } : Connection Unit) :=
    .step (.process {}) asked trivial (by decide)
  have connected : Connection.Reachable ({ cs := true } : Connection Unit) := by
    apply Connection.Reachable.step (.apdu .initAccepted {}) connecting
    · refine ⟨?_, fun other => nomatch other⟩
      intro head rest is
      cases is
      rfl
    · decide
  have called : Connection.Reachable ({ tasks := [{ kind := .search 0 0 1 {} }], cs := true, resultsets := [{}] } : Connection Unit) :=
    .step (.call (.search {} 0 1 {})) connected ⟨by decide, by decide, by decide⟩ (by decide)
  exact .step (.process {}) called trivial (by decide +kernel)

theorem searchingState_survives : searchingState.Survives (.apdu (.search 10 none) {}) := by
  apply Connection.reachable_survives searchingState_reachable
  refine ⟨?_, fun other => nomatch other⟩
  intro head rest is
  cases is
  exact ⟨by decide, by decide⟩

end Yaz.Zoom
