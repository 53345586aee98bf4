import Yaz.Server.Records

/-! A result set of ZOOM and the task that fetches its records: `handle_Z3950_records`,
`Z3950_send_present`, `Z3950_send_search` and `ZOOM_connection_Z3950_search` of `zoom-z3950.c`, and
`zoom-record-cache.c`.

There is no store for hit counts behind the cache, as in a build without one. Names, queries and
options that have no part in what is sent when are left out.
-/

set_option autoImplicit false

namespace Yaz.Zoom
open Yaz.Server Yaz.Comstack

structure Format where
  preferredSyntax : Option (List UInt8) := none
  elementSetName : Option (List UInt8) := none
  schema : Option (List UInt8) := none
  deriving DecidableEq

/-- `struct ZOOM_record_cache_p`. -/
structure CacheEntry (R : Type) where
  pos : Int
  format : Format
  npr : NamePlusRecord R
  deriving DecidableEq

/-- The chains of `record_hash`, as one. -/
abbrev Cache (R : Type) := List (CacheEntry R)

section
variable {R : Type}

def CacheEntry.isFor (entry : CacheEntry R) (pos : Int) (format : Format) : Bool := entry.pos = pos && entry.format = format

/-- `ZOOM_record_cache_lookup`. -/
def Cache.lookup (cache : Cache R) (pos : Int) (format : Format) : Option (NamePlusRecord R) :=
  (cache.find? fun entry => entry.isFor pos format).map CacheEntry.npr

/-- `ZOOM_record_cache_add`: an entry is changed if there is one. -/
def Cache.add (cache : Cache R) (npr : NamePlusRecord R) (pos : Int) (format : Format) : Cache R :=
  if cache.any fun entry => entry.isFor pos format then
    cache.map fun entry => if entry.isFor pos format then { entry with npr := npr } else entry
  else { pos := pos, format := format, npr := npr } :: cache

/-- An entry behind `ZOOM_record_cache_add` on another that was there. -/
def CacheEntry.change (npr : NamePlusRecord R) (pos : Int) (format : Format) (entry : CacheEntry R) : CacheEntry R :=
  if entry.isFor pos format then { entry with npr := npr } else entry

theorem CacheEntry.isFor_change (npr : NamePlusRecord R) (pos : Int) (format : Format) (pos' : Int) (format' : Format)
    (entry : CacheEntry R) :
    (entry.change npr pos format).isFor pos' format' = entry.isFor pos' format' := by
  rw [CacheEntry.change]
  split <;> rfl

theorem CacheEntry.isFor_iff {entry : CacheEntry R} {pos : Int} {format : Format} :
    entry.isFor pos format = true ↔ entry.pos = pos ∧ entry.format = format := by
  simp [CacheEntry.isFor]

theorem Cache.lookup_add (cache : Cache R) (npr : NamePlusRecord R) (pos : Int) (format : Format) (pos' : Int) (format' : Format) :
    (cache.add npr pos format).lookup pos' format' = if pos' = pos ∧ format' = format then some npr else cache.lookup pos' format' := by
  by_cases found : (cache.any fun entry => entry.isFor pos format) = true
  · have changed : (cache.map (CacheEntry.change npr pos format)).find? (fun entry => entry.isFor pos' format') =
        (cache.find? fun entry => entry.isFor pos' format').map (CacheEntry.change npr pos format) := by
      rw [List.find?_map]
      congr 2
      funext entry
      exact entry.isFor_change npr pos format pos' format'
    rw [Cache.add, if_pos found, Cache.lookup]
    rw [show (fun entry : CacheEntry R => if entry.isFor pos format = true then { entry with npr := npr } else entry) =
      CacheEntry.change npr pos format from rfl, changed, Option.map_map]
    split
    next asked =>
      obtain ⟨rfl, rfl⟩ := asked
      obtain ⟨entry, is⟩ := Option.isSome_iff_exists.mp (List.find?_isSome.mpr (List.any_eq_true.mp found))
      have here : entry.isFor pos' format' = true := by simpa using List.find?_some is
      rw [is, Option.map_some, Function.comp_apply, CacheEntry.change, if_pos here]
    next other =>
      rw [Cache.lookup]
      cases is : cache.find? fun entry => entry.isFor pos' format' with
      | none => rfl
      | some entry =>
        have here : entry.isFor pos' format' = true := by simpa using List.find?_some is
        have isFor := CacheEntry.isFor_iff.mp here
        have same : ¬ entry.isFor pos format = true := by
          rw [CacheEntry.isFor_iff, isFor.1, isFor.2]
          exact other
        rw [Option.map_some, Option.map_some, Function.comp_apply, CacheEntry.change, if_neg same]
  · rw [Cache.add, if_neg found, Cache.lookup, List.find?_cons]
    by_cases asked : pos' = pos ∧ format' = format
    · obtain ⟨rfl, rfl⟩ := asked
      simp [CacheEntry.isFor]
    · have notFirst : CacheEntry.isFor { pos := pos, format := format, npr := npr } pos' format' = false := by
        rw [Bool.eq_false_iff, ne_eq, CacheEntry.isFor_iff]
        exact fun same => asked ⟨same.1.symm, same.2.symm⟩
      rw [notFirst, if_neg asked]
      rfl

inductive LiveSet where
  | noHitCount
  | cachedHit
  | realSet
  deriving DecidableEq

/-- `struct ZOOM_resultset_p`, with its options for an expert. `query` says if there is a query that can be sent, `sortSpec` if
`r_sort_spec` is set. -/
structure Resultset (R : Type) where
  size : Int := 0
  step : Int := 0
  piggyback : Bool := true
  query : Bool := true
  sortSpec : Bool := false
  liveSet : LiveSet := .noHitCount
  cache : Cache R := []
  largeSetLowerBound : Int := -1
  smallSetUpperBound : Int := -1
  mediumSetPresentNumber : Int := -1
  deriving DecidableEq

/-- A task of the kind `ZOOM_TASK_SEARCH`, with its result set. -/
structure Search (R : Type) where
  start : Int
  count : Int
  format : Format
  resultset : Resultset R
  deriving DecidableEq

/-- A value in an `int`. -/
def int32 (v : Int) : Int := (v + 2 ^ 31) % 2 ^ 32 - 2 ^ 31

inductive Request where
  | search (bounds : SearchRequest)
  | sort
  | present (numbers : PresentRequest)
  deriving DecidableEq

inductive Sent where
  | complete
  | pending (request : Request)
  | aborted
  deriving DecidableEq

def zoomErrorDecode : Int := 10003
def zoomErrorInvalidQuery : Int := 10010
def systemErrorInPresentingRecords : Int := 14

/-- The bounds of `Z3950_send_search`. -/
def Search.bounds (task : Search R) : SearchRequest :=
  let r := task.resultset
  if r.largeSetLowerBound ≠ -1 ∧ r.smallSetUpperBound ≠ -1 ∧ r.mediumSetPresentNumber ≠ -1 then
    { largeSetLowerBound := r.largeSetLowerBound, smallSetUpperBound := r.smallSetUpperBound
      mediumSetPresentNumber := r.mediumSetPresentNumber }
  else if task.start = 0 ∧ 0 < task.count ∧ r.piggyback ∧ r.sortSpec = false ∧ task.format.schema = none then
    { largeSetLowerBound := 2000000000, smallSetUpperBound := 1
      mediumSetPresentNumber := if 0 < r.step then r.step else task.count }
  else { largeSetLowerBound := 1, smallSetUpperBound := 0, mediumSetPresentNumber := 0 }

/-- `Z3950_send_search`, with the error that it sets. -/
def Search.sendSearch (task : Search R) : Int × Sent :=
  if task.resultset.query then (0, .pending (.search task.bounds)) else (zoomErrorInvalidQuery, .complete)

/-- `Z3950_send_present`. -/
def Search.sendPresent (task : Search R) : Sent :=
  let number := if 0 < task.resultset.step ∧ task.resultset.step < task.count then task.resultset.step else task.count
  let number := if task.resultset.size < number + task.start then task.resultset.size - task.start else number
  if 0 < number then .pending (.present { resultSetStartPoint := int32 (task.start + 1), numberOfRecordsRequested := number }) else .aborted

def cachedNext (cache : Cache R) (format : Format) (start : Int) : (count : Nat) → Nat
  | 0 => 0
  | count + 1 => if (cache.lookup (int32 start) format).isSome then cachedNext cache format (start + 1) count + 1 else 0

def Search.clamped (task : Search R) : Search R :=
  if task.resultset.liveSet = .noHitCount then task
  else if task.resultset.size ≤ task.start then { task with count := 0 }
  else if task.resultset.size ≤ int32 (task.start + task.count) then { task with count := int32 (task.resultset.size - task.start) }
  else task

def Search.skipped (task : Search R) : Search R :=
  let i := cachedNext task.resultset.cache task.format task.start task.count.toNat
  { task with start := int32 (task.start + i), count := task.count - i }

/-- `ZOOM_connection_Z3950_search` for a task of this kind; the number is the error of the connection. -/
def zoomConnectionZ3950Search (task : Search R) (error : Int) : Search R × Int × Sent :=
  let error := if task.start < 0 ∨ task.count < 0 then presentRequestOutOfRange else error
  let task := task.clamped
  if error ≠ 0 then (task, error, .complete)
  else
    let task := task.skipped
    if task.count = 0 ∧ task.resultset.liveSet ≠ .noHitCount then (task, error, .complete)
    else if task.resultset.liveSet = .realSet then (task, error, task.sendPresent)
    else (task, task.sendSearch.1, task.sendSearch.2)

/-- `send_Z3950_sort`: the sort specification is sent only once. -/
def sendZ3950Sort (resultset : Resultset R) (error : Int) : Resultset R × Sent :=
  if error ≠ 0 then ({ resultset with sortSpec := false }, .complete)
  else if resultset.sortSpec then ({ resultset with sortSpec := false }, .pending .sort)
  else (resultset, .complete)

/-- `send_Z3950_sort_present` for a task of this kind. -/
def sendZ3950SortPresent (task : Search R) (error : Int) : Search R × Int × Sent :=
  let sent := sendZ3950Sort task.resultset error
  match sent.2 with
  | .complete => zoomConnectionZ3950Search { task with resultset := sent.1 } error
  | other => ({ task with resultset := sent.1 }, error, other)

/-- `Z_DiagRec`. -/
inductive DiagRec where
  | defaultFormat (condition : Int)
  | externallyDefined
  deriving DecidableEq

/-- The error that `response_diag` sets. -/
def responseDiag : DiagRec → Int
  | .defaultFormat condition => condition
  | .externallyDefined => zoomErrorDecode

/-- `Z_Records`, as a client gets it. -/
inductive ReceivedRecords (R : Type) where
  | nonSurrogateDiagnostic (condition : Int)
  | multipleNonSurDiagnostics (diagRecs : List DiagRec)
  | databaseOrSurDiagnostics (list : List (NamePlusRecord R))
  deriving DecidableEq

/-- What the records of a response make of a task: it is removed with all others, for an error, or it goes on. -/
inductive Handled (R : Type) where
  | removed (error : Int)
  | kept (task : Search R)
  deriving DecidableEq

def Search.store (task : Search R) : (records : List (NamePlusRecord R)) → (i : Int) → Cache R
  | [], _ => task.resultset.cache
  | npr :: records, i =>
    Search.store { task with resultset := { task.resultset with
      cache := task.resultset.cache.add npr (int32 (i + task.start)) task.format } }
      records (i + 1)

def Search.storeMissing (task : Search R) (addinfo : String) : Search R :=
  let npr := surrogatediagrec none systemErrorInPresentingRecords (some (ascii addinfo))
  { task with count := 0, resultset := { task.resultset with cache := task.resultset.cache.add npr task.start task.format } }

/-- `handle_Z3950_records` for a task of this kind. -/
def handleZ3950Records (task : Search R) (sr : Option (ReceivedRecords R)) (presentPhase : Bool) : Handled R :=
  match sr with
  | some (.nonSurrogateDiagnostic condition) => .removed condition
  | some (.multipleNonSurDiagnostics diagRecs) => .removed (diagRecs.head?.elim zoomErrorDecode responseDiag)
  | other =>
    let count :=
      if task.resultset.size < int32 (task.count + task.start) then int32 (task.resultset.size - task.start) else task.count
    let task := { task with count := if count < 0 then 0 else count }
    match other with
    | some (.databaseOrSurDiagnostics list) =>
      let stored := task.store list 0
      let count := int32 (task.count - list.length)
      let task := { task with
        start := int32 (task.start + list.length), count := if count < 0 then 0 else count
        resultset := { task.resultset with cache := stored } }
      .kept (if presentPhase ∧ list = [] then task.storeMissing "ZOOM C generated. Present phase and no records" else task)
    | _ => .kept (if presentPhase then task.storeMissing "ZOOM C generated: Present response and no records" else task)

/-- `handle_Z3950_search_response` for a task of this kind. -/
def handleZ3950SearchResponse (task : Search R) (resultCount : Int) (sr : Option (ReceivedRecords R)) : Handled R :=
  handleZ3950Records { task with resultset := { task.resultset with size := resultCount, liveSet := .realSet } } sr false

def handleZ3950PresentResponse (task : Search R) (sr : Option (ReceivedRecords R)) : Handled R := handleZ3950Records task sr true

end

end Yaz.Zoom
