import Yaz.Zoom.Resultset
import Yaz.Pqf.Parser

/-! A search task of ZOOM over SRU: `ZOOM_connection_srw_send_search` and `handle_srw_response` of `zoom-sru.c`.

A request is the numbers in it. The connection is kept open behind each response.
-/

set_option autoImplicit false

namespace Yaz.Zoom
open Yaz.Server

/-- `Z_SRW_searchRetrieveRequest`. -/
structure SearchRetrieveRequest where
  startRecord : Int
  maximumRecords : Int
  deriving DecidableEq

/-- How `ZOOM_connection_srw_send_search` ends. -/
inductive SentSrw where
  | complete
  | pending (request : SearchRetrieveRequest)
  deriving DecidableEq

/-- `Z_SRW_record`. -/
structure SrwRecord (R : Type) where
  recordPosition : Option Int
  recordData : External R
  deriving DecidableEq

/-- `Z_SRW_searchRetrieveResponse`; a diagnostic is its `uri`. -/
structure SearchRetrieveResponse (R : Type) where
  numberOfRecords : Option Int
  records : List (SrwRecord R)
  diagnostics : List (Option (List UInt8))
  deriving DecidableEq

def zoomErrorUnsupportedQuery : Int := 10009

/-- `ZOOM_uri_to_code`: the number behind the last slash. -/
def zoomUriToCode (uri : List UInt8) : Int :=
  if 47 ∈ uri then int32 (Pqf.odrAtoi (uri.reverse.takeWhile (· ≠ 47)).reverse).toInt else 0

/-- The error that `set_SRU_error` leaves. -/
def setSruError (error : Int) (uri : Option (List UInt8)) : Int := uri.elim error zoomUriToCode

section
variable {R : Type}

def Search.clampedSrw (task : Search R) : Search R :=
  if task.resultset.liveSet ≠ .noHitCount ∧ task.resultset.size < int32 (task.start + task.count) then
    { task with count := int32 (task.resultset.size - task.start) }
  else task

def Search.sendSrw (task : Search R) (error : Int) : Int × SentSrw :=
  if task.resultset.query then
    (error, .pending
      { startRecord := int32 (task.start + 1)
        maximumRecords := if 0 < task.resultset.step ∧ task.resultset.step < task.count then task.resultset.step else task.count })
  else (zoomErrorUnsupportedQuery, .complete)

/-- `ZOOM_connection_srw_send_search` for a task of the kind `ZOOM_TASK_SEARCH`. -/
def zoomConnectionSrwSendSearch (task : Search R) (error : Int) : Search R × Int × SentSrw :=
  if error ≠ 0 then (task, error, .complete)
  else if task.resultset.liveSet ≠ .noHitCount ∧ task.resultset.size ≤ task.start then (task, error, .complete)
  else
    let task := task.clampedSrw.skipped
    if task.count = 0 ∧ task.resultset.liveSet ≠ .noHitCount then (task, error, .complete)
    else (task, task.sendSrw error)

def SrwRecord.pos (record : SrwRecord R) (pos : Int) : Int :=
  match record.recordPosition with
  | none => pos
  | some recordPosition => if pos + 1 ≤ recordPosition then int32 (recordPosition - 1) else pos

def Search.storeSrw (task : Search R) : (records : List (SrwRecord R)) → (i : Int) → Cache R
  | [], _ => task.resultset.cache
  | record :: records, i =>
    let pos := record.pos (int32 (task.start + i))
    let cache := task.resultset.cache
    let cache :=
      if (cache.lookup pos task.format).isSome then cache else cache.add (.databaseRecord none record.recordData) pos task.format
    Search.storeSrw { task with resultset := { task.resultset with cache := cache } } records (i + 1)

/-- `handle_srw_response` for such a task. -/
def handleSrwResponse (task : Search R) (error : Int) (res : SearchRetrieveResponse R) : Search R × Int × SentSrw :=
  let resultset := { task.resultset with size := 0, liveSet := LiveSet.realSet }
  match res.diagnostics with
  | diagnostic :: _ => ({ task with resultset := resultset }, setSruError error diagnostic, .complete)
  | [] =>
    let task := { task with resultset := { resultset with size := res.numberOfRecords.getD 0 } }
    let count := int32 (task.count - res.records.length)
    zoomConnectionSrwSendSearch
      { task with
        start := int32 (task.start + res.records.length), count := if count < 0 then 0 else count
        resultset := { task.resultset with cache := task.storeSrw res.records 0 } }
      error

end

end Yaz.Zoom
