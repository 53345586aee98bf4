import Mathlib.Data.Int.Order.Basic
import Yaz.Http.Message

/-! The records of search and present responses: `pack_records`, `response_searchRequest` and
`process_presentRequest` of `seshigh.c`.

The backend is asked for one position after the other, so it is a function of the position. What
`retrieve_fetch` makes of its answer, and the size of the memory before and after it, are part of
that answer.
-/

set_option autoImplicit false

namespace Yaz.Server
open Yaz.Http (decimal)

/-- The record syntaxes that `z_ext_record_oid` knows for structured records. -/
inductive RecordSyntax where
  | sutrs
  | grs1
  | explain
  | summary
  | opac
  | extended
  | other (oid : List Nat)
  deriving DecidableEq

/-- `bend_fetch_rr` behind `retrieve_fetch`, and `odr_total` before and after it. -/
structure FetchRr (R : Type) where
  errcode : Int := 0
  errstring : Option (List UInt8) := none
  surrogateFlag : Bool := false
  basename : Option (List UInt8) := none
  len : Int := 0
  record : Option R := none
  lastInSet : Bool := false
  outputFormat : Option RecordSyntax := none
  totalBefore : Int := 0
  totalAfter : Int := 0
  deriving DecidableEq

structure External (R : Type) where
  directReference : RecordSyntax
  record : R
  len : Int
  deriving DecidableEq

/-- `z_ext_record_oid`; a negative length is for structured records. -/
def zExtRecordOid {R : Type} (oid : RecordSyntax) (buf : R) (len : Int) : Option (External R) :=
  if len < 0 then
    match oid with
    | .other _ => none
    | _ => some { directReference := oid, record := buf, len := len }
  else some { directReference := oid, record := buf, len := len }

/-- `Z_DefaultDiagFormat`, in the set Bib-1. -/
structure DefaultDiagFormat where
  condition : Int
  addinfo : List UInt8
  deriving DecidableEq

/-- `Z_NamePlusRecord`. -/
inductive NamePlusRecord (R : Type) where
  | databaseRecord (databaseName : Option (List UInt8)) (record : External R)
  | surrogateDiagnostic (databaseName : Option (List UInt8)) (diagnostic : DefaultDiagFormat)
  deriving DecidableEq

/-- `Z_Records`. -/
inductive Records (R : Type) where
  | nonSurrogateDiagnostic (diagnostic : DefaultDiagFormat)
  | databaseOrSurDiagnostics (list : List (NamePlusRecord R))
  deriving DecidableEq

inductive PresentStatus where
  | success
  | partial2
  | partial4
  | failure
  deriving DecidableEq

/-- `%d`. -/
def signedDecimal (n : Int) : List UInt8 := if n < 0 then 45 :: decimal n.natAbs else decimal n.natAbs

def presentRequestOutOfRange : Int := 13
def recordExceedsPreferredMessageSize : Int := 16
def recordExceedsMaximumRecordSize : Int := 17

def diagrec {R : Type} (error : Int) (addinfo : Option (List UInt8)) : Records R :=
  .nonSurrogateDiagnostic { condition := error, addinfo := addinfo.getD [] }

def surrogatediagrec {R : Type} (dbname : Option (List UInt8)) (error : Int) (addinfo : Option (List UInt8)) : NamePlusRecord R :=
  .surrogateDiagnostic dbname { condition := error, addinfo := addinfo.getD [] }

def intMax : Int := 2 ^ 31 - 1

def odrIntToInt (v : Int) : Int := if intMax ≤ v then intMax else if v ≤ -2 ^ 31 then -2 ^ 31 else v

structure Association where
  preferredMessageSize : Int
  maximumRecordSize : Int
  deriving DecidableEq

/-- What `pack_records` leaves; `records` is `none` for a null pointer. The positions that were asked for and those that the
records of the list stand for are a log that the source does not keep. -/
structure Packed (R : Type) where
  records : Option (Records R)
  num : Int := 0
  next : Int
  pres : PresentStatus
  asked : List Int := []
  represented : List Int := []
  overflowed : Bool := false
  deriving DecidableEq

def Records.list {R : Type} : Records R → List (NamePlusRecord R)
  | .nonSurrogateDiagnostic _ => []
  | .databaseOrSurDiagnostics list => list

section
variable {R : Type}

def Packed.ending (next : Int) (pres : PresentStatus) : Packed R :=
  { records := some (.databaseOrSurDiagnostics []), next := next, pres := pres }

/-- An `int` is increased that is `INT_MAX`, and no more is said of the run. -/
def Packed.undefined : Packed R := { records := none, next := 0, pres := .success, overflowed := true }

def Packed.behind (packed : Packed R) (recno : Int) (thisrec : NamePlusRecord R) : Packed R :=
  match packed.records with
  | some (.databaseOrSurDiagnostics list) =>
    { packed with
      records := some (.databaseOrSurDiagnostics (thisrec :: list))
      represented := recno :: packed.represented }
  | _ => packed

def Packed.asking (recno : Int) (packed : Packed R) : Packed R := { packed with asked := recno :: packed.asked }

/-- What the loop of `pack_records` makes of an answer. -/
inductive Taken (R : Type) where
  | failed
  | surrogate
  | missing
  | dropped
  | tooLong (error thisLength : Int)
  | unusable
  | kept (record : External R)
  deriving DecidableEq

variable (a : Association) (start toget : Int) (fetch : Int → FetchRr R)

def FetchRr.totalLength (freq : FetchRr R) (dumpedRecords : Int) : Int := freq.totalBefore - dumpedRecords

def FetchRr.thisLength (freq : FetchRr R) (dumpedRecords : Int) : Int :=
  if 0 ≤ freq.len then freq.len else freq.totalAfter - freq.totalLength dumpedRecords - dumpedRecords

/-- The last part of the loop: the record is put in an `EXTERNAL`. -/
def FetchRr.external (freq : FetchRr R) (record : R) : Taken R :=
  match freq.outputFormat.bind fun format => zExtRecordOid format record freq.len with
  | none => .unusable
  | some databaseRecord => .kept databaseRecord

def FetchRr.taken (freq : FetchRr R) (recno dumpedRecords : Int) : Taken R :=
  if freq.errcode ≠ 0 then if freq.surrogateFlag = false then .failed else .surrogate
  else
    match freq.record with
    | none => .missing
    | some record =>
      let thisLength := freq.thisLength dumpedRecords
      if 0 < a.preferredMessageSize ∧ a.preferredMessageSize < thisLength + freq.totalLength dumpedRecords then
        if thisLength ≤ a.preferredMessageSize ∧ start < recno then .dropped
        -- the record can only be fetched by itself
        else if thisLength < a.maximumRecordSize then
          if 1 < toget then .tooLong recordExceedsPreferredMessageSize thisLength else freq.external record
        else .tooLong recordExceedsMaximumRecordSize thisLength
      else freq.external record

def FetchRr.diagnostic (freq : FetchRr R) (recno : Int) : Records R :=
  diagrec freq.errcode
    (if freq.errcode = presentRequestOutOfRange ∧ freq.errstring = none then some (signedDecimal recno) else freq.errstring)

/-- The loop of `pack_records`; `left` records have place in the list. -/
def packLoop : (left : Nat) → (recno dumpedRecords next : Int) → Packed R
  | 0, _, _, next => .ending next .success
  | left + 1, recno, dumpedRecords, _ =>
    let freq := fetch recno
    let next := if freq.lastInSet then 0 else recno + 1
    let goOn (dumpedRecords : Int) : Packed R :=
      if recno = intMax then .undefined else packLoop left (recno + 1) dumpedRecords next
    Packed.asking recno <|
    if recno = intMax ∧ freq.lastInSet = false then .undefined
    else
      match freq.taken a start toget recno dumpedRecords with
      | .failed => { records := some (freq.diagnostic recno), next := next, pres := .failure }
      | .surrogate => (goOn dumpedRecords).behind recno (surrogatediagrec freq.basename freq.errcode freq.errstring)
      | .missing => .ending 0 .partial4
      | .dropped => .ending (if 0 < next then next - 1 else next) .partial2
      | .tooLong error thisLength =>
        (goOn (dumpedRecords + thisLength)).behind recno (surrogatediagrec freq.basename error none)
      | .unusable => { records := none, next := next, pres := .success }
      | .kept record =>
        (if freq.lastInSet then .ending next .success else goOn dumpedRecords).behind recno (.databaseRecord freq.basename record)

/-- `pack_records`; `num` is the number that was asked for, and nothing else is set where that is negative. -/
def packRecords (num : Int) : Packed R :=
  let toget := odrIntToInt num
  if toget < 0 then { records := some (diagrec presentRequestOutOfRange none), num := num, next := 0, pres := .success }
  else
    let packed := packLoop a start toget fetch toget.toNat (odrIntToInt start) 0 0
    { packed with num := (packed.records.elim [] Records.list).length }

end

structure Response (R : Type) where
  records : Option (Records R)
  numberOfRecordsReturned : Int
  nextResultSetPosition : Int
  presentStatus : Option PresentStatus
  deriving DecidableEq

structure Served (R : Type) where
  response : Option (Response R)
  asked : List Int := []
  represented : List Int := []
  overflowed : Bool := false
  deriving DecidableEq

/-- The handlers of a backend. `bend_present` is given the first position and the number of records, and it may fail. -/
structure Backend (R : Type) where
  bendPresent : Option (Int → Int → Int × Option (List UInt8))
  fetch : Int → FetchRr R

/-- The error of `bend_present`, which is not called if it is not defined. -/
def Backend.presentError {R : Type} (backend : Backend R) (start number : Int) : Int × Option (List UInt8) :=
  match backend.bendPresent with
  | none => (0, none)
  | some bendPresent => bendPresent (odrIntToInt start) (odrIntToInt number)

structure PresentRequest where
  resultSetStartPoint : Int
  numberOfRecordsRequested : Int
  deriving DecidableEq

def processPresentRequest {R : Type} (a : Association) (backend : Backend R) (req : PresentRequest) : Served R :=
  let error := backend.presentError req.resultSetStartPoint req.numberOfRecordsRequested
  if error.1 ≠ 0 then
    { response := some {
        records := some (diagrec error.1 error.2), numberOfRecordsReturned := 0, nextResultSetPosition := 0,
        presentStatus := some .failure } }
  else
    let packed := packRecords a req.resultSetStartPoint backend.fetch req.numberOfRecordsRequested
    { response := packed.records.map fun records => {
        records := some records, numberOfRecordsReturned := packed.num, nextResultSetPosition := packed.next,
        presentStatus := some packed.pres }
      asked := packed.asked, represented := packed.represented, overflowed := packed.overflowed }

structure SearchRequest where
  smallSetUpperBound : Int
  largeSetLowerBound : Int
  mediumSetPresentNumber : Int
  deriving DecidableEq

/-- What `bend_search` leaves. -/
structure SearchRr where
  errcode : Int := 0
  errstring : Option (List UInt8) := none
  hits : Int := 0
  deriving DecidableEq

def SearchRequest.toget (req : SearchRequest) (hits : Int) : Int :=
  if hits < 0 then 0
  else if hits ≤ req.smallSetUpperBound then hits
  else if hits < req.largeSetLowerBound then if hits < req.mediumSetPresentNumber then hits else req.mediumSetPresentNumber
  else 0

def responseSearchRequest {R : Type} (a : Association) (backend : Backend R) (req : SearchRequest) (bsrt : SearchRr) : Served R :=
  if bsrt.errcode ≠ 0 then
    { response := some {
        records := some (diagrec bsrt.errcode bsrt.errstring), numberOfRecordsReturned := 0, nextResultSetPosition := 0,
        presentStatus := none } }
  else
    let toget := req.toget bsrt.hits
    if toget ≠ 0 then
      let error := backend.presentError 1 toget
      -- the status of the failure is written through a pointer that is not set
      if error.1 ≠ 0 then
        { response := some {
            records := some (diagrec error.1 error.2), numberOfRecordsReturned := toget, nextResultSetPosition := 0
            presentStatus := some .success } }
      else
        let packed := packRecords a 1 backend.fetch toget
        { response := packed.records.map fun records => {
            records := some records, numberOfRecordsReturned := packed.num, nextResultSetPosition := packed.next,
            presentStatus := some packed.pres }
          asked := packed.asked, represented := packed.represented, overflowed := packed.overflowed }
    else
      { response := some {
          records := none, numberOfRecordsReturned := 0, nextResultSetPosition := if bsrt.hits ≠ 0 then 1 else 0, presentStatus := none } }

end Yaz.Server
