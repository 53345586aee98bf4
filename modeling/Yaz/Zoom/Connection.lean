import Yaz.Zoom.Progress

/-! A connection of ZOOM over Z39.50 with its queue of tasks: `ZOOM_handle_Z3950_apdu` and its handlers in `zoom-z3950.c`, and
`ZOOM_connection_exec_task`, `do_connect_host`, `do_write_ex` and `ZOOM_test_reconnect` of `zoom-c.c`.

What the network makes of a call is chosen from outside. Events and options have no part in it, and a query is what sending it comes
to.
-/

set_option autoImplicit false

namespace Yaz.Zoom

/-! ### Tasks -/

/-- The `which` of a task, with what it is about. A result set is its place in the list of the connection, a scan the error
that sending it sets, and `spec` says if a sort has a specification. -/
inductive TaskKind where
  | connect
  | search (set : Nat) (start count : Int) (format : Format)
  | scan (error : Int)
  | package
  | sort (set : Nat) (spec : Bool)
  deriving DecidableEq

/-- `struct ZOOM_task_p`. -/
structure Task where
  kind : TaskKind
  running : Bool := false
  deriving DecidableEq

/-- `struct ZOOM_connection_p`; `cs` says if there is a comstack, and `connecting` if the state is `STATE_CONNECTING`. -/
structure Connection (R : Type) where
  tasks : List Task := []
  error : Int := 0
  cs : Bool := false
  connecting : Bool := false
  reconnectOk : Bool := false
  resultsets : List (Resultset R) := []
  deriving DecidableEq

inductive Failure where
  | assertion
  | nullHead
  deriving DecidableEq

inductive ZoomRet where
  | complete
  | pending
  deriving DecidableEq

inductive Transport where
  | sent
  | notEncoded
  | lost
  deriving DecidableEq

/-- What becomes of a comstack that connects; with `refused` there may be one or none. -/
inductive Connecting where
  | connected
  | waiting
  | refused (created : Bool)
  deriving DecidableEq

structure Network where
  connecting : Connecting := .connected
  transport : Transport := .sent
  deriving DecidableEq

def zoomErrorConnect : Int := 10000
def zoomErrorMemory : Int := 10001
def zoomErrorEncode : Int := 10002
def zoomErrorConnectionLost : Int := 10004
def zoomErrorInit : Int := 10005
def zoomErrorInternal : Int := 10006
def zoomErrorTimeout : Int := 10007
def zoomErrorUnsupportedProtocol : Int := 10008

def clearError (error : Int) : Int :=
  if error ∈ [zoomErrorConnect, zoomErrorMemory, zoomErrorDecode, zoomErrorConnectionLost, zoomErrorInit, zoomErrorInternal,
    zoomErrorUnsupportedProtocol] then error
  else 0

section
variable {R : Type}

namespace Connection

/-- `ZOOM_connection_add_task`. -/
def addTask (c : Connection R) (kind : TaskKind) : Connection R :=
  { c with tasks := c.tasks ++ [{ kind := kind }], error := clearError c.error }

/-- `ZOOM_connection_remove_task`. -/
def removeTask (c : Connection R) : Connection R := { c with tasks := c.tasks.tail }

/-- `ZOOM_connection_remove_tasks`. -/
def removeTasks (c : Connection R) : Connection R := { c with tasks := [] }

/-- `ZOOM_connection_close`. -/
def close (c : Connection R) : Connection R := { c with cs := false, connecting := false }

/-- `ZOOM_test_reconnect`; `none` where it returns 0. -/
def testReconnect (c : Connection R) : Except Failure (Option (Connection R)) :=
  if c.reconnectOk = false then .ok none
  else
    match c.tasks with
    | [] => .error .nullHead
    | head :: rest =>
      .ok (some { c.close with
        reconnectOk := false, tasks := { kind := .connect } :: { head with running := false } :: rest })

def lose (c : Connection R) (error : Int) : Except Failure (Connection R × ZoomRet) :=
  match c.testReconnect with
  | .error failure => .error failure
  | .ok (some c) => .ok (c, .pending)
  | .ok none => .ok ({ c.close with error := error }, .complete)

/-- `send_APDU`, with `encode_APDU` and `do_write_ex`. -/
def sendApdu (c : Connection R) : Transport → Except Failure (Connection R × ZoomRet)
  | .sent => .ok (c, .pending)
  | .notEncoded => .ok ({ c with error := zoomErrorEncode }, .complete)
  | .lost => c.lose (if c.connecting then zoomErrorConnect else zoomErrorConnectionLost)

def resultset (c : Connection R) (set : Nat) : Resultset R := c.resultsets.getD set {}

def headSearch (c : Connection R) (set : Nat) (start count : Int) (format : Format) : Search R :=
  { start := start, count := count, format := format, resultset := c.resultset set }

def putHead (c : Connection R) (head : Task) (rest : List Task) (set : Nat) (task : Search R) (error : Int) : Connection R :=
  { c with
    error := error, resultsets := c.resultsets.set set task.resultset
    tasks := { head with kind := .search set task.start task.count task.format } :: rest }

def dispatch (c : Connection R) (sent : Sent) (transport : Transport) : Except Failure (Connection R × ZoomRet) :=
  match sent with
  | .complete => .ok (c, .complete)
  | .pending _ => c.sendApdu transport
  | .aborted => .error .assertion

/-- `ZOOM_connection_Z3950_search`. -/
def search (c : Connection R) (transport : Transport) : Except Failure (Connection R × ZoomRet) :=
  match c.tasks with
  | [] => .ok (c, .complete)
  | head :: rest =>
    match head.kind with
    | .sort _ _ => .ok (c, .complete)
    | .search set start count format =>
      let result := zoomConnectionZ3950Search (c.headSearch set start count format) c.error
      (c.putHead head rest set result.1 result.2.1).dispatch result.2.2 transport
    | _ => .error .assertion

/-- `send_Z3950_sort` for a result set of the connection. -/
def sendSort (c : Connection R) (set : Nat) (transport : Transport) : Except Failure (Connection R × ZoomRet) :=
  let sent := sendZ3950Sort (c.resultset set) c.error
  { c with resultsets := c.resultsets.set set sent.1 }.dispatch sent.2 transport

/-- `send_Z3950_sort_present`. -/
def sendSortPresent (c : Connection R) (transport : Transport) : Except Failure (Connection R × ZoomRet) :=
  match c.tasks with
  | { kind := .search set _ _ _, .. } :: _ =>
    match c.sendSort set transport with
    | .ok (c, .complete) => c.search transport
    | other => other
  | _ => c.search transport

def settle (c : Connection R) : ZoomRet → Connection R
  | .complete => c.removeTask
  | .pending => c

/-- `do_connect_host`; it is not looked at what sending the init request returns. -/
def doConnect (c : Connection R) (network : Network) : Except Failure (Connection R × ZoomRet) :=
  match network.connecting with
  | .connected =>
    match { c with cs := true }.sendApdu network.transport with
    | .error failure => .error failure
    | .ok (c, _) => .ok ({ c with connecting := false }, .pending)
  | .waiting => .ok ({ c with cs := true, connecting := true }, .pending)
  | .refused created => .ok ({ c with cs := created, connecting := false, error := zoomErrorConnect }, .complete)

/-- What `ZOOM_connection_exec_task` does for the head. -/
def exec (c : Connection R) (kind : TaskKind) (network : Network) : Except Failure (Connection R × ZoomRet) :=
  match kind with
  | .connect => c.doConnect network
  | .search _ _ _ _ => c.search network.transport
  | .scan error => if error = 0 then c.sendApdu network.transport else .ok ({ c with error := error }, .complete)
  | .package => if network.transport = .lost then c.sendApdu .lost else .ok (c, .pending)
  | .sort set spec =>
    { c with resultsets := c.resultsets.set set { c.resultset set with sortSpec := spec } }.sendSort set network.transport

/-- `ZOOM_connection_exec_task`. -/
def execTask (c : Connection R) (network : Network) : Except Failure (Connection R) :=
  match c.tasks with
  | [] => .ok c
  | head :: rest =>
    if c.error ≠ 0 then .ok c.removeTasks
    else if head.running then .ok c
    else if c.cs ∨ head.kind = .connect then
      match { c with tasks := { head with running := true } :: rest }.exec head.kind network with
      | .error failure => .error failure
      | .ok (c, ret) => .ok (c.settle ret)
    else .ok c.removeTasks

/-! ### Responses -/

def putHandled (c : Connection R) (head : Task) (rest : List Task) (set : Nat) (resultset : Resultset R) : Handled R → Connection R
  | .removed error => { c with error := error, resultsets := c.resultsets.set set resultset, tasks := [] }
  | .kept task => c.putHead head rest set task c.error

/-- `handle_Z3950_search_response`. -/
def handleSearchResponse (c : Connection R) (resultCount : Int) (records : Option (ReceivedRecords R)) : Connection R :=
  match c.tasks with
  | head :: rest =>
    match head.kind with
    | .search set start count format =>
      c.putHandled head rest set { c.resultset set with size := resultCount, liveSet := .realSet }
        (handleZ3950SearchResponse (c.headSearch set start count format) resultCount records)
    | _ => c
  | [] => c

/-- `handle_Z3950_present_response`. -/
def handlePresentResponse (c : Connection R) (records : Option (ReceivedRecords R)) : Connection R :=
  match c.tasks with
  | head :: rest =>
    match head.kind with
    | .search set start count format =>
      c.putHandled head rest set (c.resultset set) (handleZ3950PresentResponse (c.headSearch set start count format) records)
    | _ => c
  | [] => c

/-- `handle_Z3950_sort_response`. -/
def handleSortResponse (c : Connection R) : (diagnostics : List DiagRec) → Connection R
  | [] => c
  | diagnostic :: _ => { c with error := responseDiag diagnostic, tasks := [] }

/-- `handle_Z3950_scan_response`. -/
def handleScanResponse (c : Connection R) (diagnostics : List DiagRec) : Connection R :=
  match c.tasks, diagnostics with
  | { kind := .scan _, .. } :: _, diagnostic :: _ => { c with error := responseDiag diagnostic }
  | _, _ => c

end Connection

/-- `Z_TaskPackage`, with its diagnostics if it was aborted, and those of an update that failed. -/
structure TaskPackage where
  packageDiagnostics : List DiagRec := []
  globalDiagnostics : List DiagRec := []
  deriving DecidableEq

/-- `Z_ExtendedServicesResponse`; `failure` says if that is its `operationStatus`. -/
structure EsResponse where
  failure : Bool := false
  diagnostics : List DiagRec := []
  taskPackage : Option TaskPackage := none
  deriving DecidableEq

def firstDiag (error : Int) (diagnostics : List DiagRec) : Int := diagnostics.head?.elim error responseDiag

/-- The error that `handle_Z3950_es_response` leaves. -/
def EsResponse.error (response : EsResponse) (error : Int) : Int :=
  let error :=
    match response.diagnostics with
    | [] => error
    | diagnostic :: _ => if response.failure then responseDiag diagnostic else 0
  match response.taskPackage with
  | none => error
  | some taskPackage => firstDiag (firstDiag error taskPackage.packageDiagnostics) taskPackage.globalDiagnostics

/-- The PDUs that a client is sent. An init response that refuses may have a diagnostic. -/
inductive Apdu (R : Type) where
  | initAccepted
  | initRefused (condition : Option Int)
  | search (resultCount : Int) (records : Option (ReceivedRecords R))
  | present (records : Option (ReceivedRecords R))
  | sort (diagnostics : List DiagRec)
  | scan (diagnostics : List DiagRec)
  | extendedServices (response : EsResponse)
  | close
  | other
  deriving DecidableEq

namespace Connection

/-- `handle_Z3950_es_response`. -/
def handleEsResponse (c : Connection R) (response : EsResponse) : Except Failure (Connection R) :=
  match c.tasks with
  | [] => .ok c
  | head :: _ => if head.kind = .package then .ok { c with error := response.error c.error } else .error .assertion

def settled (result : Except Failure (Connection R × ZoomRet)) : Except Failure (Connection R) :=
  match result with
  | .error failure => .error failure
  | .ok (c, ret) => .ok (c.settle ret)

/-- `ZOOM_handle_Z3950_apdu`. -/
def handleApdu (c : Connection R) (network : Network) : Apdu R → Except Failure (Connection R)
  | .initAccepted =>
    match c.tasks with
    | [] => c.execTask network
    | head :: _ => if head.kind = .connect then c.removeTask.execTask network else .error .assertion
  | .initRefused condition => .ok { c with error := condition.getD zoomErrorInit }
  | .search resultCount records => settled ((c.handleSearchResponse resultCount records).sendSortPresent network.transport)
  | .present records => settled ((c.handlePresentResponse records).search network.transport)
  | .sort diagnostics => settled ((c.handleSortResponse diagnostics).search network.transport)
  | .scan diagnostics => .ok (c.handleScanResponse diagnostics).removeTask
  | .extendedServices response =>
    match c.handleEsResponse response with
    | .error failure => .error failure
    | .ok c => .ok c.removeTask
  | .close =>
    match c.lose zoomErrorConnectionLost with
    | .error failure => .error failure
    | .ok (c, _) => .ok c
  | .other => .ok { c.close with error := zoomErrorDecode }

end Connection

/-- What a client may call. A search brings a result set with its options, `connect` the error that the options make of it. -/
inductive Call (R : Type) where
  | connect (error : Int)
  | search (options : Resultset R) (start count : Int) (format : Format)
  | retrieve (set : Nat) (start count : Int) (format : Format)
  | sort (set : Nat) (spec : Bool)
  | scan (error : Int)
  | package
  deriving DecidableEq

/-- What may happen next: a call, a round of `ZOOM_connection_process`, an event of the socket, or a PDU. -/
inductive Step (R : Type) where
  | call (call : Call R)
  | process (network : Network)
  | connected (transport : Transport)
  | notConnected
  | lost
  | timeout
  | apdu (apdu : Apdu R) (network : Network)
  deriving DecidableEq

namespace Connection

/-- `ZOOM_connection_connect`, `ZOOM_connection_search`, `ZOOM_resultset_retrieve`, `ZOOM_resultset_sort1`, `ZOOM_connection_scan1`
and `ZOOM_package_send`. -/
def call (c : Connection R) : Call R → Connection R
  | .connect error =>
    let c := { c.removeTasks with error := 0 }
    if c.cs then { c with reconnectOk := true }
    else if error ≠ 0 then { c with error := error }
    else c.addTask .connect
  | .search options start count format =>
    { c with resultsets := c.resultsets ++ [{ options with size := 0, liveSet := .noHitCount, cache := [] }] }.addTask
      (.search c.resultsets.length start count format)
  | .retrieve set start count format => if set < c.resultsets.length then c.addTask (.search set start count format) else c
  | .sort set spec =>
    if set < c.resultsets.length then
      { c with resultsets := c.resultsets.set set { c.resultset set with cache := [] } }.addTask (.sort set spec)
    else c
  | .scan error => c.addTask (.scan error)
  | .package => c.addTask .package

def step (c : Connection R) : Step R → Except Failure (Connection R)
  | .call call => .ok (c.call call)
  | .process network => c.execTask network
  | .connected transport =>
    match c.sendApdu transport with
    | .error failure => .error failure
    | .ok (c, _) => .ok { c with connecting := false }
  | .notConnected => .ok { c.close with error := zoomErrorConnect }
  | .lost =>
    match c.lose zoomErrorConnectionLost with
    | .error failure => .error failure
    | .ok (c, _) => .ok c
  | .timeout => .ok { c.close with error := zoomErrorTimeout }
  | .apdu apdu network => c.handleApdu network apdu

def run (c : Connection R) : List (Step R) → Except Failure (Connection R)
  | [] => .ok c
  | step :: steps =>
    match c.step step with
    | .error failure => .error failure
    | .ok c => c.run steps

end Connection

end

end Yaz.Zoom
