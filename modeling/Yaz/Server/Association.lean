import Mathlib.Data.List.Basic

/-! The requests of a client: `ir_read`, `ir_session` and the processing of requests of `seshigh.c`, and the queues of `requestq.c`.

The connection is accepted. What comes from the network, and what a handler of the backend makes of a request, is chosen from outside; no
handler asks if the client is alive. A request in the incoming queue is idle. Close PDUs and HTTP error responses are always encoded, and
`cs_more` says yes only if there is a complete PDU.
-/

set_option autoImplicit false

namespace Yaz.Server.Session

/-- The `which` of a `Z_APDU`. -/
inductive Apdu where
  | initRequest
  | searchRequest
  | presentRequest
  | scanRequest
  | extendedServicesRequest
  | sortRequest
  | close
  | deleteResultSetRequest
  | segmentRequest
  | triggerResourceControlRequest
  | other
  deriving DecidableEq

/-- The `which` of a `Z_GDU`. -/
inductive Gdu where
  | z3950 (apdu : Apdu)
  | httpRequest
  | httpResponse
  deriving DecidableEq

/-- The handlers that `bend_init` has set. -/
structure BendInit where
  bendScan : Bool := false
  bendEsrequest : Bool := false
  bendSort : Bool := false
  bendDelete : Bool := false
  bendSegment : Bool := false
  deriving DecidableEq

/-- A request, with what will be made of it: if its handler gives a response and if that is encoded; for an init request the highest
version (0 for none); what `bend_init` sets if it is called, and if it refuses; for HTTP if the connection is kept. -/
structure Request where
  id : Nat
  gdu : Gdu
  result : Bool := true
  encodes : Bool := true
  protocolVersion : Nat := 0
  bendInit : Option BendInit := none
  refused : Bool := false
  keepalive : Bool := true
  deriving DecidableEq

inductive Response where
  | to (request : Request)
  | badRequest (id : Nat)
  | close
  deriving DecidableEq

inductive Pdu where
  | request (request : Request)
  | malformed
  | malformedHttp (id : Nat)
  deriving DecidableEq

/-- `EVENT_INPUT` and `EVENT_OUTPUT`. -/
structure Mask where
  input : Bool := false
  output : Bool := false
  deriving DecidableEq

inductive AssociationState where
  | new
  | up
  | dead
  deriving DecidableEq

/-- `association`. What was decoded, what was sent, and if `do_close_req` was called, are kept for the statements only. -/
structure Association where
  incoming : List Request := []
  outgoing : List Response := []
  state : AssociationState := .new
  version : Nat := 0
  init : Option BendInit := none
  csGetMask : Mask := { input := true }
  csPutMask : Mask := {}
  destroyed : Bool := false
  arrived : List Pdu := []
  sent : List Response := []
  closed : Bool := false
  deriving DecidableEq

/-- `process_gdu_response` up to its loop. -/
def Association.respond (a : Association) (response : Response) : Association :=
  { a with outgoing := a.outgoing ++ [response], csPutMask := { output := true } }

/-- The loop of `process_gdu_response`. -/
def drain (process : Association → Request → Association) : (rounds : Nat) → Association → Association
  | 0, a => a
  | rounds + 1, a =>
    match a.incoming with
    | [] => a
    | req :: rest => drain process rounds (process { a with incoming := rest } req)

/-- `do_close_req`. There is nothing for the loop of `process_gdu_response` behind the Close PDU. -/
def doCloseReq (a : Association) : Association :=
  let a := { a with incoming := [], outgoing := [], closed := true }
  if 3 ≤ a.version then { a.respond .close with state := .dead }
  else { a with csPutMask := {}, state := .dead }

/-- What `process_z_request` comes to: an APDU, a request that needs none, a Close PDU of the client, or -1. -/
inductive ZResult where
  | response
  | nothing
  | close
  | failed
  deriving DecidableEq

def ZResult.ofHandler (result : Bool) : ZResult := if result then .response else .failed

/-- `process_z_request` up to the response. -/
def processZRequest (a : Association) (req : Request) (apdu : Apdu) : Association × ZResult :=
  match apdu, a.init with
  | .initRequest, _ =>
    let a := { a with init := some (req.bendInit.getD {}) }
    if req.result then
      ({ a with
        version := if req.protocolVersion = 0 then a.version else req.protocolVersion
        state := if req.refused then .dead else .up }, .response)
    else (a, .failed)
  | _, none => (a, .failed)
  | .searchRequest, _ => (a, .ofHandler req.result)
  | .presentRequest, _ => (a, .ofHandler req.result)
  | .scanRequest, some init => (a, .ofHandler (init.bendScan && req.result))
  | .extendedServicesRequest, some init => (a, .ofHandler (init.bendEsrequest && req.result))
  | .sortRequest, some init => (a, .ofHandler (init.bendSort && req.result))
  | .close, _ => ({ a with version := max 3 a.version }, .close)
  | .deleteResultSetRequest, some init => (a, .ofHandler (init.bendDelete && req.result))
  -- `process_segmentRequest` gives no APDU
  | .segmentRequest, _ => (a, .failed)
  | .triggerResourceControlRequest, _ => (a, .nothing)
  | .other, _ => (a, .failed)

/-- What `process_http_request` does before the response. -/
def processHttp (a : Association) (req : Request) : Association :=
  let a :=
    match a.init, req.bendInit with
    | none, some init => { a with init := some init, state := if req.refused then .dead else a.state }
    | _, _ => a
  if req.keepalive then a else { a with state := .dead, csGetMask := {} }

/-- `process_gdu_request`; each response takes a request from the queue before it goes deeper. -/
def processGduRequest : (depth : Nat) → Association → Request → Association
  | 0, a, _ => a
  | depth + 1, a, req =>
    let answered (a : Association) := drain (processGduRequest depth) a.incoming.length (a.respond (.to req))
    match req.gdu with
    | .z3950 apdu =>
      match processZRequest a req apdu with
      | (a, .response) => if req.encodes then answered a else doCloseReq a
      | (a, .nothing) => a
      | (a, .close) => doCloseReq a
      | (a, .failed) => doCloseReq a
    | .httpRequest => if req.encodes then answered (processHttp a req) else processHttp a req
    | .httpResponse => doCloseReq a

inductive Event where
  | input
  | output
  | except
  | timeout
  deriving DecidableEq

def Mask.has (mask : Mask) : Event → Bool
  | .input => mask.input
  | .output => mask.output
  | _ => false

/-- What `cs_get` gives, with the PDUs behind it for which `cs_more` is true. -/
inductive Get where
  | bufferError
  | closed
  | incomplete (wantWrite : Bool)
  | pdus (first : Pdu) (rest : List Pdu)
  deriving DecidableEq

/-- What `cs_put` gives. -/
inductive Put where
  | closed
  | sent
  | pending (wantWrite wantRead : Bool)
  deriving DecidableEq

/-- The PDUs in the loop of `ir_read`, and whether it goes on to process requests. -/
def readPdus : Association → List Pdu → Association × Bool
  | a, [] => (a, true)
  | a, .request req :: rest => readPdus { a with incoming := a.incoming ++ [req], arrived := a.arrived ++ [.request req] } rest
  | a, .malformed :: _ => (doCloseReq a, false)
  | a, .malformedHttp id :: _ =>
    let a : Association := { a with state := .dead, arrived := a.arrived ++ [.malformedHttp id] }
    (drain (processGduRequest a.incoming.length) a.incoming.length (a.respond (.badRequest id)), false)

def irRead (a : Association) (event : Event) (get : Get) : Association × Bool :=
  if a.csPutMask.input = false ∧ a.csGetMask.has event then
    if a.state = .dead then ({ a with destroyed := true }, false)
    else
      let a := { a with csGetMask := { input := true } }
      match get with
      | .bufferError => (doCloseReq a, false)
      | .closed => ({ a with state := .dead }, false)
      | .incomplete wantWrite => ({ a with csGetMask := { input := true, output := wantWrite } }, false)
      | .pdus first rest => readPdus a (first :: rest)
  else (a, true)

/-- The output of `ir_session`; `none` where it takes the head of an empty queue. -/
def sessionOutput (a : Association) (event : Event) (put : Put) : Option Association :=
  if a.csPutMask.has event then
    match a.outgoing with
    | [] => none
    | response :: rest =>
      match put with
      | .closed => some { a with csPutMask := {}, destroyed := true }
      | .sent => some { a with outgoing := rest, sent := a.sent ++ [response], csPutMask := { output := !rest.isEmpty } }
      | .pending wantWrite wantRead => some { a with csPutMask := { input := wantRead, output := wantWrite } }
  else some a

/-- `ir_session` for input and output. -/
def sessionPolled (a : Association) (event : Event) (get : Get) (put : Put) : Option Association :=
  if a.csGetMask.has event then
    match irRead a event get with
    | (a, false) => some a
    | (a, true) =>
      match a.incoming with
      | [] => none
      | req :: rest => sessionOutput (processGduRequest (rest.length + 1) { a with incoming := rest } req) event put
  else sessionOutput a event put

def irSession (a : Association) (event : Event) (get : Get) (put : Put) : Option Association :=
  match event with
  | .timeout => some (if a.state = .up then doCloseReq a else { a with destroyed := true })
  | .except => some { a with destroyed := true }
  | event => sessionPolled a event get put

/-- A call of `ir_session` by the event loop. -/
structure Call where
  event : Event
  get : Get := .closed
  put : Put := .closed
  deriving DecidableEq

/-- The calls for an association, as long as it is there; `none` where one takes the head of an empty queue. -/
def session : Association → List Call → Option Association
  | a, [] => some a
  | a, call :: calls =>
    if a.destroyed then some a
    else (irSession a call.event call.get call.put).bind fun a => session a calls

end Yaz.Server.Session
