import Yaz.Comstack.Tcpip
import Yaz.Http.Message

/-! `tcpip_put` without TLS, and the connection that takes over when `send` fails.

What `send`, `socket` and `connect` return are lists of results that the calls take from the front. When they are used up, `send` would
block and the others fail. A socket is known by the number of those before it. The name of the peer is resolved (`pipefd[0]` is -1).
-/

set_option autoImplicit false

namespace Yaz.Comstack
open List
open Yaz.Http (yazDecodeHttpResponseFirst)

/-- `CS_ST_UNBND`, `CS_ST_CONNECTING` and `CS_ST_DATAXFER`. -/
inductive CsState where
  | unbnd
  | connecting
  | dataxfer
  deriving DecidableEq

inductive CsEvent where
  | connect
  | data
  deriving DecidableEq

inductive CsError where
  | none
  | sysErr
  | outState
  | wrongBuf
  | deny
  | protErr
  deriving DecidableEq

/-- `io_pending`. -/
structure Pending where
  wantRead : Bool := false
  wantWrite : Bool := false
  deriving DecidableEq

/-- The result of one `send`: how many of the octets it takes, `EWOULDBLOCK`, another error. -/
inductive Send where
  | accepted (count : Nat)
  | wouldBlock
  | failed
  deriving DecidableEq

/-- The result of one `connect`: 0, `EINPROGRESS`, another error. -/
inductive Connect where
  | connected
  | inProgress
  | failed
  deriving DecidableEq

/-- Octets that `send` took. -/
structure Sent where
  socket : Nat
  octets : List UInt8
  deriving DecidableEq

/-- `connect_request` and `connect_phase`. -/
structure Proxy where
  request : List UInt8
  phase : Nat
  deriving DecidableEq

/-- A `COMSTACK` and its `tcpip_state`, what the system calls are going to return, and what `send` took. `further` is the number of
addresses behind `ai_connect`; `link` has `connect_response_buf` for its buffer; `headOnly` tells which function `complete` is. -/
structure Tcpip where
  state : CsState := .dataxfer
  event : CsEvent := .data
  ioPending : Pending := {}
  cerrno : CsError := .none
  blocking : Bool := false
  towrite : Int := -1
  written : Int := -1
  iofile : Nat := 0
  made : Nat := 1
  further : Nat := 0
  proxy : Option Proxy := none
  headOnly : Bool := false
  maxRecvBytes : Nat := 0
  link : Link := {}
  sending : List Send := []
  sockets : List Bool := []
  connects : List Connect := []
  log : List Sent := []
  deriving DecidableEq

/-- How the loop of `tcpip_put` is left. -/
inductive Stop where
  | sent
  | blocked
  | failed
  deriving DecidableEq

/-- What the loop leaves: `written`, what `send` took so far, and its later results. -/
structure Writing where
  stop : Stop
  written : Int
  log : List Sent
  sending : List Send
  deriving DecidableEq

/-- `while (state->towrite > state->written)`. -/
def sendLoop (socket : Nat) (towrite : Int) (buf : List UInt8) : List Send → (written : Int) → (log : List Sent) → Writing
  | sending, written, log =>
    if written < towrite then
      match sending with
      | [] => { stop := .blocked, written, log, sending := [] }
      | .wouldBlock :: rest => { stop := .blocked, written, log, sending := rest }
      | .failed :: rest => { stop := .failed, written, log, sending := rest }
      | .accepted count :: rest =>
        let octets := (buf.drop written.toNat).take count
        sendLoop socket towrite buf rest (written + octets.length) (log ++ [{ socket, octets }])
    else { stop := .sent, written, log, sending }

/-- `tcpip_put`; `contConnect` is the call of `cont_connect`. -/
def tcpipPutOr (contConnect : Tcpip → Int × Tcpip) (buf : List UInt8) (h : Tcpip) : Int × Tcpip :=
  let h : Tcpip := { h with ioPending := {}, event := .data }
  if 0 ≤ h.towrite ∧ h.towrite ≠ buf.length then (-1, { h with cerrno := .wrongBuf })
  else
    let h := if h.towrite < 0 then { h with towrite := buf.length, written := 0 } else h
    let loop := sendLoop h.iofile h.towrite buf h.sending h.written h.log
    let h := { h with written := loop.written, log := loop.log, sending := loop.sending }
    match loop.stop with
    | .sent => (0, { h with towrite := -1, written := -1 })
    | .blocked => (1, { h with ioPending := { wantWrite := true } })
    | .failed => if h.blocking then (-1, { h with cerrno := .sysErr }) else contConnect h

/-- The answer of the proxy, for `connect_phase` 1: a result other than 0 is returned. `tcpip_get` leaves its error and `io_pending`
in fields that are not kept here. -/
def proxyAnswer (h : Tcpip) : Int × Tcpip :=
  let (r, link) := tcpipGet (if h.headOnly then csCompleteAutoHead else csCompleteAuto) h.maxRecvBytes h.link
  let h := { h with link := link }
  if r = 1 then (1, h)
  else if r ≤ 0 then (-1, h)
  else match yazDecodeHttpResponseFirst link.buf.mem with
    | none => (-1, { h with cerrno := .protErr })
    | some ((code, _), _) =>
      if code ≠ 200 then (-1, { h with cerrno := .deny })
      else (0, { h with headOnly := false, proxy := h.proxy.map fun proxy => { proxy with phase := 2 } })

/-- What `tcpip_rcvconnect` does for `connect_host`: a result other than 0 is returned. -/
def proxyConnect (contConnect : Tcpip → Int × Tcpip) (h : Tcpip) : Int × Tcpip :=
  match h.proxy with
  | none => (0, h)
  | some proxy =>
    if proxy.phase = 0 then
      let (r, h) := tcpipPutOr contConnect proxy.request { h with headOnly := true }
      let h := { h with event := .connect }
      if r ≠ 0 then (r, h) else proxyAnswer { h with proxy := h.proxy.map fun proxy => { proxy with phase := 1 } }
    else if proxy.phase = 1 then proxyAnswer h
    else (0, h)

def tcpipRcvconnect (contConnect : Tcpip → Int × Tcpip) (h : Tcpip) : Int × Tcpip :=
  if h.state = .dataxfer then (0, h)
  else if h.state ≠ .connecting then (-1, { h with cerrno := .outState })
  else
    let (r, h) := proxyConnect contConnect h
    if r ≠ 0 then (r, h) else (0, { h with event := .data, state := .dataxfer })

/-- `tcpip_connect` with an address that has `further` others behind it. -/
def tcpipConnect (contConnect : Tcpip → Int × Tcpip) (further : Nat) (h : Tcpip) : Int × Tcpip :=
  let h := { h with ioPending := {} }
  if h.state ≠ .unbnd then (-1, { h with cerrno := .outState })
  else
    let r := h.connects.head?.getD .failed
    let h := { h with further := further, connects := h.connects.tail }
    match r with
    | .failed => contConnect h
    | .inProgress => (1, { h with event := .connect, state := .connecting, ioPending := { wantRead := true, wantWrite := true } })
    | .connected => tcpipRcvconnect contConnect { h with event := .connect, state := .connecting }

/-- `cont_connect`, with as many addresses behind `ai_connect`. -/
def contConnect : Nat → Tcpip → Int × Tcpip
  | 0, h => (-1, { h with cerrno := .sysErr })
  | further + 1, h =>
    let made := h.sockets.head?.getD false
    let h := { h with sockets := h.sockets.tail }
    if made then tcpipConnect (contConnect further) further { h with state := .unbnd, iofile := h.made, made := h.made + 1 }
    else contConnect further h

def tcpipPut (buf : List UInt8) (h : Tcpip) : Int × Tcpip := tcpipPutOr (fun h => contConnect h.further h) buf h

/-- A call that ends with `CSWRONGBUF`. -/
def WrongSize (h : Tcpip) (buf : List UInt8) : Prop := 0 ≤ h.towrite ∧ h.towrite ≠ buf.length

instance (h : Tcpip) (buf : List UInt8) : Decidable (WrongSize h buf) := inferInstanceAs (Decidable (_ ∧ _))

/-- A connection, the messages for which `tcpip_put` returned 0, and the last one if it did not; `again` says that it returned 1. -/
structure Session where
  h : Tcpip
  messages : List (List UInt8) := []
  unfinished : Option (List UInt8) := none
  again : Bool := false
  deriving DecidableEq

def Session.call (s : Session) (buf : List UInt8) : Session :=
  let (r, h) := tcpipPut buf s.h
  if WrongSize s.h buf then { s with h := h }
  else if r = 0 then { h := h, messages := s.messages ++ [buf] }
  else { h := h, messages := s.messages, unfinished := some buf, again := r = 1 }

def Session.Repeats (s : Session) (buf : List UInt8) : Prop := s.again = true → WrongSize s.h buf ∨ s.unfinished = some buf

instance (s : Session) (buf : List UInt8) : Decidable (s.Repeats buf) := inferInstanceAs (Decidable (_ → _))

def Tcpip.Answered (h : Tcpip) : Prop := ∀ proxy ∈ h.proxy, proxy.phase = 2

structure Ready (h : Tcpip) : Prop where
  state : h.state = .dataxfer
  answered : h.Answered
  idle : h.towrite = -1
  fresh : h.log = []

inductive Run (allowed : Session → List UInt8 → Prop) : Session → Prop where
  | start {h : Tcpip} : Ready h → Run allowed { h := h }
  | call {s : Session} {buf : List UInt8} : Run allowed s → s.Repeats buf → allowed s buf → Run allowed (s.call buf)

/-- `part` are the octets, and one socket took them. -/
structure Took (socket : Nat) (part : List Sent) (octets : List UInt8) : Prop where
  socket : ∀ sent ∈ part, sent.octets ≠ [] → sent.socket = socket
  octets : part.flatMap Sent.octets = octets

/-- What `send` took is each message that was reported as sent, one behind the other and each on one socket, and octets of the
last one if that is not finished. -/
def Session.Delivered (s : Session) : Prop :=
  ∃ (parts : List (List Sent)) (rest : List Sent), s.h.log = parts.flatten ++ rest ∧
    List.Forall₂ (fun message part => ∃ socket, Took socket part message) s.messages parts ∧ (s.unfinished = none → rest = [])

/-- How many of the octets that are left `send` takes before it fails, if it does. -/
def failsAfter : (left : Nat) → List Send → Option Nat
  | 0, _ => none
  | _ + 1, [] => none
  | _ + 1, .wouldBlock :: _ => none
  | _ + 1, .failed :: _ => some 0
  | left + 1, .accepted count :: rest => (failsAfter (left + 1 - count) rest).map (min count (left + 1) + ·)

def findsSocket (further : Nat) (sockets : List Bool) : Bool := (sockets.take further).any id

def connectsAtOnce : (further : Nat) → List Bool → List Connect → Bool
  | 0, _, _ => false
  | further + 1, sockets, connects =>
    if sockets.head?.getD false then
      match connects.head?.getD .failed with
      | .failed => connectsAtOnce further sockets.tail connects.tail
      | .inProgress => false
      | .connected => true
    else connectsAtOnce further sockets.tail connects

def Tcpip.sofar (h : Tcpip) : Nat := if h.towrite < 0 then 0 else h.written.toNat

/-- If `send` fails, no other socket is made, or nothing of the message was sent before and no other socket is connected at once. -/
def StaysOrStartsAgain (h : Tcpip) (buf : List UInt8) : Prop :=
  match failsAfter (buf.length - h.sofar) h.sending with
  | none => True
  | some taken => h.blocking = true ∨ findsSocket h.further h.sockets = false ∨
      (h.sofar + taken = 0 ∧ connectsAtOnce h.further h.sockets h.connects = false)

instance (h : Tcpip) (buf : List UInt8) : Decidable (StaysOrStartsAgain h buf) :=
  match fails : failsAfter (buf.length - h.sofar) h.sending with
  | none => .isTrue (by rw [StaysOrStartsAgain, fails]; trivial)
  | some taken =>
    decidable_of_iff (h.blocking = true ∨ findsSocket h.further h.sockets = false ∨
      (h.sofar + taken = 0 ∧ connectsAtOnce h.further h.sockets h.connects = false)) (by rw [StaysOrStartsAgain, fails])

def Session.SameFront (s : Session) (buf : List UInt8) : Prop :=
  ∀ message ∈ s.unfinished, buf.take s.h.sofar = message.take s.h.sofar

def Session.Steady (s : Session) (buf : List UInt8) : Prop :=
  WrongSize s.h buf ∨ (s.SameFront buf ∧ StaysOrStartsAgain s.h buf)

instance (s : Session) (buf : List UInt8) : Decidable (s.Steady buf) :=
  inferInstanceAs (Decidable (_ ∨ ((∀ message ∈ s.unfinished, _ = _) ∧ _)))

/-! ### One call -/

section
variable {socket : Nat} {part others : List Sent} {octets more buf : List UInt8} {h : Tcpip}

theorem Took.nothing (socket : Nat) : Took socket [] [] := ⟨fun _ inside => (nomatch inside), rfl⟩

theorem Took.append (first : Took socket part octets) (second : Took socket others more) :
    Took socket (part ++ others) (octets ++ more) := by
  refine ⟨?_, ?_⟩
  · intro sent inside
    rcases mem_append.mp inside with inside | inside
    · exact first.socket sent inside
    · exact second.socket sent inside
  · rw [flatMap_append, first.octets, second.octets]

theorem Took.one (socket : Nat) (octets : List UInt8) : Took socket [{ socket, octets }] octets := by
  refine ⟨?_, by simp⟩
  intro sent inside some
  rw [mem_singleton.mp inside]

theorem Took.elsewhere (took : Took socket part []) (other : Nat) : Took other part [] := by
  refine ⟨?_, took.octets⟩
  intro sent inside some
  exact absurd (flatMap_eq_nil_iff.mp took.octets sent inside) some

/-- The loop sends a front of what is left, on one socket. -/
theorem sendLoop_took (socket : Nat) (buf : List UInt8) (sending : List Send) {sent : Nat} (within : sent ≤ buf.length) (log : List Sent) :
    let loop := sendLoop socket buf.length buf sending sent log
    ∃ part count, loop.log = log ++ part ∧ loop.written = (sent + count : Nat) ∧ Took socket part ((buf.drop sent).take count) ∧
      sent + count ≤ buf.length ∧ (loop.stop = .sent ↔ sent + count = buf.length) ∧
      failsAfter (buf.length - sent) sending = if loop.stop = .failed then some count else none := by
  induction sending generalizing sent log with
  | nil =>
    unfold sendLoop
    by_cases more : sent < buf.length
    · rw [if_pos (by omega)]
      refine ⟨[], 0, by simp, by simp, Took.nothing socket, within, ?_, ?_⟩
      · simp
        omega
      · obtain ⟨left, some⟩ : ∃ left, buf.length - sent = left + 1 := ⟨buf.length - sent - 1, by omega⟩
        rw [some]
        rfl
    · rw [if_neg (by omega)]
      refine ⟨[], 0, by simp, by simp, Took.nothing socket, within, ?_, ?_⟩
      · simp
        omega
      · rw [show buf.length - sent = 0 by omega]
        rfl
  | cons result _ ih =>
    unfold sendLoop
    by_cases more : sent < buf.length
    · rw [if_pos (by omega)]
      obtain ⟨left, some⟩ : ∃ left, buf.length - sent = left + 1 := ⟨buf.length - sent - 1, by omega⟩
      cases result with
      | wouldBlock =>
        refine ⟨[], 0, by simp, by simp, Took.nothing socket, within, ?_, ?_⟩
        · simp
          omega
        · rw [some]
          rfl
      | failed =>
        refine ⟨[], 0, by simp, by simp, Took.nothing socket, within, ?_, ?_⟩
        · simp
          omega
        · rw [some]
          rfl
      | accepted taken =>
        have length : ((buf.drop sent).take taken).length = min taken (buf.length - sent) := by simp
        dsimp only
        rw [Int.toNat_natCast, ← Nat.cast_add, length]
        obtain ⟨part, count, isLog, isWritten, took, bound, whole, fails⟩ :=
          @ih (sent + min taken (buf.length - sent)) (by omega) (log ++ [{ socket, octets := (buf.drop sent).take taken }])
        refine ⟨{ socket, octets := (buf.drop sent).take taken } :: part, min taken (buf.length - sent) + count, ?_,
          ?_, ?_, by omega, ?_, ?_⟩
        · rw [isLog, append_assoc, singleton_append]
        · rw [isWritten, Nat.add_assoc]
        · have first := Took.one socket ((buf.drop sent).take taken)
          have both := first.append took
          rw [singleton_append] at both
          refine ⟨both.socket, ?_⟩
          rw [both.octets, take_add, drop_drop]
          congr 1
          rw [take_eq_take_iff]
          simp
        · rw [whole]
          omega
        · rw [some] at fails ⊢
          rw [failsAfter, show left + 1 - taken = buf.length - (sent + min taken (left + 1)) by omega, fails]
          split <;> rfl
    · rw [if_neg (by omega)]
      refine ⟨[], 0, by simp, by simp, Took.nothing socket, within, ?_, ?_⟩
      · simp
        omega
      · rw [show buf.length - sent = 0 by omega]
        rfl

structure Kept (h h' : Tcpip) : Prop where
  log : h'.log = h.log
  towrite : h'.towrite = h.towrite
  written : h'.written = h.written
  proxy : h'.proxy = h.proxy

theorem proxyConnect_answered (fallback : Tcpip → Int × Tcpip) (answered : h.Answered) : proxyConnect fallback h = (0, h) := by
  unfold proxyConnect
  split
  next => rfl
  next proxy isProxy =>
    have phase : proxy.phase = 2 := answered proxy isProxy
    rw [if_neg (by omega), if_neg (by omega)]

theorem tcpipRcvconnect_answered (fallback : Tcpip → Int × Tcpip) (answered : h.Answered) (connecting : h.state = .connecting) :
    tcpipRcvconnect fallback h = (0, { h with event := .data, state := .dataxfer }) := by
  unfold tcpipRcvconnect
  rw [if_neg (by rw [connecting]; decide), if_neg (by rw [connecting]; decide), proxyConnect_answered fallback answered]
  rfl

theorem findsSocket_succ (further : Nat) (sockets : List Bool) :
    findsSocket (further + 1) sockets = (sockets.head?.getD false || findsSocket further sockets.tail) := by
  cases sockets with
  | nil => simp [findsSocket]
  | cons => simp [findsSocket]

theorem connectsAtOnce_of_none {further : Nat} {sockets : List Bool} {connects : List Connect}
    (none : findsSocket further sockets = false) :
    connectsAtOnce further sockets connects = false := by
  induction further generalizing sockets with
  | zero => rfl
  | succ _ ih =>
    rw [findsSocket_succ, Bool.or_eq_false_iff] at none
    rw [connectsAtOnce, none.1]
    exact ih none.2

theorem contConnect_kept (further : Nat) (answered : h.Answered) :
    Kept h (contConnect further h).2 ∧
      ((contConnect further h).1 = 0 ↔ connectsAtOnce further h.sockets h.connects = true) ∧
      (findsSocket further h.sockets = false → (contConnect further h).2.iofile = h.iofile) := by
  induction further generalizing h with
  | zero => exact ⟨⟨rfl, rfl, rfl, rfl⟩, by simp [contConnect, connectsAtOnce], fun _ => rfl⟩
  | succ further ih =>
    rw [findsSocket_succ, connectsAtOnce, contConnect]
    cases made : h.sockets.head?.getD false with
    | false =>
      obtain ⟨kept, atOnce, same⟩ := @ih { h with sockets := h.sockets.tail } answered
      rw [Bool.false_or]
      exact ⟨⟨kept.log, kept.towrite, kept.written, kept.proxy⟩, atOnce, same⟩
    | true =>
      rw [if_pos rfl, if_pos rfl, tcpipConnect, if_neg (fun differs => differs rfl)]
      dsimp only
      cases h.connects.head?.getD .failed with
      | failed =>
        obtain ⟨kept, atOnce, -⟩ := @ih { h with
          state := .unbnd, iofile := h.made, made := h.made + 1, ioPending := {}, further := further,
          sockets := h.sockets.tail, connects := h.connects.tail } answered
        exact ⟨⟨kept.log, kept.towrite, kept.written, kept.proxy⟩, atOnce, by simp⟩
      | inProgress => exact ⟨⟨rfl, rfl, rfl, rfl⟩, by simp, by simp⟩
      | connected =>
        rw [tcpipRcvconnect_answered _ (by exact answered) rfl]
        exact ⟨⟨rfl, rfl, rfl, rfl⟩, by simp, by simp⟩

theorem tcpipPut_wrongSize (wrong : WrongSize h buf) :
    tcpipPut buf h = (-1, { h with ioPending := {}, event := .data, cerrno := .wrongBuf }) := by
  unfold tcpipPut tcpipPutOr
  exact if_pos wrong

theorem tcpipPut_eq (right : ¬ WrongSize h buf) (counted : 0 ≤ h.towrite → h.written = h.sofar) :
    tcpipPut buf h =
      let loop := sendLoop h.iofile buf.length buf h.sending h.sofar h.log
      let h := { h with
        ioPending := {}, event := .data, towrite := buf.length, written := loop.written, log := loop.log, sending := loop.sending }
      match loop.stop with
      | .sent => (0, { h with towrite := -1, written := -1 })
      | .blocked => (1, { h with ioPending := { wantWrite := true } })
      | .failed => if h.blocking then (-1, { h with cerrno := .sysErr }) else contConnect h.further h := by
  unfold tcpipPut tcpipPutOr
  rw [if_neg (show ¬(0 ≤ h.towrite ∧ h.towrite ≠ buf.length) from right)]
  by_cases idle : h.towrite < 0
  · rw [if_pos idle, Tcpip.sofar, if_pos idle]
    rfl
  · have size : h.towrite = buf.length := by
      by_contra differs
      exact right ⟨by omega, differs⟩
    rw [if_neg idle, ← counted (by omega)]
    rw [size]

/-- A call sends a front of what is left: all of it if 0 is returned, on the socket of the connection, which stays the same if octets of the
message were sent. -/
theorem tcpipPut_took (right : ¬ WrongSize h buf) (within : h.sofar ≤ buf.length) (counted : 0 ≤ h.towrite → h.written = h.sofar)
    (answered : h.Answered) (steady : StaysOrStartsAgain h buf) :
    ∃ part count, (tcpipPut buf h).2.log = h.log ++ part ∧ Took h.iofile part ((buf.drop h.sofar).take count) ∧
      h.sofar + count ≤ buf.length ∧ (tcpipPut buf h).2.Answered ∧
      if (tcpipPut buf h).1 = 0 then h.sofar + count = buf.length ∧ (tcpipPut buf h).2.towrite = -1
      else (tcpipPut buf h).2.towrite = buf.length ∧ (tcpipPut buf h).2.written = (h.sofar + count : Nat) ∧
        (0 < h.sofar + count → (tcpipPut buf h).2.iofile = h.iofile) := by
  obtain ⟨part, count, isLog, isWritten, took, bound, whole, fails⟩ := sendLoop_took h.iofile buf h.sending within h.log
  refine ⟨part, count, ?_⟩
  rw [tcpipPut_eq right counted]
  generalize sendLoop h.iofile buf.length buf h.sending h.sofar h.log = loop at isLog isWritten whole fails
  obtain ⟨stop, written, log, sending⟩ := loop
  dsimp only at isLog isWritten whole fails ⊢
  cases stop with
  | sent => exact ⟨isLog, took, bound, answered, by simpa using whole⟩
  | blocked => exact ⟨isLog, took, bound, answered, by simpa using isWritten⟩
  | failed =>
    split
    next blocking => exact ⟨isLog, took, bound, answered, by simpa using isWritten⟩
    next nonblocking =>
      rw [StaysOrStartsAgain, fails] at steady
      have later : connectsAtOnce h.further h.sockets h.connects = false := by
        rcases steady with blocking | none | ⟨-, later⟩
        · exact absurd blocking nonblocking
        · exact connectsAtOnce_of_none none
        · exact later
      obtain ⟨kept, atOnce, same⟩ := @contConnect_kept
        { h with ioPending := {}, event := .data, towrite := buf.length, written, log, sending } h.further answered
      rw [if_neg (by rw [atOnce]; simpa using later)]
      refine ⟨kept.log.trans isLog, took, bound, ?_, kept.towrite, kept.written.trans isWritten, ?_⟩
      · rw [Tcpip.Answered, kept.proxy]
        exact answered
      · intro some
        rcases steady with blocking | none | ⟨zero, -⟩
        · exact absurd blocking nonblocking
        · exact same none
        · omega

end

structure Session.Sound (s : Session) : Prop where
  answered : s.h.Answered
  idle : s.unfinished = none → s.h.towrite = -1
  working : ∀ message ∈ s.unfinished, s.h.towrite = message.length ∧ s.h.written = s.h.sofar ∧ s.h.sofar ≤ message.length
  sent : ∃ (parts : List (List Sent)) (rest : List Sent), s.h.log = parts.flatten ++ rest ∧
    List.Forall₂ (fun message part => ∃ socket, Took socket part message) s.messages parts ∧ (s.unfinished = none → rest = []) ∧
      ∀ message ∈ s.unfinished, Took s.h.iofile rest (message.take s.h.sofar)

section
variable {s : Session} {buf : List UInt8}

theorem Session.Sound.delivered (sound : s.Sound) : s.Delivered := by
  obtain ⟨parts, rest, isLog, reported, none, -⟩ := sound.sent
  exact ⟨parts, rest, isLog, reported, none⟩

theorem Session.Sound.front (sound : s.Sound) (right : ¬ WrongSize s.h buf) (same : s.SameFront buf) :
    s.h.sofar ≤ buf.length ∧ (0 ≤ s.h.towrite → s.h.written = s.h.sofar) ∧
      ∃ (parts : List (List Sent)) (rest : List Sent), s.h.log = parts.flatten ++ rest ∧
        List.Forall₂ (fun message part => ∃ socket, Took socket part message) s.messages parts ∧
          Took s.h.iofile rest (buf.take s.h.sofar) := by
  obtain ⟨parts, rest, isLog, reported, none, some⟩ := sound.sent
  cases unfinished : s.unfinished with
  | none =>
    have idle := sound.idle unfinished
    have zero : s.h.sofar = 0 := by rw [Tcpip.sofar, if_pos (by omega)]
    refine ⟨by omega, by omega, parts, rest, isLog, reported, ?_⟩
    rw [none unfinished, zero]
    exact Took.nothing _
  | some message =>
    obtain ⟨towrite, written, bound⟩ := sound.working message unfinished
    have size : s.h.towrite = buf.length := by
      by_contra differs
      exact right ⟨by omega, differs⟩
    refine ⟨by omega, fun _ => written, parts, rest, isLog, reported, ?_⟩
    rw [same message unfinished]
    exact some message unfinished

theorem Session.Sound.call (sound : s.Sound) (steady : s.Steady buf) : (s.call buf).Sound := by
  by_cases wrong : WrongSize s.h buf
  · have same : s.call buf = { s with h := { s.h with ioPending := {}, event := .data, cerrno := .wrongBuf } } := by
      rw [Session.call, tcpipPut_wrongSize wrong]
      exact if_pos wrong
    rw [same]
    exact ⟨sound.answered, sound.idle, sound.working, sound.sent⟩
  · obtain ⟨same, steady⟩ := steady.resolve_left wrong
    obtain ⟨within, counted, parts, rest, isLog, reported, before⟩ := sound.front wrong same
    obtain ⟨part, count, more, took, bound, answered, ends⟩ := tcpipPut_took wrong within counted sound.answered steady
    have whole : Took s.h.iofile (rest ++ part) (buf.take (s.h.sofar + count)) := by
      rw [take_add]
      exact before.append took
    rw [isLog, append_assoc] at more
    rw [Session.call]
    generalize tcpipPut buf s.h = result at more answered ends
    obtain ⟨r, h⟩ := result
    dsimp only at more answered ends ⊢
    rw [if_neg wrong]
    split at ends
    next zero =>
      rw [if_pos zero]
      rw [ends.1, take_length] at whole
      refine ⟨answered, fun _ => ends.2, by simp, parts ++ [rest ++ part], [], ?_, ?_, by simp, by simp⟩
      · simpa using more
      · exact rel_append reported (.cons ⟨_, whole⟩ .nil)
    next nonzero =>
      rw [if_neg nonzero]
      obtain ⟨towrite, written, iofile⟩ := ends
      have sofar : h.sofar = s.h.sofar + count := by
        rw [Tcpip.sofar, if_neg (by omega), written, Int.toNat_natCast]
      refine ⟨answered, by simp, ?_, parts, rest ++ part, more, reported, by simp, ?_⟩
      · rintro message ⟨rfl⟩
        exact ⟨towrite, by rw [written, sofar], by dsimp only; omega⟩
      · rintro message ⟨rfl⟩
        rw [sofar]
        by_cases some : 0 < s.h.sofar + count
        · rw [iofile some]
          exact whole
        · have zero : s.h.sofar + count = 0 := by omega
          rw [zero] at whole ⊢
          exact whole.elsewhere _

theorem Run.sound (run : Run Session.Steady s) : s.Sound := by
  induction run with
  | start ready =>
    refine ⟨ready.answered, fun _ => ready.idle, by simp, [], [], ?_, .nil, fun _ => rfl, by simp⟩
    exact ready.fresh
  | call _ _ steady ih => exact ih.call steady

/-- In every run whose calls are all steady, a message that is reported as sent was sent; a buffer of another size changes no counter. -/
theorem run_delivered (run : Run Session.Steady s) :
    s.Delivered ∧ ∀ buf, WrongSize s.h buf →
      (tcpipPut buf s.h).1 = -1 ∧ (tcpipPut buf s.h).2.cerrno = .wrongBuf ∧
        (tcpipPut buf s.h).2.towrite = s.h.towrite ∧ (tcpipPut buf s.h).2.written = s.h.written := by
  refine ⟨run.sound.delivered, ?_⟩
  intro buf wrong
  rw [tcpipPut_wrongSize wrong]
  exact ⟨rfl, rfl, rfl, rfl⟩

end

def twoMessages : Tcpip where
  further := 1
  sending := [.accepted 2, .wouldBlock, .accepted 5, .failed, .accepted 1]
  sockets := [true]
  connects := [.inProgress]

def twoMessagesSent : Session :=
  let start : Session := { h := twoMessages }
  (((start.call [1, 2, 3]).call [1, 2, 3]).call [4]).call [4]

theorem twoMessages_delivered :
    twoMessagesSent.messages = [[1, 2, 3], [4]] ∧ twoMessagesSent.Delivered ∧ (tcpipPut [5] twoMessagesSent.h).1 = 1 := by
  have start : Run Session.Steady { h := twoMessages } := .start ⟨rfl, by simp [twoMessages, Tcpip.Answered], rfl, rfl⟩
  have first := @Run.call _ _ [1, 2, 3] start (by decide) (by decide)
  have second := @Run.call _ _ [1, 2, 3] first (by decide) (by decide)
  have third := @Run.call _ _ [4] second (by decide) (by decide)
  have run : Run Session.Steady twoMessagesSent := @Run.call _ _ [4] third (by decide) (by decide)
  exact ⟨by decide, (run_delivered run).1, by decide⟩

/-- `send` fails for the first message, and the next address is connected at once. -/
def lostMessage : Tcpip where
  further := 1
  sending := [.failed]
  sockets := [true]
  connects := [.connected]

theorem lostMessage_not_delivered : ¬ ∀ s, Run (fun _ _ => True) s → s.Delivered := by
  intro all
  have start : Run (fun _ _ => True) { h := lostMessage } := .start ⟨rfl, by simp [lostMessage, Tcpip.Answered], rfl, rfl⟩
  obtain ⟨parts, rest, isLog, reported, -⟩ := all _ (@Run.call _ _ [1, 2, 3] start (by decide) trivial)
  have log : (Session.call { h := lostMessage } [1, 2, 3]).h.log = [] := by decide
  have messages : (Session.call { h := lostMessage } [1, 2, 3]).messages = [[1, 2, 3]] := by decide
  rw [messages, forall₂_cons_left_iff] at reported
  obtain ⟨part, others, ⟨socket, took⟩, -, rfl⟩ := reported
  rw [log, flatten_cons, eq_comm, append_eq_nil_iff, append_eq_nil_iff] at isLog
  have octets := took.octets
  rw [isLog.1.1] at octets
  simp at octets

end Yaz.Comstack
