import Yaz.Server.Association

/-! Requests that are read together are answered in order, each one once, as long as the association is not closed. -/

set_option autoImplicit false

namespace Yaz.Server.Session
open List

def Request.isTrigger (req : Request) : Bool := req.gdu = .z3950 .triggerResourceControlRequest

def Request.answer (req : Request) : List Response := if req.isTrigger then [] else [.to req]

def Pdu.answer : Pdu → List Response
  | .request req => req.answer
  | .malformed => []
  | .malformedHttp id => [.badRequest id]

def expected (arrived : List Pdu) : List Response := arrived.flatMap Pdu.answer

theorem expected_snoc (arrived : List Pdu) (pdu : Pdu) : expected (arrived ++ [pdu]) = expected arrived ++ pdu.answer := by
  simp [expected]

def Request.Encodable (req : Request) : Prop := req.gdu = .httpRequest → req.encodes = true

/-- What was sent and will be sent, and what `waiting` will come to, is what is expected; once it is closed nothing comes any more but a
Close PDU. -/
structure Association.Accounts (a : Association) (waiting : List Request) : Prop where
  answers : a.closed = false → a.sent ++ a.outgoing ++ waiting.flatMap Request.answer = expected a.arrived
  close : a.closed = true → ∃ answered, answered <+: expected a.arrived ∧
    (a.sent ++ a.outgoing = answered ∨ a.sent ++ a.outgoing = answered ++ [.close])
  dead : a.closed = true → a.state = .dead
  put : a.csPutMask.input = true ∨ a.csPutMask.output = true → a.outgoing ≠ []

theorem Association.Accounts.congr {a b : Association} {waiting : List Request} (accounts : a.Accounts waiting) (open' : a.closed = false)
    (outgoing : b.outgoing = a.outgoing) (csPutMask : b.csPutMask = a.csPutMask) (arrived : b.arrived = a.arrived) (sent : b.sent = a.sent)
    (closed : b.closed = a.closed) : b.Accounts waiting := by
  constructor
  · rw [outgoing, arrived, sent]
    exact fun _ => accounts.answers open'
  · rw [closed, open']
    exact fun is => absurd is (by decide)
  · rw [closed, open']
    exact fun is => absurd is (by decide)
  · rw [csPutMask, outgoing]
    exact accounts.put

structure Association.Settled (a : Association) : Prop where
  accounts : a.Accounts []
  empty : a.incoming = []

variable {a : Association}

theorem Association.Settled.waiting (settled : a.Settled) : a.Accounts a.incoming := by
  rw [settled.empty]
  exact settled.accounts

theorem doCloseReq_settled {waiting : List Request} (accounts : a.Accounts waiting) (open' : a.closed = false) :
    (doCloseReq a).Settled := by
  have answered : a.sent <+: expected a.arrived := by
    rw [← accounts.answers open', append_assoc]
    exact prefix_append _ _
  rw [doCloseReq]
  split
  · refine ⟨⟨nofun, fun _ => ⟨a.sent, answered, Or.inr rfl⟩, fun _ => rfl, fun _ => ?_⟩, rfl⟩
    simp [Association.respond]
  · refine ⟨⟨nofun, fun _ => ⟨a.sent, answered, Or.inl (append_nil _)⟩, fun _ => rfl, fun is => ?_⟩, rfl⟩
    simp at is

theorem respond_accounts {req : Request} {rest : List Request} (accounts : a.Accounts (req :: rest)) (open' : a.closed = false)
    (answered : req.isTrigger = false) : (a.respond (.to req)).Accounts rest := by
  have answers := accounts.answers open'
  rw [flatMap_cons, Request.answer, answered] at answers
  refine ⟨fun _ => ?_, fun is => absurd (open'.symm.trans is) (by decide), fun is => absurd (open'.symm.trans is) (by decide), fun _ => ?_⟩
  · show a.sent ++ (a.outgoing ++ [.to req]) ++ rest.flatMap Request.answer = expected a.arrived
    rw [← answers]
    simp
  · simp [Association.respond]

/-- What `process_z_request` and `process_http_request` leave alone. -/
structure SameQueues (a b : Association) : Prop where
  incoming : b.incoming = a.incoming
  outgoing : b.outgoing = a.outgoing
  csPutMask : b.csPutMask = a.csPutMask
  arrived : b.arrived = a.arrived
  sent : b.sent = a.sent
  closed : b.closed = a.closed

theorem SameQueues.refl (a : Association) : SameQueues a a := ⟨rfl, rfl, rfl, rfl, rfl, rfl⟩

theorem processZRequest_same (a : Association) (req : Request) (apdu : Apdu) : SameQueues a (processZRequest a req apdu).1 := by
  rw [processZRequest.eq_def]
  split
  next =>
    split <;> exact ⟨rfl, rfl, rfl, rfl, rfl, rfl⟩
  all_goals exact ⟨rfl, rfl, rfl, rfl, rfl, rfl⟩

theorem ofHandler_ne_nothing (result : Bool) : ZResult.ofHandler result ≠ .nothing := by cases result <;> decide

theorem isTrigger_of_nothing {req : Request} {apdu : Apdu} (is : req.gdu = .z3950 apdu)
    (nothing : (processZRequest a req apdu).2 = .nothing) : req.isTrigger = true := by
  rw [processZRequest.eq_def] at nothing
  split at nothing
  next =>
    split at nothing <;> simp at nothing
  all_goals first
    | exact absurd nothing (ofHandler_ne_nothing _)
    | simp [Request.isTrigger, is] at nothing ⊢

theorem not_isTrigger_of_response {req : Request} {apdu : Apdu} (is : req.gdu = .z3950 apdu)
    (response : (processZRequest a req apdu).2 = .response) : req.isTrigger = false := by
  rw [Request.isTrigger, is]
  by_contra trigger
  have same : apdu = .triggerResourceControlRequest := by simpa using trigger
  rw [same, processZRequest.eq_def] at response
  cases init : a.init <;> simp [init] at response

theorem processHttp_same (a : Association) (req : Request) : SameQueues a (processHttp a req) := by
  rw [processHttp]
  split <;> split <;> exact ⟨rfl, rfl, rfl, rfl, rfl, rfl⟩

/-- `process` answers a request, or leaves it and the queue if nothing is to be said. -/
structure Answering (process : Association → Request → Association) (room : Nat) : Prop where
  answers : ∀ (a : Association) (req : Request), a.closed = false → a.incoming.length < room → (∀ r ∈ req :: a.incoming, r.Encodable) →
    a.Accounts (req :: a.incoming) → (process a req).Accounts (process a req).incoming ∧
      ((process a req).incoming = [] ∨ req.isTrigger = true ∧ (process a req).incoming = a.incoming ∧ (process a req).closed = false)

theorem drain_accounts {process : Association → Request → Association} {room : Nat} (answering : Answering process room)
    (rounds : Nat) (enough : a.incoming.length ≤ rounds) (short : a.incoming.length ≤ room) (open' : a.incoming ≠ [] → a.closed = false)
    (encodable : ∀ r ∈ a.incoming, r.Encodable) (accounts : a.Accounts a.incoming) : (drain process rounds a).Settled := by
  induction rounds generalizing a with
  | zero =>
    have empty : a.incoming = [] := length_eq_zero_iff.mp (Nat.le_zero.mp enough)
    rw [empty] at accounts
    exact ⟨accounts, empty⟩
  | succ _ ih =>
    rw [drain]
    cases queue : a.incoming with
    | nil =>
      rw [queue] at accounts
      exact ⟨accounts, queue⟩
    | cons req rest =>
      rw [queue] at enough short encodable accounts
      rw [length_cons] at enough short
      have open'' : a.closed = false := open' (by rw [queue]; exact cons_ne_nil _ _)
      have first : ({ a with incoming := rest } : Association).Accounts (req :: rest) :=
        ⟨accounts.answers, accounts.close, accounts.dead, accounts.put⟩
      obtain ⟨next, left⟩ := answering.answers { a with incoming := rest } req open'' (show rest.length < room by omega) encodable first
      rcases left with empty | ⟨_, same, stillOpen⟩
      · exact ih (by rw [empty]; exact Nat.zero_le _) (by rw [empty]; exact Nat.zero_le _) (fun some' => absurd empty some')
          (by rw [empty]; exact forall_mem_nil _) next
      · have same : (process { a with incoming := rest } req).incoming = rest := same
        refine ih (by rw [same]; omega) (by rw [same]; omega) (fun _ => stillOpen) ?_ next
        rw [same]
        exact fun r among => encodable r (mem_cons_of_mem _ among)

theorem processGduRequest_answering (depth : Nat) : Answering (processGduRequest depth) depth := by
  induction depth with
  | zero => exact ⟨fun a req _ below => absurd below (Nat.not_lt_zero _)⟩
  | succ depth ih =>
    refine ⟨fun a req open' below encodable accounts => ?_⟩
    have rest : ∀ r ∈ a.incoming, r.Encodable := fun r among => encodable r (mem_cons_of_mem _ among)
    -- a response, and the loop behind it
    have answered : ∀ b : Association, SameQueues a b → req.isTrigger = false →
        (drain (processGduRequest depth) b.incoming.length (b.respond (.to req))).Settled := by
      intro b same notTrigger
      have bOpen : b.closed = false := same.closed.trans open'
      have bAccounts : b.Accounts (req :: b.incoming) := by
        rw [same.incoming]
        exact accounts.congr open' same.outgoing same.csPutMask same.arrived same.sent same.closed
      exact drain_accounts ih b.incoming.length (a := b.respond (.to req)) (Nat.le_refl _)
        (show b.incoming.length ≤ depth by rw [same.incoming]; omega) (fun _ => bOpen)
        (show ∀ r ∈ b.incoming, r.Encodable by rw [same.incoming]; exact rest) (respond_accounts bAccounts bOpen notTrigger)
    have closes : ∀ b : Association, SameQueues a b → (doCloseReq b).Settled := fun b same =>
      doCloseReq_settled (accounts.congr open' same.outgoing same.csPutMask same.arrived same.sent same.closed) (same.closed.trans open')
    rw [processGduRequest]
    cases gdu : req.gdu with
    | z3950 apdu =>
      have same := processZRequest_same a req apdu
      dsimp only
      cases outcome : processZRequest a req apdu with
      | mk b result =>
        rw [outcome] at same
        cases result with
        | response =>
          have notTrigger := not_isTrigger_of_response gdu (a := a) (by rw [outcome])
          dsimp only
          split
          · exact ⟨(answered b same notTrigger).waiting, Or.inl (answered b same notTrigger).empty⟩
          · exact ⟨(closes b same).waiting, Or.inl (closes b same).empty⟩
        | nothing =>
          have trigger := isTrigger_of_nothing gdu (a := a) (by rw [outcome])
          have left := accounts.congr open' same.outgoing same.csPutMask same.arrived same.sent same.closed
          refine ⟨⟨fun is => ?_, left.close, left.dead, left.put⟩, Or.inr ⟨trigger, same.incoming, same.closed.trans open'⟩⟩
          have answers := left.answers is
          rw [flatMap_cons, Request.answer, trigger] at answers
          rw [same.incoming]
          exact answers
        | close => exact ⟨(closes b same).waiting, Or.inl (closes b same).empty⟩
        | failed => exact ⟨(closes b same).waiting, Or.inl (closes b same).empty⟩
    | httpRequest =>
      have same := processHttp_same a req
      have encodes := encodable req mem_cons_self gdu
      have notTrigger : req.isTrigger = false := by simp [Request.isTrigger, gdu]
      rw [if_pos encodes]
      exact ⟨(answered _ same notTrigger).waiting, Or.inl (answered _ same notTrigger).empty⟩
    | httpResponse => exact ⟨(closes a (SameQueues.refl a)).waiting, Or.inl (closes a (SameQueues.refl a)).empty⟩

/-! ### Events -/

/-- The PDUs of an event, behind requests that were read: the last of several requests is not reached over one that is not answered, and
an HTTP request that cannot be decoded is not answered before others. -/
def PdusFit : (read : List Request) → List Pdu → Prop
  | read, [] => match read with
      | req :: _ :: _ => req.isTrigger = false
      | _ => True
  | read, .request req :: rest => req.Encodable ∧ PdusFit (read ++ [req]) rest
  | _, .malformed :: _ => True
  | read, .malformedHttp _ :: _ => ∀ req ∈ read, req.isTrigger = true

def Call.Fits (a : Association) (call : Call) : Prop :=
  a.csGetMask.has call.event = true → a.csPutMask.input = false ∧
    match call.get with
    | .pdus first rest => a.state ≠ .dead → PdusFit [] (first :: rest)
    | _ => True

def AllFit : Association → List Call → Prop
  | _, [] => True
  | a, call :: calls => a.destroyed = false → call.Fits a ∧
      match irSession a call.event call.get call.put with
      | some b => AllFit b calls
      | none => True

instance (req : Request) : Decidable req.Encodable := inferInstanceAs (Decidable (_ → _))

instance decidablePdusFit : (read : List Request) → (pdus : List Pdu) → Decidable (PdusFit read pdus)
  | [], [] => isTrue trivial
  | [_], [] => isTrue trivial
  | req :: _ :: _, [] => inferInstanceAs (Decidable (req.isTrigger = false))
  | read, .request req :: rest =>
    haveI := decidablePdusFit (read ++ [req]) rest
    inferInstanceAs (Decidable (_ ∧ _))
  | _, .malformed :: _ => isTrue trivial
  | read, .malformedHttp _ :: _ => inferInstanceAs (Decidable (∀ req ∈ read, req.isTrigger = true))

instance (a : Association) (call : Call) : Decidable (call.Fits a) := by
  unfold Call.Fits
  cases call.get <;> infer_instance

instance decidableAllFit : (a : Association) → (calls : List Call) → Decidable (AllFit a calls)
  | _, [] => isTrue trivial
  | a, call :: calls =>
    haveI : Decidable (match irSession a call.event call.get call.put with | some b => AllFit b calls | none => True) :=
      match irSession a call.event call.get call.put with
      | some b => decidableAllFit b calls
      | none => isTrue trivial
    inferInstanceAs (Decidable (_ → _ ∧ _))

theorem request_accounts (accounts : a.Accounts a.incoming) (open' : a.closed = false) (req : Request) :
    ({ a with incoming := a.incoming ++ [req], arrived := a.arrived ++ [.request req] } : Association).Accounts (a.incoming ++ [req]) := by
  refine ⟨fun _ => ?_, fun is => absurd (open'.symm.trans is) (by decide), fun is => absurd (open'.symm.trans is) (by decide), accounts.put⟩
  show a.sent ++ a.outgoing ++ (a.incoming ++ [req]).flatMap Request.answer = expected (a.arrived ++ [.request req])
  rw [expected_snoc, ← accounts.answers open', flatMap_append]
  simp [Pdu.answer]

theorem flatMap_answer_triggers {reqs : List Request} (triggers : ∀ req ∈ reqs, req.isTrigger = true) :
    reqs.flatMap Request.answer = [] := by
  refine flatMap_eq_nil_iff.mpr fun req among => ?_
  rw [Request.answer, triggers req among]
  rfl

theorem readPdus_accounts (pdus : List Pdu) (accounts : a.Accounts a.incoming) (open' : a.closed = false)
    (encodable : ∀ r ∈ a.incoming, r.Encodable) (fits : PdusFit a.incoming pdus) :
    ((readPdus a pdus).2 = false → (readPdus a pdus).1.Settled) ∧
      ((readPdus a pdus).2 = true → (readPdus a pdus).1.Accounts (readPdus a pdus).1.incoming ∧ (readPdus a pdus).1.closed = false ∧
        (∀ r ∈ (readPdus a pdus).1.incoming, r.Encodable) ∧ a.incoming.length + pdus.length ≤ (readPdus a pdus).1.incoming.length ∧
        ∀ req other rest, (readPdus a pdus).1.incoming = req :: other :: rest → req.isTrigger = false) := by
  induction pdus generalizing a with
  | nil =>
    refine ⟨nofun, fun _ => ⟨accounts, open', encodable, Nat.le_refl _, ?_⟩⟩
    intro req other rest queue
    have queue : a.incoming = req :: other :: rest := queue
    rw [queue] at fits
    exact fits
  | cons pdu _ ih =>
    cases pdu with
    | request req =>
      have next := ih (a := { a with incoming := a.incoming ++ [req], arrived := a.arrived ++ [.request req] })
        (request_accounts accounts open' req) open'
        (forall_mem_append.mpr ⟨encodable, forall_mem_singleton.mpr fits.1⟩) fits.2
      rw [readPdus]
      refine ⟨next.1, fun goesOn => ?_⟩
      obtain ⟨nextAccounts, nextOpen, nextEncodable, length, nextFits⟩ := next.2 goesOn
      refine ⟨nextAccounts, nextOpen, nextEncodable, ?_, nextFits⟩
      rw [length_append, length_singleton] at length
      rw [length_cons]
      omega
    | malformed => exact ⟨fun _ => doCloseReq_settled accounts open', nofun⟩
    | malformedHttp id =>
      have triggers : ∀ req ∈ a.incoming, req.isTrigger = true := fits
      refine ⟨fun _ => ?_, nofun⟩
      have before := accounts.answers open'
      refine drain_accounts (processGduRequest_answering a.incoming.length) a.incoming.length
        (a := ({ a with state := .dead, arrived := a.arrived ++ [.malformedHttp id] } : Association).respond (.badRequest id))
        (Nat.le_refl _) (Nat.le_refl _) (fun _ => open') encodable ?_
      refine ⟨fun _ => ?_, fun is => absurd (open'.symm.trans is) (by decide), fun is =>
        absurd (open'.symm.trans is) (by decide), fun _ => ?_⟩
      · show a.sent ++ (a.outgoing ++ [.badRequest id]) ++ a.incoming.flatMap Request.answer = expected (a.arrived ++ [.malformedHttp id])
        rw [expected_snoc, ← before, flatMap_answer_triggers triggers]
        simp [Pdu.answer]
      · simp [Association.respond]

theorem Association.Settled.opened (settled : a.Settled) (alive : a.state ≠ .dead) : a.closed = false :=
  Bool.eq_false_iff.mpr fun closed => alive (settled.accounts.dead closed)

theorem sessionOutput_settled (settled : a.Settled) (event : Event) (put : Put) :
    ∃ b, sessionOutput a event put = some b ∧ b.Settled := by
  obtain ⟨accounts, empty⟩ := settled
  rw [sessionOutput]
  by_cases ready : a.csPutMask.has event = true
  · rw [if_pos ready]
    have some' : a.outgoing ≠ [] := by
      apply accounts.put
      cases event with
      | input => exact Or.inl ready
      | output => exact Or.inr ready
      | except => simp [Mask.has] at ready
      | timeout => simp [Mask.has] at ready
    cases outgoing : a.outgoing with
    | nil => exact absurd outgoing some'
    | cons response rest =>
      obtain ⟨answers, close, dead, _⟩ := accounts
      rw [outgoing] at answers close
      have whole : a.sent ++ [response] ++ rest = a.sent ++ response :: rest := by rw [append_assoc]; rfl
      cases put with
      | closed => exact ⟨_, rfl, ⟨answers, close, dead, fun is => by simp at is⟩, empty⟩
      | sent =>
        refine ⟨_, rfl, ⟨fun open' => ?_, fun closed => ?_, dead, fun is => ?_⟩, empty⟩
        · dsimp only
          rw [whole]
          exact answers open'
        · dsimp only
          rw [whole]
          exact close closed
        · intro none'
          have none' : rest = [] := none'
          simp [none'] at is
      | pending =>
        exact ⟨_, rfl, ⟨answers, close, dead, fun _ => cons_ne_nil _ _⟩, empty⟩
  · rw [if_neg ready]
    exact ⟨a, rfl, accounts, empty⟩

/-- A call for input reads, processes what it has read, and takes no head of an empty queue. -/
theorem input_settled (settled : a.Settled) {call : Call} (fits : call.Fits a) (reads : a.csGetMask.has call.event = true) :
    ∃ b, sessionPolled a call.event call.get call.put = some b ∧ b.Settled := by
  obtain ⟨noInput, batch⟩ := fits reads
  obtain ⟨accounts, empty⟩ := settled
  rw [sessionPolled, if_pos reads, irRead, if_pos ⟨noInput, reads⟩]
  by_cases dead : a.state = .dead
  · rw [if_pos dead]
    exact ⟨_, rfl, ⟨accounts.answers, accounts.close, accounts.dead, accounts.put⟩, empty⟩
  · have open' := Association.Settled.opened ⟨accounts, empty⟩ dead
    rw [if_neg dead]
    have same : ({ a with csGetMask := { input := true } } : Association).Accounts [] :=
      ⟨accounts.answers, accounts.close, accounts.dead, accounts.put⟩
    cases got : call.get with
    | bufferError => exact ⟨_, rfl, doCloseReq_settled same open'⟩
    | closed => exact ⟨_, rfl, ⟨accounts.answers, accounts.close, fun _ => rfl, accounts.put⟩, empty⟩
    | incomplete => exact ⟨_, rfl, ⟨accounts.answers, accounts.close, accounts.dead, accounts.put⟩, empty⟩
    | pdus first rest =>
      rw [got] at batch
      have fit : PdusFit [] (first :: rest) := batch dead
      have waiting := same
      rw [← empty] at waiting
      have read := readPdus_accounts (first :: rest) (a := { a with csGetMask := { input := true } }) waiting open'
        (show ∀ r ∈ a.incoming, r.Encodable by rw [empty]; exact forall_mem_nil _)
          (show PdusFit a.incoming (first :: rest) by rw [empty]; exact fit)
      dsimp only
      cases outcome : readPdus { a with csGetMask := { input := true } } (first :: rest) with
      | mk b goesOn =>
        rw [outcome] at read
        cases goesOn with
        | false => exact ⟨b, rfl, read.1 rfl⟩
        | true =>
          obtain ⟨bAccounts, bOpen, bEncodable, length, leads⟩ := read.2 rfl
          dsimp only
          cases queue : b.incoming with
          | nil =>
            have none' : b.incoming.length = 0 := by rw [queue]; rfl
            rw [none', length_cons] at length
            omega
          | cons req others =>
            rw [queue] at bAccounts bEncodable
            have processed := (processGduRequest_answering (others.length + 1)).answers { b with incoming := others } req bOpen
              (Nat.lt_succ_self _) bEncodable ⟨bAccounts.answers, bAccounts.close, bAccounts.dead, bAccounts.put⟩
            refine sessionOutput_settled ?_ call.event call.put
            have done : (processGduRequest (others.length + 1) { b with incoming := others } req).incoming = [] := by
              rcases processed.2 with none' | ⟨trigger, left, _⟩
              · exact none'
              · cases others with
                | nil => exact left
                | cons other more => exact absurd trigger (by rw [leads req other more queue]; decide)
            refine ⟨?_, done⟩
            have left := processed.1
            rwa [done] at left

theorem irSession_settled (settled : a.Settled) {call : Call} (fits : call.Fits a) :
    ∃ b, irSession a call.event call.get call.put = some b ∧ b.Settled := by
  have destroyed : ({ a with destroyed := true } : Association).Settled :=
    ⟨⟨settled.accounts.answers, settled.accounts.close, settled.accounts.dead, settled.accounts.put⟩, settled.empty⟩
  have ready : ∃ b, sessionPolled a call.event call.get call.put = some b ∧ b.Settled := by
    by_cases reads : a.csGetMask.has call.event = true
    · exact input_settled settled fits reads
    · rw [sessionPolled, if_neg reads]
      exact sessionOutput_settled settled call.event call.put
  rw [irSession.eq_def]
  cases event : call.event with
  | timeout =>
    refine ⟨_, rfl, ?_⟩
    by_cases up : a.state = .up
    · rw [if_pos up]
      exact doCloseReq_settled settled.accounts (settled.opened (by rw [up]; decide))
    · rw [if_neg up]
      exact destroyed
  | except => exact ⟨_, rfl, destroyed⟩
  | input =>
    rw [event] at ready
    exact ready
  | output =>
    rw [event] at ready
    exact ready

theorem session_settled (calls : List Call) (settled : a.Settled) (fits : AllFit a calls) :
    ∃ b, session a calls = some b ∧ b.Settled := by
  induction calls generalizing a with
  | nil => exact ⟨a, rfl, settled⟩
  | cons _ _ ih =>
    rw [session]
    cases gone : a.destroyed with
    | true => exact ⟨a, rfl, settled⟩
    | false =>
      obtain ⟨now, later⟩ := fits gone
      obtain ⟨b, called, next⟩ := irSession_settled settled now
      rw [called] at later
      rw [if_neg Bool.false_ne_true, called]
      exact ih next later

/-- In a session whose calls fit, no call takes the head of an empty queue, no request is left in the incoming queue, the
responses that were sent and those in the outgoing queue are the ones to what has arrived, one each and in order, and once the
association is closed they are the first of these, with a Close PDU behind them at most. -/
theorem session_answers (calls : List Call) (fits : AllFit {} calls) :
    ∃ a, session {} calls = some a ∧ a.incoming = [] ∧
      (a.closed = false → a.sent ++ a.outgoing = expected a.arrived) ∧
      (a.closed = true → ∃ answered, answered <+: expected a.arrived ∧
        (a.sent ++ a.outgoing = answered ∨ a.sent ++ a.outgoing = answered ++ [.close])) := by
  have start : ({} : Association).Settled := ⟨⟨fun _ => rfl, nofun, nofun, fun is => by simp at is⟩, rfl⟩
  obtain ⟨a, run, settled⟩ := session_settled calls start fits
  refine ⟨a, run, settled.empty, fun open' => ?_, settled.accounts.close⟩
  have answers := settled.accounts.answers open'
  rwa [flatMap_nil, append_nil] at answers

def initReq (id : Nat) : Request := { id, gdu := .z3950 .initRequest, protocolVersion := 3, bendInit := some { bendScan := true } }

def searchReq (id : Nat) : Request := { id, gdu := .z3950 .searchRequest }

def triggerReq (id : Nat) : Request := { id, gdu := .z3950 .triggerResourceControlRequest }

def pipelined : List Call :=
  [{ event := .input, get := .pdus (.request (initReq 1)) [] },
    { event := .output, put := .sent },
    { event := .input, get := .pdus (.request (searchReq 2)) [.request (triggerReq 3), .request (searchReq 4)] },
    { event := .output, put := .pending true false },
    { event := .input, get := .pdus (.request (searchReq 5)) [] },
    { event := .output, put := .sent },
    { event := .output, put := .sent }]

theorem pipelined_answers : ∃ a, session {} pipelined = some a ∧ a.incoming = [] ∧
    (a.closed = false → a.sent ++ a.outgoing = expected a.arrived) ∧
    (a.closed = true → ∃ answered, answered <+: expected a.arrived ∧
      (a.sent ++ a.outgoing = answered ∨ a.sent ++ a.outgoing = answered ++ [.close])) :=
  session_answers pipelined (by decide)

/-- A search with a close behind it is never answered: the queues are purged. A trigger with a search behind it leaves the search in the
queue. Input for an output that waits for it takes the head of an empty queue. -/
theorem search_unanswered :
    ((session {} [{ event := .input, get := .pdus (.request (initReq 1)) [] }, { event := .output, put := .sent },
      { event := .input, get := .pdus (.request (searchReq 2)) [.request { id := 3, gdu := .z3950 .close }] }]).map fun a =>
        (a.arrived.length, a.sent ++ a.outgoing)) = some (3, [.to (initReq 1), .close]) ∧
    ((session {} [{ event := .input, get := .pdus (.request (initReq 1)) [] },
      { event := .input, get := .pdus (.request (triggerReq 2)) [.request (searchReq 3)] }]).map fun a => a.incoming) = some [searchReq 3] ∧
    session {} [{ event := .input, get := .pdus (.request (initReq 1)) [] }, { event := .output, put := .pending false true },
      { event := .input, get := .incomplete false }] = none := by
  decide

end Yaz.Server.Session
