import Yaz.Ber.Element

/-! Reassembly of messages by `tcpip_get`.

What `recv` returns is a list of results that the calls take from the front; when it is
used up, nothing more arrives and `recv` would block. A buffer of size 0 is the null
pointer. The branch for a TLS session is left out.
-/

set_option autoImplicit false

namespace Yaz.Comstack
open List Yaz.Foundation

/-- `CS_TCPIP_BUFCHUNK`. -/
def bufchunk : Nat := 4096

structure Buffer where
  mem : List UInt8 := []
  size : Nat := 0
  deriving DecidableEq

/-- The result of one `recv`: octets, `EWOULDBLOCK`, an error without an `errno`, 0, another error. -/
inductive Recv where
  | data (octets : List UInt8)
  | wouldBlock
  | retry
  | closed
  | failed
  deriving DecidableEq

/-- The caller's buffer, the fields of `tcpip_state` that `tcpip_get` uses, and what is to arrive. -/
structure Link where
  buf : Buffer := {}
  altbuf : Buffer := {}
  altlen : Nat := 0
  arriving : List Recv := []
  deriving DecidableEq

def Buffer.write (buf : Buffer) (offset : Nat) (octets : List UInt8) : Buffer :=
  { buf with mem := buf.mem.take offset ++ octets ++ buf.mem.drop (offset + octets.length) }

/-- `xrealloc`. -/
def Buffer.resize (buf : Buffer) (size : Nat) : Buffer := { mem := buf.mem.take size, size := size }

/-- Make room for one more chunk; `false` for the error `CSBUFSIZE`, which leaves `*bufsize` changed. -/
def makeRoom (maxRecvBytes : Nat) (buf : Buffer) (hasread : Nat) : Bool × Buffer :=
  if buf.size = 0 then (true, { mem := [], size := bufchunk })
  else if (buf.size : Int) - hasread < bufchunk then
    let bufsize := if maxRecvBytes / 2 < buf.size then maxRecvBytes else buf.size * 2
    if (bufsize : Int) - hasread < bufchunk then (false, { buf with size := bufsize })
    else (true, buf.resize bufsize)
  else (true, buf)

/-- How the read loop is left: with a verdict (0 if `recv` would block) or by a `return`. -/
structure Loop where
  berlen : Int := 0
  returned : Option Int := none
  hasread : Nat
  buf : Buffer
  arriving : List Recv
  deriving DecidableEq

/-- `while ((berlen = (*sp->complete)(*buf, hasread)) == 0)`. -/
def readLoop (complete : List UInt8 → Int) (maxRecvBytes : Nat) : List Recv → Buffer → Nat → Loop
  | arriving, buf, hasread =>
    let berlen := complete (buf.mem.take hasread)
    if berlen ≠ 0 then { berlen := berlen, hasread := hasread, buf := buf, arriving := arriving }
    else match makeRoom maxRecvBytes buf hasread with
      | (false, buf) => { returned := some (-1), hasread := hasread, buf := buf, arriving := arriving }
      | (true, buf) =>
        match arriving with
        | [] => { hasread := hasread, buf := buf, arriving := [] }
        | .wouldBlock :: rest => { hasread := hasread, buf := buf, arriving := rest }
        | .retry :: rest => readLoop complete maxRecvBytes rest buf hasread
        | .closed :: rest => { returned := some hasread, hasread := hasread, buf := buf, arriving := rest }
        | .failed :: rest => { returned := some (-1), hasread := hasread, buf := buf, arriving := rest }
        | .data octets :: rest =>
          let buf := buf.write hasread octets
          let hasread := hasread + octets.length
          if maxRecvBytes < hasread then
            { returned := some (-1), hasread := hasread, buf := buf, arriving := rest }
          else readLoop complete maxRecvBytes rest buf hasread

def switchBuffers (h : Link) : Link × Nat :=
  if h.altlen ≠ 0 then ({ h with buf := h.altbuf, altbuf := h.buf, altlen := 0 }, h.altlen) else (h, 0)

/-- The size of the other buffer that holds `tomove` octets. -/
def moveSize (tomove : Nat) : Nat :=
  if tomove % bufchunk = 0 then tomove else tomove + (bufchunk - tomove % bufchunk)

/-- Move what was read beyond `berlen` to the other buffer. -/
def moveSurplus (h : Link) (berlen hasread : Nat) : Link :=
  if berlen < hasread then
    let req := moveSize (hasread - berlen)
    let altbuf := if h.altbuf.size = 0 then { mem := [], size := req }
      else if h.altbuf.size < req then h.altbuf.resize req else h.altbuf
    { h with altbuf := altbuf.write 0 ((h.buf.mem.drop berlen).take (hasread - berlen)), altlen := hasread - berlen }
  else h

/-- `if (berlen < CS_TCPIP_BUFCHUNK - 1) *(*buf + berlen) = '\0'`. -/
def terminate (h : Link) (berlen : Nat) : Link :=
  if berlen < bufchunk - 1 then { h with buf := h.buf.write berlen [0] } else h

def tcpipGet (complete : List UInt8 → Int) (maxRecvBytes : Nat) (h : Link) : Int × Link :=
  let (h, hasread) := switchBuffers h
  let loop := readLoop complete maxRecvBytes h.arriving h.buf hasread
  let h := { h with buf := loop.buf, arriving := loop.arriving }
  match loop.returned with
  | some ret => (ret, h)
  | none =>
    if loop.berlen < 0 then (-1, h)
    else
      let berlen := loop.berlen.toNat
      (if berlen = 0 then 1 else berlen, terminate (moveSurplus h berlen loop.hasread) berlen)

/-- The messages that `calls` calls in a row hand over: the buffer after each result above 1. -/
def delivered (complete : List UInt8 → Int) (maxRecvBytes : Nat) : Nat → Link → List (List UInt8)
  | 0, _ => []
  | calls + 1, h =>
    let (ret, h) := tcpipGet complete maxRecvBytes h
    (if 1 < ret then [h.buf.mem.take ret.toNat] else []) ++ delivered complete maxRecvBytes calls h

def received : List Recv → List UInt8
  | [] => []
  | .data octets :: rest => octets ++ received rest
  | _ :: rest => received rest

/-- `recv` returns between 1 and `CS_TCPIP_BUFCHUNK` octets or would block. -/
def Recv.Arrives : Recv → Prop
  | .data octets => octets ≠ [] ∧ octets.length ≤ bufchunk
  | .wouldBlock => True
  | _ => False

/-- `hasread` octets are in the buffer, the others of the stream are to arrive. -/
structure Reading (stream : List UInt8) (buf : Buffer) (hasread : Nat) (arriving : List Recv) : Prop where
  filled : hasread ≤ buf.mem.length
  room : hasread ≤ buf.size
  size : buf.size = 0 ∨ bufchunk ≤ buf.size
  stream : buf.mem.take hasread ++ received arriving = stream
  arrives : ∀ result ∈ arriving, result.Arrives

section
variable {complete : List UInt8 → Int} {maxRecvBytes : Nat} {stream : List UInt8} {buf : Buffer} {hasread : Nat}
  {arriving : List Recv} {octets : List UInt8}

theorem Reading.length_take (reading : Reading stream buf hasread arriving) : (buf.mem.take hasread).length = hasread := by
  rw [List.length_take, Nat.min_eq_left reading.filled]

theorem Reading.makeRoom (reading : Reading stream buf hasread arriving)
    (fits : hasread = 0 ∨ hasread + bufchunk ≤ maxRecvBytes) :
    ∃ larger, makeRoom maxRecvBytes buf hasread = (true, larger) ∧ Reading stream larger hasread arriving ∧
      hasread + bufchunk ≤ larger.size := by
  have room := reading.room
  have resized (size : Nat) (enough : hasread + bufchunk ≤ size) : Reading stream (buf.resize size) hasread arriving := by
    refine ⟨?_, ?_, ?_, ?_, reading.arrives⟩
    · rw [Buffer.resize, List.length_take]
      have := reading.filled
      omega
    · change hasread ≤ size
      omega
    · right
      change bufchunk ≤ size
      omega
    · rw [Buffer.resize, take_take, Nat.min_eq_left (by omega)]
      exact reading.stream
  unfold Comstack.makeRoom
  split
  next empty =>
    obtain rfl : hasread = 0 := by omega
    exact ⟨_, rfl, ⟨Nat.zero_le _, Nat.zero_le _, .inr (Nat.le_refl _), by simpa using reading.stream, reading.arrives⟩,
      by simp⟩
  next nonempty =>
    have size := reading.size
    split
    next full =>
      have enough : hasread + bufchunk ≤ if maxRecvBytes / 2 < buf.size then maxRecvBytes else buf.size * 2 := by
        split <;> omega
      rw [if_neg (by omega)]
      exact ⟨_, rfl, resized _ enough, enough⟩
    next enough => exact ⟨buf, rfl, reading, by omega⟩

theorem Reading.write (reading : Reading stream buf hasread (.data octets :: arriving))
    (room : hasread + bufchunk ≤ buf.size) :
    Reading stream (buf.write hasread octets) (hasread + octets.length) arriving := by
  obtain ⟨-, short⟩ := reading.arrives _ (mem_cons_self ..)
  have length := reading.length_take
  have stored : (buf.write hasread octets).mem.take (hasread + octets.length) = buf.mem.take hasread ++ octets := by
    rw [Buffer.write, take_left']
    rw [length_append, length]
  refine ⟨?_, ?_, reading.size, ?_, fun result inside => reading.arrives result (mem_cons_of_mem _ inside)⟩
  · rw [Buffer.write, length_append, length_append, length]
    omega
  · change hasread + octets.length ≤ buf.size
    omega
  · rw [stored, append_assoc]
    exact reading.stream

/-- The read loop ends with the first message of the stream, or because `recv` would block. -/
theorem readLoop_message {message rest : List UInt8} (finds : Finds complete message rest) (nonempty : message ≠ [])
    (fits : message.length + bufchunk ≤ maxRecvBytes) (reading : Reading (message ++ rest) buf hasread arriving) :
    let loop := readLoop complete maxRecvBytes arriving buf hasread
    loop.returned = none ∧ Reading (message ++ rest) loop.buf loop.hasread loop.arriving ∧
      ((loop.berlen = message.length ∧ message.length ≤ loop.hasread ∧ loop.arriving.length ≤ arriving.length) ∨
        (loop.berlen = 0 ∧ loop.arriving.length < arriving.length)) := by
  have positive := length_pos_iff.mpr nonempty
  induction arriving generalizing buf hasread with
  | nil =>
    -- everything has arrived, so the message is there
    have length := congrArg List.length reading.stream
    rw [received, append_nil, reading.length_take, length_append] at length
    have verdict := finds reading.stream
    rw [reading.length_take, if_neg (by omega)] at verdict
    unfold readLoop
    rw [if_pos (by omega)]
    exact ⟨rfl, reading, .inl ⟨verdict, by dsimp only; omega, Nat.le_refl _⟩⟩
  | cons result _ ih =>
    have verdict := finds reading.stream
    rw [reading.length_take] at verdict
    unfold readLoop
    split at verdict
    next short =>
      obtain ⟨larger, grown, roomy, room⟩ := reading.makeRoom (show hasread = 0 ∨ hasread + bufchunk ≤ maxRecvBytes by omega)
      rw [if_neg (by omega), grown]
      have arrives := reading.arrives _ (mem_cons_self ..)
      cases result with
      | data =>
        dsimp only
        rw [if_neg (by have := arrives.2; omega)]
        obtain ⟨returned, after, found⟩ := ih (roomy.write room)
        refine ⟨returned, after, ?_⟩
        simp only [length_cons]
        omega
      | wouldBlock =>
        refine ⟨rfl, ⟨roomy.filled, roomy.room, roomy.size, roomy.stream, ?_⟩, .inr ⟨rfl, by simp⟩⟩
        exact fun result inside => reading.arrives result (mem_cons_of_mem _ inside)
      | _ => exact arrives.elim
    next enough =>
      rw [if_pos (by omega)]
      exact ⟨rfl, reading, .inl ⟨verdict, by dsimp only; omega, Nat.le_refl _⟩⟩

theorem readLoop_nothing (verdict : complete [] ≤ 0) (maxRecvBytes : Nat)
    (reading : Reading [] buf hasread arriving) :
    let loop := readLoop complete maxRecvBytes arriving buf hasread
    loop.returned = none ∧ Reading [] loop.buf loop.hasread loop.arriving ∧ loop.berlen ≤ 0 := by
  have none := reading.stream
  rw [append_eq_nil_iff] at none
  obtain rfl : hasread = 0 := by
    rw [← reading.length_take, none.1, length_nil]
  cases arriving with
  | nil =>
    unfold readLoop
    dsimp only
    rw [none.1]
    split
    · exact ⟨rfl, reading, verdict⟩
    · obtain ⟨larger, grown, roomy, -⟩ := reading.makeRoom (.inl rfl)
      rw [grown]
      exact ⟨rfl, roomy, Int.le_refl 0⟩
  | cons result =>
    unfold readLoop
    dsimp only
    rw [none.1]
    split
    · exact ⟨rfl, reading, verdict⟩
    · obtain ⟨larger, grown, roomy, -⟩ := reading.makeRoom (.inl rfl)
      rw [grown]
      have arrives := reading.arrives _ (mem_cons_self ..)
      cases result with
      | data =>
        have := none.2
        rw [received, append_eq_nil_iff] at this
        exact absurd this.1 arrives.1
      | wouldBlock =>
        refine ⟨rfl, ⟨roomy.filled, roomy.room, roomy.size, roomy.stream, ?_⟩, Int.le_refl 0⟩
        exact fun result inside => reading.arrives result (mem_cons_of_mem _ inside)
      | _ => exact arrives.elim

end

/-! ### A run of calls -/

/-- Between two calls: what is in the other buffer and what is to arrive is the stream. -/
structure Holding (stream : List UInt8) (h : Link) : Prop where
  alternate : Reading stream h.altbuf h.altlen h.arriving
  size : h.buf.size = 0 ∨ bufchunk ≤ h.buf.size

section
variable {complete : List UInt8 → Int} {maxRecvBytes : Nat} {stream : List UInt8} {h : Link}

theorem Holding.switchBuffers (holding : Holding stream h) {h' : Link} {hasread : Nat}
    (switched : switchBuffers h = (h', hasread)) :
    Reading stream h'.buf hasread h'.arriving ∧ h'.altlen = 0 ∧ (h'.altbuf.size = 0 ∨ bufchunk ≤ h'.altbuf.size) ∧
      h'.arriving = h.arriving := by
  unfold Comstack.switchBuffers at switched
  split at switched
  · obtain ⟨rfl, rfl⟩ := Prod.mk.inj switched
    exact ⟨holding.alternate, rfl, holding.size, rfl⟩
  next empty =>
    obtain ⟨rfl, rfl⟩ := Prod.mk.inj switched
    have none : h.altlen = 0 := by omega
    have alternate := holding.alternate
    refine ⟨⟨Nat.zero_le _, Nat.zero_le _, holding.size, ?_, alternate.arrives⟩, none, alternate.size, rfl⟩
    have same := alternate.stream
    rw [none] at same
    simpa using same

theorem moveSize_spec (tomove : Nat) (positive : 0 < tomove) : tomove ≤ moveSize tomove ∧ bufchunk ≤ moveSize tomove := by
  have chunk : 0 < bufchunk := by decide
  unfold moveSize
  have split := Nat.div_add_mod tomove bufchunk
  split
  next whole =>
    refine ⟨Nat.le_refl _, ?_⟩
    exact Nat.le_of_dvd positive (Nat.dvd_of_mod_eq_zero whole)
  next broken =>
    refine ⟨by omega, ?_⟩
    omega

theorem terminate_moveSurplus_mem {berlen hasread : Nat} (inside : berlen ≤ h.buf.mem.length) :
    (terminate (moveSurplus h berlen hasread) berlen).buf.mem.take berlen = h.buf.mem.take berlen := by
  have same : (moveSurplus h berlen hasread).buf = h.buf := by
    unfold moveSurplus
    split <;> rfl
  unfold terminate
  split
  · dsimp only
    rw [same, Buffer.write, append_assoc, take_left']
    rw [List.length_take, Nat.min_eq_left inside]
  · rw [same]

theorem terminate_fields (berlen : Nat) : (terminate h berlen).altbuf = h.altbuf ∧ (terminate h berlen).altlen = h.altlen ∧
    (terminate h berlen).arriving = h.arriving ∧ (terminate h berlen).buf.size = h.buf.size := by
  unfold terminate
  split
  · exact ⟨rfl, rfl, rfl, rfl⟩
  · exact ⟨rfl, rfl, rfl, rfl⟩

theorem holding_moveSurplus {berlen hasread : Nat} (reading : Reading stream h.buf hasread h.arriving)
    (inside : berlen ≤ hasread) (none : h.altlen = 0) (size : h.altbuf.size = 0 ∨ bufchunk ≤ h.altbuf.size) :
    Holding (stream.drop berlen) (terminate (moveSurplus h berlen hasread) berlen) := by
  have filled := reading.filled
  have length := reading.length_take
  have left : (h.buf.mem.drop berlen).take (hasread - berlen) ++ received h.arriving = stream.drop berlen := by
    rw [← reading.stream, drop_append_of_le_length (by omega), drop_take]
  obtain ⟨altbuf, altlen, arriving, bufSize⟩ := terminate_fields (h := moveSurplus h berlen hasread) berlen
  have surplus : Reading (stream.drop berlen) (moveSurplus h berlen hasread).altbuf (moveSurplus h berlen hasread).altlen
      (moveSurplus h berlen hasread).arriving ∧ (moveSurplus h berlen hasread).buf.size = h.buf.size := by
    unfold moveSurplus
    split
    next more =>
      refine ⟨?_, rfl⟩
      dsimp only
      obtain ⟨holds, chunk⟩ := moveSize_spec (hasread - berlen) (by omega)
      generalize reserved : (if h.altbuf.size = 0 then ({ mem := [], size := moveSize (hasread - berlen) } : Buffer)
        else if h.altbuf.size < moveSize (hasread - berlen) then h.altbuf.resize (moveSize (hasread - berlen))
        else h.altbuf) = target
      have room : hasread - berlen ≤ target.size ∧ bufchunk ≤ target.size := by
        rw [← reserved]
        split
        · exact ⟨holds, chunk⟩
        · split
          · exact ⟨holds, chunk⟩
          · omega
      have count : ((h.buf.mem.drop berlen).take (hasread - berlen)).length = hasread - berlen := by
        rw [List.length_take, length_drop]
        omega
      have stored : (target.write 0 ((h.buf.mem.drop berlen).take (hasread - berlen))).mem.take (hasread - berlen) =
          (h.buf.mem.drop berlen).take (hasread - berlen) := by
        rw [Buffer.write, take_zero, nil_append, take_left' count]
      refine ⟨?_, room.1, .inr room.2, by rw [stored]; exact left, reading.arrives⟩
      rw [Buffer.write, take_zero, nil_append, length_append, count]
      omega
    next exact =>
      obtain rfl : berlen = hasread := by omega
      refine ⟨⟨by omega, by omega, size, ?_, reading.arrives⟩, rfl⟩
      rw [none, take_zero, nil_append, ← left, Nat.sub_self, take_zero, nil_append]
  refine ⟨?_, ?_⟩
  · rw [altbuf, altlen, arriving]
    exact surplus.1
  · rw [bufSize, surplus.2]
    exact reading.size

theorem tcpipGet_message {message rest : List UInt8} (finds : Finds complete message rest) (nonempty : message ≠ [])
    (fits : message.length + bufchunk ≤ maxRecvBytes) (holding : Holding (message ++ rest) h) {ret : Int} {h' : Link}
    (got : tcpipGet complete maxRecvBytes h = (ret, h')) :
    (ret = message.length ∧ h'.buf.mem.take message.length = message ∧ Holding rest h' ∧
        h'.arriving.length ≤ h.arriving.length) ∨
      (ret = 1 ∧ Holding (message ++ rest) h' ∧ h'.arriving.length < h.arriving.length) := by
  have positive := length_pos_iff.mpr nonempty
  unfold tcpipGet at got
  cases switched : switchBuffers h with
  | mk s hasread =>
    obtain ⟨reading, none, size, same⟩ := holding.switchBuffers switched
    rw [switched] at got
    dsimp only at got
    have looped := readLoop_message finds nonempty fits reading
    generalize readLoop complete maxRecvBytes s.arriving s.buf hasread = loop at got looped
    obtain ⟨returned, after, found⟩ := looped
    rw [returned] at got
    rw [if_neg (by omega)] at got
    obtain ⟨rfl, rfl⟩ := Prod.mk.inj got
    have arriving (berlen : Nat) : (terminate (moveSurplus { s with buf := loop.buf, arriving := loop.arriving } berlen
        loop.hasread) berlen).arriving = loop.arriving := by
      rw [(terminate_fields berlen).2.2.1]
      unfold moveSurplus
      split <;> rfl
    rcases found with ⟨verdict, inside, fewer⟩ | ⟨verdict, fewer⟩
    · left
      rw [verdict, Int.toNat_natCast, if_neg (by omega)]
      refine ⟨rfl, ?_, ?_, by rw [arriving, ← same]; exact fewer⟩
      · rw [terminate_moveSurplus_mem (Nat.le_trans inside after.filled)]
        have front := congrArg (List.take message.length) after.stream
        rw [take_left, take_append_of_le_length (by rw [after.length_take]; exact inside), take_take,
          Nat.min_eq_left inside] at front
        exact front
      · have held := holding_moveSurplus (h := { s with buf := loop.buf, arriving := loop.arriving }) after inside none size
        rwa [drop_left] at held
    · right
      rw [verdict, Int.toNat_zero, if_pos rfl]
      refine ⟨rfl, ?_, by rw [arriving, ← same]; exact fewer⟩
      exact holding_moveSurplus (h := { s with buf := loop.buf, arriving := loop.arriving }) after (Nat.zero_le _) none size

theorem tcpipGet_nothing (empty : complete [] ≤ 0) (holding : Holding [] h)
    {ret : Int} {h' : Link} (got : tcpipGet complete maxRecvBytes h = (ret, h')) : ret ≤ 1 ∧ Holding [] h' := by
  unfold tcpipGet at got
  cases switched : switchBuffers h with
  | mk s hasread =>
    obtain ⟨reading, none, size, same⟩ := holding.switchBuffers switched
    rw [switched] at got
    dsimp only at got
    have looped := readLoop_nothing empty maxRecvBytes reading
    generalize readLoop complete maxRecvBytes s.arriving s.buf hasread = loop at got looped
    obtain ⟨returned, after, verdict⟩ := looped
    rw [returned] at got
    dsimp only at got
    split at got
    · obtain ⟨rfl, rfl⟩ := Prod.mk.inj got
      have nothing := after.stream
      rw [append_eq_nil_iff] at nothing
      refine ⟨by decide, ⟨?_, ?_, size, ?_, after.arrives⟩, after.size⟩
      · rw [none]; exact Nat.zero_le _
      · rw [none]; exact Nat.zero_le _
      · rw [none]; exact nothing.2
    · obtain ⟨rfl, rfl⟩ := Prod.mk.inj got
      rw [show loop.berlen.toNat = 0 by omega, if_pos rfl]
      refine ⟨Int.le_refl 1, ?_⟩
      exact holding_moveSurplus (h := { s with buf := loop.buf, arriving := loop.arriving }) after (Nat.zero_le _) none size

theorem delivered_nothing (empty : complete [] ≤ 0) (calls : Nat)
    (holding : Holding [] h) : delivered complete maxRecvBytes calls h = [] := by
  induction calls generalizing h with
  | zero => rfl
  | succ _ ih =>
    unfold delivered
    cases got : tcpipGet complete maxRecvBytes h with
    | mk =>
      obtain ⟨small, later⟩ := tcpipGet_nothing empty holding got
      dsimp only
      rw [if_neg (by omega), ih later]
      rfl

/-- The messages recognised by `complete` that `tcpip_get` can hold. -/
def Deliverable (complete : List UInt8 → Int) (maxRecvBytes : Nat) (message : List UInt8) : Prop :=
  complete message = message.length ∧ message ≠ [] ∧ message.length + bufchunk ≤ maxRecvBytes

/-- One after the other, the messages are found in their stream, and `tcpip_get` can hold them. -/
def Separated (complete : List UInt8 → Int) (maxRecvBytes : Nat) : List (List UInt8) → Prop
  | [] => complete [] ≤ 0
  | message :: rest => 1 < message.length ∧ message.length + bufchunk ≤ maxRecvBytes ∧ Finds complete message rest.flatten ∧
    Separated complete maxRecvBytes rest

theorem delivered_separated {messages : List (List UInt8)} (separated : Separated complete maxRecvBytes messages) (calls : Nat)
    (holding : Holding messages.flatten h) :
    delivered complete maxRecvBytes calls h <+: messages ∧
      (h.arriving.length + messages.length ≤ calls → delivered complete maxRecvBytes calls h = messages) := by
  induction calls generalizing h messages with
  | zero =>
    refine ⟨ nil_prefix, fun enough => ?_⟩
    rw [length_eq_zero_iff.mp (show messages.length = 0 by omega)]
    rfl
  | succ _ ih =>
    cases messages with
    | nil =>
      rw [delivered_nothing separated _ holding]
      exact ⟨ nil_prefix, fun _ => rfl⟩
    | cons message =>
      obtain ⟨longer, room, finds, others⟩ := id separated
      have nonempty : message ≠ [] := ne_nil_of_length_pos (Nat.lt_of_succ_lt longer)
      unfold delivered
      cases got : tcpipGet complete maxRecvBytes h with
      | mk =>
        dsimp only
        rcases tcpipGet_message finds nonempty room holding got with
          ⟨rfl, contents, later, fewer⟩ | ⟨rfl, later, fewer⟩
        · obtain ⟨front, all⟩ := ih others later
          rw [if_pos (by omega), Int.toNat_natCast, contents, singleton_append]
          refine ⟨prefix_cons_inj message |>.mpr front, fun enough => ?_⟩
          rw [all (by simp only [length_cons] at enough; omega)]
        · obtain ⟨front, all⟩ := ih separated later
          rw [if_neg (by omega), nil_append]
          exact ⟨front, fun enough => all (by omega)⟩

theorem delivered_messages (stable : PrefixStable complete) (unambiguous : ∀ b, complete b ≠ 1)
    {messages : List (List UInt8)} (each : ∀ message ∈ messages, Deliverable complete maxRecvBytes message) (calls : Nat)
    (holding : Holding messages.flatten h) :
    delivered complete maxRecvBytes calls h <+: messages ∧
      (h.arriving.length + messages.length ≤ calls → delivered complete maxRecvBytes calls h = messages) := by
  refine delivered_separated ?_ calls holding
  clear holding
  induction messages with
  | nil =>
    by_contra positive
    have := ((stable [] []).accepted (Int.not_le.mp positive)).1
    exact positive this
  | cons message _ ih =>
    obtain ⟨recognised, nonempty, room⟩ := each message mem_cons_self
    have longer : message.length ≠ 1 := by
      intro one
      exact unambiguous message (by rw [recognised, one]; rfl)
    have positive := length_pos_iff.mpr nonempty
    exact ⟨by omega, room, stable.finds recognised nonempty _, ih fun other inside => each other (mem_cons_of_mem _ inside)⟩

/-- However the stream is cut and wherever `recv` would block, the calls hand over the messages of
the stream, one after the other. A verdict of 1 could not be told from the return value 1 of a
call that has to be made again. -/
theorem tcpipGet_reassembles (stable : PrefixStable complete) (unambiguous : ∀ b, complete b ≠ 1)
    {messages : List (List UInt8)} (each : ∀ message ∈ messages, Deliverable complete maxRecvBytes message)
    {arriving : List Recv} (arrives : ∀ result ∈ arriving, result.Arrives)
    (whole : received arriving = messages.flatten) {buf : Buffer} (allocated : buf.size = 0 ∨ bufchunk ≤ buf.size)
    (calls : Nat) :
    delivered complete maxRecvBytes calls { buf := buf, arriving := arriving } <+: messages ∧
      (arriving.length + messages.length ≤ calls →
        delivered complete maxRecvBytes calls { buf := buf, arriving := arriving } = messages) :=
  delivered_messages stable unambiguous each calls
    ⟨⟨Nat.zero_le _, Nat.zero_le _, .inl rfl, whole, arrives⟩, allocated⟩

/-- Two elements in three pieces, the second of which has the end of one and the start of the other. -/
theorem tcpipGet_reassembles_two :
    delivered (fun buf => Ber.completeBERn buf 0) 8192 6
      { arriving := [.data [0x02], .wouldBlock, .data [0x01, 0x05, 0x04], .data [0x02, 0x61, 0x62]] } =
      [[0x02, 0x01, 0x05], [0x04, 0x02, 0x61, 0x62]] := by
  refine (tcpipGet_reassembles (Ber.completeBERn_prefixStable 0) (fun b => Ber.completeBERn_ne_one b 0)
    ?_ ?_ rfl (.inl rfl) 6).2 (by decide)
  · intro message inside
    simp only [mem_cons, not_mem_nil, or_false] at inside
    rcases inside with rfl | rfl
    · exact ⟨by decide, by decide, by decide⟩
    · exact ⟨by decide, by decide, by decide⟩
  · intro result inside
    simp only [mem_cons, not_mem_nil, or_false] at inside
    rcases inside with rfl | rfl | rfl | rfl
    · exact ⟨by decide, by decide⟩
    · trivial
    · exact ⟨by decide, by decide⟩
    · exact ⟨by decide, by decide⟩

end

end Yaz.Comstack
