import Yaz.Iconv.Splitting

/-! The octets that an encoder writes, when the output goes to buffers of any sizes.

`Resumable` says when a step of an encoder that had no room goes on as if it had not been stopped.
-/

set_option autoImplicit false

variable {inbuf : List UInt8} {outbytesleft : Nat}

namespace Yaz.Iconv
open List

section
variable {D E : Type}

def Written.Refused (written : Written E) : Prop := written.failed = true ∧ written.errno = some .e2big

instance (written : Written E) : Decidable written.Refused := inferInstanceAs (Decidable (_ ∧ _))

/-- A step of an encoder, by the room for it: what is written if there is enough is written in parts if there is not, where
`good` holds of the state and the room. -/
structure Resumable (valid : E → Prop) (bound : E → Nat) (good : E → Nat → Bool) (step : E → Nat → Written E) : Prop where
  keeps : ∀ {w : E} {room : Nat}, valid w → (¬ (step w room).Refused ∨ good w room = true) → valid (step w room).data
  named : ∀ {w : E} {room : Nat}, (step w room).failed = true → (step w room).errno ≠ none
  fits : ∀ {w : E} {room : Nat}, valid w → ¬ (step w room).Refused →
    (step w room).out = (step w (bound w)).out ∧ (step w room).data = (step w (bound w)).data
  resumes : ∀ {w : E} {room : Nat}, valid w → (step w room).Refused → good w room = true →
    (step w room).out ++ (step (step w room).data (bound (step w room).data)).out = (step w (bound w)).out ∧
      (step (step w room).data (bound (step w room).data)).data = (step w (bound w)).data

def Encoder.flushed (encoder : Encoder E) (w : E) (outbytesleft : Nat) : Written E :=
  match encoder.flushHandle with
  | none => { out := [], data := w }
  | some flushHandle => flushHandle w outbytesleft

structure Resumes (encoder : Encoder E) where
  valid : E → Prop
  bound : E → Nat
  good : E → Nat → Nat → Bool
  goodFlush : E → Nat → Bool
  initValid : ∀ w, valid (encoder.initHandle w)
  write : ∀ x, Resumable valid bound (fun w => good w x) (fun w => encoder.writeHandle w x)
  flush : Resumable valid bound goodFlush encoder.flushed

def Encoder.inFull (encoder : Encoder E) (bound : E → Nat) (w : E) : List Nat → List UInt8 × E
  | [] => ([], w)
  | x :: xs =>
    let written := encoder.writeHandle w x (bound w)
    let later := encoder.inFull bound written.data xs
    (written.out ++ later.1, later.2)

theorem Encoder.inFull_append (encoder : Encoder E) (bound : E → Nat) (w : E) (xs ys : List Nat) :
    encoder.inFull bound w (xs ++ ys) =
      ((encoder.inFull bound w xs).1 ++ (encoder.inFull bound (encoder.inFull bound w xs).2 ys).1,
        (encoder.inFull bound (encoder.inFull bound w xs).2 ys).2) := by
  induction xs generalizing w with
  | nil => rfl
  | cons _ _ ih =>
    simp only [cons_append, Encoder.inFull, ih, append_assoc]

variable {decoder : Decoder D} {encoder : Encoder E} {cd : Cd D E}

theorem convert_refused {start : Nat}
    (kept : (convert decoder encoder start cd inbuf outbytesleft).cd.ungetX ≠ 0) :
    (convert decoder encoder start cd inbuf outbytesleft).refused ∧
      (convert decoder encoder start cd inbuf outbytesleft).codes ++
          (convert decoder encoder start cd inbuf outbytesleft).cd.ahead decoder
            (convert decoder encoder start cd inbuf outbytesleft).inbuf =
        cd.ahead decoder inbuf := by
  fun_induction convert decoder encoder start cd inbuf outbytesleft with
  | case1 cd inbuf outbytesleft done => exact absurd done.1 kept
  | case2 cd inbuf outbytesleft notDone round stuck =>
    exact absurd ((Cd.round_ungetX decoder cd inbuf).trans stuck.1) kept
  | case3 cd inbuf outbytesleft notDone round notStuck written next refused =>
    have some : round.x ≠ 0 := kept
    refine ⟨⟨rfl, refused.2⟩, ?_⟩
    rw [Cd.ahead_round notDone notStuck, Cd.ahead, if_neg kept]
    rw [show handed (cd.round decoder inbuf).x = [round.x] from if_neg some]
    rfl
  | case4 cd inbuf outbytesleft notDone round notStuck written next free outside => exact absurd rfl kept
  | case5 cd inbuf outbytesleft notDone round notStuck written next free within ih =>
    obtain ⟨refused, later⟩ := ih kept
    refine ⟨refused, ?_⟩
    have begun : Cd.ahead decoder { next with ungetX := 0 } (inbuf.drop round.noRead) =
      codesOf decoder next.decoder (inbuf.drop round.noRead) :=
      Cd.ahead_next _ rfl
    rw [Cd.ahead_round notDone notStuck, if_neg within]
    dsimp only [Call.behind]
    rw [append_assoc]
    exact congrArg (handed round.x ++ ·) later

/-- What a call has written, by the codes that it has handed over and the one that was refused. -/
structure Resumes.Wrote (resumes : Resumes encoder) (w : E) (outbytesleft : Nat) (call : Call D E) : Prop where
  all : call.cd.ungetX = 0 →
    call.out = (encoder.inFull resumes.bound w call.codes).1 ∧ call.cd.encoder = (encoder.inFull resumes.bound w call.codes).2 ∧
      resumes.valid call.cd.encoder
  part : call.cd.ungetX ≠ 0 →
    resumes.good (encoder.inFull resumes.bound w call.codes).2 call.cd.ungetX
      (outbytesleft - (encoder.inFull resumes.bound w call.codes).1.length) = true →
    call.out ++ (encoder.inFull resumes.bound call.cd.encoder [call.cd.ungetX]).1 =
        (encoder.inFull resumes.bound w (call.codes ++ [call.cd.ungetX])).1 ∧
      (encoder.inFull resumes.bound call.cd.encoder [call.cd.ungetX]).2 =
        (encoder.inFull resumes.bound w (call.codes ++ [call.cd.ungetX])).2 ∧
      resumes.valid call.cd.encoder

theorem convert_initFlag {start : Nat} :
    (convert decoder encoder start cd inbuf outbytesleft).cd.initFlag = cd.initFlag := by
  fun_induction convert decoder encoder start cd inbuf outbytesleft with
  | case1 cd inbuf outbytesleft done => rfl
  | case2 cd inbuf outbytesleft notDone round stuck => exact Cd.round_initFlag decoder cd inbuf
  | case3 cd inbuf outbytesleft notDone round notStuck written next refused => exact Cd.round_initFlag decoder cd inbuf
  | case4 cd inbuf outbytesleft notDone round notStuck written next free outside => exact Cd.round_initFlag decoder cd inbuf
  | case5 cd inbuf outbytesleft notDone round notStuck written next free within ih => exact ih.trans (Cd.round_initFlag decoder cd inbuf)

variable (resumes : Resumes encoder)

theorem Resumes.Wrote.behind {w : E} {outbytesleft x : Nat} {call : Call D E} {out : List UInt8} {reads : List (ReadEvent D)}
    {taken : List Nat}
    (front : out = (encoder.inFull resumes.bound w (handed x)).1)
    (later : resumes.Wrote (encoder.inFull resumes.bound w (handed x)).2 (outbytesleft - out.length) call) :
    resumes.Wrote w outbytesleft (call.behind out reads taken (handed x)) := by
  subst front
  constructor
  · intro none
    obtain ⟨outThen, dataThen, valid⟩ := later.all none
    dsimp only [Call.behind]
    rw [Encoder.inFull_append, ← outThen, ← dataThen]
    exact ⟨rfl, rfl, valid⟩
  · intro kept good
    dsimp only [Call.behind] at kept good ⊢
    rw [Encoder.inFull_append, length_append, ← Nat.sub_sub] at good
    obtain ⟨outThen, dataThen, valid⟩ := later.part kept good
    rw [append_assoc, append_assoc, Encoder.inFull_append, outThen, dataThen]
    exact ⟨rfl, rfl, valid⟩

theorem Resumes.round {x : Nat} (valid : resumes.valid cd.encoder)
    (free : ¬ ((cd.write encoder x outbytesleft).failed = true ∧ (cd.wrote (cd.write encoder x outbytesleft)).myErrno = .e2big)) :
    (cd.write encoder x outbytesleft).out = (encoder.inFull resumes.bound cd.encoder (handed x)).1 ∧
      (cd.write encoder x outbytesleft).data = (encoder.inFull resumes.bound cd.encoder (handed x)).2 ∧
      resumes.valid (cd.write encoder x outbytesleft).data := by
  rw [Cd.write] at free ⊢
  by_cases none : x = 0
  · rw [if_pos none, handed, if_pos none]
    exact ⟨rfl, rfl, valid⟩
  · rw [if_neg none] at free ⊢
    rw [handed, if_neg none]
    have notRefused : ¬ (encoder.writeHandle cd.encoder x outbytesleft).Refused := by
      rintro ⟨failed, errno⟩
      apply free
      refine ⟨failed, ?_⟩
      rw [Cd.wrote, errno]
      rfl
    obtain ⟨out, data⟩ := (resumes.write x).fits valid notRefused
    refine ⟨?_, data, (resumes.write x).keeps valid (.inl notRefused)⟩
    rw [out, Encoder.inFull, Encoder.inFull, append_nil]

theorem convert_wrote {start : Nat} {cd : Cd D E} {inbuf : List UInt8} {outbytesleft : Nat} (valid : resumes.valid cd.encoder) :
    resumes.Wrote cd.encoder outbytesleft (convert decoder encoder start cd inbuf outbytesleft) := by
  fun_induction convert decoder encoder start cd inbuf outbytesleft with
  | case1 cd inbuf outbytesleft done => exact ⟨fun _ => ⟨rfl, rfl, valid⟩, fun kept => absurd done.1 kept⟩
  | case2 cd inbuf outbytesleft notDone round stuck =>
    have unget : round.cd.ungetX = 0 := (Cd.round_ungetX decoder cd inbuf).trans stuck.1
    have same : round.cd.encoder = cd.encoder := Cd.round_encoder decoder cd inbuf
    exact ⟨fun _ => ⟨rfl, same, by rw [same]; exact valid⟩, fun kept => absurd unget kept⟩
  | case3 cd inbuf outbytesleft notDone round notStuck written next refused =>
    have same : round.cd.encoder = cd.encoder := Cd.round_encoder decoder cd inbuf
    have some : round.x ≠ 0 := by
      intro zero
      have failed := refused.1
      simp [written, zero, Cd.write] at failed
    refine ⟨fun none => absurd none some, ?_⟩
    intro _ goodHere
    have good : resumes.good cd.encoder round.x outbytesleft = true := goodHere
    have isWrite : written = encoder.writeHandle cd.encoder round.x outbytesleft := by
      rw [show written = round.cd.write encoder round.x outbytesleft from rfl, Cd.write, if_neg some, same]
    have really : (encoder.writeHandle cd.encoder round.x outbytesleft).Refused := by
      rw [← isWrite]
      refine ⟨refused.1, ?_⟩
      have named : written.errno ≠ none := by
        rw [isWrite]
        exact (resumes.write round.x).named (by rw [← isWrite]; exact refused.1)
      obtain ⟨errno, is⟩ := Option.ne_none_iff_exists'.mp named
      have last : next.myErrno = errno := by
        rw [show next = round.cd.wrote written from rfl, Cd.wrote, is]
        rfl
      rw [is, ← last, refused.2]
    obtain ⟨out, data⟩ := (resumes.write round.x).resumes valid really good
    refine ⟨?_, ?_, ?_⟩
    · simp only [Encoder.inFull, append_nil, nil_append]
      rw [← out, ← isWrite]
      rfl
    · simp only [Encoder.inFull, nil_append]
      rw [← data, ← isWrite]
      rfl
    · have kept := (resumes.write round.x).keeps valid (.inr good)
      rw [← isWrite] at kept
      exact kept
  | case4 cd inbuf outbytesleft notDone round notStuck written next free outside =>
    have same : round.cd.encoder = cd.encoder := Cd.round_encoder decoder cd inbuf
    have wrote := resumes.round (by rw [same]; exact valid) free
    rw [same] at wrote
    exact ⟨fun _ => wrote, fun kept => absurd rfl kept⟩
  | case5 cd inbuf outbytesleft notDone round notStuck written next free within ih =>
    have same : round.cd.encoder = cd.encoder := Cd.round_encoder decoder cd inbuf
    obtain ⟨out, data, validThen⟩ := resumes.round (by rw [same]; exact valid) free
    rw [same] at out data
    apply Resumes.Wrote.behind resumes out
    rw [← show next.encoder = (encoder.inFull resumes.bound cd.encoder (handed round.x)).2 from data]
    exact ih validThen

def Cd.started (encoder : Encoder E) (cd : Cd D E) : E := if cd.initFlag then encoder.initHandle cd.encoder else cd.encoder

def Call.stopped (call : Call D E) : Prop := call.refused ∧ call.cd.ungetX ≠ 0

instance (call : Call D E) : Decidable call.stopped := inferInstanceAs (Decidable (_ ∧ _))

def resume (decoder : Decoder D) (encoder : Encoder E) (cd : Cd D E) (inbuf : List UInt8) : List Nat → List UInt8 × Option (Call D E)
  | [] => ([], none)
  | room :: later =>
    let call := yazIconv decoder encoder cd (some inbuf) (some room)
    if call.stopped ∧ later ≠ [] then
      let rest := resume decoder encoder call.cd call.inbuf later
      (call.out ++ rest.1, rest.2)
    else (call.out, some call)

def resumeFlush (decoder : Decoder D) (encoder : Encoder E) (cd : Cd D E) : List Nat → List UInt8 × Option (Call D E)
  | [] => ([], none)
  | room :: later =>
    let call := yazIconv decoder encoder cd none (some room)
    if call.refused ∧ later ≠ [] then
      let rest := resumeFlush decoder encoder call.cd later
      (call.out ++ rest.1, rest.2)
    else (call.out, some call)

/-- The code of each call that is resumed was refused at a good place: `good` holds of the encoder behind the codes before it and
of the room that was left. -/
def GoodRooms (decoder : Decoder D) (resumes : Resumes encoder) (cd : Cd D E) (inbuf : List UInt8) : List Nat → Prop
  | [] => True
  | room :: later =>
    let call := yazIconv decoder encoder cd (some inbuf) (some room)
    let before := encoder.inFull resumes.bound (cd.started encoder) call.codes
    (call.stopped ∧ later ≠ []) →
      resumes.good before.2 call.cd.ungetX (room - before.1.length) = true ∧ GoodRooms decoder resumes call.cd call.inbuf later

instance decidableGoodRooms (decoder : Decoder D) (resumes : Resumes encoder) :
    (cd : Cd D E) → (inbuf : List UInt8) → (rooms : List Nat) → Decidable (GoodRooms decoder resumes cd inbuf rooms)
  | _, _, [] => isTrue trivial
  | cd, inbuf, room :: later =>
    let call := yazIconv decoder encoder cd (some inbuf) (some room)
    have := decidableGoodRooms decoder resumes call.cd call.inbuf later
    inferInstanceAs (Decidable (_ → _ ∧ _))

theorem yazIconv_wrote {cd : Cd D E} {inbuf : List UInt8} {outbytesleft : Nat} (valid : resumes.valid (cd.started encoder)) :
    resumes.Wrote (cd.started encoder) outbytesleft (yazIconv decoder encoder cd (some inbuf) (some outbytesleft)) := by
  rw [Cd.started] at valid ⊢
  cases flag : cd.initFlag with
  | false =>
    rw [flag] at valid
    rw [yazIconv, flag]
    exact convert_wrote resumes valid
  | true =>
    rw [flag, if_pos rfl] at valid
    rw [yazIconv, flag]
    simp only [if_true, Option.getD_some]
    cases init : decoder.initHandle cd.decoder inbuf with
    | failed => exact ⟨fun _ => ⟨rfl, rfl, valid⟩, fun kept => absurd rfl kept⟩
    | ready data noRead =>
      exact @convert_wrote D E decoder encoder resumes inbuf.length
        { cd with
          myErrno := .unknown, encoder := encoder.initHandle cd.encoder, ungetX := 0, noReadX := 0, decoder := data, initFlag := false }
        (inbuf.drop noRead) outbytesleft valid

theorem yazIconv_keptCode {cd : Cd D E}
    (kept : (yazIconv decoder encoder cd (some inbuf) (some outbytesleft)).cd.ungetX ≠ 0) :
    (yazIconv decoder encoder cd (some inbuf) (some outbytesleft)).codes ++
        (yazIconv decoder encoder cd (some inbuf) (some outbytesleft)).cd.ahead decoder
          (yazIconv decoder encoder cd (some inbuf) (some outbytesleft)).inbuf =
      cd.toCome decoder inbuf ∧
    (yazIconv decoder encoder cd (some inbuf) (some outbytesleft)).cd.initFlag = false ∧
    (yazIconv decoder encoder cd (some inbuf) (some outbytesleft)).refused := by
  rw [Cd.toCome]
  cases flag : cd.initFlag with
  | false =>
    rw [yazIconv, flag] at kept ⊢
    exact ⟨(convert_refused kept).2, convert_initFlag.trans flag, (convert_refused kept).1⟩
  | true =>
    rw [yazIconv, flag] at kept ⊢
    simp only [if_true, Option.getD_some] at kept ⊢
    cases init : decoder.initHandle cd.decoder inbuf with
    | failed =>
      rw [init] at kept
      exact absurd rfl kept
    | ready =>
      rw [init] at kept
      dsimp only [Option.map_some, Cd.goOn] at kept ⊢
      refine ⟨?_, convert_initFlag, (convert_refused kept).1⟩
      rw [(convert_refused kept).2, Cd.ahead_next _ rfl]

/-- Where a schedule of calls ends: all codes are written, as with enough room for each. -/
structure Resumes.Ended (w : E) (codes : List Nat) (call : Call D E) : Prop where
  encoder : call.cd.encoder = (encoder.inFull resumes.bound w codes).2
  valid : resumes.valid call.cd.encoder
  none : call.cd.ungetX = 0

variable {rooms : List Nat}

theorem resume_ended (some : rooms ≠ []) (valid : resumes.valid (cd.started encoder))
    (good : GoodRooms decoder resumes cd inbuf rooms) (room : ∀ call ∈ (resume decoder encoder cd inbuf rooms).2, ¬ call.refused) :
    (resume decoder encoder cd inbuf rooms).1 = (encoder.inFull resumes.bound (cd.started encoder) (cd.toCome decoder inbuf)).1 ∧
      ∃ call, (resume decoder encoder cd inbuf rooms).2 = Option.some call ∧
        resumes.Ended (cd.started encoder) (cd.toCome decoder inbuf) call := by
  induction rooms generalizing cd inbuf with
  | nil => exact absurd rfl some
  | cons size _ ih =>
    rw [resume] at room ⊢
    dsimp only at good room ⊢
    have wrote := @yazIconv_wrote D E decoder encoder resumes cd inbuf size valid
    split
    next stopped =>
      rw [if_pos stopped] at room
      obtain ⟨goodHere, goodLater⟩ := good stopped
      obtain ⟨codes, flag, -⟩ := yazIconv_keptCode stopped.1.2
      obtain ⟨out, state, validThen⟩ := wrote.part stopped.1.2 goodHere
      generalize yazIconv decoder encoder cd (Option.some inbuf) (Option.some size) = call at *
      have begun : call.cd.started encoder = call.cd.encoder := by rw [Cd.started, flag]; rfl
      have toCome : call.cd.toCome decoder call.inbuf = call.cd.ahead decoder call.inbuf := by rw [Cd.toCome, flag]; rfl
      have rest := ih stopped.2 (by rw [begun]; exact validThen) goodLater room
      rw [begun, toCome] at rest
      obtain ⟨codesThen, isAhead⟩ : ∃ codesThen, call.cd.ahead decoder call.inbuf = call.cd.ungetX :: codesThen :=
        ⟨_, if_neg stopped.1.2⟩
      -- the code that was kept is written in full by this call and the next together
      have full : encoder.inFull resumes.bound (cd.started encoder) (cd.toCome decoder inbuf) =
          (call.out ++ (encoder.inFull resumes.bound call.cd.encoder (call.cd.ahead decoder call.inbuf)).1,
            (encoder.inFull resumes.bound call.cd.encoder (call.cd.ahead decoder call.inbuf)).2) := by
        rw [← codes, isAhead, ← singleton_append, ← append_assoc,
          encoder.inFull_append resumes.bound (cd.started encoder) (call.codes ++ [call.cd.ungetX]),
          encoder.inFull_append resumes.bound call.cd.encoder, ← out, ← state, append_assoc]
      obtain ⟨restOut, last, isLast, ended⟩ := rest
      rw [restOut, full]
      exact ⟨rfl, last, isLast, ended.encoder.trans (by rw [full]), ended.valid, ended.none⟩
    next goesOn =>
      rw [if_neg goesOn] at room
      have notRefused := room _ rfl
      have none : (yazIconv decoder encoder cd (Option.some inbuf) (Option.some size)).cd.ungetX = 0 := by
        by_contra kept
        exact notRefused (yazIconv_keptCode kept).2.2
      obtain ⟨out, state, validLast⟩ := wrote.all none
      rw [yazIconv_last encoder notRefused] at out state
      exact ⟨out, _, rfl, state, validLast, none⟩

def GoodFlush (decoder : Decoder D) (resumes : Resumes encoder) (cd : Cd D E) : List Nat → Prop
  | [] => True
  | room :: later =>
    let call := yazIconv decoder encoder cd none (some room)
    (call.refused ∧ later ≠ []) → resumes.goodFlush (cd.started encoder) room = true ∧ GoodFlush decoder resumes call.cd later

instance decidableGoodFlush (decoder : Decoder D) (resumes : Resumes encoder) :
    (cd : Cd D E) → (rooms : List Nat) → Decidable (GoodFlush decoder resumes cd rooms)
  | _, [] => isTrue trivial
  | cd, room :: later =>
    have := decidableGoodFlush decoder resumes (yazIconv decoder encoder cd none (some room)).cd later
    inferInstanceAs (Decidable (_ → _ ∧ _))

structure Flushed (encoder : Encoder E) (w : E) (room : Nat) (call : Call D E) : Prop where
  out : call.out = (encoder.flushed w room).out
  data : call.cd.encoder = (encoder.flushed w room).data
  none : call.cd.ungetX = 0
  refused : call.refused ↔ (encoder.flushed w room).Refused
  initFlag : call.refused → call.cd.initFlag = false
  r : call.r = Option.none ↔ (encoder.flushed w room).failed = true

theorem flush_wrote {cd : Cd D E} {room : Nat} (nothing : cd.ungetX = 0) (flag : cd.initFlag = false)
    (named : (encoder.flushed cd.encoder room).failed = true → (encoder.flushed cd.encoder room).errno ≠ none) :
    Flushed encoder cd.encoder room (flush encoder cd (some room)) := by
  have kept : cd.write encoder cd.ungetX room = { out := [], data := cd.encoder } := by rw [Cd.write, if_pos nothing]
  have shape : flush encoder cd (some room) =
      { cd := { cd.wrote (encoder.flushed cd.encoder room) with
          initFlag := cd.initFlag || !(encoder.flushed cd.encoder room).failed, ungetX := 0 }
        r := if (encoder.flushed cd.encoder room).failed then none
        else some 0, inbuf := [], out := (encoder.flushed cd.encoder room).out } := by
    rw [flush]
    rw [kept, Encoder.flushed]
    cases encoder.flushHandle <;> rfl
  rw [shape]
  refine ⟨rfl, rfl, rfl, ?_, ?_, by simp⟩
  · rw [Call.refused, Written.Refused]
    dsimp only [Cd.wrote]
    cases failed : (encoder.flushed cd.encoder room).failed with
    | false => simp
    | true =>
      obtain ⟨errno, is⟩ := Option.ne_none_iff_exists'.mp (named failed)
      simp [is]
  · intro refused
    have none : (if (encoder.flushed cd.encoder room).failed = true then none else some 0) = none := refused.1
    cases failed : (encoder.flushed cd.encoder room).failed with
    | false => simp [failed] at none
    | true => simp [flag]

theorem Cd.started_begun {cd : Cd D E} (flag : cd.initFlag = false) : cd.started encoder = cd.encoder := by
  rw [Cd.started, flag]
  rfl

theorem Cd.started_opened {cd : Cd D E} (flag : cd.initFlag = true) : cd.started encoder = encoder.initHandle cd.encoder := by
  rw [Cd.started, flag]
  rfl

theorem yazIconv_flushed (resumes : Resumes encoder) {cd : Cd D E} (flag : cd.initFlag = false) (none : cd.ungetX = 0) (room : Nat) :
    Flushed encoder cd.encoder room (yazIconv decoder encoder cd Option.none (some room)) := by
  rw [yazIconv, flag]
  exact flush_wrote none flag resumes.flush.named

theorem yazIconv_flush (resumes : Resumes encoder) {cd : Cd D E} (flag : cd.initFlag = true) :
    (∃ call : Call D E, call.out = [] ∧ ∀ room, yazIconv decoder encoder cd none (some room) = call) ∨
      ∀ room, Flushed encoder (encoder.initHandle cd.encoder) room (yazIconv decoder encoder cd none (some room)) := by
  cases init : decoder.initHandle cd.decoder [] with
  | failed =>
    left
    refine ⟨_, ?_, fun room => by rw [yazIconv, flag, if_pos rfl]; dsimp only [Option.getD_none]; rw [init]⟩
    rfl
  | ready data =>
    right
    intro room
    rw [yazIconv, flag, if_pos rfl]
    dsimp only [Option.getD_none]
    rw [init]
    exact @flush_wrote D E encoder { cd with
      myErrno := .unknown, encoder := encoder.initHandle cd.encoder, ungetX := 0, noReadX := 0, decoder := data, initFlag := false }
      room rfl rfl resumes.flush.named

theorem resumeFlush_out (some : rooms ≠ []) (valid : resumes.valid (cd.started encoder))
    (good : GoodFlush decoder resumes cd rooms) (room : ∀ call ∈ (resumeFlush decoder encoder cd rooms).2, ¬ call.refused)
    (flushed : ∀ room, Flushed encoder (cd.started encoder) room (yazIconv decoder encoder cd none (Option.some room))) :
    (resumeFlush decoder encoder cd rooms).1 = (encoder.flushed (cd.started encoder) (resumes.bound (cd.started encoder))).out := by
  induction rooms generalizing cd with
  | nil => exact absurd rfl some
  | cons size _ ih =>
    have here := flushed size
    rw [resumeFlush] at room ⊢
    dsimp only at good room ⊢
    split
    next refused =>
      rw [if_pos refused] at room
      obtain ⟨goodHere, goodLater⟩ := good refused
      have flag := here.initFlag refused.1
      have really := here.refused.mp refused.1
      obtain ⟨out, -⟩ := resumes.flush.resumes valid really goodHere
      have keeps := resumes.flush.keeps valid (.inr goodHere)
      have data := here.data
      have begun := @Cd.started_begun D E encoder _ flag
      have rest := ih refused.2 (by rw [begun, data]; exact keeps) goodLater room
        (fun room => by rw [begun]; exact yazIconv_flushed resumes flag here.none room)
      rw [rest, begun, data, here.out, out]
    next goesOn =>
      rw [if_neg goesOn] at room
      have notRefused := room _ rfl
      rw [here.out]
      exact (resumes.flush.fits valid fun refused => notRefused (here.refused.mpr refused)).1

def produced (decoder : Decoder D) (encoder : Encoder E) (cd : Cd D E) (inbuf : List UInt8) (rooms flushRooms : List Nat) : List UInt8 :=
  let converted := resume decoder encoder cd inbuf rooms
  match converted.2 with
  | none => converted.1
  | some call => converted.1 ++ (resumeFlush decoder encoder call.cd flushRooms).1

def Finishes (decoder : Decoder D) (encoder : Encoder E) (cd : Cd D E) (inbuf : List UInt8) (rooms flushRooms : List Nat) : Bool :=
  (resume decoder encoder cd inbuf rooms).2.any fun call =>
    !decide call.refused && (resumeFlush decoder encoder call.cd flushRooms).2.any fun last => !decide last.refused

def GoodSchedule (decoder : Decoder D) (resumes : Resumes encoder) (cd : Cd D E) (inbuf : List UInt8)
    (rooms flushRooms : List Nat) : Prop :=
  GoodRooms decoder resumes cd inbuf rooms ∧
    ∀ call ∈ (resume decoder encoder cd inbuf rooms).2, GoodFlush decoder resumes call.cd flushRooms

instance (decoder : Decoder D) (resumes : Resumes encoder) (cd : Cd D E) (inbuf : List UInt8) (rooms flushRooms : List Nat) :
    Decidable (GoodSchedule decoder resumes cd inbuf rooms flushRooms) := inferInstanceAs (Decidable (_ ∧ _))

variable {rooms flushRooms : List Nat}

theorem finishes_rooms
    (finishes : Finishes decoder encoder cd inbuf rooms flushRooms = true) :
    rooms ≠ [] ∧ flushRooms ≠ [] ∧ ∃ call, (resume decoder encoder cd inbuf rooms).2 = some call ∧ ¬ call.refused ∧
      ∀ last ∈ (resumeFlush decoder encoder call.cd flushRooms).2, ¬ last.refused := by
  rw [Finishes, Option.any_eq_true] at finishes
  obtain ⟨call, is, both⟩ := finishes
  rw [Bool.and_eq_true, Option.any_eq_true] at both
  obtain ⟨notRefused, last, isLast, lastNot⟩ := both
  refine ⟨?_, ?_, call, is, by simpa using notRefused, ?_⟩
  · rintro rfl
    simp [resume] at is
  · rintro rfl
    simp [resumeFlush] at isLast
  · intro other inside
    rw [isLast] at inside
    rw [← Option.some.inj inside]
    simpa using lastNot

theorem yazIconv_begun {cd : Cd D E} {inbuf : List UInt8} {outbytesleft : Nat}
    (ready : cd.initFlag = true → ∃ data noRead, decoder.initHandle cd.decoder inbuf = .ready data noRead) :
    (yazIconv decoder encoder cd (some inbuf) (some outbytesleft)).cd.initFlag = false := by
  cases flag : cd.initFlag with
  | false =>
    rw [yazIconv, flag]
    exact convert_initFlag.trans flag
  | true =>
    obtain ⟨data, noRead, is⟩ := ready flag
    rw [yazIconv, flag]
    simp only [if_true, Option.getD_some, is]
    exact convert_initFlag

theorem resume_begun
    (ready : cd.initFlag = true → ∃ data noRead, decoder.initHandle cd.decoder inbuf = .ready data noRead) :
    ∀ call ∈ (resume decoder encoder cd inbuf rooms).2, call.cd.initFlag = false := by
  induction rooms generalizing cd inbuf with
  | nil => simp [resume]
  | cons size _ ih =>
    have begun := @yazIconv_begun D E decoder encoder cd inbuf size ready
    rw [resume]
    split
    · exact ih fun opened => by simp [begun] at opened
    · intro call is
      rw [← Option.some.inj is]
      exact begun

theorem produced_inFull {data : D} {noRead : Nat} (opened : cd.initFlag = true)
    (ready : decoder.initHandle cd.decoder inbuf = .ready data noRead)
      (finishes : Finishes decoder encoder cd inbuf rooms flushRooms = true)
    (good : GoodSchedule decoder resumes cd inbuf rooms flushRooms) :
    produced decoder encoder cd inbuf rooms flushRooms =
      let full := encoder.inFull resumes.bound (encoder.initHandle cd.encoder) (cd.toCome decoder inbuf)
      full.1 ++ (encoder.flushed full.2 (resumes.bound full.2)).out := by
  obtain ⟨some, someFlush, call, is, notRefused, lastNot⟩ := finishes_rooms finishes
  have started := @Cd.started_opened D E encoder cd opened
  have valid : resumes.valid (cd.started encoder) := by
    rw [started]
    exact resumes.initValid _
  have room : ∀ call ∈ (resume decoder encoder cd inbuf rooms).2, ¬ call.refused := by
    intro other inside
    rw [is] at inside
    rw [← Option.some.inj inside]
    exact notRefused
  obtain ⟨out, last, isLast, ended⟩ := resume_ended resumes some valid good.1 room
  rw [is, Option.some.injEq] at isLast
  subst isLast
  have flag : call.cd.initFlag = false := resume_begun (fun _ => ⟨data, noRead, ready⟩) call is
  have begun := @Cd.started_begun D E encoder _ flag
  have rest := resumeFlush_out resumes someFlush (by rw [begun]; exact ended.valid) (good.2 call is) lastNot
    (fun room => by rw [begun]; exact yazIconv_flushed resumes flag ended.none room)
  rw [produced, is]
  dsimp only
  rw [out, rest, begun, ended.encoder, started]

theorem resume_failed {cd : Cd D E} {inbuf : List UInt8} {errno : Errno} (opened : cd.initFlag = true)
    (failed : decoder.initHandle cd.decoder inbuf = .failed errno) :
    ∃ call : Call D E, (call.cd.ungetX = 0 ∧ call.cd.encoder = encoder.initHandle cd.encoder) ∧
      ∀ rooms ≠ [], resume decoder encoder cd inbuf rooms = ([], some call) := by
  let left : Cd D E := { cd with
    myErrno := errno, encoder := encoder.initHandle cd.encoder, ungetX := 0, noReadX := 0, initFlag := errno = .einval }
  have first (room : Nat) : yazIconv decoder encoder cd (some inbuf) (some room) = { cd := left, r := none, inbuf := inbuf } := by
    rw [yazIconv, opened]
    simp only [if_true, Option.getD_some, failed]
    rfl
  refine ⟨{ cd := left, r := none, inbuf := inbuf }, ⟨rfl, rfl⟩, ?_⟩
  intro rooms some
  cases rooms with
  | nil => exact absurd rfl some
  | cons =>
    rw [resume]
    rw [first, if_neg]
    rintro ⟨⟨-, kept⟩, -⟩
    exact kept rfl

theorem resumeFlush_same {enough : Nat} (some : rooms ≠ []) (none : cd.initFlag = false → cd.ungetX = 0)
    (valid : resumes.valid (cd.started encoder)) (good : GoodFlush decoder resumes cd rooms)
    (room : ∀ call ∈ (resumeFlush decoder encoder cd rooms).2, ¬ call.refused)
    (atOnce : ∀ call ∈ (resumeFlush decoder encoder cd [enough]).2, ¬ call.refused) :
    (resumeFlush decoder encoder cd rooms).1 = (resumeFlush decoder encoder cd [enough]).1 := by
  have goodAtOnce : GoodFlush decoder resumes cd [enough] := by
    rw [GoodFlush]
    simp
  have both (flushed : ∀ room, Flushed encoder (cd.started encoder) room (yazIconv decoder encoder cd Option.none (Option.some room))) :
      (resumeFlush decoder encoder cd rooms).1 = (resumeFlush decoder encoder cd [enough]).1 := by
    rw [resumeFlush_out resumes some valid good room flushed, resumeFlush_out resumes (by simp) valid goodAtOnce atOnce flushed]
  cases flag : cd.initFlag with
  | false =>
    apply both
    intro size
    rw [Cd.started_begun flag]
    exact yazIconv_flushed resumes flag (none flag) size
  | true =>
    rcases @yazIconv_flush D E decoder encoder resumes cd flag with ⟨call, empty, same⟩ | flushed
    · -- the call that gives up is the only one of both schedules
      have notRefused : ¬ call.refused := by
        rw [resumeFlush, if_neg (by simp), same] at atOnce
        exact atOnce call rfl
      cases rooms with
      | nil => exact absurd rfl some
      | cons => rw [resumeFlush, resumeFlush, same, same, if_neg (fun refused => notRefused refused.1), if_neg (by simp)]
    · apply both
      intro size
      rw [Cd.started_opened flag]
      exact flushed size

theorem produced_eq {enough enoughFlush : Nat} (opened : cd.initFlag = true)
    (finishes : Finishes decoder encoder cd inbuf rooms flushRooms = true) (good : GoodSchedule decoder resumes cd inbuf rooms flushRooms)
    (finishesAtOnce : Finishes decoder encoder cd inbuf [enough] [enoughFlush] = true) :
    produced decoder encoder cd inbuf rooms flushRooms = produced decoder encoder cd inbuf [enough] [enoughFlush] := by
  have atOnce : GoodSchedule decoder resumes cd inbuf [enough] [enoughFlush] := by
    refine ⟨?_, ?_⟩
    · rw [GoodRooms]
      simp
    · intro call _
      rw [GoodFlush]
      simp
  cases init : decoder.initHandle cd.decoder inbuf with
  | ready =>
    rw [produced_inFull resumes opened init finishes good, produced_inFull resumes opened init finishesAtOnce atOnce]
  | failed errno =>
    obtain ⟨call, ⟨none, encoded⟩, same⟩ := @resume_failed D E decoder encoder cd inbuf errno opened init
    obtain ⟨some, someFlush, last, is, -, lastNot⟩ := finishes_rooms finishes
    obtain ⟨-, -, last', is', -, lastNot'⟩ := finishes_rooms finishesAtOnce
    have goodFlush := good.2 call (by rw [same rooms some]; rfl)
    rw [same rooms some, Option.some.injEq] at is
    rw [same [enough] (by simp), Option.some.injEq] at is'
    subst is is'
    rw [produced, produced, same rooms some, same [enough] (by simp)]
    dsimp only
    rw [resumeFlush_same resumes someFlush (fun _ => none) _ goodFlush lastNot lastNot']
    rw [Cd.started]
    split
    · exact resumes.initValid _
    · rw [encoded]
      exact resumes.initValid _

end

end Yaz.Iconv
