import Yaz.Iconv.Consumption

/-! The codes that an encoder gets, when the input comes in pieces.

`Splits` says of a decoder which places of an input are no good to end a piece, and that the
codes are the same if pieces end elsewhere.
-/

set_option autoImplicit false

namespace Yaz.Iconv
open List

section
variable {D E : Type}

def handed (x : Nat) : List Nat := if x = 0 then [] else [x]

def codesOf (decoder : Decoder D) (d : D) (inp : List UInt8) : List Nat :=
  if inp = [] then []
  else
    let read := decoder.readHandle d inp
    if read.noRead = 0 then []
    else if inp.length < read.noRead then handed read.x
    else handed read.x ++ codesOf decoder read.data (inp.drop read.noRead)
termination_by inp.length
decreasing_by
  rename_i some stuck _
  have positive := List.length_pos_iff.mpr some
  have taken : (decoder.readHandle d inp).noRead ≠ 0 := stuck
  rw [List.length_drop]
  omega

section
variable {decoder : Decoder D} {d : D} {inp : List UInt8}

theorem codesOf_nil : codesOf decoder d [] = [] := by rw [codesOf, if_pos rfl]

theorem codesOf_stuck (stuck : (decoder.readHandle d inp).noRead = 0) : codesOf decoder d inp = [] := by
  rw [codesOf]
  split
  · rfl
  · rw [if_pos stuck]

theorem codesOf_step (some : inp ≠ []) (taken : (decoder.readHandle d inp).noRead ≠ 0)
    (within : (decoder.readHandle d inp).noRead ≤ inp.length) :
    codesOf decoder d inp =
      handed (decoder.readHandle d inp).x ++
        codesOf decoder (decoder.readHandle d inp).data (inp.drop (decoder.readHandle d inp).noRead) := by
  rw [codesOf, if_neg some]
  rw [if_neg taken, if_neg (by omega)]

theorem codesOf_more {more : List UInt8} (same : decoder.readHandle d (inp ++ more) = decoder.readHandle d inp) (some : inp ≠ [])
    (taken : (decoder.readHandle d inp).noRead ≠ 0) (within : (decoder.readHandle d inp).noRead ≤ inp.length) :
    handed (decoder.readHandle d inp).x ++
        codesOf decoder (decoder.readHandle d inp).data ((inp ++ more).drop (decoder.readHandle d inp).noRead) =
      codesOf decoder d (inp ++ more) := by
  rw [← same] at taken within ⊢
  rw [codesOf_step (by simp [some]) taken (by rw [length_append]; omega)]

theorem codesOf_congr {d' : D} (same : decoder.readHandle d' inp = decoder.readHandle d inp) :
    codesOf decoder d' inp = codesOf decoder d inp := by
  rw [codesOf, codesOf, same]

end

/-- A decoder that may be given its input in pieces, where `uncut` holds of what it is given and of what will follow. -/
structure Splits {decoder : Decoder D} (accounts : Accounts decoder) where
  valid : D → Prop
  uncut : D → List UInt8 → List UInt8 → Bool
  initValid : ∀ {d data : D} {inp : List UInt8} {noRead : Nat}, decoder.initHandle d inp = .ready data noRead → valid data
  readValid : ∀ {d : D} {inp : List UInt8}, valid d → valid (decoder.readHandle d inp).data
  initMore : ∀ {d data : D} {inp more : List UInt8} {noRead : Nat}, inp ≠ [] → decoder.initHandle d inp = .ready data noRead →
    decoder.initHandle d (inp ++ more) = .ready data noRead
  notFull : ∀ {d : D} {inp more : List UInt8}, uncut d inp more = true → accounts.full d inp = false
  stuck : ∀ {d : D} {inp more : List UInt8}, inp ≠ [] → valid d → uncut d inp more = true → (decoder.readHandle d inp).noRead = 0 →
    (decoder.readHandle d inp).errno = some .eilseq ∧ (decoder.readHandle d (inp ++ more)).noRead = 0 ∨
    (decoder.readHandle d inp).errno = some .einval ∧
      codesOf decoder (decoder.readHandle d inp).data (inp ++ more) = codesOf decoder d (inp ++ more)
  goesOn : ∀ {d : D} {inp more : List UInt8}, inp ≠ [] → accounts.pending d ≤ inp.length → valid d → uncut d inp more = true →
    (decoder.readHandle d inp).noRead ≠ 0 →
    handed (decoder.readHandle d inp).x ++
      codesOf decoder (decoder.readHandle d inp).data ((inp ++ more).drop (decoder.readHandle d inp).noRead) =
    codesOf decoder d (inp ++ more)

def Cd.ahead (decoder : Decoder D) (cd : Cd D E) (inp : List UInt8) : List Nat :=
  if cd.ungetX = 0 then codesOf decoder cd.decoder inp
  else cd.ungetX :: if inp.length < cd.noReadX then [] else codesOf decoder cd.decoder (inp.drop cd.noReadX)

def Cd.toCome (decoder : Decoder D) (cd : Cd D E) (inp : List UInt8) : List Nat :=
  if cd.initFlag then
    match decoder.initHandle cd.decoder inp with
    | .failed _ => []
    | .ready data noRead => codesOf decoder data (inp.drop noRead)
  else cd.ahead decoder inp

def Call.refused (call : Call D E) : Prop := call.r = none ∧ call.cd.myErrno = .e2big

def Call.illegal (call : Call D E) : Prop := call.r = none ∧ call.cd.myErrno = .eilseq

instance (call : Call D E) : Decidable call.refused := inferInstanceAs (Decidable (_ ∧ _))

instance (call : Call D E) : Decidable call.illegal := inferInstanceAs (Decidable (_ ∧ _))

variable {decoder : Decoder D} (encoder : Encoder E) {cd : Cd D E} {inbuf : List UInt8}

theorem Cd.ahead_round (notDone : ¬ (cd.ungetX = 0 ∧ inbuf = []))
    (notStuck : ¬ (cd.ungetX = 0 ∧ (cd.round decoder inbuf).noRead = 0)) :
    cd.ahead decoder inbuf =
      handed (cd.round decoder inbuf).x ++
        if inbuf.length < (cd.round decoder inbuf).noRead then []
        else codesOf decoder (cd.round decoder inbuf).cd.decoder (inbuf.drop (cd.round decoder inbuf).noRead) := by
  by_cases none : cd.ungetX = 0
  · rw [Cd.round_read decoder none] at notStuck ⊢
    have some : inbuf ≠ [] := fun empty => notDone ⟨none, empty⟩
    have taken : (decoder.readHandle cd.decoder inbuf).noRead ≠ 0 := fun stuck => notStuck ⟨none, stuck⟩
    rw [Cd.ahead, if_pos none, codesOf, if_neg some]
    rw [if_neg taken]
    split
    · rw [append_nil]
    · rfl
  · rw [Cd.round_kept decoder none, Cd.ahead, if_neg none, handed, if_neg none]
    rfl

theorem Cd.ahead_next (inp : List UInt8) (none : cd.ungetX = 0) : cd.ahead decoder inp = codesOf decoder cd.decoder inp := by
  rw [Cd.ahead, if_pos none]

variable {outbytesleft : Nat}

theorem convert_last {start : Nat}
    (room : ¬ (convert decoder encoder start cd inbuf outbytesleft).refused) :
    (convert decoder encoder start cd inbuf outbytesleft).codes = cd.ahead decoder inbuf := by
  fun_induction convert decoder encoder start cd inbuf outbytesleft with
  | case1 cd inbuf outbytesleft done =>
    rw [Cd.ahead, if_pos done.1, done.2, codesOf_nil]
  | case2 cd inbuf outbytesleft notDone round stuck =>
    have read : (decoder.readHandle cd.decoder inbuf).noRead = 0 := by
      have none := stuck.2
      rwa [show round = _ from Cd.round_read decoder stuck.1 inbuf] at none
    rw [Cd.ahead, if_pos stuck.1, codesOf_stuck read]
  | case3 cd inbuf outbytesleft notDone round notStuck written next refused =>
    exact absurd ⟨rfl, refused.2⟩ room
  | case4 cd inbuf outbytesleft notDone round notStuck written next free outside =>
    rw [Cd.ahead_round notDone notStuck, if_pos outside, append_nil]
    rfl
  | case5 cd inbuf outbytesleft notDone round notStuck written next free within ih =>
    have later := ih room
    rw [Cd.ahead_round notDone notStuck, if_neg within]
    exact congrArg (handed round.x ++ ·) later

variable {accounts : Accounts decoder} (splits : Splits accounts)

/-- What a caller that goes on with `more` may rely on behind a call. -/
structure Splits.Continues (more : List UInt8) (codes : List Nat) (call : Call D E) : Prop where
  codes : call.codes ++ call.cd.toCome decoder (call.inbuf ++ more) = codes
  owed : call.cd.initFlag = false → accounts.owed call.cd ≤ call.inbuf.length
  valid : call.cd.initFlag = false → splits.valid call.cd.decoder
  legal : ¬ call.illegal

variable {inbuf more : List UInt8}

theorem Splits.round (owed : accounts.owed cd ≤ inbuf.length) (valid : splits.valid cd.decoder)
    (notDone : ¬ (cd.ungetX = 0 ∧ inbuf = [])) (notStuck : ¬ (cd.ungetX = 0 ∧ (cd.round decoder inbuf).noRead = 0))
    (uncut : ∀ event ∈ (cd.round decoder inbuf).reads, splits.uncut event.data event.inbuf more = true) :
    handed (cd.round decoder inbuf).x ++
        codesOf decoder (cd.round decoder inbuf).cd.decoder ((inbuf ++ more).drop (cd.round decoder inbuf).noRead) =
      cd.ahead decoder (inbuf ++ more) ∧ splits.valid (cd.round decoder inbuf).cd.decoder := by
  rw [Accounts.owed] at owed
  by_cases none : cd.ungetX = 0
  · rw [if_pos none] at owed
    rw [Cd.round_read decoder none] at notStuck uncut ⊢
    have some : inbuf ≠ [] := fun empty => notDone ⟨none, empty⟩
    have taken : (decoder.readHandle cd.decoder inbuf).noRead ≠ 0 := fun stuck => notStuck ⟨none, stuck⟩
    constructor
    · rw [Cd.ahead, if_pos none]
      exact splits.goesOn some owed valid (uncut ⟨cd.decoder, inbuf, _⟩ (mem_singleton.mpr rfl)) taken
    · exact splits.readValid valid
  · rw [if_neg none] at owed
    rw [Cd.round_kept decoder none]
    constructor
    · rw [Cd.ahead, if_neg none, if_neg (by rw [length_append]; omega), handed, if_neg none]
      rfl
    · exact valid

/-- More input may follow a call that was given no cut input, unless there is no way to go on. -/
theorem convert_more {start : Nat} (flag : cd.initFlag = false)
    (owed : accounts.owed cd ≤ inbuf.length) (valid : splits.valid cd.decoder)
    (uncut : ∀ event ∈ (convert decoder encoder start cd inbuf outbytesleft).reads, splits.uncut event.data event.inbuf more = true) :
    (convert decoder encoder start cd inbuf outbytesleft).illegal ∧
      (convert decoder encoder start cd inbuf outbytesleft).codes = cd.ahead decoder (inbuf ++ more) ∨
    splits.Continues more (cd.ahead decoder (inbuf ++ more)) (convert decoder encoder start cd inbuf outbytesleft) := by
  fun_induction convert decoder encoder start cd inbuf outbytesleft with
  | case1 cd inbuf outbytesleft done =>
    right
    refine ⟨?_, fun _ => owed, fun _ => valid, by simp [Call.illegal]⟩
    rw [Cd.toCome, flag]
    rfl
  | case2 cd inbuf outbytesleft notDone round stuck =>
    have some : inbuf ≠ [] := fun empty => notDone ⟨stuck.1, empty⟩
    have shape : round = _ := Cd.round_read decoder stuck.1 inbuf
    have none : (decoder.readHandle cd.decoder inbuf).noRead = 0 := by
      have nothing := stuck.2
      rwa [shape] at nothing
    have whole : splits.uncut cd.decoder inbuf more = true := uncut ⟨cd.decoder, inbuf, _⟩ (by rw [shape]; exact mem_singleton.mpr rfl)
    have decoded : round.cd.decoder = (decoder.readHandle cd.decoder inbuf).data := by rw [shape]
    have errno : round.cd.myErrno = (decoder.readHandle cd.decoder inbuf).errno.getD cd.myErrno := by rw [shape]
    have unget : round.cd.ungetX = 0 := (Cd.round_ungetX decoder cd inbuf).trans stuck.1
    have begun : round.cd.initFlag = false := (Cd.round_initFlag decoder cd inbuf).trans flag
    rw [Cd.ahead_next _ stuck.1]
    rcases splits.stuck some valid whole none with ⟨illegal, still⟩ | ⟨incomplete, same⟩
    · left
      refine ⟨⟨rfl, ?_⟩, (codesOf_stuck still).symm⟩
      rw [errno, illegal]
      rfl
    · right
      refine ⟨?_, ?_, ?_, ?_⟩
      · rw [← same, ← decoded, ← Cd.ahead_next _ unget, Cd.toCome, if_neg (by simp [begun])]
        rfl
      · intro _
        rw [Accounts.owed, if_pos stuck.1] at owed
        have kept := accounts.read some owed (splits.notFull whole)
        rw [Accounts.owed, if_pos unget, decoded]
        dsimp only
        omega
      · intro _
        rw [decoded]
        exact splits.readValid valid
      · rintro ⟨-, illegal⟩
        rw [errno, incomplete] at illegal
        simp at illegal
  | case3 cd inbuf outbytesleft notDone round notStuck written next refused =>
    right
    have steps := splits.round owed valid notDone notStuck uncut
    have kept : round.noRead + accounts.pending round.cd.decoder ≤ inbuf.length :=
      (accounts.round owed notDone fun event inside => splits.notFull (uncut event inside)).1
    have notZero : round.x ≠ 0 := by
      intro zero
      have failed := refused.1
      simp [written, zero, Cd.write] at failed
    have begun : next.initFlag = false := (Cd.round_initFlag decoder cd inbuf).trans flag
    refine ⟨?_, ?_, fun _ => steps.2, ?_⟩
    · rw [← steps.1, Cd.toCome, if_neg (by simp [begun]), Cd.ahead, if_neg notZero, if_neg (by simp only [length_append]; omega),
        show handed (cd.round decoder inbuf).x = [round.x] from if_neg notZero]
      rfl
    · intro _
      rw [Accounts.owed, if_neg notZero]
      dsimp only
      rw [show next.decoder = round.cd.decoder from rfl]
      omega
    · rintro ⟨-, illegal⟩
      rw [refused.2] at illegal
      simp at illegal
  | case4 cd inbuf outbytesleft notDone round notStuck written next free outside =>
    have kept : round.noRead + accounts.pending round.cd.decoder ≤ inbuf.length :=
      (accounts.round owed notDone fun event inside => splits.notFull (uncut event inside)).1
    omega
  | case5 cd inbuf outbytesleft notDone round notStuck written next free within ih =>
    have front : ∀ event ∈ round.reads, splits.uncut event.data event.inbuf more = true := by
      intro event inside
      exact uncut event (by simp [Call.behind, inside])
    have steps := splits.round owed valid notDone notStuck front
    have kept : round.noRead + accounts.pending round.cd.decoder ≤ inbuf.length :=
      (accounts.round owed notDone fun event inside => splits.notFull (front event inside)).1
    have begun : next.initFlag = false := (Cd.round_initFlag decoder cd inbuf).trans flag
    have dropped : (inbuf ++ more).drop round.noRead = inbuf.drop round.noRead ++ more := drop_append_of_le_length (by omega)
    have later := ih begun ?_ steps.2 ?_
    · have whole : cd.ahead decoder (inbuf ++ more) = handed round.x ++ codesOf decoder next.decoder (inbuf.drop round.noRead ++ more) := by
        rw [← steps.1, ← dropped]
        rfl
      rw [Cd.ahead_next _ rfl] at later
      rw [whole]
      rcases later with ⟨illegal, codes⟩ | continues
      · left
        exact ⟨illegal, congrArg (handed round.x ++ ·) codes⟩
      · right
        refine ⟨?_, continues.owed, continues.valid, continues.legal⟩
        rw [← continues.codes, ← append_assoc]
        rfl
    · rw [Accounts.owed, if_pos rfl, length_drop]
      rw [show next.decoder = round.cd.decoder from rfl]
      omega
    · intro event inside
      exact uncut event (by simp [Call.behind, inside])

theorem yazIconv_last (room : ¬ (yazIconv decoder encoder cd (some inbuf) (some outbytesleft)).refused) :
    (yazIconv decoder encoder cd (some inbuf) (some outbytesleft)).codes = cd.toCome decoder inbuf := by
  rw [Cd.toCome]
  cases flag : cd.initFlag with
  | false =>
    rw [yazIconv, flag] at room ⊢
    exact convert_last encoder room
  | true =>
    rw [yazIconv, flag] at room ⊢
    simp only [if_true, Option.getD_some] at room ⊢
    cases init : decoder.initHandle cd.decoder inbuf with
    | failed => rfl
    | ready =>
      rw [init] at room
      dsimp only [Option.map_some, Cd.goOn] at room ⊢
      rw [convert_last encoder room, Cd.ahead_next _ rfl]

theorem yazIconv_more (owed : cd.initFlag = false → accounts.owed cd ≤ inbuf.length) (valid : cd.initFlag = false → splits.valid cd.decoder)
    (begun : cd.initFlag = true → inbuf ≠ [])
    (uncut : ∀ event ∈ (yazIconv decoder encoder cd (some inbuf) (some outbytesleft)).reads,
      splits.uncut event.data event.inbuf more = true) :
    (yazIconv decoder encoder cd (some inbuf) (some outbytesleft)).illegal ∧
      (yazIconv decoder encoder cd (some inbuf) (some outbytesleft)).codes = cd.toCome decoder (inbuf ++ more) ∨
    splits.Continues more (cd.toCome decoder (inbuf ++ more)) (yazIconv decoder encoder cd (some inbuf) (some outbytesleft)) := by
  rw [Cd.toCome]
  cases flag : cd.initFlag with
  | false =>
    rw [yazIconv, flag] at uncut ⊢
    exact convert_more encoder splits flag (owed flag) (valid flag) uncut
  | true =>
    rw [yazIconv, flag] at uncut ⊢
    simp only [if_true, Option.getD_some] at uncut ⊢
    cases init : decoder.initHandle cd.decoder inbuf with
    | failed =>
      -- the caller comes back with the same octets and more
      have incomplete := accounts.initFailed init
      right
      refine ⟨?_, by simp [incomplete], by simp [incomplete], by simp [Call.illegal, incomplete]⟩
      simp [Cd.toCome, incomplete]
    | ready =>
      rw [init] at uncut
      rw [splits.initMore (begun flag) init]
      obtain ⟨within, nothing⟩ := accounts.init init
      dsimp only [Option.map_some, Cd.goOn] at uncut ⊢
      rw [drop_append_of_le_length within]
      have result := convert_more encoder splits rfl (by rw [Accounts.owed, if_pos rfl]; dsimp only; omega) (splits.initValid init) uncut
      exact result

/-- The codes that the encoder took of an input in pieces, and how the last call ended. Each piece comes behind
what was left of those before it, with an output buffer of its own; an illegal sequence is the end. -/
def present (decoder : Decoder D) (encoder : Encoder E) (cd : Cd D E) (rest : List UInt8) :
    List (List UInt8 × Nat) → List Nat × Option (Call D E)
  | [] => ([], none)
  | (piece, outbytesleft) :: later =>
    let call := yazIconv decoder encoder cd (some (rest ++ piece)) (some outbytesleft)
    if call.illegal ∨ later = [] then (call.codes, some call)
    else
      let (codes, last) := present decoder encoder call.cd call.inbuf later
      (call.codes ++ codes, last)

/-- No call but the last was given an input that ends at a place where a piece must not end: `uncut` holds at
every read of what it is given and of what will follow. -/
def Uncut (decoder : Decoder D) (encoder : Encoder E) (uncut : D → List UInt8 → List UInt8 → Bool) (cd : Cd D E) (rest : List UInt8) :
    List (List UInt8 × Nat) → Prop
  | [] => True
  | (piece, outbytesleft) :: later =>
    let call := yazIconv decoder encoder cd (some (rest ++ piece)) (some outbytesleft)
    later = [] ∨
      (cd.initFlag = true → rest ++ piece ≠ []) ∧
        (∀ event ∈ call.reads, uncut event.data event.inbuf (later.flatMap Prod.fst) = true) ∧
        Uncut decoder encoder uncut call.cd call.inbuf later

instance decidableUncut (decoder : Decoder D) (encoder : Encoder E) (uncut : D → List UInt8 → List UInt8 → Bool) :
    (cd : Cd D E) → (rest : List UInt8) → (pieces : List (List UInt8 × Nat)) → Decidable (Uncut decoder encoder uncut cd rest pieces)
  | _, _, [] => .isTrue trivial
  | cd, rest, (piece, outbytesleft) :: later =>
    have := decidableUncut decoder encoder uncut (yazIconv decoder encoder cd (some (rest ++ piece)) (some outbytesleft)).cd
      (yazIconv decoder encoder cd (some (rest ++ piece)) (some outbytesleft)).inbuf later
    inferInstanceAs (Decidable (later = [] ∨
      (cd.initFlag = true → rest ++ piece ≠ []) ∧
        (∀ event ∈ (yazIconv decoder encoder cd (some (rest ++ piece)) (some outbytesleft)).reads,
          uncut event.data event.inbuf (later.flatMap Prod.fst) = true) ∧
        Uncut decoder encoder uncut (yazIconv decoder encoder cd (some (rest ++ piece)) (some outbytesleft)).cd
          (yazIconv decoder encoder cd (some (rest ++ piece)) (some outbytesleft)).inbuf later))

theorem present_codes {rest : List UInt8} {pieces : List (List UInt8 × Nat)} (some : pieces ≠ [])
    (owed : cd.initFlag = false → accounts.owed cd ≤ rest.length) (valid : cd.initFlag = false → splits.valid cd.decoder)
    (uncut : Uncut decoder encoder splits.uncut cd rest pieces)
    (room : ∀ call ∈ (present decoder encoder cd rest pieces).2, ¬ call.refused) :
    (present decoder encoder cd rest pieces).1 = cd.toCome decoder (rest ++ pieces.flatMap Prod.fst) := by
  induction pieces generalizing cd rest with
  | nil => exact absurd rfl some
  | cons piece later ih =>
    obtain ⟨piece, outbytesleft⟩ := piece
    rw [present] at room ⊢
    rcases uncut with rfl | ⟨begun, notCut, followed⟩
    · rw [if_pos (.inr rfl)] at room ⊢
      rw [yazIconv_last encoder (room _ rfl)]
      simp
    · have within : cd.initFlag = false → accounts.owed cd ≤ (rest ++ piece).length := by
        intro flag
        have before := owed flag
        rw [length_append]
        omega
      rw [flatMap_cons, ← append_assoc]
      rcases yazIconv_more encoder splits within valid begun notCut with ⟨illegal, codes⟩ | continues
      · rw [if_pos (.inl illegal), codes]
      · by_cases last : later = []
        · rw [if_pos (.inr last)] at room ⊢
          rw [yazIconv_last encoder (room _ rfl), last, flatMap_nil, append_nil]
        · have goOn : ¬ ((yazIconv decoder encoder cd (Option.some (rest ++ piece)) (Option.some outbytesleft)).illegal ∨ later = []) := by
            rintro (illegal | none)
            · exact continues.legal illegal
            · exact last none
          rw [if_neg goOn] at room ⊢
          rw [← continues.codes, ← ih last continues.owed continues.valid followed room]

end

end Yaz.Iconv
