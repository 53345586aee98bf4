import Yaz.Iconv.Resuming
import Yaz.Iconv.Marc8Pages

/-! Which encoders may be stopped for want of room, and where.

UTF-8 and ISO 8859-1 may be stopped anywhere. DanMARC and MARC-8 lose or repeat something where the
state does not go back with the output.
-/

set_option autoImplicit false

variable {x room : Nat}

namespace Yaz.Iconv
open List

section
variable {E : Type}

theorem Resumable.of_enough {valid : E → Prop} {bound : E → Nat} {good : E → Nat → Bool} {step : E → Nat → Written E}
    (keeps : ∀ {w : E} {room : Nat}, valid w → (¬ (step w room).Refused ∨ good w room = true) → valid (step w room).data)
    (named : ∀ {w : E} {room : Nat}, (step w room).failed = true → (step w room).errno ≠ none)
    (more : ∀ {w : E} {room larger : Nat}, valid w → room ≤ larger → ¬ (step w room).Refused → step w larger = step w room)
    (enough : ∀ {w : E}, valid w → ¬ (step w (bound w)).Refused)
    (resumes : ∀ {w : E} {room : Nat}, valid w → (step w room).Refused → good w room = true →
      (step w room).out ++ (step (step w room).data (bound (step w room).data)).out = (step w (bound w)).out ∧
        (step (step w room).data (bound (step w room).data)).data = (step w (bound w)).data) : Resumable valid bound good step := by
  refine ⟨keeps, named, ?_, resumes⟩
  intro w room isValid notRefused
  rcases Nat.le_total room (bound w) with less | less
  · rw [more isValid less notRefused]
    exact ⟨rfl, rfl⟩
  · rw [more isValid less (enough isValid)]
    exact ⟨rfl, rfl⟩

theorem Resumable.of_nothing {valid : E → Prop} {bound : E → Nat} {good : E → Nat → Bool} :
    Resumable valid bound good (fun w _ => { out := [], data := w }) := by
  constructor
  · exact fun isValid _ => isValid
  · simp
  · exact fun _ _ => ⟨rfl, rfl⟩
  · rintro w room - ⟨failed, -⟩
    simp at failed

end

variable {out : List UInt8}

theorem yazWriteUTF8Char_more {larger : Nat} (less : room ≤ larger) (written : yazWriteUTF8Char x room = some out) :
    yazWriteUTF8Char x larger = some out := by
  rw [yazWriteUTF8Char] at written ⊢
  split at written
  · rw [if_pos (by omega)]
    exact written
  · split at written
    · rw [if_neg (by omega), if_pos (by omega)]
      exact written
    · split at written
      · rw [if_neg (by omega), if_neg (by omega), if_pos (by omega)]
        exact written
      · split at written
        · rw [if_neg (by omega), if_neg (by omega), if_neg (by omega), if_pos (by omega)]
          exact written
        · split at written
          · rw [if_neg (by omega), if_neg (by omega), if_neg (by omega), if_neg (by omega), if_pos (by omega)]
            exact written
          · split at written
            · rw [if_neg (by omega), if_neg (by omega), if_neg (by omega), if_neg (by omega), if_neg (by omega), if_pos (by omega)]
              exact written
            · simp at written

theorem yazWriteUTF8Char_enough (x : Nat) : ∃ out, yazWriteUTF8Char x 6 = some out := by
  rw [yazWriteUTF8Char]
  simp only [Nat.reduceLeDiff, and_true, if_true]
  repeat' split
  all_goals exact ⟨_, rfl⟩

theorem writeUTF8_resumable (x : Nat) : Resumable (fun _ => True) (fun _ => 6) (fun _ _ => true) (fun w => writeUTF8 w x) := by
  apply Resumable.of_enough
  · exact fun _ _ => trivial
  · intro w room failed
    rw [writeUTF8] at failed ⊢
    split
    · simp
    · simp
  · intro w room larger _ less notRefused
    rw [writeUTF8] at notRefused ⊢
    rw [writeUTF8]
    cases written : yazWriteUTF8Char x room with
    | some => rw [yazWriteUTF8Char_more less written]
    | none =>
      rw [written] at notRefused
      exact absurd ⟨rfl, rfl⟩ notRefused
  · rintro w - ⟨failed, -⟩
    obtain ⟨out, written⟩ := yazWriteUTF8Char_enough x
    rw [writeUTF8, written] at failed
    simp at failed
  · intro w room _ refused _
    have nothing : (writeUTF8 w x room).out = [] := by
      rw [writeUTF8] at refused ⊢
      cases written : yazWriteUTF8Char x room with
      | some =>
        rw [written] at refused
        simp [Written.Refused] at refused
      | none => rfl
    rw [nothing]
    exact ⟨rfl, rfl⟩

def utf8Resumes : Resumes utf8Encoder :=
  { valid := fun _ => True
    bound := fun _ => 6
    good := fun _ _ _ => true
    goodFlush := fun _ _ => true
    initValid := fun _ => trivial
    write := writeUTF8_resumable
    flush := Resumable.of_nothing }

theorem writeLatin1_more {larger : Nat} (less : room ≤ larger) (notRefused : ¬ (writeLatin1 out x room).Refused) :
    writeLatin1 out x larger = writeLatin1 out x room := by
  rw [writeLatin1] at notRefused ⊢
  rw [writeLatin1]
  split
  · rfl
  next notLetter =>
    rw [if_neg notLetter] at notRefused
    split
    · rfl
    next legal =>
      rw [if_neg legal] at notRefused
      by_cases full : room < 1
      · rw [if_pos full] at notRefused
        exact absurd ⟨rfl, rfl⟩ notRefused
      · rw [if_neg full, if_neg (by omega)]

theorem writeLatin1_enough (out : List UInt8) (some : 1 ≤ room) : ¬ (writeLatin1 out x room).Refused := by
  rw [writeLatin1]
  split
  · simp [Written.Refused]
  · split
    · simp [Written.Refused]
    · rw [if_neg (by omega)]
      simp [Written.Refused]

theorem writeLatin1_refused (refused : (writeLatin1 out x room).Refused) {larger : Nat} (some : 1 ≤ larger) :
    (writeLatin1 out x room).out = out ∧ (writeLatin1 out x room).data = 0 ∧
      ∀ before, (writeLatin1 before x larger).out = before ++ [UInt8.ofNat x] ∧ (writeLatin1 before x larger).data = 0 := by
  rw [writeLatin1] at refused ⊢
  split at refused
  · simp [Written.Refused] at refused
  next notLetter =>
    split at refused
    · simp [Written.Refused] at refused
    next legal =>
      rw [if_neg notLetter, if_neg legal]
      split at refused
      next full =>
        rw [if_pos full]
        refine ⟨rfl, rfl, ?_⟩
        intro before
        rw [writeLatin1, if_neg notLetter, if_neg legal, if_neg (by omega)]
        exact ⟨rfl, rfl⟩
      · simp [Written.Refused] at refused

theorem writeLatin1_named (failed : (writeLatin1 out x room).failed = true) :
    (writeLatin1 out x room).errno ≠ none := by
  rw [writeLatin1] at failed ⊢
  split at failed
  · simp at failed
  next notLetter =>
    rw [if_neg notLetter]
    split at failed
    next illegal =>
      rw [if_pos illegal]
      simp
    next legal =>
      rw [if_neg legal]
      split at failed
      next full =>
        rw [if_pos full]
        simp
      · simp at failed

theorem writeIso88591_resumable (x : Nat) : Resumable (fun _ => True) (fun _ => 2) (fun _ _ => true) (fun w => writeIso88591 w x) := by
  apply Resumable.of_enough
  · exact fun _ _ => trivial
  · intro w room failed
    rw [writeIso88591] at failed ⊢
    split
    next none =>
      rw [if_pos none] at failed
      exact writeLatin1_named failed
    next some =>
      rw [if_neg some] at failed
      split
      · simp
      next room =>
        rw [if_neg room] at failed
        cases found : yazIso88591LookupX12 w x with
        | some =>
          rw [found] at failed
          exact writeLatin1_named failed
        | none =>
          rw [found] at failed
          exact writeLatin1_named failed
  · intro w room larger _ less notRefused
    rw [writeIso88591] at notRefused ⊢
    rw [writeIso88591]
    split
    next none =>
      rw [if_pos none] at notRefused
      exact writeLatin1_more less notRefused
    next some =>
      rw [if_neg some] at notRefused
      by_cases full : room < 1
      · rw [if_pos full] at notRefused
        exact absurd ⟨rfl, rfl⟩ notRefused
      · rw [if_neg full] at notRefused ⊢
        rw [if_neg (by omega)]
        cases found : yazIso88591LookupX12 w x with
        | some =>
          rw [found] at notRefused
          exact writeLatin1_more less notRefused
        | none =>
          rw [found] at notRefused
          exact writeLatin1_more (by omega) notRefused
  · intro w _
    rw [writeIso88591]
    split
    · exact writeLatin1_enough _ (by omega)
    · rw [if_neg (by omega)]
      split
      · exact writeLatin1_enough _ (by omega)
      · exact writeLatin1_enough _ (by omega)
  · intro w room _ refused _
    have first : writeIso88591 0 x 2 = writeLatin1 [] x 2 := by rw [writeIso88591, if_pos rfl]
    by_cases none : w = 0
    · subst none
      have same : writeIso88591 0 x room = writeLatin1 [] x room := by rw [writeIso88591, if_pos rfl]
      rw [same] at refused ⊢
      obtain ⟨out, data, -⟩ := writeLatin1_refused refused (Nat.le_refl 1)
      rw [out, data]
      exact ⟨rfl, rfl⟩
    · by_cases full : room < 1
      · -- the letter is kept, and nothing was written
        have same : writeIso88591 w x room = { out := [], data := w, failed := true, errno := some .e2big } := by
          rw [writeIso88591, if_neg none, if_pos full]
        rw [same]
        exact ⟨rfl, rfl⟩
      · rw [writeIso88591, if_neg none, if_neg full] at refused
        cases found : yazIso88591LookupX12 w x with
        | some =>
          rw [found] at refused
          exact absurd refused (writeLatin1_enough _ (by omega))
        | none =>
          have same (size : Nat) (notFull : ¬ size < 1) : writeIso88591 w x size = writeLatin1 [UInt8.ofNat w] x (size - 1) := by
            rw [writeIso88591, if_neg none, if_neg notFull, found]
          rw [found] at refused
          obtain ⟨out, data, next⟩ := writeLatin1_refused refused (Nat.le_refl 1)
          obtain ⟨-, -, nextTwo⟩ := writeLatin1_refused refused (show 1 ≤ 2 by omega)
          rw [same room full, same 2 (by omega), out, data, first, (next _).1, (next _).2, (nextTwo _).1, (nextTwo _).2]
          exact ⟨rfl, rfl⟩

theorem flushIso88591_resumable : Resumable (fun _ => True) (fun _ => 2) (fun _ _ => true) flushIso88591 := by
  apply Resumable.of_enough
  · exact fun _ _ => trivial
  · intro w room failed
    rw [flushIso88591] at failed ⊢
    split
    next none => simp [none] at failed
    next some =>
      rw [if_neg some] at failed
      split
      · simp
      next full => simp [full] at failed
  · intro w room larger _ less notRefused
    rw [flushIso88591] at notRefused ⊢
    rw [flushIso88591]
    split
    · rfl
    next some =>
      rw [if_neg some] at notRefused
      by_cases full : room < 1
      · rw [if_pos full] at notRefused
        exact absurd ⟨rfl, rfl⟩ notRefused
      · rw [if_neg full, if_neg (by omega)]
  · intro w _
    rw [flushIso88591]
    split
    · simp [Written.Refused]
    · rw [if_neg (by omega)]
      simp [Written.Refused]
  · intro w room _ refused _
    have same : flushIso88591 w room = { out := [], data := w, failed := true, errno := some .e2big } := by
      rw [flushIso88591] at refused ⊢
      split
      next none => simp [none, Written.Refused] at refused
      next some =>
        rw [if_neg some] at refused
        split
        · rfl
        next full => simp [full, Written.Refused] at refused
    rw [same]
    exact ⟨rfl, rfl⟩

def iso88591Resumes : Resumes iso88591Encoder :=
  { valid := fun _ => True
    bound := fun _ => 2
    good := fun _ _ _ => true
    goodFlush := fun _ _ => true
    initValid := fun _ => trivial
    write := writeIso88591_resumable
    flush := flushIso88591_resumable }

/-! ### DanMARC -/

theorem write1_more {larger : Nat} (less : room ≤ larger) (notRefused : write1 x room ≠ .error .e2big) :
    write1 x larger = write1 x room := by
  rw [write1] at notRefused ⊢
  rw [write1]
  by_cases marked : x = 64 ∨ x = 42
  · rw [if_pos marked] at notRefused ⊢
    by_cases full : room < 2
    · rw [if_pos full] at notRefused
      exact absurd rfl notRefused
    · rw [if_pos marked, if_neg full, if_neg (by omega)]
  rw [if_neg marked] at notRefused ⊢
  rw [if_neg marked]
  by_cases latin : x ≤ 0xff
  · rw [if_pos latin] at notRefused ⊢
    by_cases full : room < 1
    · rw [if_pos full] at notRefused
      exact absurd rfl notRefused
    · rw [if_pos latin, if_neg full, if_neg (by omega)]
  rw [if_neg latin] at notRefused ⊢
  rw [if_neg latin]
  by_cases plane : x ≤ 0xffff
  · rw [if_pos plane] at notRefused ⊢
    by_cases full : room < 6
    · rw [if_pos full] at notRefused
      exact absurd rfl notRefused
    · rw [if_pos plane, if_neg full, if_neg (by omega)]
  · rw [if_neg plane, if_neg plane]

theorem write1_enough (enough : 6 ≤ room) : write1 x room ≠ .error .e2big := by
  rw [write1, if_neg (show ¬ room < 2 by omega), if_neg (show ¬ room < 1 by omega), if_neg (show ¬ room < 6 by omega)]
  repeat' split
  all_goals simp

theorem write1_length (written : write1 x room = .ok out) : out.length ≤ 6 := by
  rw [write1] at written
  repeat' split at written
  all_goals simp only [Except.ok.injEq, reduceCtorEq] at written
  all_goals
    rw [← written]
    simp

theorem flushComp_more {dia : Bool} {comp : List Nat} {larger : Nat} (less : room ≤ larger)
    (notRefused : (flushComp dia comp room).2.2 ≠ some .e2big) : flushComp dia comp larger = flushComp dia comp room := by
  induction comp generalizing room larger with
  | nil => rfl
  | cons x _ ih =>
    rw [flushComp] at notRefused ⊢
    rw [flushComp]
    cases written : write1 (if dia then yazDanmarcSwapToDanmarc x else x) room with
    | error errno =>
      rw [written] at notRefused
      have other : errno ≠ .e2big := by
        rintro rfl
        exact notRefused rfl
      rw [write1_more less (by rw [written]; simpa using other), written]
    | ok =>
      rw [written] at notRefused
      rw [write1_more less (by rw [written]; simp), written]
      dsimp only at notRefused ⊢
      rw [ih (by omega) notRefused]

theorem flushComp_enough {dia : Bool} {comp : List Nat} {room : Nat} (enough : 6 * comp.length ≤ room) :
    (flushComp dia comp room).2.2 ≠ some .e2big ∧ (flushComp dia comp room).1.length ≤ 6 * comp.length := by
  induction comp generalizing room with
  | nil => simp [flushComp]
  | cons x _ ih =>
    rw [length_cons] at enough
    rw [flushComp]
    cases written : write1 (if dia then yazDanmarcSwapToDanmarc x else x) room with
    | error =>
      have other : write1 (if dia then yazDanmarcSwapToDanmarc x else x) room ≠ .error .e2big := write1_enough (by omega)
      rw [written] at other
      refine ⟨?_, Nat.zero_le _⟩
      simpa using other
    | ok out =>
      have length := write1_length written
      obtain ⟨later, short⟩ := @ih (room - out.length) (by omega)
      refine ⟨later, ?_⟩
      rw [length_append, length_cons]
      omega

theorem flushComp_same {dia : Bool} {comp : List Nat} {room' : Nat} (enough : 6 * comp.length ≤ room) (enough' : 6 * comp.length ≤ room') :
    flushComp dia comp room = flushComp dia comp room' := by
  rcases Nat.le_total room room' with less | less
  · exact (flushComp_more less (flushComp_enough enough).1).symm
  · exact flushComp_more less (flushComp_enough enough').1

theorem flushComp_resumes {dia : Bool} {comp : List Nat} {room large large' : Nat} (refused : (flushComp dia comp room).2.2 = some .e2big)
    (enough : 6 * comp.length ≤ large) (enough' : 6 * (flushComp dia comp room).2.1.length ≤ large') :
    flushComp dia comp large =
      ((flushComp dia comp room).1 ++ (flushComp dia (flushComp dia comp room).2.1 large').1,
        (flushComp dia (flushComp dia comp room).2.1 large').2) := by
  induction comp generalizing room large with
  | nil => simp [flushComp] at refused
  | cons x comp ih =>
    cases written : write1 (if dia then yazDanmarcSwapToDanmarc x else x) room with
    | error errno =>
      have same : flushComp dia (x :: comp) room = ([], x :: comp, some errno) := by rw [flushComp, written]
      rw [same] at enough' ⊢
      rw [flushComp_same enough enough']
      rfl
    | ok out =>
      have length := write1_length written
      have atLarge : write1 (if dia then yazDanmarcSwapToDanmarc x else x) large = .ok out := by
        rw [length_cons] at enough
        rcases Nat.le_total room large with less | less
        · rw [write1_more less (by rw [written]; simp), written]
        · rw [← write1_more less (write1_enough (by omega)), written]
      have here : flushComp dia (x :: comp) room =
          (out ++ (flushComp dia comp (room - out.length)).1, (flushComp dia comp (room - out.length)).2) := by rw [flushComp, written]
      rw [here] at refused enough' ⊢
      rw [flushComp, atLarge]
      rw [length_cons] at enough
      dsimp only at refused enough' ⊢
      rw [@ih (room - out.length) (large - out.length) refused (by omega) enough', append_assoc]

def DanmarcEncoder.staysApart (w : DanmarcEncoder) (room : Nat) : Bool :=
  let left := { w.composed with comp := (flushComp w.composed.dia w.composed.comp room).2.1 }
  left.composed = left

theorem DanmarcEncoder.composed_length (w : DanmarcEncoder) : w.composed.comp.length ≤ w.comp.length := by
  rw [DanmarcEncoder.composed]
  split
  · split
    · exact Nat.zero_le _
    · exact Nat.le_refl _
  · exact Nat.le_refl _

variable {w : DanmarcEncoder}

theorem DanmarcEncoder.composed_nil (none : w.comp = []) : w.composed = w := by
  rw [DanmarcEncoder.composed, none]

theorem flushComp_none {dia : Bool} {comp : List Nat} {room : Nat} (all : (flushComp dia comp room).2.2 = none) :
    (flushComp dia comp room).2.1 = [] := by
  induction comp generalizing room with
  | nil => rfl
  | cons x _ ih =>
    rw [flushComp] at all ⊢
    cases written : write1 (if dia then yazDanmarcSwapToDanmarc x else x) room with
    | error =>
      rw [written] at all
      simp at all
    | ok =>
      rw [written] at all
      exact ih all

def putBase (w : DanmarcEncoder) (out : List UInt8) (outbytesleft : Nat) : Written DanmarcEncoder :=
  if w.baseChar = 0 then { out := out, data := w }
  else
    match write1 w.baseChar outbytesleft with
    | .error errno => { out := out, data := w, failed := true, errno := some errno }
    | .ok base => { out := out ++ base, data := { w with baseChar := 0 } }

theorem putBase_comp (w : DanmarcEncoder) (out : List UInt8) (room : Nat) : (putBase w out room).data.comp = w.comp := by
  unfold putBase
  split
  · rfl
  · split <;> rfl

theorem putBase_dia (w : DanmarcEncoder) (out : List UInt8) (room : Nat) : (putBase w out room).data.dia = w.dia := by
  unfold putBase
  split
  · rfl
  · split <;> rfl

theorem flushDanmarc_eq (w : DanmarcEncoder) (room : Nat) :
    flushDanmarc w room =
      match (flushComp w.composed.dia w.composed.comp room).2.2 with
      | some errno =>
        { out := (flushComp w.composed.dia w.composed.comp room).1
          data := { w.composed with comp := (flushComp w.composed.dia w.composed.comp room).2.1 }, failed := true, errno := some errno }
      | none =>
        putBase { w.composed with comp := [] } (flushComp w.composed.dia w.composed.comp room).1
          (room - (flushComp w.composed.dia w.composed.comp room).1.length) := by
  have all := @flushComp_none w.composed.dia w.composed.comp room
  rw [flushDanmarc]
  generalize flushComp w.composed.dia w.composed.comp room = result at all
  obtain ⟨out, comp, errno⟩ := result
  cases errno with
  | some => rfl
  | none =>
    have empty : comp = [] := all rfl
    subst empty
    rfl

theorem putBase_more {larger : Nat} (less : room ≤ larger) (notRefused : ¬ (putBase w out room).Refused) :
    putBase w out larger = putBase w out room := by
  rw [putBase] at notRefused ⊢
  rw [putBase]
  split
  · rfl
  next some =>
    rw [if_neg some] at notRefused
    rw [write1_more less]
    intro full
    rw [full] at notRefused
    exact notRefused ⟨rfl, rfl⟩

theorem putBase_enough (enough : 6 ≤ room) : ¬ (putBase w out room).Refused := by
  rw [putBase]
  split
  · simp [Written.Refused]
  · split
    next errno failed =>
      rintro ⟨-, is⟩
      rw [Option.some.injEq] at is
      rw [is] at failed
      exact write1_enough enough failed
    · simp [Written.Refused]

theorem putBase_same {room' : Nat} (enough : 6 ≤ room) (enough' : 6 ≤ room') :
    putBase w out room = putBase w out room' := by
  rcases Nat.le_total room room' with less | less
  · exact (putBase_more less (putBase_enough enough)).symm
  · exact putBase_more less (putBase_enough enough')

theorem putBase_refused (refused : (putBase w out room).Refused) :
    (putBase w out room).out = out ∧ (putBase w out room).data = w := by
  rw [putBase] at refused ⊢
  split at refused
  · simp [Written.Refused] at refused
  next some =>
    rw [if_neg some]
    split at refused
    · exact ⟨rfl, rfl⟩
    · simp [Written.Refused] at refused

theorem putBase_behind (w : DanmarcEncoder) (out before : List UInt8) (room : Nat) :
    putBase w (before ++ out) room = { putBase w out room with out := before ++ (putBase w out room).out } := by
  rw [putBase, putBase]
  split
  · rfl
  · split
    · rfl
    · rw [append_assoc]

theorem flushDanmarc_more {larger : Nat} (less : room ≤ larger) (notRefused : ¬ (flushDanmarc w room).Refused) :
    flushDanmarc w larger = flushDanmarc w room := by
  rw [flushDanmarc_eq] at notRefused ⊢
  rw [flushDanmarc_eq]
  cases errno : (flushComp w.composed.dia w.composed.comp room).2.2 with
  | some found =>
    rw [errno] at notRefused
    have other : found ≠ .e2big := by
      rintro rfl
      exact notRefused ⟨rfl, rfl⟩
    rw [flushComp_more less (by rw [errno]; simpa using other), errno]
  | none =>
    rw [errno] at notRefused
    rw [flushComp_more less (by rw [errno]; simp), errno]
    exact putBase_more (by omega) notRefused

theorem flushDanmarc_enough (enough : 6 * (w.comp.length + 1) ≤ room) : ¬ (flushDanmarc w room).Refused := by
  have shorter := w.composed_length
  obtain ⟨notFull, length⟩ := @flushComp_enough w.composed.dia w.composed.comp room (by omega)
  rw [flushDanmarc_eq]
  split
  next errno found =>
    rintro ⟨-, is⟩
    rw [found] at notFull
    exact notFull is
  · exact putBase_enough (by omega)

theorem flushDanmarc_resumes {large large' : Nat} (refused : (flushDanmarc w room).Refused)
    (apart : w.staysApart room = true) (enough : 6 * (w.comp.length + 1) ≤ large)
    (enough' : 6 * ((flushDanmarc w room).data.comp.length + 1) ≤ large') :
    flushDanmarc w large =
      { flushDanmarc (flushDanmarc w room).data large' with
        out := (flushDanmarc w room).out ++ (flushDanmarc (flushDanmarc w room).data large').out } := by
  have shorter := w.composed_length
  cases errno : (flushComp w.composed.dia w.composed.comp room).2.2 with
  | some found =>
    have here : flushDanmarc w room =
        { out := (flushComp w.composed.dia w.composed.comp room).1
          data := { w.composed with comp := (flushComp w.composed.dia w.composed.comp room).2.1 }, failed := true,
          errno := some found } := by
      rw [flushDanmarc_eq, errno]
    rw [here] at refused enough' ⊢
    have full : found = .e2big := Option.some.inj refused.2
    rw [full] at errno
    have same : { w.composed with comp := (flushComp w.composed.dia w.composed.comp room).2.1 }.composed =
        { w.composed with comp := (flushComp w.composed.dia w.composed.comp room).2.1 } := by
      simpa [DanmarcEncoder.staysApart] using apart
    dsimp only at enough' ⊢
    obtain ⟨-, length⟩ := @flushComp_enough w.composed.dia w.composed.comp large (by omega)
    obtain ⟨-, length'⟩ := @flushComp_enough w.composed.dia (flushComp w.composed.dia w.composed.comp room).2.1 large' (by omega)
    have joined := @flushComp_resumes w.composed.dia w.composed.comp room large large' errno (by omega) (by omega)
    rw [flushDanmarc_eq w large, flushDanmarc_eq _ large', same]
    rw [joined] at length ⊢
    dsimp only at length ⊢
    split
    · rfl
    · rw [← putBase_behind]
      exact putBase_same (by omega) (by omega)
  | none =>
    have here : flushDanmarc w room = putBase { w.composed with comp := [] } (flushComp w.composed.dia w.composed.comp room).1
        (room - (flushComp w.composed.dia w.composed.comp room).1.length) := by
      rw [flushDanmarc_eq, errno]
    have atLarge : flushComp w.composed.dia w.composed.comp large = flushComp w.composed.dia w.composed.comp room := by
      rcases Nat.le_total room large with less | less
      · exact flushComp_more less (by rw [errno]; simp)
      · exact (flushComp_more less (flushComp_enough (by omega)).1).symm
    obtain ⟨-, length⟩ := @flushComp_enough w.composed.dia w.composed.comp large (by omega)
    rw [here] at refused enough' ⊢
    obtain ⟨out, data⟩ := putBase_refused refused
    rw [data] at enough' ⊢
    have alone : flushDanmarc { w.composed with comp := [] } large' = putBase { w.composed with comp := [] } [] large' := by
      rw [flushDanmarc_eq, DanmarcEncoder.composed_nil rfl]
      rfl
    rw [out, alone, ← putBase_behind, append_nil, flushDanmarc_eq, atLarge, errno]
    rw [atLarge] at length
    exact putBase_same (by omega) (by simp at enough'; omega)

theorem putBase_named (failed : (putBase w out room).failed = true) :
    (putBase w out room).errno ≠ none := by
  rw [putBase] at failed ⊢
  split at failed
  · simp at failed
  next some =>
    rw [if_neg some]
    split at failed
    · simp
    · simp at failed

theorem flushDanmarc_named (failed : (flushDanmarc w room).failed = true) :
    (flushDanmarc w room).errno ≠ none := by
  rw [flushDanmarc_eq] at failed ⊢
  split
  · simp
  next all =>
    rw [all] at failed
    exact putBase_named failed

theorem flushDanmarc_resumable :
    Resumable (fun _ => True) (fun w => 6 * (w.comp.length + 2)) DanmarcEncoder.staysApart flushDanmarc := by
  apply Resumable.of_enough
  · exact fun _ _ => trivial
  · exact flushDanmarc_named
  · exact fun _ less notRefused => flushDanmarc_more less notRefused
  · exact fun _ => flushDanmarc_enough (by omega)
  · intro w room _ refused apart
    have joined := flushDanmarc_resumes refused apart (show 6 * (w.comp.length + 1) ≤ 6 * (w.comp.length + 2) by omega)
      (show 6 * ((flushDanmarc w room).data.comp.length + 1) ≤ 6 * ((flushDanmarc w room).data.comp.length + 2) by omega)
    rw [joined]
    exact ⟨rfl, rfl⟩

def DanmarcEncoder.goodWrite (w : DanmarcEncoder) (x room : Nat) : Bool := !yazDanmarcIsCombining x && w.staysApart room

def keepBase (x : Nat) (flushed : Written DanmarcEncoder) : Written DanmarcEncoder :=
  if flushed.failed then flushed else { flushed with data := { flushed.data with baseChar := x } }

theorem keepBase_comp (x : Nat) (flushed : Written DanmarcEncoder) : (keepBase x flushed).data.comp = flushed.data.comp := by
  unfold keepBase
  split <;> rfl

theorem keepBase_out (x : Nat) (flushed : Written DanmarcEncoder) : (keepBase x flushed).out = flushed.out := by
  unfold keepBase
  split <;> rfl

theorem keepBase_refused {flushed : Written DanmarcEncoder} : (keepBase x flushed).Refused ↔ flushed.Refused := by
  rw [keepBase]
  split
  · rfl
  · rfl

theorem keepBase_named {flushed : Written DanmarcEncoder} (named : flushed.failed = true → flushed.errno ≠ none)
    (failed : (keepBase x flushed).failed = true) : (keepBase x flushed).errno ≠ none := by
  rw [keepBase] at failed ⊢
  split
  next is => exact named is
  next not =>
    rw [if_neg not] at failed
    exact absurd failed not

theorem keepBase_behind (x : Nat) (flushed : Written DanmarcEncoder) (before : List UInt8) :
    keepBase x { flushed with out := before ++ flushed.out } = { keepBase x flushed with out := before ++ (keepBase x flushed).out } := by
  rw [keepBase, keepBase]
  split <;> rfl

theorem writeDanmarc_letter (letter : yazDanmarcIsCombining x = false) (w : DanmarcEncoder) (room : Nat) :
    writeDanmarc w x room = keepBase x (flushDanmarc w room) := by
  rw [writeDanmarc, letter]
  rfl

theorem writeDanmarc_mark (mark : yazDanmarcIsCombining x = true) (w : DanmarcEncoder) :
    (∀ room, writeDanmarc w x room = { out := [], data := { w with comp := x :: w.comp } }) ∨
      ∀ room, writeDanmarc w x room = keepBase x (flushDanmarc { w with comp := x :: w.comp } room) := by
  by_cases few : (x :: w.comp).length < 4
  · left
    intro room
    rw [writeDanmarc, mark]
    exact if_pos ⟨rfl, few⟩
  · right
    intro room
    rw [writeDanmarc, mark]
    exact if_neg fun both => few both.2

theorem writeDanmarc_enough (x : Nat) (enough : 6 * (w.comp.length + 2) ≤ room) :
    ¬ (writeDanmarc w x room).Refused := by
  cases mark : yazDanmarcIsCombining x with
  | false =>
    rw [writeDanmarc_letter mark, keepBase_refused]
    exact flushDanmarc_enough (by omega)
  | true =>
    rcases writeDanmarc_mark mark w with kept | flushed
    · rw [kept]
      simp [Written.Refused]
    · rw [flushed, keepBase_refused]
      exact flushDanmarc_enough (by rwa [length_cons])

theorem writeDanmarc_resumable (x : Nat) :
    Resumable (fun _ => True) (fun w => 6 * (w.comp.length + 2)) (fun w => w.goodWrite x) (fun w => writeDanmarc w x) := by
  apply Resumable.of_enough
  · exact fun _ _ => trivial
  · intro w room failed
    cases mark : yazDanmarcIsCombining x with
    | false =>
      rw [writeDanmarc_letter mark] at failed ⊢
      exact keepBase_named flushDanmarc_named failed
    | true =>
      rcases writeDanmarc_mark mark w with kept | flushed
      · rw [kept] at failed
        simp at failed
      · rw [flushed] at failed ⊢
        exact keepBase_named flushDanmarc_named failed
  · intro w room larger _ less notRefused
    cases mark : yazDanmarcIsCombining x with
    | false =>
      rw [writeDanmarc_letter mark, keepBase_refused] at notRefused
      rw [writeDanmarc_letter mark, writeDanmarc_letter mark, flushDanmarc_more less notRefused]
    | true =>
      rcases writeDanmarc_mark mark w with kept | flushed
      · rw [kept, kept]
      · rw [flushed, keepBase_refused] at notRefused
        rw [flushed, flushed, flushDanmarc_more less notRefused]
  · intro w _
    exact writeDanmarc_enough x (Nat.le_refl _)
  · intro w room _ refused good
    rw [DanmarcEncoder.goodWrite, Bool.and_eq_true, Bool.not_eq_true'] at good
    obtain ⟨letter, apart⟩ := good
    rw [writeDanmarc_letter letter, keepBase_refused] at refused
    have same : keepBase x (flushDanmarc w room) = flushDanmarc w room := if_pos refused.1
    have joined := flushDanmarc_resumes refused apart (show 6 * (w.comp.length + 1) ≤ 6 * (w.comp.length + 2) by omega)
      (show 6 * ((flushDanmarc w room).data.comp.length + 1) ≤ 6 * ((flushDanmarc w room).data.comp.length + 2) by omega)
    rw [writeDanmarc_letter letter w room, same, writeDanmarc_letter letter, writeDanmarc_letter letter, joined, keepBase_behind]
    exact ⟨rfl, rfl⟩

def danmarcResumes : Resumes danmarcEncoder :=
  { valid := fun _ => True
    bound := fun w => 6 * (w.comp.length + 2)
    good := DanmarcEncoder.goodWrite
    goodFlush := DanmarcEncoder.staysApart
    initValid := fun _ => trivial
    write := writeDanmarc_resumable
    flush := flushDanmarc_resumable }

/-! ### MARC-8 -/

def Put.Refused (put : Put) : Prop := put.failed = true ∧ put.errno = some .e2big

instance (put : Put) : Decidable put.Refused := inferInstanceAs (Decidable (_ ∧ _))

def Marc8Encoder.Paged (w : Marc8Encoder) : Prop := w.last ≠ 0 → ∃ page ∈ pages, w.lpage = some page

/-- A part of the encoder that needs `enough` room at most, writes no more than `length` octets, and goes on as if it had not
been stopped. -/
structure Part (enough length : Nat) (part : Marc8Encoder → Nat → Put) : Prop where
  keeps : ∀ {w : Marc8Encoder} {room : Nat}, w.Paged → (part w room).data.Paged
  named : ∀ {w : Marc8Encoder} {room : Nat}, (part w room).failed = true → (part w room).errno ≠ none
  more : ∀ {w : Marc8Encoder} {room larger : Nat}, w.Paged → room ≤ larger → ¬ (part w room).Refused → part w larger = part w room
  fits : ∀ {w : Marc8Encoder} {room : Nat}, w.Paged → enough ≤ room → ¬ (part w room).Refused
  short : ∀ {w : Marc8Encoder} {room : Nat}, w.Paged → (part w room).out.length ≤ length
  resumes : ∀ {w : Marc8Encoder} {room large large' : Nat}, w.Paged → (part w room).Refused → enough ≤ large → enough ≤ large' →
    (part w large).items = (part w room).items ++ (part (part w room).data large').items ∧
      (part w large).data = (part (part w room).data large').data ∧ (part w large).failed = (part (part w room).data large').failed

section
variable {enough length : Nat} {part : Marc8Encoder → Nat → Put} {w : Marc8Encoder}

theorem Part.whole (isPart : Part enough length part) (paged : w.Paged) {large : Nat} (notRefused : ¬ (part w room).Refused)
    (isEnough : enough ≤ large) : part w large = part w room := by
  rcases Nat.le_total room large with less | less
  · exact isPart.more paged less notRefused
  · exact (isPart.more paged less (isPart.fits paged isEnough)).symm

theorem Part.same (isPart : Part enough length part) (paged : w.Paged) {large large' : Nat} (isEnough : enough ≤ large)
    (isEnough' : enough ≤ large') : part w large = part w large' :=
  isPart.whole paged (isPart.fits paged isEnough') isEnough

/-- What is done all at once where there is room for it, and not at all where there is not. -/
theorem Part.of_room (need : Marc8Encoder → Nat) (kept : Marc8Encoder → Marc8Encoder)
    (shape : ∀ w room, part w room = if need w ≤ room then part w enough else (kept w).refuse)
    (calm : ∀ w, (part w enough).failed = true → (part w enough).errno = some .eilseq)
    (least : ∀ {w : Marc8Encoder}, w.Paged → need w ≤ enough)
    (keeps : ∀ {w : Marc8Encoder}, w.Paged → (part w enough).data.Paged ∧ (kept w).Paged)
    (short : ∀ {w : Marc8Encoder}, w.Paged → (part w enough).out.length ≤ length)
    (again : ∀ w, part (kept w) enough = part w enough) : Part enough length part := by
  have calmly (w : Marc8Encoder) : ¬ (part w enough).Refused := by
    rintro ⟨failed, errno⟩
    rw [calm w failed] at errno
    simp at errno
  have full {w : Marc8Encoder} {room : Nat} (refused : (part w room).Refused) : part w room = (kept w).refuse := by
    rw [shape] at refused ⊢
    split at refused
    · exact absurd refused (calmly w)
    next small => rw [if_neg small]
  have whole {w : Marc8Encoder} (paged : w.Paged) {large : Nat} (isEnough : enough ≤ large) : part w large = part w enough := by
    rw [shape, if_pos (Nat.le_trans (least paged) isEnough)]
  constructor
  · intro w room paged
    rw [shape]
    split
    · exact (keeps paged).1
    · exact (keeps paged).2
  · intro w room
    rw [shape]
    split
    · intro failed
      simp [calm w failed]
    · simp [Marc8Encoder.refuse]
  · intro w room larger _ less notRefused
    rw [shape] at notRefused ⊢
    rw [shape w room]
    split at notRefused
    next fits => rw [if_pos fits, if_pos (Nat.le_trans fits less)]
    · exact absurd ⟨rfl, rfl⟩ notRefused
  · intro w room paged isEnough
    rw [whole paged isEnough]
    exact calmly w
  · intro w room paged
    rw [shape]
    split
    · exact short paged
    · exact Nat.zero_le _
  · intro w room large large' paged refused isEnough isEnough'
    have same : part (kept w) large' = part w enough := by rw [whole (keeps paged).2 isEnough', again]
    rw [full refused, whole paged isEnough, show (kept w).refuse.data = kept w from rfl, same]
    exact ⟨rfl, rfl, rfl⟩

end

/-- The room that a page asks for, also where its escape sequence is shorter. -/
def pageRoom (page : List UInt8) (w : Marc8Encoder) : Nat :=
  if (if page[1]? = some 41 then w.g1 else w.g0) = some page then 0 else 8

theorem pageChr_room (page : List UInt8) (w : Marc8Encoder) (room : Nat) :
    yazWriteMarc8PageChr page w room = if pageRoom page w ≤ room then yazWriteMarc8PageChr page w 8 else w.refuse := by
  rw [pageRoom, yazWriteMarc8PageChr, yazWriteMarc8PageChr]
  generalize (if page[1]? = some 41 then w.g1 else w.g0) = old
  by_cases here : old = some page
  · simp only [if_pos here, Nat.zero_le, if_true]
  · by_cases full : room < 8
    · rw [if_neg here, if_pos full, if_neg here, if_neg (by omega)]
    · simp only [if_neg here, if_neg full, if_pos (Nat.le_of_not_lt full), Nat.lt_irrefl, if_false]

theorem pageRoom_le (page : List UInt8) (w : Marc8Encoder) : pageRoom page w ≤ 8 := by
  rw [pageRoom]
  repeat' split
  all_goals omega

theorem pageChr_enough (page : List UInt8) (w : Marc8Encoder) :
    (yazWriteMarc8PageChr page w 8).failed = false ∧ (yazWriteMarc8PageChr page w 8).errno = none ∧
      (yazWriteMarc8PageChr page w 8).data.last = w.last ∧ (yazWriteMarc8PageChr page w 8).data.lpage = w.lpage := by
  rw [yazWriteMarc8PageChr]
  repeat' split
  all_goals first | exact ⟨rfl, rfl, rfl, rfl⟩ | omega

section
variable {w : Marc8Encoder} {page : List UInt8} {room : Nat}

theorem pageChr_failed (failed : (yazWriteMarc8PageChr page w room).failed = true) : yazWriteMarc8PageChr page w room = w.refuse := by
  rw [pageChr_room] at failed ⊢
  split at failed
  · simp [pageChr_enough] at failed
  next full => rw [if_neg full]

theorem pageChr_quiet (succeeded : (yazWriteMarc8PageChr page w room).failed = false) :
    (yazWriteMarc8PageChr page w room).errno = none := by
  rw [pageChr_room] at succeeded ⊢
  split
  · exact (pageChr_enough page w).2.1
  next full => simp [full, Marc8Encoder.refuse] at succeeded

theorem pageChr_last (page : List UInt8) (w : Marc8Encoder) (room : Nat) : (yazWriteMarc8PageChr page w room).data.last = w.last := by
  rw [pageChr_room]
  split
  · exact (pageChr_enough page w).2.2.1
  · rfl

theorem pageChr_paged (paged : w.Paged) : (yazWriteMarc8PageChr page w 8).data.Paged := by
  obtain ⟨-, -, last, lpage⟩ := pageChr_enough page w
  rw [Marc8Encoder.Paged, last, lpage]
  exact paged

end

theorem pageChr_part {page : List UInt8} (inside : page ∈ pages) : Part 8 5 (yazWriteMarc8PageChr page) := by
  apply Part.of_room (pageRoom page) id (pageChr_room page)
  · simp [pageChr_enough]
  · exact fun {w} _ => pageRoom_le page w
  · exact fun paged => ⟨pageChr_paged paged, paged⟩
  · exact fun _ => (pageChr_length inside _).1
  · exact fun _ => rfl

theorem marcOctets_length (y : Nat) : (marcOctets y).length ≤ 3 := length_filter_le _ _

theorem plains_octets (octets : List UInt8) : (octets.map Item.plain).flatMap Item.octets = octets := by
  induction octets with
  | nil => rfl
  | cons _ octets ih => rw [map_cons, flatMap_cons, ih, Item.octets, singleton_append]

theorem letter_length (w : Marc8Encoder) : (w.letter.flatMap Item.octets).length ≤ 8 := by
  rw [Marc8Encoder.letter]
  split
  · rw [plains_octets, ncrOctets]
    exact length_take_le _ _
  · have short := marcOctets_length w.last
    split
    · simp only [flatMap_cons, flatMap_nil, append_nil, Item.octets]
      omega
    · rw [plains_octets]
      omega

theorem putLetter_room (w : Marc8Encoder) (room : Nat) : putLetter w room = if 10 ≤ room then putLetter w 10 else w.refuse := by
  by_cases full : room ≤ 9
  · rw [putLetter, if_pos full, if_neg (by omega)]
  · rw [putLetter, if_neg full, if_pos (show 10 ≤ room by omega)]
    rfl

theorem putLetter_short (w : Marc8Encoder) : (putLetter w 10).out.length ≤ 9 := by
  have short := letter_length w
  simp only [putLetter, Nat.reduceLeDiff, if_false, Put.out, flatMap_append, length_append]
  split
  · simp only [flatMap_nil, length_nil]
    omega
  · simp only [flatMap_cons, flatMap_nil, Item.octets, append_nil, length_singleton]
    omega

def Marc8Encoder.withHalf (x : Nat) (w : Marc8Encoder) : Marc8Encoder :=
  if x = 0x361 then { w with secondHalfChar := 0xec } else if x = 0x360 then { w with secondHalfChar := 0xfb } else w

theorem putMark_eq (x : Nat) (found : Found) (w : Marc8Encoder) (room : Nat) :
    putMark x found w room =
      if room ≤ 1 then (w.withHalf x).refuse
      else { items := [.looked x found.set.final true [UInt8.ofNat found.y]], data := w.withHalf x } := rfl

theorem putMark_data (x : Nat) (found : Found) (w : Marc8Encoder) (room : Nat) : (putMark x found w room).data = w.withHalf x := by
  rw [putMark_eq]
  split
  · rfl
  · rfl

theorem Marc8Encoder.withHalf_g0 (x : Nat) (w : Marc8Encoder) : (w.withHalf x).g0 = w.g0 := by
  rw [Marc8Encoder.withHalf]
  split
  · rfl
  · split <;> rfl

theorem Marc8Encoder.withHalf_twice (x : Nat) (w : Marc8Encoder) : (w.withHalf x).withHalf x = w.withHalf x := by
  rw [Marc8Encoder.withHalf, Marc8Encoder.withHalf]
  split
  · rfl
  · split <;> rfl

variable {w : Marc8Encoder}

theorem Marc8Encoder.withHalf_paged (paged : w.Paged) : (w.withHalf x).Paged := by
  rw [Marc8Encoder.withHalf]
  split
  · exact paged
  · split
    · exact paged
    · exact paged

theorem putMark_part (x : Nat) (found : Found) : Part 2 1 (putMark x found) := by
  apply Part.of_room (fun _ => 2) (Marc8Encoder.withHalf x)
  · intro w room
    by_cases full : room ≤ 1
    · rw [putMark_eq, if_pos full, if_neg (by omega)]
    · rw [putMark_eq, if_neg full, if_pos (by omega)]
      rfl
  · simp [putMark_eq]
  · exact fun _ => Nat.le_refl 2
  · intro w paged
    rw [putMark_data]
    exact ⟨Marc8Encoder.withHalf_paged paged, Marc8Encoder.withHalf_paged paged⟩
  · simp [putMark_eq, Put.out, Item.octets]
  · intro w
    rw [putMark_eq, putMark_eq, Marc8Encoder.withHalf_twice]

/-- A part behind another that finds its work done when the second had no room. -/
theorem Part.andThen {enough enough' length length' : Nat} {part next : Marc8Encoder → Nat → Put} (isPart : Part enough length part)
    (isNext : Part enough' length' next)
    (quiet : ∀ {w : Marc8Encoder} {room : Nat}, (part w room).failed = false → (part w room).errno = none)
    (done : ∀ {w : Marc8Encoder} {room room' : Nat}, w.Paged → (part w room).failed = false → (next (part w room).data room').Refused →
      ∀ size, part (next (part w room).data room').data size = { items := [], data := (next (part w room).data room').data }) :
    Part (max enough (length + enough')) (length + length') (fun w room => (part w room).andThen room next) := by
  have stopped {w : Marc8Encoder} {room : Nat} (failed : (part w room).failed = true) :
      (part w room).andThen room next = part w room := if_pos failed
  have goesOn {w : Marc8Encoder} {room : Nat} (succeeded : (part w room).failed = false) :
      (part w room).andThen room next =
        { next (part w room).data (room - (part w room).out.length) with
          items := (part w room).items ++ (next (part w room).data (room - (part w room).out.length)).items } := by
    rw [Put.andThen, if_neg (by simp [succeeded]), quiet succeeded]
    dsimp only
    rw [Option.or_none]
  have free {w : Marc8Encoder} {room : Nat} (succeeded : (part w room).failed = false) : ¬ (part w room).Refused := by
    rintro ⟨failed, -⟩
    rw [succeeded] at failed
    simp at failed
  constructor
  · intro w room paged
    cases failed : (part w room).failed with
    | true =>
      rw [stopped failed]
      exact isPart.keeps paged
    | false =>
      rw [goesOn failed]
      exact isNext.keeps (isPart.keeps paged)
  · intro w room failedThen
    cases failed : (part w room).failed with
    | true =>
      rw [stopped failed]
      exact isPart.named failed
    | false =>
      rw [goesOn failed] at failedThen ⊢
      exact isNext.named failedThen
  · intro w room larger paged less notRefused
    cases failed : (part w room).failed with
    | true =>
      rw [stopped failed] at notRefused ⊢
      have same := isPart.more paged less notRefused
      rw [stopped (by rw [same]; exact failed), same]
    | false =>
      have same := isPart.more paged less (free failed)
      rw [goesOn failed] at notRefused ⊢
      rw [goesOn (by rw [same]; exact failed), same, isNext.more (isPart.keeps paged) (by omega) notRefused]
  · intro w room paged isEnough
    cases failed : (part w room).failed with
    | true =>
      rw [stopped failed]
      exact isPart.fits paged (by omega)
    | false =>
      have short := @isPart.short w room paged
      rw [goesOn failed]
      exact isNext.fits (isPart.keeps paged) (by omega)
  · intro w room paged
    have short := @isPart.short w room paged
    cases failed : (part w room).failed with
    | true =>
      rw [stopped failed]
      omega
    | false =>
      have shortThen := @isNext.short (part w room).data (room - (part w room).out.length) (isPart.keeps paged)
      rw [goesOn failed, Put.out, flatMap_append, length_append]
      rw [Put.out] at short shortThen
      omega
  · intro w room large large' paged refused isEnough isEnough'
    cases failed : (part w room).failed with
    | true =>
      -- the first part was refused, and then the second starts from the same state
      rw [stopped failed] at refused ⊢
      obtain ⟨items, data, sameFailed⟩ := isPart.resumes paged refused (show enough ≤ large by omega) (show enough ≤ large' by omega)
      cases failedThen : (part (part w room).data large').failed with
      | true =>
        rw [stopped failedThen, stopped (sameFailed.trans failedThen)]
        exact ⟨items, data, sameFailed⟩
      | false =>
        have pagedThen : (part w large).data.Paged := isPart.keeps paged
        have short := @isPart.short w large paged
        have short' := @isPart.short (part w room).data large' (isPart.keeps paged)
        have same := isNext.same pagedThen (show enough' ≤ large - (part w large).out.length by omega)
          (show enough' ≤ large' - (part (part w room).data large').out.length by omega)
        rw [goesOn failedThen, goesOn (sameFailed.trans failedThen), same, data]
        refine ⟨?_, rfl, rfl⟩
        rw [items, append_assoc]
    | false =>
      -- the second part was refused, and then the first has nothing to do
      have whole := isPart.whole paged (free failed) (show enough ≤ large by omega)
      have short := @isPart.short w room paged
      rw [goesOn failed] at refused ⊢
      have idle := done paged failed refused
      obtain ⟨items, data, sameFailed⟩ := isNext.resumes (isPart.keeps paged) refused
        (show enough' ≤ large - (part w room).out.length by omega) (show enough' ≤ large' by omega)
      rw [goesOn (by rw [whole]; exact failed), whole, idle, Put.andThen, if_neg (by simp)]
      rw [items, data, sameFailed]
      exact ⟨by simp [Put.out], rfl, rfl⟩

def ifLetter (part : Marc8Encoder → Nat → Put) (w : Marc8Encoder) (room : Nat) : Put :=
  if w.last = 0 then { items := [], data := w } else part w room

def enterPage (w : Marc8Encoder) (room : Nat) : Put :=
  match w.lpage with
  | none => { items := [], data := w }
  | some page => yazWriteMarc8PageChr page w room

theorem flushCombos_eq (w : Marc8Encoder) (room : Nat) :
    flushCombos w room = (ifLetter enterPage w room).andThen room (ifLetter putLetter) := by
  by_cases none : w.last = 0
  · rw [flushCombos, if_pos none, ifLetter, if_pos none, Put.andThen, if_neg (by simp), ifLetter, if_pos none]
    rfl
  · rw [flushCombos, if_neg none, ifLetter, if_neg none, enterPage]
    cases w.lpage with
    | none =>
      rw [Put.andThen, if_neg (by simp), ifLetter, if_neg none]
      simp [Put.out]
    | some page =>
      have same : ifLetter putLetter (yazWriteMarc8PageChr page w room).data = putLetter (yazWriteMarc8PageChr page w room).data := by
        funext size
        exact if_neg (by rw [pageChr_last]; exact none)
      simp only [Put.andThen, same]

theorem ifLetter_enterPage_part : Part 8 5 (ifLetter enterPage) := by
  apply Part.of_room (fun w => if w.last = 0 then 0 else w.lpage.elim 0 fun page => pageRoom page w) id
  · intro w room
    rw [ifLetter, ifLetter, enterPage, enterPage]
    split
    · rfl
    · cases w.lpage with
      | none => rfl
      | some page => exact pageChr_room page w room
  · intro w
    rw [ifLetter, enterPage]
    repeat' split
    all_goals simp [pageChr_enough]
  · intro w _
    split
    · exact Nat.zero_le _
    · cases w.lpage with
      | none => exact Nat.zero_le _
      | some page => exact pageRoom_le page w
  · intro w paged
    refine ⟨?_, paged⟩
    rw [ifLetter, enterPage]
    split
    · exact paged
    · split
      · exact paged
      · exact pageChr_paged paged
  · intro w paged
    rw [ifLetter]
    split
    · exact Nat.zero_le _
    next some =>
      obtain ⟨page, inside, lpage⟩ := paged some
      rw [enterPage, lpage]
      exact (pageChr_length inside _).1
  · exact fun _ => rfl

theorem ifLetter_putLetter_part : Part 10 9 (ifLetter putLetter) := by
  apply Part.of_room (fun w => if w.last = 0 then 0 else 10) id
  · intro w room
    rw [ifLetter, ifLetter]
    split
    · rfl
    · exact putLetter_room w room
  · intro w
    rw [ifLetter]
    split <;> simp [putLetter]
  · intro w _
    split <;> decide
  · intro w paged
    refine ⟨?_, paged⟩
    rw [ifLetter]
    split
    · exact paged
    · exact fun some => absurd rfl some
  · intro w _
    rw [ifLetter]
    split
    · exact Nat.zero_le _
    · exact putLetter_short w
  · exact fun _ => rfl

theorem flushCombos_part : Part 15 14 flushCombos := by
  have joined : flushCombos = fun w room => (ifLetter enterPage w room).andThen room (ifLetter putLetter) := by
    funext w room
    exact flushCombos_eq w room
  rw [joined]
  apply ifLetter_enterPage_part.andThen ifLetter_putLetter_part
  · intro w room succeeded
    rw [ifLetter] at succeeded ⊢
    split
    · rfl
    next some =>
      rw [if_neg some] at succeeded
      rw [enterPage] at succeeded ⊢
      split
      · rfl
      next page is =>
        rw [is] at succeeded
        exact pageChr_quiet succeeded
  · intro w room room' paged succeeded refused size
    by_cases none : w.last = 0
    · have idle : ifLetter enterPage w room = { items := [], data := w } := if_pos none
      rw [idle, ifLetter, if_pos none] at refused
      simp [Put.Refused] at refused
    · obtain ⟨page, inside, lpage⟩ := paged none
      have entered : ifLetter enterPage w room = yazWriteMarc8PageChr page w room := by rw [ifLetter, if_neg none, enterPage, lpage]
      rw [entered] at succeeded refused ⊢
      obtain ⟨same, arrived⟩ := @pageChr_data w page inside room
      have here := arrived succeeded
      have data : (ifLetter putLetter (yazWriteMarc8PageChr page w room).data room').data = (yazWriteMarc8PageChr page w room).data := by
        rw [ifLetter] at refused ⊢
        split
        · rfl
        next some =>
          rw [if_neg some] at refused
          rw [putLetter] at refused ⊢
          split
          · rfl
          next fits => simp [fits, Put.Refused] at refused
      rw [data, ifLetter, if_neg (by rw [pageChr_last]; exact none), enterPage]
      rw [show (yazWriteMarc8PageChr page w room).data.lpage = some page by rw [same]; exact lpage]
      exact pageChr_same inside here size

def setLetter (y : Nat) (page : List UInt8) (ncr : Bool) (origin : Option (Nat × UInt8)) (w : Marc8Encoder) (_ : Nat) : Put :=
  { items := [], data := { w with last := y, lpage := some page, ncr := ncr, origin := origin } }

theorem flushCombos_done (succeeded : (flushCombos w room).failed = false) :
    (flushCombos w room).errno = none ∧ (flushCombos w room).data.last = 0 := by
  have letter {w : Marc8Encoder} {room : Nat} (succeeded : (putLetter w room).failed = false) :
      (putLetter w room).errno = none ∧ (putLetter w room).data.last = 0 := by
    rw [putLetter] at succeeded ⊢
    split
    next full => simp [full, Marc8Encoder.refuse] at succeeded
    · exact ⟨rfl, rfl⟩
  rw [flushCombos] at succeeded ⊢
  split
  next none => exact ⟨rfl, none⟩
  next some =>
    rw [if_neg some] at succeeded
    split
    next is =>
      rw [is] at succeeded
      exact letter succeeded
    next page is =>
      rw [is] at succeeded
      dsimp only at succeeded
      cases failed : (yazWriteMarc8PageChr page w room).failed with
      | true =>
        rw [Put.andThen, if_pos failed, failed] at succeeded
        simp at succeeded
      | false =>
        rw [Put.andThen, if_neg (by simp [failed])] at succeeded ⊢
        obtain ⟨errno, last⟩ := letter succeeded
        dsimp only
        rw [errno, pageChr_quiet failed]
        exact ⟨rfl, last⟩

theorem keepLetter_part {y : Nat} {page : List UInt8} {ncr : Bool} {origin : Option (Nat × UInt8)} (inside : page ∈ pages) :
    Part 15 14 (keepLetter y page ncr origin) := by
  have set : Part 0 0 (setLetter y page ncr origin) := by
    apply Part.of_room (fun _ => 0) id
    · exact fun _ _ => rfl
    · simp [setLetter]
    · exact fun _ => Nat.le_refl 0
    · exact fun paged => ⟨fun _ => ⟨page, inside, rfl⟩, paged⟩
    · simp [setLetter, Put.out]
    · exact fun _ => rfl
  apply flushCombos_part.andThen set
  · exact fun succeeded => (flushCombos_done succeeded).1
  · intro w room room' _ _ refused
    simp [setLetter, Put.Refused] at refused

theorem Part.mono {enough length enough' length' : Nat} {part : Marc8Encoder → Nat → Put} (isPart : Part enough length part)
    (more : enough ≤ enough') (longer : length ≤ length') : Part enough' length' part := by
  refine ⟨isPart.keeps, isPart.named, isPart.more, ?_, ?_, ?_⟩
  · exact fun paged isEnough => isPart.fits paged (by omega)
  · exact fun paged => Nat.le_trans (isPart.short paged) longer
  · exact fun paged refused isEnough isEnough' => isPart.resumes paged refused (by omega) (by omega)

theorem flushMarc8_part : Part 22 19 flushMarc8 := by
  have ascii : escAscii ∈ pages := by decide
  have toAscii : Part 8 5 (fun w room => yazWriteMarc8PageChr escAscii { w with g1 := none } room) := by
    apply Part.of_room (fun w => pageRoom escAscii { w with g1 := none }) (fun w => { w with g1 := none }) fun w => pageChr_room escAscii _
    · simp [pageChr_enough]
    · exact fun _ => pageRoom_le _ _
    · exact fun paged => ⟨pageChr_paged paged, paged⟩
    · exact fun _ => (pageChr_length ascii _).1
    · exact fun _ => rfl
  have joined := flushCombos_part.andThen toAscii (fun succeeded => (flushCombos_done succeeded).1) ?_
  · exact joined
  · intro w room room' _ succeeded refused size
    have none : (flushCombos w room).data.last = 0 := (flushCombos_done succeeded).2
    rw [pageChr_failed refused.1, flushCombos]
    exact if_pos none

theorem Part.noted {enough length : Nat} {part : Marc8Encoder → Nat → Put} (isPart : Part enough length part) :
    Part enough length (fun w room => { part w room with errno := (part w room).errno.or (some .eilseq) }) := by
  have refused {put : Put} : { put with errno := put.errno.or (some .eilseq) }.Refused ↔ put.Refused := by
    rw [Put.Refused, Put.Refused]
    cases put.errno <;> simp
  constructor
  · exact isPart.keeps
  · intro w room _
    cases (part w room).errno <;> simp
  · intro w room larger paged less notRefused
    rw [isPart.more paged less (fun is => notRefused (refused.mpr is))]
  · exact fun paged isEnough is => isPart.fits paged isEnough (refused.mp is)
  · exact isPart.short
  · exact fun paged is => isPart.resumes paged (refused.mp is)

section
variable (r : Marc8rConv) (lossMode : LossMode)

theorem yazWriteMarc82_part (x : Nat) : Part 15 14 (fun w => yazWriteMarc82 r lossMode w x) := by
  have ascii : escAscii ∈ pages := by decide
  cases looked : r.lookupMarc8 x with
  | some found =>
    have inside := sets_pages (lookupMarc8_mem looked).1
    cases comb : found.comb with
    | true =>
      have same : (fun w => yazWriteMarc82 r lossMode w x) =
          fun w room => (yazWriteMarc8PageChr found.set.page w room).andThen room (putMark x found) := by
        funext w room
        rw [yazWriteMarc82, looked]
        dsimp only
        rw [comb, if_pos rfl]
      have joined := (pageChr_part inside).andThen (putMark_part x found) pageChr_quiet ?_
      · rw [same]
        exact joined.mono (by decide) (by decide)
      · intro w room room' _ succeeded refused size
        apply pageChr_same inside
        have here := (@pageChr_data w _ inside room).2 succeeded
        rw [putMark_data, Marc8Encoder.withHalf_g0]
        exact here
    | false =>
      have same : (fun w => yazWriteMarc82 r lossMode w x) = keepLetter found.y found.set.page false (some (x, found.set.final)) := by
        funext w room
        rw [yazWriteMarc82, looked]
        dsimp only
        rw [comb, if_neg (by simp)]
      rw [same]
      exact keepLetter_part inside
  | none =>
    cases stands : lossMode.standIn x with
    | none =>
      have same : (fun w => yazWriteMarc82 r lossMode w x) =
          fun (w : Marc8Encoder) (_ : Nat) => ({ items := [], data := w, failed := true, errno := some .eilseq } : Put) := by
        funext w room
        rw [yazWriteMarc82, looked]
        rw [stands]
      rw [same]
      refine Part.mono (?_ : Part 0 14 _) (Nat.zero_le 15) (Nat.le_refl 14)
      apply Part.of_room (fun _ => 0) id
      · exact fun _ _ => rfl
      · simp
      · exact fun _ => Nat.le_refl 0
      · exact fun paged => ⟨paged, paged⟩
      · simp [Put.out]
      · exact fun _ => rfl
    | some both =>
      obtain ⟨y, ncr⟩ := both
      have same : (fun w => yazWriteMarc82 r lossMode w x) = fun w room =>
          { keepLetter y escAscii ncr none w room with errno := (keepLetter y escAscii ncr none w room).errno.or (some .eilseq) } := by
        funext w room
        rw [yazWriteMarc82, looked]
        rw [stands]
      rw [same]
      exact (keepLetter_part ascii).noted

def Marc8Encoder.back (w' w : Marc8Encoder) : Marc8Encoder := { w' with last := w.last, ncr := w.ncr, lpage := w.lpage, origin := w.origin }

/-- The letter that was kept back is not all that changes when it is written, or cannot be put back: it is on another page, or
has a second half behind it, or does not fit in an `int`. With the tables of the source `x1` is a letter and `x2` a mark. -/
def Marc8Encoder.unsettled (w : Marc8Encoder) (x1 x2 : Nat) : Bool :=
  decide (w.last ≠ 0 ∧ (w.lpage ≠ w.g0 ∨ w.secondHalfChar ≠ 0)) || decide (2 ^ 31 ≤ w.last) ||
    (r.lookupMarc8 x1).any Found.comb || !(r.lookupMarc8 x2).any Found.comb

def Marc8Encoder.goodRoom (w : Marc8Encoder) (x outbytesleft : Nat) : Bool :=
  match yazIso88591LookupY x with
  | none => true
  | some (x1, x2) =>
    let first := yazWriteMarc82 r lossMode w x1 outbytesleft
    let second := yazWriteMarc82 r lossMode first.data x2 (outbytesleft - first.out.length)
    first.failed || !(second.failed && second.errno = some .e2big && w.unsettled r x1 x2)

section
variable {r lossMode}
variable {w : Marc8Encoder}

theorem flushCombos_back (paged : w.Paged) (settled : w.last ≠ 0 → w.lpage = w.g0 ∧ w.secondHalfChar = 0) (room : Nat) :
    (flushCombos w room).data.back w = w := by
  rw [flushCombos]
  split
  · rfl
  next some =>
    obtain ⟨page, inside, lpage⟩ := paged some
    obtain ⟨here, half⟩ := settled some
    rw [lpage]
    dsimp only
    rw [pageChr_same inside (here.symm.trans lpage), Put.andThen, if_neg (by simp), putLetter]
    split
    · rfl
    · dsimp only [Marc8Encoder.back]
      rw [← half]

theorem keptLetter_back {x : Nat} (paged : w.Paged) (settled : w.last ≠ 0 → w.lpage = w.g0 ∧ w.secondHalfChar = 0)
    (letter : (r.lookupMarc8 x).any Found.comb = false) (room : Nat) : (yazWriteMarc82 r lossMode w x room).data.back w = w := by
  have flushed := flushCombos_back paged settled room
  have kept (y : Nat) (page : List UInt8) (ncr : Bool) (origin : Option (Nat × UInt8)) :
    (keepLetter y page ncr origin w room).data.back w = w := by
    rw [keepLetter, Put.andThen]
    split
    · exact flushed
    · exact flushed
  rw [yazWriteMarc82]
  cases looked : r.lookupMarc8 x with
  | some =>
    rw [looked] at letter
    dsimp only
    rw [if_neg (by simpa using letter), kept]
  | none =>
    dsimp only
    split
    · rfl
    · exact kept _ _ _ _

theorem refusedMark_data (single : x ≠ 0x360 ∧ x ≠ 0x361) (mark : (r.lookupMarc8 x).any Found.comb = true)
    (refused : (yazWriteMarc82 r lossMode w x room).failed = true) : (yazWriteMarc82 r lossMode w x room).data = w := by
  obtain ⟨found, looked, comb⟩ := (Option.any_eq_true _ _).mp mark
  have inside := sets_pages (lookupMarc8_mem looked).1
  obtain ⟨length, enough, -⟩ := @pageChr_length w _ inside room
  rw [yazWriteMarc82, looked] at refused ⊢
  dsimp only at refused ⊢
  rw [comb, if_pos rfl, Put.andThen] at refused ⊢
  split
  next failed => rw [pageChr_failed failed, Marc8Encoder.refuse]
  next succeeded =>
    rw [if_neg succeeded] at refused
    -- behind a page that was entered there is room for the mark
    have stays : (yazWriteMarc8PageChr found.set.page w room).data.g0 = w.g0 := by
      by_contra other
      have large := enough (by simpa using succeeded) other
      rw [putMark_eq, if_neg (by omega)] at refused
      simp at refused
    have here := (@pageChr_data w _ inside room).2 (by simpa using succeeded)
    rw [putMark_data, pageChr_same inside (stays.symm.trans here), Marc8Encoder.withHalf, if_neg single.2, if_neg single.1]

theorem lookupY_single {x1 x2 : Nat} (decomposed : yazIso88591LookupY x = some (x1, x2)) : x2 ≠ 0x360 ∧ x2 ≠ 0x361 := by
  have rows : ∀ row ∈ latin1Comb, row.2.1 ≠ 0x360 ∧ row.2.1 ≠ 0x361 := by decide
  rw [yazIso88591LookupY] at decomposed
  split at decomposed
  · obtain ⟨row, found, is⟩ := Option.map_eq_some_iff.mp decomposed
    have single := rows row (mem_of_find?_eq_some found)
    simp only [Prod.mk.injEq] at is
    rw [← is.2]
    exact single
  · simp at decomposed

theorem takenBack_data {x1 x2 : Nat} (paged : w.Paged) (decomposed : yazIso88591LookupY x = some (x1, x2))
    (settled : w.unsettled r x1 x2 = false)
    (refused : (yazWriteMarc82 r lossMode (yazWriteMarc82 r lossMode w x1 room).data x2
      (room - (yazWriteMarc82 r lossMode w x1 room).out.length)).failed = true) :
    ((yazWriteMarc82 r lossMode (yazWriteMarc82 r lossMode w x1 room).data x2
      (room - (yazWriteMarc82 r lossMode w x1 room).out.length)).takenBack w).data = w := by
  simp only [Marc8Encoder.unsettled, Bool.or_eq_false_iff, decide_eq_false_iff_not, Bool.not_eq_false'] at settled
  obtain ⟨⟨⟨only, small⟩, letter⟩, mark⟩ := settled
  have same := @keptLetter_back r lossMode w x1 paged (fun some => by simpa [some] using only) letter room
  have second := refusedMark_data (lookupY_single decomposed) mark refused
  have kept : keptInt w.last = w.last := by
    rw [keptInt, Nat.mod_eq_of_lt (by omega), if_pos (by omega)]
  rw [Put.takenBack, second, kept]
  exact same

end

theorem Part.resumable {enough length : Nat} {part : Marc8Encoder → Nat → Put} (isPart : Part enough length part) (isEnough : enough ≤ 32)
    (good : Marc8Encoder → Nat → Bool) : Resumable Marc8Encoder.Paged (fun _ => 32) good (fun w room => (part w room).written) := by
  constructor
  · exact fun paged _ => isPart.keeps paged
  · exact isPart.named
  · intro w room paged notRefused
    rw [isPart.whole paged notRefused isEnough]
    exact ⟨rfl, rfl⟩
  · intro w room paged refused _
    obtain ⟨items, data, -⟩ := isPart.resumes paged refused isEnough isEnough
    dsimp only [Put.written, Put.out]
    rw [items, data, flatMap_append]
    exact ⟨rfl, rfl⟩

def Put.followedBy (first second : Put) : Put := { second with items := first.items ++ second.items, errno := second.errno.or first.errno }

def inTwo (part next : Marc8Encoder → Nat → Put) (w : Marc8Encoder) (room : Nat) : Put :=
  let first := part w room
  if first.failed then first
  else
    let second := next first.data (room - first.out.length)
    if second.failed ∧ second.errno = some .e2big then second.takenBack w else first.followedBy second

section
variable {part next : Marc8Encoder → Nat → Put}

theorem inTwo_stopped (failed : (part w room).failed = true) : inTwo part next w room = part w room := if_pos failed

theorem inTwo_takenBack (succeeded : (part w room).failed = false)
    (refused : (next (part w room).data (room - (part w room).out.length)).Refused) :
    inTwo part next w room = (next (part w room).data (room - (part w room).out.length)).takenBack w := by
  have free : ¬ (part w room).failed = true := by simp [succeeded]
  exact (if_neg free).trans (if_pos refused)

theorem inTwo_goesOn (succeeded : (part w room).failed = false)
    (fits : ¬ (next (part w room).data (room - (part w room).out.length)).Refused) :
    inTwo part next w room = (part w room).followedBy (next (part w room).data (room - (part w room).out.length)) := by
  have free : ¬ (part w room).failed = true := by simp [succeeded]
  exact (if_neg free).trans (if_neg fits)

theorem notRefused_of_succeeded {put : Put} (succeeded : put.failed = false) : ¬ put.Refused := by
  rintro ⟨failed, -⟩
  rw [succeeded] at failed
  simp at failed

theorem followedBy_refused {enough length : Nat} (isNext : Part enough length next) {first : Put}
    (fits : ¬ (next w room).Refused) : ¬ (first.followedBy (next w room)).Refused := by
  rintro ⟨failed, errno⟩
  apply fits
  have named := isNext.named failed
  dsimp only [Put.followedBy] at failed errno
  cases is : (next w room).errno with
  | none => exact absurd is named
  | some =>
    rw [is, Option.some_or] at errno
    exact ⟨failed, is.trans errno⟩

variable {enough length : Nat} (isPart : Part enough length part) (isNext : Part enough length next) (isEnough : enough + length ≤ 32)

include isPart isNext isEnough

theorem inTwo_enough (paged : w.Paged) (succeeded : (part w 32).failed = false) :
    inTwo part next w 32 = (part w 32).followedBy (next (part w 32).data 32) := by
  have short := @isPart.short w 32 paged
  have keeps := @isPart.keeps w 32 paged
  have same := isNext.same keeps (show enough ≤ 32 - (part w 32).out.length by omega) (show enough ≤ 32 by omega)
  rw [inTwo_goesOn succeeded (isNext.fits keeps (by omega)), same]

theorem inTwo_resumable {good : Marc8Encoder → Nat → Bool}
    (putBack : ∀ {w : Marc8Encoder} {room : Nat}, w.Paged → good w room = true → (part w room).failed = false →
      (next (part w room).data (room - (part w room).out.length)).Refused →
      ((next (part w room).data (room - (part w room).out.length)).takenBack w).data = w) :
    Resumable Marc8Encoder.Paged (fun _ => 32) good (fun w room => (inTwo part next w room).written) := by
  constructor
  · intro w room paged free
    cases failed : (part w room).failed with
    | true =>
      rw [inTwo_stopped failed]
      exact isPart.keeps paged
    | false =>
      by_cases refused : (next (part w room).data (room - (part w room).out.length)).Refused
      · rw [inTwo_takenBack failed refused] at free ⊢
        have is := putBack paged (free.resolve_left (fun notRefused => notRefused refused)) failed refused
        exact Eq.mpr (congrArg Marc8Encoder.Paged is) paged
      · rw [inTwo_goesOn failed refused]
        exact isNext.keeps (isPart.keeps paged)
  · intro w room failedThen
    cases failed : (part w room).failed with
    | true =>
      rw [inTwo_stopped failed]
      exact isPart.named failed
    | false =>
      by_cases refused : (next (part w room).data (room - (part w room).out.length)).Refused
      · rw [inTwo_takenBack failed refused]
        exact isNext.named refused.1
      · rw [inTwo_goesOn failed refused] at failedThen ⊢
        have named := isNext.named failedThen
        dsimp only [Put.followedBy, Put.written]
        rw [Ne, Option.or_eq_none_iff]
        exact fun none => named none.1
  · intro w room paged free
    cases failed : (part w room).failed with
    | true =>
      rw [inTwo_stopped failed] at free ⊢
      have whole := isPart.whole paged free (show enough ≤ 32 by omega)
      rw [inTwo_stopped (by rw [whole]; exact failed), whole]
      exact ⟨rfl, rfl⟩
    | false =>
      have whole := isPart.whole paged (notRefused_of_succeeded failed) (show enough ≤ 32 by omega)
      by_cases refused : (next (part w room).data (room - (part w room).out.length)).Refused
      · rw [inTwo_takenBack failed refused] at free
        exact absurd refused free
      · have wholeThen := isNext.whole (isPart.keeps paged) refused (show enough ≤ 32 by omega)
        rw [inTwo_goesOn failed refused, inTwo_enough isPart isNext isEnough paged (by rw [whole]; exact failed), whole, wholeThen]
        exact ⟨rfl, rfl⟩
  · intro w room paged refusedThen isGood
    cases failed : (part w room).failed with
    | true =>
      -- the first was refused: it goes on, and the second starts from the same state
      rw [inTwo_stopped failed] at refusedThen ⊢
      obtain ⟨items, data, sameFailed⟩ := isPart.resumes paged refusedThen (show enough ≤ 32 by omega) (show enough ≤ 32 by omega)
      have keeps := @isPart.keeps w room paged
      cases failedThen : (part (part w room).data 32).failed with
      | true =>
        rw [inTwo_stopped (sameFailed.trans failedThen)]
        dsimp only [Put.written]
        rw [inTwo_stopped failedThen, Put.out, Put.out, Put.out, items, data, flatMap_append]
        exact ⟨rfl, rfl⟩
      | false =>
        rw [inTwo_enough isPart isNext isEnough paged (sameFailed.trans failedThen)]
        dsimp only [Put.written]
        rw [inTwo_enough isPart isNext isEnough keeps failedThen, ← data]
        dsimp only [Put.followedBy, Put.out]
        rw [items]
        simp only [flatMap_append, append_assoc, and_self]
    | false =>
      by_cases refused : (next (part w room).data (room - (part w room).out.length)).Refused
      · have is := putBack paged isGood failed refused
        rw [inTwo_takenBack failed refused]
        dsimp only [Put.written]
        rw [is]
        exact ⟨rfl, rfl⟩
      · rw [inTwo_goesOn failed refused] at refusedThen
        exact absurd refusedThen (followedBy_refused isNext refused)

end

theorem yazWriteMarc8Generic_resumable (x : Nat) :
    Resumable Marc8Encoder.Paged (fun _ => 32) (fun w => w.goodRoom r lossMode x)
      (fun w room => (yazWriteMarc8Generic r lossMode w x room).written) := by
  rcases decomposed : yazIso88591LookupY x with _ | ⟨x1, x2⟩
  · have same : (fun w room => (yazWriteMarc8Generic r lossMode w x room).written) = fun w room =>
      (yazWriteMarc82 r lossMode w x room).written := by
      funext w room
      rw [yazWriteMarc8Generic, decomposed]
    rw [same]
    exact (yazWriteMarc82_part r lossMode x).resumable (by decide) _
  · have same : (fun w room => (yazWriteMarc8Generic r lossMode w x room).written) =
        fun w room => (inTwo (fun w => yazWriteMarc82 r lossMode w x1) (fun w => yazWriteMarc82 r lossMode w x2) w room).written := by
      funext w room
      rw [yazWriteMarc8Generic, decomposed]
      rfl
    rw [same]
    apply inTwo_resumable (yazWriteMarc82_part r lossMode x1) (yazWriteMarc82_part r lossMode x2) (by decide)
    intro w room paged good succeeded refused
    apply takenBack_data paged decomposed _ refused.1
    rw [Marc8Encoder.goodRoom, decomposed] at good
    simpa [succeeded, refused.1, refused.2] using good

theorem marc8Flush_resumable : Resumable Marc8Encoder.Paged (fun _ => 32) (fun _ _ => true) (marc8Encoder r lossMode).flushed :=
  flushMarc8_part.resumable (by decide) _

theorem initMarc8Encoder_paged : initMarc8Encoder.Paged := fun some => absurd rfl some

def marc8Resumes : Resumes (marc8Encoder r lossMode) :=
  { valid := Marc8Encoder.Paged
    bound := fun _ => 32
    good := Marc8Encoder.goodRoom r lossMode
    goodFlush := fun _ _ => true
    initValid := fun _ => initMarc8Encoder_paged
    write := yazWriteMarc8Generic_resumable r lossMode
    flush := marc8Flush_resumable r lossMode }

end

inductive Tocode where
  | marc8 (lossMode : LossMode)
  | iso88591
  | danmarc
  | utf8
  deriving DecidableEq

def Tocode.Data : Tocode → Type
  | .marc8 _ => Marc8Encoder
  | .iso88591 => Nat
  | .danmarc => DanmarcEncoder
  | .utf8 => Unit

def Tocode.encoder (r : Marc8rConv) : (code : Tocode) → Encoder code.Data
  | .marc8 lossMode => marc8Encoder r lossMode
  | .iso88591 => iso88591Encoder
  | .danmarc => danmarcEncoder
  | .utf8 => utf8Encoder

def Tocode.resumes (r : Marc8rConv) : (code : Tocode) → Resumes (code.encoder r)
  | .marc8 lossMode => marc8Resumes r lossMode
  | .iso88591 => iso88591Resumes
  | .danmarc => danmarcResumes
  | .utf8 => utf8Resumes

/-- Whatever the sizes of the buffers are, the octets are those of one call with enough room. -/
theorem produced_atOnce {D : Type} (decoder : Decoder D) (r : Marc8rConv) (code : Tocode) {cd : Cd D code.Data} {inbuf : List UInt8}
    {rooms flushRooms : List Nat} {enough enoughFlush : Nat} (opened : cd.initFlag = true)
    (finishes : Finishes decoder (code.encoder r) cd inbuf rooms flushRooms = true)
    (good : GoodSchedule decoder (code.resumes r) cd inbuf rooms flushRooms)
    (finishesAtOnce : Finishes decoder (code.encoder r) cd inbuf [enough] [enoughFlush] = true) :
    produced decoder (code.encoder r) cd inbuf rooms flushRooms = produced decoder (code.encoder r) cd inbuf [enough] [enoughFlush] :=
  produced_eq (code.resumes r) opened finishes good finishesAtOnce

def sampleEastAsian : Marc8rConv := { sampleMarc8r with conv31 := oneBack [0xe4, 0xb8, 0x80] 0x213021 false }

def openedToMarc8 : Cd Fromcode.utf8.Data (Tocode.marc8 .normal).Data :=
  { myErrno := .unknown, initFlag := true, noReadX := 0, ungetX := 0, encoder := initMarc8Encoder, decoder := () }

/-- The letter a with its mark, twice, in buffers that are too small at first. -/
theorem produced_smallRooms :
    let decoder := Fromcode.utf8.decoder sampleGenerated 0
    let encoder := (Tocode.marc8 .normal).encoder sampleEastAsian
    produced decoder encoder openedToMarc8 [0xc3, 0xa0, 0xc3, 0xa0] [1, 10, 100] [5, 40] =
      produced decoder encoder openedToMarc8 [0xc3, 0xa0, 0xc3, 0xa0] [100] [40] :=
  produced_atOnce (Fromcode.utf8.decoder sampleGenerated 0) sampleEastAsian (.marc8 .normal) rfl (by decide +kernel) (by decide +kernel)
    (by decide +kernel)

/-- The page of a letter is noted but not written, where the mark of the next one has no room. -/
theorem produced_lostPage :
    let decoder := Fromcode.utf8.decoder sampleGenerated 0
    let encoder := (Tocode.marc8 .normal).encoder sampleEastAsian
    let inbuf : List UInt8 := [0xe4, 0xb8, 0x80, 0xc3, 0xa0]
    Finishes decoder encoder openedToMarc8 inbuf [13, 100] [100] = true ∧ Finishes decoder encoder openedToMarc8 inbuf [100] [100] = true ∧
      produced decoder encoder openedToMarc8 inbuf [13, 100] [100] = [0x21, 0x30, 0x21, 27, 40, 66, 0xe1, 0x61] ∧
      produced decoder encoder openedToMarc8 inbuf [100] [100] = [27, 36, 49, 0x21, 0x30, 0x21, 27, 40, 66, 0xe1, 0x61] := by
  decide +kernel

end Yaz.Iconv
