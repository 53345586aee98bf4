import Mathlib.Data.List.Basic

/-! The markup of a text: its tags, without the values of attributes, and its comments.

A text is read octet by octet, so that what a part of it gives depends on the mode before it only.
-/

set_option autoImplicit false

namespace Yaz.Foundation.Markup
open List

inductive Token where
  /-- What stands between the angles, with the values left out. -/
  | start (name : List UInt8)
  | stop (name : List UInt8)
  | comment
  /-- An angle that closes nothing, as the end of a comment that was closed before. -/
  | stray
  /-- A tag or a comment has no end. -/
  | unfinished
  deriving DecidableEq

inductive Mode where
  | text
  | opened
  | bang
  | bangDash
  /-- In a comment behind so many dashes, two at most. -/
  | comment (dashes : Nat)
  | tag (name : List UInt8)
  | quoted (name : List UInt8) (quote : UInt8)
  deriving DecidableEq

def lt : UInt8 := 60
def gt : UInt8 := 62
def quot : UInt8 := 34
def apos : UInt8 := 39
def dash : UInt8 := 45

def tagToken : List UInt8 → Token
  | 47 :: name => .stop name
  | name => .start name

def tagStep (name : List UInt8) (c : UInt8) : Mode × List Token :=
  if c = gt then (.text, [tagToken name])
  else if c = quot ∨ c = apos then (.quoted name c, [])
  else (.tag (name ++ [c]), [])

def step : Mode → UInt8 → Mode × List Token
  | .text, c => if c = lt then (.opened, []) else if c = gt then (.text, [.stray]) else (.text, [])
  | .opened, c => if c = 33 then (.bang, []) else tagStep [] c
  | .bang, c => if c = dash then (.bangDash, []) else tagStep [33] c
  | .bangDash, c => if c = dash then (.comment 0, []) else tagStep [33, dash] c
  | .comment dashes, c =>
    if c = dash then (.comment (min 2 (dashes + 1)), [])
    else if c = gt ∧ dashes = 2 then (.text, [.comment])
    else (.comment 0, [])
  | .tag name, c => tagStep name c
  | .quoted name quote, c => if c = quote then (.tag (name ++ [quote, quote]), []) else (.quoted name quote, [])

def run : Mode → List UInt8 → Mode × List Token
  | mode, [] => (mode, [])
  | mode, c :: text => ((run (step mode c).1 text).1, (step mode c).2 ++ (run (step mode c).1 text).2)

def tokens (text : List UInt8) : List Token :=
  (run .text text).2 ++ if (run .text text).1 = .text then [] else [.unfinished]

attribute [local simp] step run

theorem run_append (mode : Mode) (first second : List UInt8) :
    run mode (first ++ second) = ((run (run mode first).1 second).1, (run mode first).2 ++ (run (run mode first).1 second).2) := by
  induction first generalizing mode with
  | nil => rfl
  | cons _ _ ih => rw [cons_append, run, ih, run, append_assoc]

theorem run_then {mode middle final : Mode} {first second : List UInt8} {before behind : List Token}
    (one : run mode first = (middle, before))
    (two : run middle second = (final, behind)) : run mode (first ++ second) = (final, before ++ behind) := by
  rw [run_append, one, two]

variable {mode : Mode}

theorem run_through {text : List UInt8} (stays : ∀ c ∈ text, step mode c = (mode, [])) : run mode text = (mode, []) := by
  induction text with
  | nil => rfl
  | cons c _ ih =>
    rw [run, stays c mem_cons_self, ih fun d inside => stays d (mem_cons_of_mem c inside)]
    rfl

theorem run_text {text : List UInt8} (noLt : lt ∉ text) (noGt : gt ∉ text) : run .text text = (.text, []) := by
  apply run_through
  intro c inside
  rw [step, if_neg fun is : c = lt => noLt (is ▸ inside), if_neg fun is : c = gt => noGt (is ▸ inside)]

theorem run_quoted {text name : List UInt8} {quote : UInt8} (noQuote : quote ∉ text) :
    run (.quoted name quote) text = (.quoted name quote, []) := by
  apply run_through
  intro c inside
  exact if_neg fun is : c = quote => noQuote (is ▸ inside)

theorem run_tag {text : List UInt8} (plain : ∀ c ∈ text, c ≠ gt ∧ c ≠ quot ∧ c ≠ apos) (name : List UInt8) :
    run (.tag name) text = (.tag (name ++ text), []) := by
  induction text generalizing name with
  | nil => rw [run, append_nil]
  | cons c _ ih =>
    obtain ⟨noGt, noQuot, noApos⟩ := plain c mem_cons_self
    have moved : step (.tag name) c = (.tag (name ++ [c]), []) := by
      rw [step, tagStep, if_neg noGt, if_neg (fun either => either.elim noQuot noApos)]
    rw [run, moved, ih fun d inside => plain d (mem_cons_of_mem c inside), append_assoc]
    rfl

def Leaks (comment : List UInt8) : Prop := ∃ before behind, comment = before ++ [dash, dash, gt] ++ behind

variable {comment : List UInt8}

theorem Leaks.mem (leaks : Leaks comment) : dash ∈ comment ∧ gt ∈ comment := by
  obtain ⟨before, behind, rfl⟩ := leaks
  simp

theorem step_comment_dash (dashes : Nat) : step (.comment dashes) dash = (.comment (min 2 (dashes + 1)), []) := by
  rw [step, if_pos rfl]

theorem step_comment_other {dashes : Nat} {c : UInt8} (noDash : c ≠ dash) (noEnd : ¬ (c = gt ∧ dashes = 2)) :
    step (.comment dashes) c = (.comment 0, []) := by
  rw [step, if_neg noDash, if_neg noEnd]

theorem run_comment (text : List UInt8) (dashes : Nat) (two : dashes ≤ 2) :
    (∃ k, run (.comment dashes) text = (.comment k, [])) ∨
      ∃ before behind, text = before ++ gt :: behind ∧ run (.comment dashes) (before ++ [gt]) = (.text, [.comment]) ∧
        [dash, dash] <:+ List.replicate dashes dash ++ before := by
  induction text generalizing dashes with
  | nil => exact Or.inl ⟨dashes, rfl⟩
  | cons c text ih =>
    by_cases isDash : c = dash
    · cases isDash
      rcases ih (min 2 (dashes + 1)) (Nat.min_le_left _ _) with ⟨k, ran⟩ | ⟨before, behind, parts, ran, closes⟩
      · left
        refine ⟨k, ?_⟩
        rw [run, step_comment_dash, ran]
        rfl
      · right
        refine ⟨dash :: before, behind, by rw [parts]; rfl, ?_, ?_⟩
        · rw [cons_append, run, step_comment_dash, ran]
          rfl
        · have more : List.replicate dashes dash ++ dash :: before = List.replicate (dashes + 1) dash ++ before := by
            rw [replicate_succ', append_assoc]
            rfl
          rw [more]
          by_cases full : dashes = 2
          · rw [full] at closes ⊢
            exact closes.trans ⟨[dash], rfl⟩
          · rwa [Nat.min_eq_right (by omega)] at closes
    · by_cases ends : c = gt ∧ dashes = 2
      · right
        obtain ⟨rfl, rfl⟩ := ends
        exact ⟨[], text, rfl, rfl, suffix_refl _⟩
      · rcases ih 0 (Nat.zero_le 2) with ⟨k, ran⟩ | ⟨before, behind, parts, ran, closes⟩
        · left
          refine ⟨k, ?_⟩
          rw [run, step_comment_other isDash ends, ran]
          rfl
        · right
          refine ⟨c :: before, behind, by rw [parts]; rfl, ?_, ?_⟩
          · rw [cons_append, run, step_comment_other isDash ends, ran]
            rfl
          · exact closes.trans ⟨List.replicate dashes dash ++ [c], by simp⟩

def commentEnd : List UInt8 := [32, dash, dash, gt]

theorem run_commentEnd (dashes : Nat) : run (.comment dashes) commentEnd = (.text, [.comment]) := by
  have blank : step (.comment dashes) 32 = (.comment 0, []) := step_comment_other (by decide) (fun both => absurd both.1 (by decide))
  rw [commentEnd, run, blank]
  rfl

theorem run_comment_sealed (holds : ¬ Leaks comment) : run (.comment 0) (comment ++ commentEnd) = (.text, [.comment]) := by
  rw [run_append]
  rcases run_comment comment 0 (Nat.zero_le 2) with ⟨k, ran⟩ | ⟨before, behind, rfl, ran, front, closes⟩
  · rw [ran, run_commentEnd]
    rfl
  · rw [replicate_zero, nil_append] at closes
    apply absurd _ holds
    refine ⟨front, behind, ?_⟩
    rw [← closes, append_assoc, append_assoc]
    rfl

theorem run_comment_leaks (leaks : Leaks comment) :
    ∃ before behind, comment = before ++ gt :: behind ∧ run (.comment 0) (before ++ [gt]) = (.text, [.comment]) := by
  obtain ⟨before, behind, rfl⟩ := leaks
  rcases run_comment before 0 (Nat.zero_le 2) with ⟨k, ran⟩ | ⟨front, more, rfl, ran, -⟩
  · refine ⟨before ++ [dash, dash], behind, by simp, ?_⟩
    have both : min 2 (min 2 (k + 1) + 1) = 2 := by omega
    rw [append_assoc, run_append, ran, cons_append, cons_append, nil_append, run, step_comment_dash, run, step_comment_dash, both]
    rfl
  · exact ⟨front, more ++ [dash, dash, gt] ++ behind, by simp, ran⟩

def Mode.Quotes : Mode → Prop
  | .quoted _ quote => quote = quot ∨ quote = apos
  | _ => True

theorem tagStep_cases (name : List UInt8) (c : UInt8) :
    (∃ token, tagStep name c = (.text, [token])) ∨ ∃ mode, tagStep name c = (mode, []) ∧ mode ≠ .text ∧ mode.Quotes := by
  rw [tagStep]
  split
  · exact Or.inl ⟨_, rfl⟩
  · split
    next quote => exact Or.inr ⟨_, rfl, Mode.noConfusion, quote⟩
    · exact Or.inr ⟨_, rfl, Mode.noConfusion, trivial⟩

theorem step_cases (outside : mode ≠ .text) (quotes : mode.Quotes) (c : UInt8) :
    (∃ token, step mode c = (.text, [token])) ∨ ∃ mode', step mode c = (mode', []) ∧ mode' ≠ .text ∧ mode'.Quotes := by
  cases mode with
  | text => exact absurd rfl outside
  | opened =>
    rw [step]
    split
    · exact Or.inr ⟨_, rfl, Mode.noConfusion, trivial⟩
    · exact tagStep_cases [] c
  | bang =>
    rw [step]
    split
    · exact Or.inr ⟨_, rfl, Mode.noConfusion, trivial⟩
    · exact tagStep_cases [33] c
  | bangDash =>
    rw [step]
    split
    · exact Or.inr ⟨_, rfl, Mode.noConfusion, trivial⟩
    · exact tagStep_cases [33, dash] c
  | comment =>
    rw [step]
    split
    · exact Or.inr ⟨_, rfl, Mode.noConfusion, trivial⟩
    · split
      · exact Or.inl ⟨_, rfl⟩
      · exact Or.inr ⟨_, rfl, Mode.noConfusion, trivial⟩
  | tag name => exact tagStep_cases name c
  | quoted =>
    rw [step]
    split
    · exact Or.inr ⟨_, rfl, Mode.noConfusion, trivial⟩
    · exact Or.inr ⟨_, rfl, Mode.noConfusion, quotes⟩

theorem run_quotes (quotes : mode.Quotes) (text : List UInt8) : (run mode text).1.Quotes := by
  induction text generalizing mode with
  | nil => exact quotes
  | cons c text ih =>
    rw [run]
    apply ih
    by_cases outside : mode = .text
    · rw [outside, step]
      split
      · exact trivial
      · split <;> exact trivial
    · rcases step_cases outside quotes c with ⟨token, moved⟩ | ⟨mode', moved, -, quotes'⟩
      · rw [moved]
        exact trivial
      · rw [moved]
        exact quotes'

theorem run_back (outside : mode ≠ .text) (quotes : mode.Quotes) {text : List UInt8} (back : (run mode text).1 = .text) :
    (run mode text).2 ≠ [] := by
  induction text generalizing mode with
  | nil => exact absurd back outside
  | cons c _ ih =>
    rw [run] at back ⊢
    rcases step_cases outside quotes c with ⟨token, moved⟩ | ⟨mode', moved, outside', quotes'⟩
    · rw [moved]
      exact cons_ne_nil _ _
    · rw [moved] at back ⊢
      exact ih outside' quotes' back

theorem run_commentEnd_cases (quotes : mode.Quotes) :
    (run mode commentEnd).1 = .text ∨ ∃ name quote, (run mode commentEnd).1 = .quoted name quote ∧ (quote = quot ∨ quote = apos) := by
  cases mode with
  | comment =>
    rw [run_commentEnd]
    exact Or.inl rfl
  | tag =>
    left
    simp only [commentEnd, run, step, tagStep]
    rfl
  | quoted name quote =>
    right
    refine ⟨name, quote, ?_, quotes⟩
    have passed : run (.quoted name quote) commentEnd = (.quoted name quote, []) := by
      apply run_quoted
      rcases quotes with rfl | rfl
      · decide
      · decide
    rw [passed]
  | _ => exact Or.inl rfl

/-- What is behind a comment that is closed early gives another token, or a quote stays open. -/
theorem run_comment_open (leaks : Leaks comment) :
    ∃ mode more, run (.comment 0) (comment ++ commentEnd) = (mode, .comment :: more) ∧
      ((mode = .text ∧ more ≠ []) ∨ ∃ name quote, mode = .quoted name quote ∧ (quote = quot ∨ quote = apos)) := by
  obtain ⟨before, behind, rfl, ran⟩ := run_comment_leaks leaks
  have whole : run (.comment 0) (before ++ gt :: behind ++ commentEnd) =
      ((run .text (behind ++ commentEnd)).1, .comment :: (run .text (behind ++ commentEnd)).2) := by
    rw [show before ++ gt :: behind ++ commentEnd = before ++ [gt] ++ (behind ++ commentEnd) by simp, run_append, ran]
    rfl
  refine ⟨_, _, whole, ?_⟩
  rw [run_append]
  dsimp only
  by_cases inText : (run .text behind).1 = .text
  · left
    rw [inText]
    exact ⟨rfl, fun none => absurd (append_eq_nil_iff.mp none).2 (by decide)⟩
  · have quotes := @run_quotes .text trivial behind
    rcases run_commentEnd_cases quotes with back | ⟨name, quote, stays, kind⟩
    · left
      exact ⟨back, fun none => run_back inText quotes back (append_eq_nil_iff.mp none).2⟩
    · right
      exact ⟨name, quote, stays, kind⟩

end Yaz.Foundation.Markup
