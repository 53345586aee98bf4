import Mathlib.Data.List.TakeWhile
import Yaz.Ccl.Find

/-! What the functions of the CCL parser do on the tokens, and when the node they give is a single term. -/

set_option autoImplicit false

namespace Yaz.Ccl

section
variable {α β : Type} {st st' : State}

theorem bind_ok {x : Parse α} {f : α → Parse β} {b : β} :
    (x >>= f) st = .ok b st' ↔ ∃ a mid, x st = .ok a mid ∧ f a mid = .ok b st' := by
  change Parse.bind x f st = .ok b st' ↔ _
  rw [Parse.bind]
  cases x st with
  | _ => simp

theorem pure_ok {a b : α} : (pure a : Parse α) st = .ok b st' ↔ a = b ∧ st = st' := by
  change Outcome.ok a st = .ok b st' ↔ _
  simp

theorem ofOption_ok {result : Option α} {b : α} : ofOption result st = .ok b st' ↔ result = some b ∧ st = st' := by
  cases result <;> simp [ofOption, Parse.pure, undefined]

theorem lookToken_ok {t : Token} : lookToken st = .ok t st' ↔ st.tokens[st.look]? = some t ∧ st = st' := by
  rw [lookToken, ofOption_ok]

theorem kind_ok {k : TokenKind} : kind st = .ok k st' ↔ (∃ t, st.tokens[st.look]? = some t ∧ t.kind = k) ∧ st = st' := by
  rw [kind, bind_ok]
  constructor
  · rintro ⟨t, mid, looked, is⟩
    obtain ⟨found, rfl⟩ := lookToken_ok.mp looked
    obtain ⟨same, rfl⟩ := pure_ok.mp is
    exact ⟨⟨t, found, same⟩, rfl⟩
  · rintro ⟨⟨t, found, same⟩, rfl⟩
    exact ⟨t, st, lookToken_ok.mpr ⟨found, rfl⟩, pure_ok.mpr ⟨same, rfl⟩⟩

theorem advance_ok {u : Unit} : advance st = .ok u st' ↔ st.look < st.tokens.length ∧ st' = { st with look := st.look + 1 } := by
  rw [advance]
  split
  next inside => simp [inside, eq_comm]
  next outside => simp [outside]

theorem ahead_ok {tokens : List Token} : ahead st = .ok tokens st' ↔ st.tokens.drop st.look = tokens ∧ st = st' := by
  simp [ahead]

theorem drop_look {t : Token} (found : st.tokens[st.look]? = some t) : st.tokens.drop st.look = t :: st.tokens.drop (st.look + 1) := by
  obtain ⟨inside, is⟩ := List.getElem?_eq_some_iff.mp found
  rw [List.drop_eq_getElem_cons inside, is]

end

def runOf (list : List TokenKind) (tokens : List Token) : List Token := tokens.takeWhile fun t => t.kind ∈ list

variable {list : List TokenKind}

theorem runOf_cons {t : Token} (isTerm : t.kind ∈ list) (tokens : List Token) :
    runOf list (t :: tokens) = t :: runOf list tokens := by
  rw [runOf, List.takeWhile_cons, if_pos (by simpa using isTerm), runOf]

theorem runOf_other {t : Token} (noTerm : t.kind ∉ list) (tokens : List Token) : runOf list (t :: tokens) = [] := by
  rw [runOf, List.takeWhile_cons, if_neg (by simpa using noTerm)]

theorem behind_run {tokens : List Token} {t : Token} (found : tokens[(runOf list tokens).length]? = some t) :
    t.kind ∉ list := by
  induction tokens with
  | nil => cases found
  | cons u _ ih =>
    by_cases isTerm : u.kind ∈ list
    · rw [runOf_cons isTerm, List.length_cons, List.getElem?_cons_succ] at found
      exact ih found
    · rw [runOf_other isTerm, List.length_nil, List.getElem?_cons_zero, Option.some.injEq] at found
      exact found ▸ isTerm

theorem takeTerm_bounds (list : List TokenKind) (autoGroup : Bool) (max no : Nat) (isPhrase : Bool) (tokens : List Token) :
    no ≤ (takeTerm list autoGroup max no isPhrase tokens).1 ∧
      (takeTerm list autoGroup max no isPhrase tokens).1 ≤ no + min max (runOf list tokens).length := by
  induction max generalizing no isPhrase tokens with
  | zero => simp [takeTerm]
  | succ _ ih =>
    cases tokens with
    | nil => simp [takeTerm]
    | cons t tokens =>
      rw [takeTerm]
      split
      next isTerm =>
        have longer : (runOf list (t :: tokens)).length = (runOf list tokens).length + 1 := by rw [runOf_cons isTerm, List.length_cons]
        have more := ih (no + 1)
        dsimp only
        split
        · split
          · dsimp only
            omega
          · have := more (isPhraseToken t) tokens
            omega
        · have := more (isPhrase || isPhraseToken t || decide (0 < no)) tokens
          omega
      next noTerm =>
        omega

theorem takeTerm_pos (autoGroup : Bool) {max : Nat} (room : 0 < max) {t : Token} (isTerm : t.kind ∈ list) (tokens : List Token) :
    0 < (takeTerm list autoGroup max 0 false (t :: tokens)).1 := by
  cases max with
  | zero => cases room
  | succ max =>
    rw [takeTerm, if_pos isTerm]
    split
    · rw [if_neg (by omega)]
      exact (takeTerm_bounds list _ max 1 _ tokens).1
    · exact (takeTerm_bounds list _ max 1 _ tokens).1

theorem takeTerm_zero {autoGroup : Bool} {max : Nat} (room : 0 < max) {t : Token} {tokens : List Token}
    (none : (takeTerm list autoGroup max 0 false (t :: tokens)).1 = 0) : t.kind ∉ list := by
  intro isTerm
  have := takeTerm_pos autoGroup room isTerm tokens
  omega

theorem maxTokens_pos (mode : ListMode) (multi : Bool) : 0 < maxTokens mode multi := by
  rw [maxTokens]
  split <;> decide

end Yaz.Ccl
