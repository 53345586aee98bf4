import Yaz.Ccl.Calls

/-! A CCL query is parsed as a whole or fails as a whole, as long as no call goes wrong. -/

set_option autoImplicit false

namespace Yaz.Ccl
open List
open Yaz.Comstack (ascii)

section
variable {cclp : CclParser} {d : Nat} {st : State}

/-- What is known of `find_spec` with parentheses of this depth. -/
def FindMeets (cclp : CclParser) (d : Nat) : Prop :=
  ∀ (qa : Option (List Qual)) {st : State}, Ready st → st.ahead.count .lp < d →
    (findSpec cclp d qa st).Meets (fun _ st' => Follows st st') (GoesWrong cclp (.find d qa st))

variable {qa : Option (List Qual)}

theorem searchTerms2_meets (find : FindMeets cclp d) (ready : Ready st) (few : st.ahead.count .lp ≤ d) :
    (searchTerms2 cclp (findSpec cclp d) qa st).Meets
      (fun _ st' => Follows st st' ∧ (AtOther termsList st' ∨ st'.ahead.length + 2 ≤ st.ahead.length))
        (GoesWrong cclp (.terms2 d qa st)) := by
  obtain ⟨t, found, -⟩ := ready.found
  rw [searchTerms2, bind_of_ok (kind_of found)]
  split
  next lp =>
    have next := ready.next found (by simp [lp])
    have ahead := ahead_next found (by simp [lp])
    rw [bind_of_ok (advance_of found)]
    have fewer : (State.ahead { st with look := st.look + 1 }).count .lp < d := by
      rw [ahead, lp, count_cons_self] at few
      omega
    refine meets_bind ((find qa next fewer).mono (fun _ _ _ => id) (GoesWrong.makes (.terms2_find found lp))) ?_
    intro p mid _ follows
    obtain ⟨u, foundBehind, -⟩ := follows.ready.found
    rw [bind_of_ok (kind_of foundBehind)]
    split
    next rp =>
      rw [bind_of_ok (advance_of foundBehind)]
      have behind := follows.ready.next foundBehind (by simp [rp])
      have aheadBehind := ahead_next foundBehind (by simp [rp])
      have shorter := follows.shorter
      refine meets_pure ⟨?_, .inr ?_⟩
      · exact .from_later (Nat.le_succ _) next.inside ready.ended (follows.trans (behind.follows rfl (Nat.le_succ _)))
      · rw [aheadBehind, length_cons] at shorter
        rw [ahead, length_cons]
        omega
    · exact meets_fail (by decide)
  · exact (searchTermX_meets (by decide) ready).mono (fun _ _ _ passes => ⟨passes.follows, .inl (passes.all rfl)⟩) False.elim

theorem searchTermsLoop_meets (find : FindMeets cclp d) {fuel : Nat} {p1 : RpnNode} (ready : Ready st)
    (few : st.ahead.count .lp ≤ d) (enough : st.ahead.length < fuel ∨ AtOther termsList st ∧ st.ahead.length ≤ fuel) :
    (searchTermsLoop cclp (findSpec cclp d) qa fuel p1 st).Meets (fun _ st' => Follows st st')
      (GoesWrong cclp (.termsLoop d qa fuel p1 st)) := by
  induction fuel generalizing p1 st with
  | zero =>
    have positive := ready.ahead_pos
    omega
  | succ fuel ih =>
    obtain ⟨t, found, -⟩ := ready.found
    -- a term that is passed is in parentheses, or no other follows it
    have enoughBehind {from' mid : State} (follows : Follows from' mid) (room : from'.ahead.length ≤ fuel)
        (ends : AtOther termsList mid ∨ mid.ahead.length + 2 ≤ from'.ahead.length) :
        mid.ahead.length < fuel ∨ AtOther termsList mid ∧ mid.ahead.length ≤ fuel := by
      have shorter := follows.shorter
      rcases ends with other | two
      · exact .inr ⟨other, by omega⟩
      · exact .inl (by omega)
    rw [searchTermsLoop, bind_of_ok (lookToken_of found)]
    split
    next prox =>
      have next := ready.next found (by simp [prox])
      have ahead := ahead_next found (by simp [prox])
      have onward := next.onward
      rw [bind_of_ok (advance_of found)]
      refine meets_bind ((searchTerms2_meets find next ((onward.count _).trans few)).mono (fun _ _ _ => id)
        (GoesWrong.makes (.prox_terms2 found prox))) ?_
      rintro p2 mid second ⟨follows, ends⟩
      have room : (State.ahead { st with look := st.look + 1 }).length ≤ fuel := by
        rw [ahead, length_cons] at enough
        omega
      have whole := onward.trans follows
      refine (ih follows.ready ((whole.count _).trans few) (enoughBehind follows room ends)).mono (fun _ _ _ => whole.trans) ?_
      exact GoesWrong.makes (.prox_next found prox second)
    · split
      next more =>
        have room : st.ahead.length ≤ fuel := by
          rcases enough with less | ⟨⟨u, same, other⟩, -⟩
          · omega
          · rw [found] at same
            exact absurd (Option.some.inj same ▸ more) other
        refine meets_bind ((searchTerms2_meets find ready few).mono (fun _ _ _ => id) (GoesWrong.makes (.more_terms2 found more))) ?_
        rintro p2 mid second ⟨follows, ends⟩
        refine (ih follows.ready ((follows.count _).trans few) (enoughBehind follows room ends)).mono (fun _ _ _ => follows.trans) ?_
        exact GoesWrong.makes (.more_next found more second)
      · exact meets_pure (ready.follows rfl (Nat.le_refl _))

theorem searchTerms_meets (find : FindMeets cclp d) (ready : Ready st) (few : st.ahead.count .lp ≤ d) :
    (searchTerms cclp (findSpec cclp d) qa st).Meets (fun _ st' => Follows st st') (GoesWrong cclp (.terms d qa st)) := by
  rw [searchTerms]
  refine meets_bind ((searchTerms2_meets find ready few).mono (fun _ _ _ => id) (GoesWrong.makes .terms_first)) ?_
  rintro p1 mid first ⟨follows, -⟩
  rw [bind_of_ok (ahead_of _)]
  have short := ahead_length_le mid
  refine (searchTermsLoop_meets find follows.ready ((follows.count _).trans few) (.inl (by omega))).mono (fun _ _ _ => follows.trans) ?_
  exact GoesWrong.makes (.terms_loop first)

def AtRelation (st : State) : Prop := ∃ t, st.tokens[st.look]? = some t ∧ (t.kind = .rel ∨ t.kind = .eq)

variable {ap : List Qual}

theorem searchTerm_meets (ready : Ready st) {fault : Prop} : (searchTerm cclp ap st).Meets (fun _ st' => Follows st st') fault :=
  (searchTermX_meets (by decide) ready).mono (fun _ _ _ passes => passes.follows) False.elim

theorem orderedOperands_meets (find : FindMeets cclp d) {rel : Int} (ready : Ready st) (few : st.ahead.count .lp ≤ d) :
    (orderedOperands cclp (findSpec cclp d) ap rel st).Meets (fun _ st' => Follows st st')
      (rel = 3 ∧ TakesDash cclp ap st ∨ ∃ u, st.tokens[st.look]? = some u ∧
        ¬ (rel = 3 ∧ u.kind = .term ∧ ((st.tokens.drop st.look)[1]?.any isDash) = true) ∧ ¬ (rel = 3 ∧ isDash u = true) ∧
        GoesWrong cclp (.terms d (some ap) st)) := by
  obtain ⟨u, found, -⟩ := ready.found
  rw [orderedOperands, bind_of_ok (lookToken_of found), bind_of_ok (ahead_of _)]
  split
  next span =>
    refine meets_bind (searchTerm_meets ready) ?_
    intro p1 mid first follows
    obtain ⟨w, foundBehind, -⟩ := follows.ready.found
    rw [bind_of_ok (advance_of foundBehind)]
    -- the first term has taken the dash, so the token that is passed is the end of line
    by_cases last : mid.look + 1 = mid.tokens.length
    · have beyond : mid.tokens[mid.look + 1]? = none := getElem?_eq_none (Nat.le_of_eq last.symm)
      rw [bind_of_undefined (kind_beyond beyond)]
      exact .inl ⟨span.1, u, p1, mid, found, span.2.1, span.2.2, first, last⟩
    · have behind : Ready { mid with look := mid.look + 1 } :=
        ⟨follows.ready.ended, by have inside := follows.ready.inside; dsimp only; omega⟩
      have onward := follows.trans behind.onward
      obtain ⟨v, foundNext, -⟩ := behind.found
      rw [bind_of_ok (kind_of foundNext)]
      split
      · refine meets_bind (searchTerm_meets behind) ?_
        intro p2 rest _ second
        exact meets_pure (onward.trans second)
      · exact meets_pure onward
  · split
    next below =>
      have next := ready.next found (ready.dash found below.2)
      rw [bind_of_ok (advance_of found)]
      refine meets_bind (searchTerm_meets next) ?_
      intro p mid _ follows
      exact meets_pure (next.onward.trans follows)
    next noSpan noDash =>
      refine meets_bind ((searchTerms_meets find ready few).mono (fun _ _ _ => id) fun wrong => .inr ⟨u, found, noSpan, noDash, wrong⟩) ?_
      intro p mid _ follows
      exact meets_pure follows

theorem qualifiersOrder_meets (find : FindMeets cclp d) {attset : Option (List UInt8)} (ready : Ready st)
    (relation : AtRelation st) (few : st.ahead.count .lp ≤ d) :
    (qualifiersOrder cclp (findSpec cclp d) ap attset st).Meets (fun _ st' => Follows { st with look := st.look + 1 } st')
      (GoesWrong cclp (.order d ap attset st)) := by
  obtain ⟨t, found, isRelation⟩ := relation
  have noTerm : t.kind ≠ .term := by rcases isRelation with is | is <;> simp [is]
  have more : t.kind ≠ .eol := by rcases isRelation with is | is <;> simp [is]
  rw [qualifiersOrder, bind_of_ok (lookToken_of found)]
  cases value : relationValue t with
  | none => exact meets_fail (by decide)
  | some rel =>
    have onward := @afterRelation_follows ap rel _ ready _ found more
    have fewer : (afterRelation ap rel st).ahead.count .lp ≤ d := by
      refine (onward.count .lp).trans (Nat.le_trans ?_ few)
      rw [ahead_next found noTerm]
      exact count_le_count_cons
    refine meets_bind ((orderedOperands_meets find onward.ready fewer).mono (fun _ _ _ => onward.trans) ?_) ?_
    · rintro (⟨isEquals, takes⟩ | ⟨u, ahead, noSpan, noDash, wrong⟩)
      · exact .slips ⟨t, rel, found, value, .inl ⟨isEquals, takes⟩⟩
      · exact .makes (.order_terms found value ahead noSpan noDash) wrong
    · intro operands mid ordered follows
      cases attached : attachRelation ap attset rel operands with
      | some => exact follows
      | none => exact .slips ⟨t, rel, found, value, .inr ⟨operands, mid, ordered, attached⟩⟩

theorem qualifierRelation_meets (find : FindMeets cclp d) (ready : Ready st) (relation : AtRelation st)
    (few : st.ahead.count .lp ≤ d) :
    (qualifierRelation cclp (findSpec cclp d) ap st).Meets (fun _ st' => Follows { st with look := st.look + 1 } st')
      (GoesWrong cclp (.relation d ap st)) := by
  rw [qualifierRelation]
  cases ordered : (qualValType ap CCL_BIB1_REL CCL_BIB1_REL_ORDER).or (qualValType ap CCL_BIB1_REL CCL_BIB1_REL_PORDER) with
  | some => exact (qualifiersOrder_meets find ready relation few).mono (fun _ _ _ => id) (GoesWrong.makes (.relation_order ordered))
  | none =>
    obtain ⟨t, found, -⟩ := relation
    dsimp only
    rw [bind_of_ok (kind_of found)]
    split
    next eq =>
      have next := ready.next found (by simp [eq])
      rw [bind_of_ok (advance_of found)]
      refine (searchTerms_meets find next ?_).mono (fun _ _ _ => id) (GoesWrong.makes (.relation_terms ordered found eq))
      exact (next.onward.count _).trans few
    · exact meets_fail (by decide)

/-! ### Qualifiers -/

variable {fields : List (Nat × Token)}

/-- Behind the relation at `la` what is kept of the tokens that were there at first, and it is passed when there is a node. -/
structure Parsed (origin : State) (la : Nat) (node : Option RpnNode) (st : State) : Prop where
  kept : Follows { origin with look := la + 1 } { st with look := la + 1 }
  behind : node.isSome → Follows { origin with look := la + 1 } st

variable {origin : State} {la : Nat} {node : Option RpnNode}

theorem Parsed.start (ready : Ready { origin with look := la }) (relation : AtRelation { origin with look := la }) :
    Parsed origin la none origin := by
  obtain ⟨t, found, isRelation⟩ := relation
  have more : t.kind ≠ .eol := by rcases isRelation with is | is <;> simp [is]
  have next : Ready { origin with look := la + 1 } := ready.next found more
  exact ⟨next.follows rfl (Nat.le_refl _), nofun⟩

theorem Parsed.relation (parsed : Parsed origin la node st) (relation : AtRelation { origin with look := la }) :
    AtRelation { st with look := la } := by
  obtain ⟨t, found, isRelation⟩ := relation
  refine ⟨t, ?_, isRelation⟩
  have same : (st.tokens.take (la + 1))[la]? = (origin.tokens.take (la + 1))[la]? := congrArg (·[la]?) parsed.kept.before
  rw [getElem?_take_of_lt (Nat.lt_succ_self _), getElem?_take_of_lt (Nat.lt_succ_self _)] at same
  exact same.trans found

theorem Parsed.count (parsed : Parsed origin la node st) (relation : AtRelation { origin with look := la }) :
    (State.ahead { st with look := la }).count .lp = (State.ahead { origin with look := la }).count .lp := by
  have passed {st : State} (relation : AtRelation { st with look := la }) :
      (State.ahead { st with look := la }).count .lp = (State.ahead { st with look := la + 1 }).count .lp := by
    obtain ⟨t, found, isRelation⟩ := relation
    have noTerm : t.kind ≠ .term := by rcases isRelation with is | is <;> simp [is]
    have noLp : t.kind ≠ .lp := by rcases isRelation with is | is <;> simp [is]
    rw [ahead_next found noTerm]
    exact count_cons_of_ne noLp
  rw [passed (parsed.relation relation), passed relation]
  exact congrArg (List.count _) parsed.kept.others

theorem Parsed.meets (find : FindMeets cclp d) (relation : AtRelation { origin with look := la })
    (few : (State.ahead { origin with look := la }).count .lp ≤ d) (parsed : Parsed origin la node st) (ap : List Qual) :
    (qualifierRelation cclp (findSpec cclp d) ap { st with look := la }).Meets (fun _ st' => ∀ p, Parsed origin la (some p) st')
      (GoesWrong cclp (.relation d ap { st with look := la })) := by
  have ready : Ready { st with look := la } := ⟨parsed.kept.ready.ended, Nat.lt_of_succ_lt parsed.kept.ready.inside⟩
  have fewer : (State.ahead { st with look := la }).count .lp ≤ d := (parsed.count relation).le.trans few
  refine (qualifierRelation_meets find ready (parsed.relation relation) fewer).mono ?_ id
  intro _ st' _ follows p
  have whole := parsed.kept.trans follows
  exact ⟨whole.again, fun _ => whole⟩

section
variable (find : FindMeets cclp d) (relation : AtRelation { origin with look := la })
  (few : (State.ahead { origin with look := la }).count .lp ≤ d)

include find relation few

end

end

end Yaz.Ccl
