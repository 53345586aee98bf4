import Yaz.Ccl.Runs
import Yaz.Foundation.Cuts

/-! What `search_term_split_list` makes of a list of terms: the ways to cut it into phrases.

A tree is read in a semiring, with `or` as addition and `and` as multiplication; sets of records with
union and intersection are one.
-/

set_option autoImplicit false

namespace Yaz.Ccl
open List Yaz.Foundation

variable {S : Type} [Semiring S]

/-- What a tree is worth where `leaf` tells it for a node that is neither `and` nor `or`. -/
def RpnNode.worth (leaf : RpnNode → S) : RpnNode → S
  | .bool .and left right .null => left.worth leaf * right.worth leaf
  | .bool .or left right .null => left.worth leaf + right.worth leaf
  | p => leaf p

variable (leaf : RpnNode → S)

theorem worth_or (pTop : Option RpnNode) (p : RpnNode) :
    (cclRpnNodeMkbool pTop p .or).worth leaf = pTop.elim 0 (RpnNode.worth leaf) + p.worth leaf := by
  cases pTop with
  | none => exact (zero_add _).symm
  | some => rfl

theorem worth_and (p2 p1 : RpnNode) : (cclRpnNodeMkbool (some p2) p1 .and).worth leaf = p2.worth leaf * p1.worth leaf := rfl

section
variable (cclp : CclParser) (qa : List Qual)

def groupNode (group : List Token) : Except CclError RpnNode := cclTermMultiUse cclp qa group (1 < group.length) false

def groupWorth (group : List Token) : S :=
  match groupNode cclp qa group with
  | .ok p => p.worth leaf
  | .error _ => 0

theorem groupWorth_ok {group : List Token} {p : RpnNode} (is : groupNode cclp qa group = .ok p) :
    groupWorth leaf cclp qa group = p.worth leaf := by
  rw [groupWorth, is]

def Expands (subLen fuel : Nat) (ar : List Token) : Except CclError RpnNode → Prop
  | .ok p =>
    p.worth leaf = sumCuts (groupWorth leaf cclp qa) subLen fuel ar ∧
      ∀ cut, IsCut subLen ar cut → ∀ group ∈ cut, ∃ node, groupNode cclp qa group = .ok node
  | .error errorCode => ∃ cut, IsCut subLen ar cut ∧ ∃ group ∈ cut, groupNode cclp qa group = .error errorCode

def ExpandsBehind (subLen fuel : Nat) (ar : List Token) (lengths : List Nat) (pTop : Option RpnNode) :
    Except CclError (Option RpnNode) → Prop
  | .ok result =>
    (result = none → pTop = none ∧ lengths = []) ∧
      (result.elim 0 (RpnNode.worth leaf) = pTop.elim 0 (RpnNode.worth leaf) +
        (lengths.map fun l => groupWorth leaf cclp qa (ar.take l) * sumCuts (groupWorth leaf cclp qa) subLen fuel (ar.drop l)).sum) ∧
      ∀ l ∈ lengths, ∀ cut, IsCut subLen (ar.drop l) cut → ∀ group ∈ ar.take l :: cut, ∃ node, groupNode cclp qa group = .ok node
  | .error errorCode => ∃ l ∈ lengths, ∃ cut, IsCut subLen (ar.drop l) cut ∧
      ∃ group ∈ ar.take l :: cut, groupNode cclp qa group = .error errorCode

variable {cclp qa} {subLen fuel : Nat} {ar : List Token} {splitRest : List Token → Except CclError RpnNode}

theorem expandsBehind_step (room : 1 ≤ subLen) {l : Nat} (inside : l ≤ ar.length) (pTop : Option RpnNode)
    (rest : l < ar.length → Expands leaf cclp qa subLen fuel (ar.drop l) (splitRest (ar.drop l))) :
    ExpandsBehind leaf cclp qa subLen fuel ar [l] pTop (splitStep cclp qa splitRest ar pTop l) := by
  have length : (ar.take l).length = l := by rw [List.length_take, Nat.min_eq_left inside]
  have first : cclTermMultiUse cclp qa (ar.take l) (1 < l) false = groupNode cclp qa (ar.take l) := by rw [groupNode, length]
  rw [splitStep, first]
  -- the group may fail, or what is behind it, or there is nothing behind it
  cases built : groupNode cclp qa (ar.take l) with
  | error =>
    obtain ⟨cut, isCut⟩ := exists_isCut room (ar.drop l)
    exact ⟨l, mem_cons_self, cut, isCut, ar.take l, mem_cons_self, built⟩
  | ok p2 =>
    have worthFirst := groupWorth_ok leaf cclp qa built
    by_cases more : l < ar.length
    · have rest := rest more
      cases behind : splitRest (ar.drop l) with
      | error =>
        rw [behind] at rest
        obtain ⟨cut, isCut, group, member, failed⟩ := rest
        simp only [pure, bind, Except.bind, more, if_true]
        exact ⟨l, mem_cons_self, cut, isCut, group, mem_cons_of_mem _ member, failed⟩
      | ok =>
        rw [behind] at rest
        simp only [pure, Except.pure, bind, Except.bind, more, if_true]
        refine ⟨fun none => (nomatch none), ?_, ?_⟩
        · rw [Option.elim_some, worth_or, worth_and, rest.1, map_singleton, sum_singleton, worthFirst]
        · intro l' one cut isCut group member
          obtain rfl := mem_singleton.mp one
          rcases mem_cons.mp member with rfl | member
          · exact ⟨p2, built⟩
          · exact rest.2 cut isCut group member
    -- the group is the whole of the list: the empty product
    · have nothing : ar.drop l = [] := drop_eq_nil_of_le (Nat.le_of_not_lt more)
      simp only [pure, Except.pure, bind, Except.bind, more, if_false]
      refine ⟨fun none => (nomatch none), ?_, ?_⟩
      · rw [Option.elim_some, worth_or, map_singleton, sum_singleton, worthFirst, nothing, sumCuts_nil, mul_one]
      · intro l' one cut isCut group member
        obtain rfl := mem_singleton.mp one
        rw [nothing] at isCut
        obtain rfl := isCut.of_nil
        obtain rfl := mem_singleton.mp member
        exact ⟨p2, built⟩

theorem expandsBehind_fold (room : 1 ≤ subLen) {lengths : List Nat} (inside : ∀ l ∈ lengths, l ≤ ar.length) (pTop : Option RpnNode)
    (rest : ∀ l ∈ lengths, l < ar.length → Expands leaf cclp qa subLen fuel (ar.drop l) (splitRest (ar.drop l))) :
    ExpandsBehind leaf cclp qa subLen fuel ar lengths pTop (lengths.foldlM (splitStep cclp qa splitRest ar) pTop) := by
  -- over the lengths of a first group, with the alternatives so far in `pTop`
  induction lengths generalizing pTop with
  | nil =>
    refine ⟨fun none => ⟨none, rfl⟩, ?_, by simp⟩
    rw [map_nil, sum_nil, add_zero]
  | cons l lengths ih =>
    have one := expandsBehind_step leaf room (inside l mem_cons_self) pTop (rest l mem_cons_self)
    rw [foldlM_cons]
    cases stepped : splitStep cclp qa splitRest ar pTop l with
    | error =>
      rw [stepped] at one
      obtain ⟨l', here, failed⟩ := one
      obtain rfl := mem_singleton.mp here
      exact ⟨l', mem_cons_self, failed⟩
    | ok next =>
      rw [stepped] at one
      obtain ⟨someNext, worthNext, builtNext⟩ := one
      have many := ih (fun l' member => inside l' (mem_cons_of_mem _ member)) next
        fun l' member => rest l' (mem_cons_of_mem _ member)
      simp only [bind, Except.bind]
      cases folded : lengths.foldlM (splitStep cclp qa splitRest ar) next with
      | error =>
        rw [folded] at many
        obtain ⟨l', member, failed⟩ := many
        exact ⟨l', mem_cons_of_mem _ member, failed⟩
      | ok =>
        rw [folded] at many
        obtain ⟨someResult, worthResult, builtResult⟩ := many
        refine ⟨fun none => absurd (someNext (someResult none).1).2 (cons_ne_nil _ _), ?_, ?_⟩
        · rw [worthResult, worthNext, map_singleton, sum_singleton, map_cons, sum_cons, add_assoc]
        · intro l' member
          rcases mem_cons.mp member with rfl | member
          · exact builtNext l' mem_cons_self
          · exact builtResult l' member

/-- The tree of `split_recur` is the sum over all cuts of the products of their groups. -/
theorem splitRecur_expands (room : 1 ≤ subLen) {ar : List Token} (nonempty : ar ≠ []) (enough : ar.length ≤ fuel) :
    Expands leaf cclp qa subLen fuel ar (splitRecur cclp qa subLen fuel ar) := by
  induction fuel generalizing ar with
  | zero => exact absurd (length_eq_zero_iff.mp (Nat.le_zero.mp enough)) nonempty
  | succ fuel ih =>
    cases ar with
    | nil => exact absurd rfl nonempty
    | cons t ar =>
      have inside : ∀ l ∈ List.range' 1 (min (t :: ar).length subLen), 1 ≤ l ∧ l ≤ (t :: ar).length ∧ l ≤ subLen := by
        intro l member
        rw [mem_range'_1] at member
        omega
      have rest : ∀ l ∈ List.range' 1 (min (t :: ar).length subLen), l < (t :: ar).length →
          Expands leaf cclp qa subLen fuel ((t :: ar).drop l) (splitRecur cclp qa subLen fuel ((t :: ar).drop l)) := by
        intro l member more
        have := inside l member
        apply ih
        · apply ne_nil_of_length_pos
          rw [length_drop]
          omega
        · rw [length_drop]
          omega
      -- at least one length is tried, so the loop leaves a tree behind
      have folded := expandsBehind_fold leaf room (fun l member => (inside l member).2.1) none rest
      rw [splitRecur]
      cases result : (List.range' 1 (min (t :: ar).length subLen)).foldlM
        (splitStep cclp qa (splitRecur cclp qa subLen fuel) (t :: ar)) none with
      | error =>
        rw [result] at folded
        obtain ⟨l, member, cut, isCut, group, here, failed⟩ := folded
        have bounds := inside l member
        exact ⟨(t :: ar).take l :: cut, (isCut_cons_iff _ _ _).mpr ⟨l, bounds.1, bounds.2.2, bounds.2.1, rfl, isCut⟩, group, here, failed⟩
      | ok pTop =>
        rw [result] at folded
        cases pTop with
        | none =>
          have := congrArg List.length (folded.1 rfl).2
          rw [length_range', length_nil, length_cons] at this
          omega
        | some =>
          obtain ⟨-, worth, built⟩ := folded
          constructor
          · rw [sumCuts_cons]
            simpa using worth
          · intro cut isCut group member
            cases cut with
            | nil => cases member
            | cons _ cut =>
              obtain ⟨l, positive, few, short, rfl, rest⟩ := (isCut_cons_iff _ _ _).mp isCut
              exact built l (by rw [mem_range'_1]; omega) cut rest group member

end

def subLength (number : Nat) : Nat := if number < 5 then 3 else if number < 7 then 2 else 1

theorem subLength_pos (number : Nat) : 1 ≤ subLength number := by
  rw [subLength]
  split
  · decide
  · split <;> decide

theorem subLength_eq (number : Nat) : (if 7 ≤ number then 1 else if 5 ≤ number then 2 else 3) = subLength number := by
  rw [subLength]
  repeat' split
  all_goals omega

/-- What `search_term_split_list` returns is the sum over all cuts of the terms here, each of them once, of the products of their
groups; or a group has an error, or there is no term. -/
theorem searchTermSplitList_expands (cclp : CclParser) (qa : List Qual) (list : List TokenKind) (st : State) :
    let ar := runOf list (st.tokens.drop st.look)
    match searchTermSplitList cclp qa list st with
    | .ok p st' =>
      ar ≠ [] ∧ st' = { st with look := st.look + ar.length } ∧
        ∃ (node : List Token → RpnNode) (ways : List (List (List Token))), ways.Nodup ∧
          (∀ cut, cut ∈ ways ↔ IsCut (subLength ar.length) ar cut) ∧
          (∀ cut ∈ ways, ∀ group ∈ cut, cclTermMultiUse cclp qa group (1 < group.length) false = .ok (node group)) ∧
          p.worth leaf = (ways.map fun cut => (cut.map fun group => (node group).worth leaf).prod).sum
    | .null st' =>
      (ar = [] ∧ st' = { st with errorCode := .termExpected }) ∨
        ∃ errorCode, st' = { st with look := st.look + ar.length, errorCode := errorCode } ∧
          ∃ cut, IsCut (subLength ar.length) ar cut ∧
            ∃ group ∈ cut, cclTermMultiUse cclp qa group (1 < group.length) false = .error errorCode
    | .undefined => st.tokens[st.look]? = none
    | .tooDeep => False := by
  intro ar
  rw [searchTermSplitList]
  cases found : st.tokens[st.look]? with
  | none => simp only [bind, Parse.bind, lookToken, found, ofOption, undefined]
  | some t =>
    simp only [bind, Parse.bind, lookToken, found, ofOption, Parse.pure, ahead]
    rw [show (st.tokens.drop st.look).takeWhile (fun t => t.kind ∈ list) = ar from rfl, subLength_eq]
    by_cases none : ar = []
    · rw [if_pos none]
      exact .inl ⟨none, rfl⟩
    · rw [if_neg none]
      have expands := @splitRecur_expands _ _ leaf cclp qa _ _ (subLength_pos ar.length) ar none le_rfl
      unfold advanceBy
      cases split : splitRecur cclp qa (subLength ar.length) ar.length ar with
      | error errorCode =>
        rw [split] at expands
        exact .inr ⟨errorCode, rfl, expands⟩
      | ok p =>
        rw [split] at expands
        obtain ⟨worth, built⟩ := expands
        have ways : ∀ cut, cut ∈ cuts (subLength ar.length) ar.length ar ↔ IsCut (subLength ar.length) ar cut := mem_cuts_iff le_rfl
        refine ⟨none, rfl, fun group => (groupNode cclp qa group).toOption.getD p, cuts (subLength ar.length) ar.length ar,
          nodup_cuts _ _ _, ways, ?_, ?_⟩
        · intro cut member group inside
          obtain ⟨node, is⟩ := built cut ((ways cut).mp member) group inside
          dsimp only
          rw [is]
          exact is
        · rw [worth, sumCuts]
          congr 1
          apply map_congr_left
          intro cut member
          congr 1
          apply map_congr_left
          intro group inside
          obtain ⟨node, is⟩ := built cut ((ways cut).mp member) group inside
          dsimp only
          rw [groupWorth_ok leaf cclp qa is, is]
          rfl

end Yaz.Ccl
