import Mathlib.Logic.Relation
import Yaz.Ccl.Steps

/-! The calls that `ccl_parser_find_token` makes, and how a call ends by those that it makes.

Each alternative of a qualifier is a call of its own, and so is what is left of a loop.
-/

set_option autoImplicit false

namespace Yaz.Ccl
open Yaz.Comstack (ascii)

/-! ### Calls -/

inductive Call where
  | find (depth : Nat) (qa : Option (List Qual)) (st : State)
  | findLoop (depth : Nat) (qa : Option (List Qual)) (fuel : Nat) (p1 : RpnNode) (st : State)
  | elements (depth : Nat) (qa : Option (List Qual)) (st : State)
  | default (depth lookahead fuel seq : Nat) (node : Option RpnNode) (st : State)
  | terms (depth : Nat) (qa : Option (List Qual)) (st : State)
  | termsLoop (depth : Nat) (qa : Option (List Qual)) (fuel : Nat) (p1 : RpnNode) (st : State)
  | terms2 (depth : Nat) (qa : Option (List Qual)) (st : State)
  | list (depth la : Nat) (qa : Option (List Qual)) (st : State)
  | fields (depth la : Nat) (fields : List (Nat × Token)) (node : Option RpnNode) (st : State)
  | field (depth la look : Nat) (t : Token) (fuel seq : Nat) (node : Option RpnNode) (st : State)
  | merged (depth la : Nat) (fields : List (Nat × Token)) (qa : List Qual) (fuel seq : Nat) (node : Option RpnNode) (st : State)
  | relation (depth : Nat) (ap : List Qual) (st : State)
  | order (depth : Nat) (ap : List Qual) (attset : Option (List UInt8)) (st : State)

inductive Ending where
  | ok
  | null (errorCode : CclError)
  | undefined
  | tooDeep
  deriving DecidableEq

def Outcome.ending {α : Type} : Outcome α → Ending
  | .ok _ _ => .ok
  | .null st => .null st.errorCode
  | .undefined => .undefined
  | .tooDeep => .tooDeep

section
variable (cclp : CclParser)

def Call.ending : Call → Ending
  | .find depth qa st => (findSpec cclp depth qa st).ending
  | .findLoop depth qa fuel p1 st => (findSpecLoop cclp (findSpec cclp depth) qa fuel p1 st).ending
  | .elements depth qa st => (searchElements cclp (findSpec cclp depth) qa st).ending
  | .default depth lookahead fuel seq node st => (searchDefault cclp (findSpec cclp depth) lookahead fuel seq node st).ending
  | .terms depth qa st => (searchTerms cclp (findSpec cclp depth) qa st).ending
  | .termsLoop depth qa fuel p1 st => (searchTermsLoop cclp (findSpec cclp depth) qa fuel p1 st).ending
  | .terms2 depth qa st => (searchTerms2 cclp (findSpec cclp depth) qa st).ending
  | .list depth la qa st => (qualifierList cclp (findSpec cclp depth) la qa st).ending
  | .fields depth la names node st => (searchFields cclp (findSpec cclp depth) la names node st).ending
  | .field depth la look t fuel seq node st => (searchField cclp (findSpec cclp depth) la look t fuel seq node st).ending
  | .merged depth la names qa fuel seq node st => (searchMerged cclp (findSpec cclp depth) la names qa fuel seq node st).ending
  | .relation depth ap st => (qualifierRelation cclp (findSpec cclp depth) ap st).ending
  | .order depth ap attset st => (qualifiersOrder cclp (findSpec cclp depth) ap attset st).ending

/-- Whether the attributes of all fields are merged: `mode_merge`. -/
def modeMerge : Prop := ((cclQualSearchSpecial cclp.bibset (ascii "field")).bind List.head?) ≠ some (ascii "or")

instance : Decidable (modeMerge cclp) := inferInstanceAs (Decidable (_ ≠ _))

/-- The fields of a list of qualifiers with its relation at `la`. -/
def State.fieldTokens (st : State) (la : Nat) : List (Nat × Token) := Ccl.fieldTokens st.look ((st.tokens.take la).drop st.look)

inductive Makes : Call → Call → Prop
  -- `find_spec`
  | find_elements {d : Nat} {qa : Option (List Qual)} {st : State} : Makes (.find (d + 1) qa st) (.elements d qa st)
  | find_loop {d : Nat} {qa : Option (List Qual)} {st mid : State} {p1 : RpnNode}
      (first : searchElements cclp (findSpec cclp d) qa st = .ok p1 mid) :
      Makes (.find (d + 1) qa st) (.findLoop d qa ((mid.tokens.drop mid.look).length + 1) p1 mid)
  | loop_elements {d : Nat} {qa : Option (List Qual)} {fuel : Nat} {p1 : RpnNode} {st : State} {t : Token} {op : RpnKind}
      (found : st.tokens[st.look]? = some t) (is : boolOperator t.kind = some op) :
      Makes (.findLoop d qa (fuel + 1) p1 st) (.elements d qa { st with look := st.look + 1 })
  | loop_next {d : Nat} {qa : Option (List Qual)} {fuel : Nat} {p1 p2 : RpnNode} {st mid : State} {t : Token} {op : RpnKind}
      (found : st.tokens[st.look]? = some t) (is : boolOperator t.kind = some op)
      (second : searchElements cclp (findSpec cclp d) qa { st with look := st.look + 1 } = .ok p2 mid) :
      Makes (.findLoop d qa (fuel + 1) p1 st) (.findLoop d qa fuel (cclRpnNodeMkbool (some p1) p2 op) mid)
  -- `search_elements`
  | elements_list {d : Nat} {qa : Option (List Qual)} {st : State} {t : Token} {la : Nat} (found : st.tokens[st.look]? = some t)
      (noSet : t.kind ≠ .set)
      (fields : scanFields st.look (st.tokens.drop st.look) = (la, true)) : Makes (.elements d qa st) (.list d la qa st)
  | elements_terms {d : Nat} {qa : Option (List Qual)} {st : State} {t : Token} {la : Nat} (found : st.tokens[st.look]? = some t)
      (noSet : t.kind ≠ .set) (noFields : scanFields st.look (st.tokens.drop st.look) = (la, false))
      (plain : (qa.isSome || st.tokens[la]?.any fun t => t.kind = .lp) = true) : Makes (.elements d qa st) (.terms d qa st)
  | elements_default {d : Nat} {qa : Option (List Qual)} {st : State} {t : Token} {la : Nat} (found : st.tokens[st.look]? = some t)
      (noSet : t.kind ≠ .set) (noFields : scanFields st.look (st.tokens.drop st.look) = (la, false))
      (plain : ¬ (qa.isSome || st.tokens[la]?.any fun t => t.kind = .lp) = true) :
      Makes (.elements d qa st) (.default d st.look cclp.seqBound 0 none st)
  | default_terms {d lookahead fuel seq : Nat} {node : Option RpnNode} {st : State} {q : Qual}
      (isQual : cclQualSearch cclp (ascii "term") 4 seq = some q) :
      Makes (.default d lookahead (fuel + 1) seq node st) (.terms d (some [q]) { st with look := lookahead })
  | default_next {d lookahead fuel seq : Nat} {node : Option RpnNode} {nodeSub : RpnNode} {st mid : State} {q : Qual}
      (isQual : cclQualSearch cclp (ascii "term") 4 seq = some q)
      (alternative : searchTerms cclp (findSpec cclp d) (some [q]) { st with look := lookahead } = .ok nodeSub mid) :
      Makes (.default d lookahead (fuel + 1) seq node st)
        (.default d lookahead fuel (seq + 1) (some (cclRpnNodeMkbool node nodeSub .or)) mid)
  | default_none {d lookahead fuel seq : Nat} {st : State} (noQual : cclQualSearch cclp (ascii "term") 4 seq = none) :
      Makes (.default d lookahead (fuel + 1) seq none st) (.terms d none st)
  -- `search_terms`
  | terms_first {d : Nat} {qa : Option (List Qual)} {st : State} : Makes (.terms d qa st) (.terms2 d qa st)
  | terms_loop {d : Nat} {qa : Option (List Qual)} {st mid : State} {p1 : RpnNode}
      (first : searchTerms2 cclp (findSpec cclp d) qa st = .ok p1 mid) :
      Makes (.terms d qa st) (.termsLoop d qa ((mid.tokens.drop mid.look).length + 1) p1 mid)
  | prox_terms2 {d : Nat} {qa : Option (List Qual)} {fuel : Nat} {p1 : RpnNode} {st : State} {t : Token}
      (found : st.tokens[st.look]? = some t)
      (prox : t.kind = .prox) : Makes (.termsLoop d qa (fuel + 1) p1 st) (.terms2 d qa { st with look := st.look + 1 })
  | prox_next {d : Nat} {qa : Option (List Qual)} {fuel : Nat} {p1 p2 : RpnNode} {st mid : State} {t : Token}
      (found : st.tokens[st.look]? = some t)
      (prox : t.kind = .prox) (second : searchTerms2 cclp (findSpec cclp d) qa { st with look := st.look + 1 } = .ok p2 mid) :
      Makes (.termsLoop d qa (fuel + 1) p1 st) (.termsLoop d qa fuel (.bool .prox p1 p2 (.term t.text)) mid)
  | more_terms2 {d : Nat} {qa : Option (List Qual)} {fuel : Nat} {p1 : RpnNode} {st : State} {t : Token}
      (found : st.tokens[st.look]? = some t)
      (more : t.kind ∈ termsList) : Makes (.termsLoop d qa (fuel + 1) p1 st) (.terms2 d qa st)
  | more_next {d : Nat} {qa : Option (List Qual)} {fuel : Nat} {p1 p2 : RpnNode} {st mid : State} {t : Token}
      (found : st.tokens[st.look]? = some t)
      (more : t.kind ∈ termsList) (second : searchTerms2 cclp (findSpec cclp d) qa st = .ok p2 mid) :
      Makes (.termsLoop d qa (fuel + 1) p1 st) (.termsLoop d qa fuel (.bool .prox p1 p2 .null) mid)
  | terms2_find {d : Nat} {qa : Option (List Qual)} {st : State} {t : Token} (found : st.tokens[st.look]? = some t) (lp : t.kind = .lp) :
      Makes (.terms2 d qa st) (.find d qa { st with look := st.look + 1 })
  -- `qualifier_list`
  | list_merged {d la : Nat} {qa : Option (List Qual)} {st : State} (merge : modeMerge cclp) :
      Makes (.list d la qa st) (.merged d la (st.fieldTokens la) (qa.getD []) cclp.seqBound 0 none st)
  | list_fields {d la : Nat} {qa : Option (List Qual)} {st : State} (or : ¬ modeMerge cclp) :
      Makes (.list d la qa st) (.fields d la (st.fieldTokens la) none st)
  | fields_first {d la look : Nat} {t : Token} {rest : List (Nat × Token)} {node : Option RpnNode} {st : State} :
      Makes (.fields d la ((look, t) :: rest) node st) (.field d la look t cclp.seqBound 0 node st)
  | fields_next {d la look : Nat} {t : Token} {rest : List (Nat × Token)} {node node' : Option RpnNode} {st mid : State}
      (first : searchField cclp (findSpec cclp d) la look t cclp.seqBound 0 node st = .ok node' mid) :
      Makes (.fields d la ((look, t) :: rest) node st) (.fields d la rest node' mid)
  | field_relation {d la look : Nat} {t : Token} {fuel seq : Nat} {node : Option RpnNode} {st : State} {q : Qual}
      (isQual : cclQualSearch cclp t.name t.len seq = some q) :
      Makes (.field d la look t (fuel + 1) seq node st) (.relation d [q] { st with look := la })
  | field_next {d la look : Nat} {t : Token} {fuel seq : Nat} {node : Option RpnNode} {nodeSub : RpnNode} {st mid : State} {q : Qual}
      (isQual : cclQualSearch cclp t.name t.len seq = some q)
      (alternative : qualifierRelation cclp (findSpec cclp d) [q] { st with look := la } = .ok nodeSub mid) :
      Makes (.field d la look t (fuel + 1) seq node st) (.field d la look t fuel (seq + 1) (some (cclRpnNodeMkbool node nodeSub .or)) mid)
  | merged_relation {d la : Nat} {fields : List (Nat × Token)} {qa ap : List Qual} {fuel seq found : Nat}
      {node : Option RpnNode} {st mid : State}
      (quals : mergeFields cclp seq fields st = .ok (ap, found) mid) (some : found ≠ 0) :
      Makes (.merged d la fields qa (fuel + 1) seq node st) (.relation d (ap ++ qa) { mid with look := la })
  | merged_next {d la : Nat} {fields : List (Nat × Token)} {qa ap : List Qual} {fuel seq found : Nat} {node : Option RpnNode}
      {nodeSub : RpnNode}
      {st mid behind : State} (quals : mergeFields cclp seq fields st = .ok (ap, found) mid) (some : found ≠ 0)
      (alternative : qualifierRelation cclp (findSpec cclp d) (ap ++ qa) { mid with look := la } = .ok nodeSub behind) :
      Makes (.merged d la fields qa (fuel + 1) seq node st)
        (.merged d la fields qa fuel (seq + 1) (Option.some (cclRpnNodeMkbool node nodeSub .or)) behind)
  -- `qualifier_relation`
  | relation_order {d : Nat} {ap : List Qual} {st : State} {attset : Option (List UInt8)}
      (ordered : (qualValType ap CCL_BIB1_REL CCL_BIB1_REL_ORDER).or (qualValType ap CCL_BIB1_REL CCL_BIB1_REL_PORDER) = some attset) :
      Makes (.relation d ap st) (.order d ap attset st)
  | relation_terms {d : Nat} {ap : List Qual} {st : State} {t : Token}
      (plain : (qualValType ap CCL_BIB1_REL CCL_BIB1_REL_ORDER).or (qualValType ap CCL_BIB1_REL CCL_BIB1_REL_PORDER) = none)
      (found : st.tokens[st.look]? = some t) (eq : t.kind = .eq) :
        Makes (.relation d ap st) (.terms d (some ap) { st with look := st.look + 1 })
  | order_terms {d : Nat} {ap : List Qual} {attset : Option (List UInt8)} {st : State} {t u : Token} {rel : Int}
      (found : st.tokens[st.look]? = some t) (is : relationValue t = some rel)
      (ahead : (afterRelation ap rel st).tokens[(afterRelation ap rel st).look]? = some u)
      (noSpan : ¬ (rel = 3 ∧ u.kind = .term ∧
        (((afterRelation ap rel st).tokens.drop (afterRelation ap rel st).look)[1]?.any isDash) = true))
      (noDash : ¬ (rel = 3 ∧ isDash u = true)) : Makes (.order d ap attset st) (.terms d (some ap) (afterRelation ap rel st))

def TakesDash (ap : List Qual) (st : State) : Prop :=
  ∃ t p1 mid, st.tokens[st.look]? = some t ∧ t.kind = .term ∧ ((st.tokens.drop st.look)[1]?.any isDash) = true ∧
    searchTerm cclp ap st = .ok p1 mid ∧ mid.look + 1 = mid.tokens.length

/-- The branches that go wrong: an alternative of merged fields that fails behind others, a range whose dash is taken, and a
relation for a node that has no list of attributes. -/
def Call.Slips : Call → Prop
  | .merged d la names qa (_ + 1) seq (some _) st =>
    ∃ ap found mid st', mergeFields cclp seq names st = .ok (ap, found) mid ∧ found ≠ 0 ∧
      qualifierRelation cclp (findSpec cclp d) (ap ++ qa) { mid with look := la } = .null st'
  | .order d ap attset st =>
    ∃ t rel, st.tokens[st.look]? = some t ∧ relationValue t = some rel ∧
      (rel = 3 ∧ TakesDash cclp ap (afterRelation ap rel st) ∨
        ∃ operands mid, orderedOperands cclp (findSpec cclp d) ap rel (afterRelation ap rel st) = .ok operands mid ∧
          attachRelation ap attset rel operands = none)
  | _ => False

def AllCalls : Call → Call → Prop := Relation.ReflTransGen (Makes cclp)

def GoesWrong (call : Call) : Prop := ∃ made, AllCalls cclp call made ∧ made.Slips cclp

end

section
variable {cclp : CclParser}

theorem GoesWrong.slips {call : Call} (slips : call.Slips cclp) : GoesWrong cclp call := ⟨call, .refl, slips⟩

theorem GoesWrong.makes {call made : Call} (makes : Makes cclp call made) (wrong : GoesWrong cclp made) : GoesWrong cclp call := by
  obtain ⟨last, calls, slips⟩ := wrong
  exact ⟨last, .head makes calls, slips⟩

theorem bind_stops {α β : Type} {x : Parse α} {f : α → Parse β} {st : State} {ending : Ending} (is : (x st).ending = ending)
    (stops : ending ≠ .ok) :
    ((x >>= f) st).ending = ending := by
  change (Parse.bind x f st).ending = ending
  rw [Parse.bind]
  cases outcome : x st with
  | ok =>
    rw [outcome] at is
    exact absurd is.symm stops
  | null =>
    rw [outcome] at is
    exact is
  | undefined =>
    rw [outcome] at is
    exact is
  | tooDeep =>
    rw [outcome] at is
    exact is

theorem ahead_of (st : State) : ahead st = .ok (st.tokens.drop st.look) st := rfl

theorem qualifierList_merge (merge : modeMerge cclp) (d la : Nat) (qa : Option (List Qual)) (st : State) :
    qualifierList cclp (findSpec cclp d) la qa st =
      (searchMerged cclp (findSpec cclp d) la (st.fieldTokens la) (qa.getD []) cclp.seqBound 0 none >>= fun node => ofNode node) st :=
  if_pos merge

theorem qualifierList_or (or : ¬ modeMerge cclp) (d la : Nat) (qa : Option (List Qual)) (st : State) :
    qualifierList cclp (findSpec cclp d) la qa st =
      (searchFields cclp (findSpec cclp d) la (st.fieldTokens la) none >>= fun node => ofNode node) st :=
  if_neg or

theorem lookAt_of (look : Nat) (st : State) : lookAt look st = .ok () { st with look := look } := rfl

/-- A call that does not come to a value ends like the one that it makes, or it goes wrong. -/
theorem Makes.stops {call made : Call} (makes : Makes cclp call made) {ending : Ending} (stops : ending ≠ .ok)
    (is : made.ending cclp = ending) :
    call.ending cclp = ending ∨ call.Slips cclp ∧ call.ending cclp = .undefined := by
  cases makes with
  | find_elements => exact .inl (bind_stops is stops)
  | find_loop first =>
    left
    rw [Call.ending, findSpec, findSpecStep, bind_of_ok first, bind_of_ok (ahead_of _)]
    exact is
  | loop_elements found op =>
    left
    rw [Call.ending, findSpecLoop, bind_of_ok (kind_of found), op]
    dsimp only
    rw [bind_of_ok (advance_of found)]
    exact bind_stops is stops
  | loop_next found op second =>
    left
    rw [Call.ending, findSpecLoop, bind_of_ok (kind_of found), op]
    dsimp only
    rw [bind_of_ok (advance_of found), bind_of_ok second]
    exact is
  | elements_list found noSet fields =>
    left
    rw [Call.ending, searchElements, bind_of_ok (kind_of found), if_neg noSet, fields]
    exact is
  | elements_terms found noSet noFields plain =>
    left
    rw [Call.ending, searchElements, bind_of_ok (kind_of found), if_neg noSet, noFields]
    dsimp only
    rw [if_neg (by decide), if_pos plain]
    exact is
  | elements_default found noSet noFields plain =>
    left
    rw [Call.ending, searchElements, bind_of_ok (kind_of found), if_neg noSet, noFields]
    dsimp only
    rw [if_neg (by decide), if_neg plain]
    exact is
  | default_terms isQual =>
    left
    rw [Call.ending]
    unfold searchDefault
    rw [isQual]
    dsimp only
    rw [bind_of_ok (lookAt_of _ _)]
    exact bind_stops is stops
  | default_next isQual alternative =>
    left
    rw [Call.ending]
    unfold searchDefault
    rw [isQual]
    dsimp only
    rw [bind_of_ok (lookAt_of _ _), bind_of_ok alternative]
    exact is
  | default_none noQual =>
    left
    rw [Call.ending, searchDefault, noQual]
    exact is
  | terms_first => exact .inl (bind_stops is stops)
  | terms_loop first =>
    left
    rw [Call.ending, searchTerms, bind_of_ok first, bind_of_ok (ahead_of _)]
    exact is
  | prox_terms2 found prox =>
    left
    rw [Call.ending, searchTermsLoop, bind_of_ok (lookToken_of found), if_pos prox, bind_of_ok (advance_of found)]
    exact bind_stops is stops
  | prox_next found prox second =>
    left
    rw [Call.ending, searchTermsLoop, bind_of_ok (lookToken_of found), if_pos prox, bind_of_ok (advance_of found), bind_of_ok second]
    exact is
  | more_terms2 found more =>
    left
    rw [Call.ending, searchTermsLoop, bind_of_ok (lookToken_of found), if_neg (fun prox => by simp [prox, termsList] at more), if_pos more]
    exact bind_stops is stops
  | more_next found more second =>
    left
    rw [Call.ending, searchTermsLoop, bind_of_ok (lookToken_of found), if_neg (fun prox => by simp [prox, termsList] at more), if_pos more,
      bind_of_ok second]
    exact is
  | terms2_find found lp =>
    left
    rw [Call.ending, searchTerms2, bind_of_ok (kind_of found), if_pos lp, bind_of_ok (advance_of found)]
    exact bind_stops is stops
  | list_merged merge =>
    left
    rw [Call.ending, qualifierList_merge merge]
    exact bind_stops is stops
  | list_fields or =>
    left
    rw [Call.ending, qualifierList_or or]
    exact bind_stops is stops
  | fields_first => exact .inl (bind_stops is stops)
  | fields_next first =>
    left
    rw [Call.ending, searchFields, bind_of_ok first]
    exact is
  | field_relation isQual =>
    left
    rw [Call.ending, searchField, isQual]
    dsimp only
    rw [bind_of_ok (lookAt_of _ _)]
    exact bind_stops is stops
  | field_next isQual alternative =>
    left
    rw [Call.ending, searchField, isQual]
    dsimp only
    rw [bind_of_ok (lookAt_of _ _), bind_of_ok alternative]
    exact is
  | @merged_relation d la fields qa ap fuel seq found node st mid quals some =>
    rw [Call.ending, searchMerged, bind_of_ok quals]
    dsimp only
    rw [if_neg some, bind_of_ok (lookAt_of _ _)]
    rw [Call.ending] at is
    cases outcome : qualifierRelation cclp (findSpec cclp d) (ap ++ qa) { mid with look := la } with
    | ok =>
      rw [outcome] at is
      exact absurd is.symm stops
    | undefined =>
      rw [outcome] at is
      exact .inl is
    | tooDeep =>
      rw [outcome] at is
      exact .inl is
    | null behind =>
      rw [outcome] at is
      cases node with
      | none => exact .inl is
      | some => exact .inr ⟨⟨ap, found, mid, behind, quals, some, outcome⟩, rfl⟩
  | merged_next quals some alternative =>
    left
    rw [Call.ending, searchMerged, bind_of_ok quals]
    dsimp only
    rw [if_neg some, bind_of_ok (lookAt_of _ _), alternative]
    exact is
  | relation_order ordered =>
    left
    rw [Call.ending, qualifierRelation, ordered]
    exact is
  | relation_terms plain found eq =>
    left
    rw [Call.ending, qualifierRelation, plain]
    dsimp only
    rw [bind_of_ok (kind_of found), if_pos eq, bind_of_ok (advance_of found)]
    exact is
  | order_terms found value ahead noSpan noDash =>
    left
    rw [Call.ending, qualifiersOrder, bind_of_ok (lookToken_of found), value]
    refine bind_stops ?_ stops
    rw [orderedOperands, bind_of_ok (lookToken_of ahead), bind_of_ok (ahead_of _), if_neg noSpan, if_neg noDash]
    exact bind_stops is stops

theorem Call.Slips.undefined {call : Call} (slips : call.Slips cclp) : call.ending cclp = .undefined := by
  cases call with
  | merged _ _ _ _ fuel _ node =>
    cases fuel with
    | zero => exact slips.elim
    | succ =>
      cases node with
      | none => exact slips.elim
      | some =>
        obtain ⟨ap, found, mid, behind, quals, some, failed⟩ := slips
        rw [Call.ending, searchMerged, bind_of_ok quals]
        dsimp only
        rw [if_neg some, bind_of_ok (lookAt_of _ _), failed]
        rfl
  | order =>
    obtain ⟨t, rel, found, value, wrong⟩ := slips
    rw [Call.ending, qualifiersOrder, bind_of_ok (lookToken_of found), value]
    dsimp only
    rcases wrong with ⟨rfl, u, p1, mid, ahead, isTerm, dash, first, last⟩ | ⟨operands, mid, ordered, none⟩
    · refine bind_stops ?_ (by decide)
      have onward : advance mid = .ok () { mid with look := mid.look + 1 } := advance_ok.mpr ⟨by omega, rfl⟩
      have beyond : mid.tokens[mid.look + 1]? = none := List.getElem?_eq_none (Nat.le_of_eq last.symm)
      rw [orderedOperands, bind_of_ok (lookToken_of ahead), bind_of_ok (ahead_of _), if_pos ⟨rfl, isTerm, dash⟩, bind_of_ok first,
        bind_of_ok onward]
      exact congrArg Outcome.ending (bind_of_undefined (kind_beyond beyond) _)
    · rw [bind_of_ok ordered, none]
      rfl
  | _ => exact slips.elim

theorem GoesWrong.undefined {call : Call} (wrong : GoesWrong cclp call) : call.ending cclp = .undefined := by
  obtain ⟨made, calls, slips⟩ := wrong
  induction calls using Relation.ReflTransGen.head_induction_on with
  | refl => exact slips.undefined
  | head makes _ ih =>
    rcases makes.stops (by decide) ih with same | wrong
    · exact same
    · exact wrong.2

theorem AllCalls.null {call made : Call} (calls : AllCalls cclp call made) (fine : ¬ GoesWrong cclp call) {errorCode : CclError}
    (is : made.ending cclp = .null errorCode) : call.ending cclp = .null errorCode := by
  induction calls using Relation.ReflTransGen.head_induction_on with
  | refl => exact is
  | head makes _ ih =>
    have same := ih fun wrong => fine (.makes makes wrong)
    have stops : Ending.null errorCode ≠ .ok := nofun
    rcases makes.stops stops same with handed | wrong
    · exact handed
    · exact absurd (.slips wrong.1) fine

end

end Yaz.Ccl
