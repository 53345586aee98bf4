import Yaz.Cql.Grammar

/-! The assignments of prefixes in a query: `cql_apply_prefix` rewrites what is parsed from the inside out, and it comes to a lookup of
each name from the inside out, in the assignments around its search clause.
-/

set_option autoImplicit false

namespace Yaz.Cql
open Yaz.Comstack

/-! ### Names and the assignments around them -/

structure Assignment where
  before : Option (List UInt8)
  uri : List UInt8
  deriving DecidableEq

def splitAtDot (text : List UInt8) : Option (List UInt8 × List UInt8) :=
  if 46 ∈ text then some (text.takeWhile (· ≠ 46), (text.dropWhile (· ≠ 46)).drop 1) else none

def Assignment.isFor (a : Assignment) (front : List UInt8) : Bool := a.before.any fun before => cqlSame front before

def resolved (around : List Assignment) (text : List UInt8) : List UInt8 × Option (List UInt8) :=
  match splitAtDot text with
  | some (front, behind) =>
    match around.find? fun a => a.isFor front with
    | some a => (behind, some a.uri)
    | none => (text, none)
  | none => (text, none)

def resolvedIndex (around : List Assignment) (text : List UInt8) : List UInt8 × Option (List UInt8) :=
  match splitAtDot text with
  | some _ => resolved around text
  | none => (text, (around.find? fun a => a.before.isNone).map Assignment.uri)

theorem cqlSame_length {s1 s2 : List UInt8} (same : cqlSame s1 s2 = true) : s1.length = s2.length := by
  rw [cqlSame, decide_eq_true_iff] at same
  have := congrArg List.length same
  rwa [List.length_map, List.length_map] at this

theorem sameFront_iff (text before : List UInt8) :
    before.length = (text.takeWhile (· ≠ 46)).length ∧ cqlSameFront text before before.length = true ↔
      cqlSame (text.takeWhile (· ≠ 46)) before = true := by
  have front : text.take (text.takeWhile (· ≠ 46)).length = text.takeWhile (· ≠ 46) :=
    (List.prefix_iff_eq_take.mp ( List.takeWhile_prefix _)).symm
  constructor
  · rintro ⟨length, same⟩
    rwa [cqlSameFront, List.take_length, length, front] at same
  · intro same
    have length := cqlSame_length same
    refine ⟨length.symm, ?_⟩
    rw [cqlSameFront, List.take_length, ← length, front]
    exact same

theorem behindPrefix_eq (a : Assignment) (text : List UInt8) :
    behindPrefix text a.before = (splitAtDot text).bind fun (front, behind) => if a.isFor front then some behind else none := by
  rw [splitAtDot]
  cases before : a.before with
  | none =>
    rw [behindPrefix]
    split <;> simp [Assignment.isFor, before]
  | some =>
    rw [behindPrefix]
    by_cases dot : 46 ∈ text
    · simp only [dot, true_and, sameFront_iff, if_true, Option.bind_some, Assignment.isFor, before, Option.any_some]
    · rw [if_neg dot, if_neg fun both => dot both.1]
      rfl

theorem resolve_resolved (around : List Assignment) (a : Assignment) (text : List UInt8) :
    resolve (some (resolved around text).1) (resolved around text).2 a.before a.uri =
      (some (resolved (around ++ [a]) text).1, (resolved (around ++ [a]) text).2) := by
  rw [resolved, resolved]
  cases split : splitAtDot text with
  | none =>
    rw [resolve, behindPrefix_eq, split]
    rfl
  | some parts =>
    obtain ⟨front, behind⟩ := parts
    dsimp only
    rw [List.find?_append]
    cases around.find? fun a => a.isFor front with
    | some => rfl
    | none =>
      rw [resolve, behindPrefix_eq, split, Option.bind_some, Option.none_or, List.find?_singleton]
      dsimp only
      cases a.isFor front <;> rfl

theorem resolved_unresolved {around : List Assignment} {text : List UInt8} (unresolved : (resolved around text).2 = none) :
    (resolved around text).1 = text := by
  rw [resolved] at unresolved ⊢
  cases split : splitAtDot text with
  | none => rfl
  | some parts =>
    rw [split] at unresolved
    dsimp only at unresolved ⊢
    cases found : around.find? fun a => a.isFor parts.1 with
    | none => rfl
    | some =>
      rw [found] at unresolved
      cases unresolved

theorem resolveIndex_dot {text : List UInt8} (dot : 46 ∈ text) (uri before : Option (List UInt8)) (newUri : List UInt8) :
    resolveIndex (some text) uri before newUri = resolve (some text) uri before newUri := by
  cases uri with
  | some => rfl
  | none =>
    cases before with
    | some => rfl
    | none =>
      rw [resolveIndex, if_pos dot]
      rfl

theorem resolveIndex_resolvedIndex (around : List Assignment) (a : Assignment) (text : List UInt8) :
    resolveIndex (some (resolvedIndex around text).1) (resolvedIndex around text).2 a.before a.uri =
      (some (resolvedIndex (around ++ [a]) text).1, (resolvedIndex (around ++ [a]) text).2) := by
  rw [resolvedIndex, resolvedIndex]
  cases split : splitAtDot text with
  -- a name with a dot is looked up with its prefix, one without only by assignments that have none
  | some parts =>
    have dot : 46 ∈ text := by
      by_contra absent
      rw [splitAtDot, if_neg absent] at split
      cases split
    rw [← resolve_resolved]
    cases uri : (resolved around text).2 with
    | some => rfl
    | none =>
      rw [resolved_unresolved uri]
      exact resolveIndex_dot dot _ _ _
  | none =>
    have noDot : 46 ∉ text := by
      intro dot
      rw [splitAtDot, if_pos dot] at split
      cases split
    rw [List.find?_append, List.find?_singleton]
    cases around.find? fun a => a.before.isNone with
    -- the inner assignment wins
    | some inner => rfl
    | none =>
      cases before : a.before with
      | none =>
        rw [Option.map_none, resolveIndex, if_neg noDot]
        rfl
      | some named =>
        have none : behindPrefix text (some named) = none := by
          rw [← before, behindPrefix_eq, split]
          rfl
        rw [Option.map_none, resolveIndex, resolve, none]
        · rfl
        · intro text same unset impossible
          cases impossible

/-- The index, the relation and the modifiers that a search clause has from `$0.rel`. -/
structure Rel where
  index : List UInt8
  relation : List UInt8
  modifiers : Modifiers

def Rel.cql (rel : Rel) : CqlNode := .st { index := some rel.index, relation := some rel.relation } rel.modifiers.cql .null

def serverChoiceRel : Rel := { index := ascii "cql.serverChoice", relation := ascii "=", modifiers := .none }

def Modifiers.cqlIn (around : List Assignment) : Modifiers → CqlNode
  | .none => .null
  | .named front term =>
    let (index, indexUri) := resolved around term.token.buf
    .st { index := some index, indexUri } (front.cqlIn around) .null
  | .valued front term relation value =>
    let (index, indexUri) := resolved around term.token.buf
    .st { index := some index, indexUri, relation := some relation.token.buf, term := some value.token.buf } (front.cqlIn around) .null

def Rel.clauseIn (around : List Assignment) (rel : Rel) (term : List UInt8) (extraTerms : CqlNode) : CqlNode :=
  let (index, indexUri) := resolvedIndex around rel.index
  let (relation, relationUri) := resolved around rel.relation
  .st { index := some index, indexUri, term := some term, relation := some relation, relationUri } (rel.modifiers.cqlIn around) extraTerms

mutual
def CqlQuery.cqlIn (around : List Assignment) (rel : Rel) : CqlQuery → CqlNode
  | .scoped clause => clause.cqlIn around rel
  | .assigned name uri query => query.cqlIn (⟨some name.token.buf, uri.token.buf⟩ :: around) rel
  | .unnamed uri query => query.cqlIn (⟨none, uri.token.buf⟩ :: around) rel

def ScopedClause.cqlIn (around : List Assignment) (rel : Rel) : ScopedClause → CqlNode
  | .single clause => clause.cqlIn around rel
  | .boolean left op modifiers right =>
    .boolean (some op.token.buf) (left.cqlIn around rel) (right.cqlIn around rel) modifiers.cql

def SearchClause.cqlIn (around : List Assignment) (rel : Rel) : SearchClause → CqlNode
  | .parenthesized query => query.cqlIn around rel
  | .terms term extra => rel.clauseIn around term.token.buf extra.cql
  | .related index relation modifiers clause =>
    clause.cqlIn around { index := index.token.buf, relation := relation.token.buf, modifiers := modifiers }
end

theorem applyToModifiers_cqlIn (around : List Assignment) (a : Assignment) (modifiers : Modifiers) :
    applyToModifiers a.before a.uri (modifiers.cqlIn around) = modifiers.cqlIn (around ++ [a]) := by
  induction modifiers with
  | none => rfl
  | named _ _ ih =>
    rw [Modifiers.cqlIn, Modifiers.cqlIn, applyToModifiers, ih]
    rw [resolve_resolved]
  | valued _ _ _ _ ih =>
    rw [Modifiers.cqlIn, Modifiers.cqlIn, applyToModifiers, ih]
    rw [resolve_resolved]

theorem cqlApplyPrefix_clauseIn (around : List Assignment) (a : Assignment) (rel : Rel) (term : List UInt8) (extraTerms : CqlNode) :
    cqlApplyPrefix a.before a.uri (rel.clauseIn around term extraTerms) = rel.clauseIn (around ++ [a]) term extraTerms := by
  rw [Rel.clauseIn, Rel.clauseIn, cqlApplyPrefix, applyToModifiers_cqlIn]
  rw [resolve_resolved, resolveIndex_resolvedIndex]

mutual
theorem CqlQuery.cqlApplyPrefix_cqlIn (around : List Assignment) (a : Assignment) (rel : Rel) (query : CqlQuery) :
    cqlApplyPrefix a.before a.uri (query.cqlIn around rel) = query.cqlIn (around ++ [a]) rel := by
  match query with
  | .scoped clause => exact clause.cqlApplyPrefix_cqlIn around a rel
  | .assigned name uri query => exact query.cqlApplyPrefix_cqlIn (⟨some name.token.buf, uri.token.buf⟩ :: around) a rel
  | .unnamed uri query => exact query.cqlApplyPrefix_cqlIn (⟨none, uri.token.buf⟩ :: around) a rel

theorem ScopedClause.cqlApplyPrefix_cqlIn (around : List Assignment) (a : Assignment) (rel : Rel) (clause : ScopedClause) :
    cqlApplyPrefix a.before a.uri (clause.cqlIn around rel) = clause.cqlIn (around ++ [a]) rel := by
  match clause with
  | .single clause => exact clause.cqlApplyPrefix_cqlIn around a rel
  | .boolean left op modifiers right =>
    rw [ScopedClause.cqlIn, ScopedClause.cqlIn, cqlApplyPrefix, left.cqlApplyPrefix_cqlIn around a rel,
      right.cqlApplyPrefix_cqlIn around a rel]

theorem SearchClause.cqlApplyPrefix_cqlIn (around : List Assignment) (a : Assignment) (rel : Rel) (clause : SearchClause) :
    cqlApplyPrefix a.before a.uri (clause.cqlIn around rel) = clause.cqlIn (around ++ [a]) rel := by
  match clause with
  | .parenthesized query => exact query.cqlApplyPrefix_cqlIn around a rel
  | .terms term extra => exact cqlApplyPrefix_clauseIn around a rel term.token.buf extra.cql
  | .related index relation modifiers clause => exact clause.cqlApplyPrefix_cqlIn around a _
end

theorem resolved_nil (text : List UInt8) : resolved [] text = (text, none) := by
  rw [resolved]
  split <;> rfl

theorem resolvedIndex_nil (text : List UInt8) : resolvedIndex [] text = (text, none) := by
  rw [resolvedIndex]
  split
  · exact resolved_nil text
  · rfl

theorem Modifiers.cqlIn_nil (modifiers : Modifiers) : modifiers.cqlIn [] = modifiers.cql := by
  induction modifiers with
  | none => rfl
  | named _ _ ih => rw [Modifiers.cqlIn, Modifiers.cql, resolved_nil, ih]
  | valued _ _ _ _ ih => rw [Modifiers.cqlIn, Modifiers.cql, resolved_nil, ih]

theorem Modifiers.copied (modifiers : Modifiers) : Copied modifiers.cql := by
  induction modifiers with
  | none => trivial
  | named _ _ ih => exact ⟨rfl, ih⟩
  | valued _ _ _ _ ih => exact ⟨rfl, ih⟩

theorem withTerms_rel (rel : Rel) (term : List UInt8) (extraTerms : CqlNode) :
    withTerms term extraTerms (cqlNodeDup rel.cql) = rel.clauseIn [] term extraTerms := by
  rw [Rel.cql, cqlNodeDup, (cqlNodeDup_eq_iff _).mpr rel.modifiers.copied, withTerms, Rel.clauseIn, resolved_nil, resolvedIndex_nil,
    rel.modifiers.cqlIn_nil]

mutual
theorem CqlQuery.cql_eq_cqlIn (rel : Rel) (query : CqlQuery) : query.cql rel.cql = query.cqlIn [] rel := by
  match query with
  | .scoped clause => exact clause.cql_eq_cqlIn rel
  | .assigned name uri query =>
    rw [CqlQuery.cql, CqlQuery.cqlIn, query.cql_eq_cqlIn rel]
    exact query.cqlApplyPrefix_cqlIn [] ⟨some name.token.buf, uri.token.buf⟩ rel
  | .unnamed uri query =>
    rw [CqlQuery.cql, CqlQuery.cqlIn, query.cql_eq_cqlIn rel]
    exact query.cqlApplyPrefix_cqlIn [] ⟨none, uri.token.buf⟩ rel

theorem ScopedClause.cql_eq_cqlIn (rel : Rel) (clause : ScopedClause) : clause.cql rel.cql = clause.cqlIn [] rel := by
  match clause with
  | .single clause => exact clause.cql_eq_cqlIn rel
  | .boolean left op modifiers right =>
    rw [ScopedClause.cql, ScopedClause.cqlIn, left.cql_eq_cqlIn rel, right.cql_eq_cqlIn rel]

theorem SearchClause.cql_eq_cqlIn (rel : Rel) (clause : SearchClause) : clause.cql rel.cql = clause.cqlIn [] rel := by
  match clause with
  | .parenthesized query => exact query.cql_eq_cqlIn rel
  | .terms term extra => exact withTerms_rel rel term.token.buf extra.cql
  | .related index relation modifiers clause =>
    exact clause.cql_eq_cqlIn { index := index.token.buf, relation := relation.token.buf, modifiers := modifiers }
end

def Top.cqlIn (top : Top) : CqlNode :=
  match top.sortby with
  | none => top.query.cqlIn [] serverChoiceRel
  | some sortSpec => sortSpec.cql.setSearch (top.query.cqlIn [] serverChoiceRel)

/-- The parser resolves each name by the innermost assignment of its prefix. -/
theorem Top.cql_innermost (top : Top) : top.cql = top.cqlIn := by
  have search : top.query.cql serverChoice = top.query.cqlIn [] serverChoiceRel := top.query.cql_eq_cqlIn serverChoiceRel
  rw [Top.cql, search]
  rfl

end Yaz.Cql
