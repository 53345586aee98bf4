import Mathlib.Data.Fin.Basic
import Mathlib.Data.List.Nodup

/-! Hash tables of chains, as finite maps.

A hash picks the chain of a key. An entry that is there is changed in place, and a new one is put in
front of its chain, so that the keys of a chain stay distinct.
-/

set_option autoImplicit false

namespace Yaz.Foundation

variable {K V : Type} [DecidableEq K] {n : Nat}

section
open List

def chainChange (key : K) (value : V) : (chain : List (K × V)) → Option (List (K × V))
  | [] => none
  | entry :: chain =>
    if entry.1 = key then some ((key, value) :: chain)
    else (chainChange key value chain).map (entry :: ·)

def chainPut (key : K) (value : V) (chain : List (K × V)) : List (K × V) :=
  (chainChange key value chain).getD ((key, value) :: chain)

theorem lookup_cons_eq (key : K) (entry : K × V) (chain : List (K × V)) :
    (entry :: chain).lookup key = if entry.1 = key then some entry.2 else chain.lookup key := by
  rw [lookup_cons]
  by_cases same : entry.1 = key
  · rw [if_pos same, same, beq_self_eq_true]
  · rw [if_neg same, beq_false_of_ne (Ne.symm same)]

variable {value : V} {chain changed : List (K × V)}

theorem parts_of_chainChange {key : K} (there : chainChange key value chain = some changed) :
    ∃ before old behind, chain = before ++ (key, old) :: behind ∧ changed = before ++ (key, value) :: behind ∧
      key ∉ before.map Prod.fst := by
  induction chain generalizing changed with
  | nil => cases there
  | cons entry chain ih =>
    rw [chainChange] at there
    split at there
    next same =>
      cases there
      exact ⟨[], entry.2, chain, by rw [← same]; rfl, rfl, not_mem_nil⟩
    next differs =>
      obtain ⟨rest, restThere, rfl⟩ := Option.map_eq_some_iff.mp there
      obtain ⟨before, old, behind, rfl, rfl, first⟩ := ih restThere
      exact ⟨entry :: before, old, behind, rfl, rfl, by simp [Ne.symm differs, first]⟩

theorem lookup_of_chainChange {key : K} (there : chainChange key value chain = some changed)
    (other : K) : changed.lookup other = if key = other then some value else chain.lookup other := by
  obtain ⟨before, old, behind, rfl, rfl, first⟩ := parts_of_chainChange there
  rw [lookup_append, lookup_append, lookup_cons_eq, lookup_cons_eq]
  split
  next same =>
    subst same
    have none : before.lookup key = none := by
      rw [lookup_eq_none_iff]
      intro entry inside
      exact bne_iff_ne.mpr fun isKey => first (isKey ▸ mem_map_of_mem inside)
    rw [none, Option.none_or]
  · rfl

theorem keys_of_chainChange {key : K} (there : chainChange key value chain = some changed) :
    changed.map Prod.fst = chain.map Prod.fst := by
  obtain ⟨before, old, behind, rfl, rfl, -⟩ := parts_of_chainChange there
  rw [map_append, map_append, map_cons, map_cons]

theorem chainChange_eq_none_iff {key : K} :
    chainChange key value chain = none ↔ key ∉ chain.map Prod.fst := by
  induction chain with
  | nil => simp [chainChange]
  | cons _ _ ih =>
    rw [chainChange, map_cons, mem_cons, not_or]
    split
    next same => simp [same]
    next differs => rw [Option.map_eq_none_iff, ih, and_iff_right (Ne.symm differs)]

theorem lookup_chainPut (key : K) (value : V) (chain : List (K × V)) (other : K) :
    (chainPut key value chain).lookup other = if key = other then some value else chain.lookup other := by
  rw [chainPut]
  cases there : chainChange key value chain with
  | none => exact lookup_cons_eq other (key, value) chain
  | some => exact lookup_of_chainChange there other

theorem distinct_chainPut (key : K) (value : V) (distinct : (chain.map Prod.fst).Nodup) :
    ((chainPut key value chain).map Prod.fst).Nodup := by
  rw [chainPut]
  cases there : chainChange key value chain with
  | none =>
    rw [Option.getD_none, map_cons, nodup_cons]
    exact ⟨chainChange_eq_none_iff.mp there, distinct⟩
  | some =>
    rw [Option.getD_some, keys_of_chainChange there]
    exact distinct

end

structure Chained (hash : K → Fin n) (V : Type) where
  chains : Vector (List (K × V)) n
  distinct : ∀ i : Fin n, (chains[i].map Prod.fst).Nodup

namespace Chained

variable {hash : K → Fin n}

def empty : Chained hash V where
  chains := .replicate n []
  distinct := by simp

def get (table : Chained hash V) (key : K) : Option V := table.chains[hash key].lookup key

def put (table : Chained hash V) (key : K) (value : V) : Chained hash V where
  chains := table.chains.set (hash key) (chainPut key value table.chains[hash key])
  distinct i := by
    rw [Fin.getElem_fin, Vector.getElem_set]
    split
    · exact distinct_chainPut key value (table.distinct (hash key))
    · exact table.distinct i

@[simp] theorem get_empty (key : K) : (empty : Chained hash V).get key = none := by simp [get, empty]

theorem get_put (table : Chained hash V) (key : K) (value : V) (other : K) :
    (table.put key value).get other = if key = other then some value else table.get other := by
  rw [get, get, put, Fin.getElem_fin, Vector.getElem_set]
  by_cases sameChain : (hash key : Nat) = hash other
  · have same : table.chains[hash key] = table.chains[hash other] := congrArg (fun i => table.chains[i]) (Fin.ext sameChain)
    rw [if_pos sameChain, lookup_chainPut, same]
  · rw [if_neg sameChain, if_neg fun same : key = other => sameChain (by rw [same])]
    rfl

inductive Update (K V : Type) where
  | put (key : K) (value : V)
  | clear

def update (table : Chained hash V) : Update K V → Chained hash V
  | .put key value => table.put key value
  | .clear => empty

def latest (key : K) : (history : List (Update K V)) → Option V
  | [] => none
  | .put put value :: history => if put = key then some value else latest key history
  | .clear :: _ => none

theorem get_foldr_update (history : List (Update K V)) (key : K) :
    (history.foldr (fun change table => table.update change) (empty : Chained hash V)).get key = latest key history := by
  induction history with
  | nil => exact get_empty key
  | cons change _ ih =>
    rw [List.foldr_cons]
    cases change with
    | put => rw [update, get_put, latest, ih]
    | clear => exact get_empty key

theorem get_foldl_update (updates : List (Update K V)) (key : K) :
    (updates.foldl update (empty : Chained hash V)).get key = latest key updates.reverse := by
  rw [← get_foldr_update , List.foldr_reverse]

end Chained

end Yaz.Foundation
