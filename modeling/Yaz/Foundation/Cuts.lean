import Mathlib.Algebra.BigOperators.Ring.List
import Mathlib.Data.List.Nodup

/-! The ways to cut a list into consecutive groups of bounded length, and sums of products over them. -/

set_option autoImplicit false

namespace Yaz.Foundation
open List

variable {α : Type} {most : Nat}

structure IsCut (most : Nat) (l : List α) (cut : List (List α)) : Prop where
  joined : cut.flatten = l
  nonempty : ∀ group ∈ cut, group ≠ []
  short : ∀ group ∈ cut, group.length ≤ most

theorem exists_isCut (room : 1 ≤ most) (l : List α) : ∃ cut, IsCut most l cut := by
  refine ⟨l.map fun a => [a], ?_, ?_, ?_⟩
  · induction l with
    | nil => rfl
    | cons _ _ ih => rw [map_cons, flatten_cons, ih, singleton_append]
  · intro group member
    obtain ⟨a, -, rfl⟩ := mem_map.mp member
    exact cons_ne_nil a []
  · intro group member
    obtain ⟨a, -, rfl⟩ := mem_map.mp member
    exact room

/-- All cuts of a list of at most `fuel` elements. -/
def cuts (most : Nat) : (fuel : Nat) → (l : List α) → List (List (List α))
  | _, [] => [[]]
  | 0, _ :: _ => []
  | fuel + 1, a :: l =>
    (List.range' 1 (min (l.length + 1) most)).flatMap fun n => (cuts most fuel ((a :: l).drop n)).map ((a :: l).take n :: ·)

attribute [local simp] cuts

theorem cuts_nil (fuel : Nat) : cuts most fuel ([] : List α) = [[]] := by
  cases fuel <;> rfl

theorem IsCut.of_nil {cut : List (List α)} (is : IsCut most [] cut) : cut = [] := by
  cases cut with
  | nil => rfl
  | cons group => exact absurd (flatten_eq_nil_iff.mp is.joined group mem_cons_self) (is.nonempty group mem_cons_self)

theorem isCut_cons_iff (l group : List α) (cut : List (List α)) :
    IsCut most l (group :: cut) ↔
      ∃ n, 1 ≤ n ∧ n ≤ most ∧ n ≤ l.length ∧ group = l.take n ∧ IsCut most (l.drop n) cut := by
  constructor
  · rintro ⟨joined, nonempty, short⟩
    have := length_pos_iff.mpr (nonempty group mem_cons_self)
    rw [flatten_cons] at joined
    refine ⟨group.length, this, short group mem_cons_self, ?_, ?_, ?_, ?_, ?_⟩
    · rw [← joined, length_append]
      omega
    · rw [← joined, take_left']
      rfl
    · rw [← joined, drop_left']
      rfl
    · exact fun g member => nonempty g (mem_cons_of_mem _ member)
    · exact fun g member => short g (mem_cons_of_mem _ member)
  · rintro ⟨n, positive, few, inside, rfl, rest⟩
    have length : (l.take n).length = n := by rw [List.length_take, Nat.min_eq_left inside]
    constructor
    · rw [flatten_cons, rest.joined, take_append_drop]
    · intro g member
      rcases mem_cons.mp member with rfl | behind
      · exact length_pos_iff.mp (by omega)
      · exact rest.nonempty g behind
    · intro g member
      rcases mem_cons.mp member with rfl | behind
      · omega
      · exact rest.short g behind

theorem mem_cuts_iff {fuel : Nat} {l : List α} (enough : l.length ≤ fuel) (cut : List (List α)) :
    cut ∈ cuts most fuel l ↔ IsCut most l cut := by
  induction fuel generalizing l cut with
  | zero =>
    obtain rfl := length_eq_zero_iff.mp (Nat.le_zero.mp enough)
    rw [cuts_nil, mem_singleton]
    exact ⟨fun is => is ▸ ⟨rfl, by simp, by simp⟩, IsCut.of_nil⟩
  | succ _ ih =>
    cases l with
    | nil =>
      rw [cuts_nil, mem_singleton]
      exact ⟨fun is => is ▸ ⟨rfl, by simp, by simp⟩, IsCut.of_nil⟩
    | cons =>
      simp only [cuts, mem_flatMap, mem_range'_1, mem_map]
      cases cut with
      | nil => exact iff_of_false (by simp) fun is => nomatch is.joined
      | cons _ cut =>
        rw [isCut_cons_iff]
        constructor
        · rintro ⟨n, ⟨positive, few⟩, rest, member, same⟩
          obtain ⟨rfl, rfl⟩ := List.cons.inj same
          refine ⟨n, positive, by omega, by rw [length_cons]; omega, rfl, (ih ?_ rest).mp member⟩
          rw [length_drop]
          omega
        · rintro ⟨n, positive, few, inside, rfl, rest⟩
          rw [length_cons] at inside
          refine ⟨n, ⟨positive, by omega⟩, cut, (ih ?_ cut).mpr rest, rfl⟩
          rw [length_drop]
          omega

theorem nodup_cuts (most fuel : Nat) (l : List α) : (cuts most fuel l).Nodup := by
  induction fuel generalizing l with
  | zero => cases l <;> simp [cuts]
  | succ _ ih =>
    cases l with
    | nil => simp [cuts]
    | cons =>
      rw [cuts, nodup_flatMap]
      constructor
      · intro n _
        exact (ih _).map fun cut cut' same => (List.cons.inj same).2
      · refine List.Nodup.pairwise_of_forall_ne nodup_range' ?_
        intro n inRange n' inRange' differ cut member member'
        obtain ⟨rest, -, rfl⟩ := mem_map.mp member
        obtain ⟨rest', -, same⟩ := mem_map.mp member'
        have lengths := congrArg List.length (List.cons.inj same).1
        rw [List.length_take, List.length_take, length_cons] at lengths
        rw [mem_range'_1] at inRange inRange'
        omega

section
variable {S : Type} [Semiring S]

def sumCuts (worth : List α → S) (most fuel : Nat) (l : List α) : S := ((cuts most fuel l).map fun cut => (cut.map worth).prod).sum

theorem sumCuts_nil (worth : List α → S) (fuel : Nat) : sumCuts worth most fuel [] = 1 := by
  simp [sumCuts]

theorem sumCuts_cons (worth : List α → S) (fuel : Nat) (a : α) (l : List α) :
    sumCuts worth most (fuel + 1) (a :: l) =
      ((List.range' 1 (min (l.length + 1) most)).map fun n =>
        worth ((a :: l).take n) * sumCuts worth most fuel ((a :: l).drop n)).sum := by
  rw [sumCuts, cuts, map_flatMap, flatMap_def, sum_flatten, map_map]
  congr 2
  funext n
  rw [Function.comp_apply, map_map, sumCuts, ← sum_map_mul_left]
  rfl

end

end Yaz.Foundation
