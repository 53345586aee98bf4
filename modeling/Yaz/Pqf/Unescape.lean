import Yaz.Pqf.Written

/-! Unescaping as a relation: a sequence of the escape character takes at least two octets and gives one at most. -/

set_option autoImplicit false

namespace Yaz.Pqf
open List

theorem escapeString_noBackslash {text : List UInt8} (plain : 92 ∉ text) : escapeString text = text := by
  induction text with
  | nil => rfl
  | cons _ _ ih =>
    rw [mem_cons, not_or] at plain
    rw [escapeString_plain (Ne.symm plain.1), ih plain.2]

inductive Unescaped : List UInt8 → List UInt8 → Prop where
  | nil : Unescaped [] []
  | last (c : UInt8) : Unescaped [c] [c]
  | plain {c : UInt8} {mem out : List UInt8} (other : c ≠ 92) (rest : Unescaped mem out) : Unescaped (c :: mem) (c :: out)
  | sequence (c : UInt8) (further : List UInt8) (given : Option UInt8) {mem out : List UInt8} (blank : c = 32 → given = some 32)
      (rest : Unescaped mem out) : Unescaped (92 :: c :: (further ++ mem)) (given.toList ++ out)

theorem escapeString_unescaped (mem : List UInt8) : Unescaped mem (escapeString mem) := by
  fun_induction escapeString mem with
  | case1 => exact .nil
  | case2 c => exact .last c
  | case3 rest ih => exact .sequence 116 [] (some 9) (by decide) ih
  | case4 rest ih => exact .sequence 110 [] (some 10) (by decide) ih
  | case5 rest ih => exact .sequence 114 [] (some 13) (by decide) ih
  | case6 rest ih => exact .sequence 102 [] (some 12) (by decide) ih
  | case7 a b rest ih => exact .sequence 120 [a, b] (some (octetOf (scanInt 16 [a, b]))) (fun is => absurd is (by decide)) ih
  | case8 => exact .sequence 120 [] none (fun is => absurd is (by decide)) ‹_›
  | case9 c _ _ _ _ _ octal a b rest _ ih =>
    have noBlank : c ≠ 32 := by
      rintro rfl
      exact absurd octal.1 (by decide)
    exact .sequence c [a, b] (some _) (fun is => absurd is noBlank) ih
  | case10 c _ _ _ _ _ octal =>
    have noBlank : c ≠ 32 := by
      rintro rfl
      exact absurd octal.1 (by decide)
    exact .sequence c [] none (fun is => absurd is noBlank) ‹_›
  | case11 c => exact .sequence c [] (some c) (fun is => congrArg some is) ‹_›
  | case12 c rest more _ _ _ _ _ other ih =>
    refine .plain (fun is => ?_) ih
    cases rest with
    | nil => exact more rfl
    | cons d rest => exact other d rest is rfl

variable {mem out : List UInt8}

theorem Unescaped.length_le (unescaped : Unescaped mem out) : out.length ≤ mem.length := by
  induction unescaped with
  | nil => exact Nat.le_refl 0
  | last => exact Nat.le_refl 1
  | plain _ _ ih => exact Nat.succ_le_succ ih
  | sequence _ _ given =>
    have one := Option.length_toList_le (o := given)
    simp only [length_cons, length_append]
    omega

theorem Unescaped.same_length (unescaped : Unescaped mem out) (same : out.length = mem.length) :
    92 ∉ mem.dropLast := by
  induction unescaped with
  | nil => exact not_mem_nil
  | last => exact not_mem_nil
  | @plain c mem out other rest ih =>
    rw [length_cons, length_cons, Nat.add_right_cancel_iff] at same
    cases mem with
    | nil => exact not_mem_nil
    | cons =>
      rw [dropLast_cons_cons, mem_cons, not_or]
      exact ⟨Ne.symm other, ih same⟩
  | sequence _ _ given _ rest =>
    have one := Option.length_toList_le (o := given)
    have less := rest.length_le
    simp only [length_cons, length_append] at same
    omega

theorem Unescaped.backslashes_le (unescaped : Unescaped mem out) : out.count 92 ≤ mem.count 92 := by
  induction unescaped with
  | nil => exact Nat.le_refl 0
  | last => exact Nat.le_refl _
  | @plain c mem out other rest ih =>
    rw [count_cons_of_ne other, count_cons_of_ne other]
    exact ih
  | sequence _ _ given =>
    have one := (count_le_length (a := (92 : UInt8)) (l := given.toList)).trans Option.length_toList_le
    rw [count_append, count_cons_self, count_cons, count_append]
    omega

theorem sequence_backslash {c : UInt8} {further : List UInt8} {given : Option UInt8} (rest : Unescaped mem out)
    (same : (given.toList ++ out).count 92 = (92 :: c :: (further ++ mem)).count 92) :
    given = some 92 ∧ c ≠ 92 ∧ 92 ∉ further ∧ out.count 92 = mem.count 92 := by
  have later := rest.backslashes_le
  rw [count_append, count_cons_self, count_cons, count_append] at same
  have none : further.count 92 = 0 := by
    have one := (count_le_length (a := (92 : UInt8)) (l := given.toList)).trans Option.length_toList_le
    omega
  cases given with
  | none =>
    rw [Option.toList_none, count_nil] at same
    omega
  | some d =>
    rw [Option.toList_some, count_singleton] at same
    refine ⟨?_, ?_, count_eq_zero.mp none, ?_⟩
    · by_cases backslash : d = 92
      · rw [backslash]
      · rw [if_neg (by simpa using backslash)] at same
        omega
    · rintro rfl
      rw [if_pos (beq_self_eq_true _)] at same
      split at same
      · omega
      · omega
    · split at same
      · omega
      · omega

theorem Unescaped.count_le (unescaped : Unescaped mem out) (same : out.count 92 = mem.count 92) {d : UInt8}
    (other : d ≠ 92) : out.count d ≤ mem.count d := by
  induction unescaped with
  | nil => exact Nat.le_refl 0
  | last => exact Nat.le_refl _
  | @plain c mem out plain rest ih =>
    rw [count_cons_of_ne plain, count_cons_of_ne plain] at same
    rw [count_cons, count_cons]
    exact Nat.add_le_add_right (ih same) _
  | sequence _ _ _ _ rest ih =>
    obtain ⟨rfl, -, -, same⟩ := sequence_backslash rest same
    rw [Option.toList_some, singleton_append, count_cons_of_ne (Ne.symm other), count_cons_of_ne (Ne.symm other),
      count_cons, count_append]
    omega

end Yaz.Pqf
