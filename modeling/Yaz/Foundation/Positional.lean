import Mathlib.Algebra.Group.Nat.Defs
import Mathlib.Data.List.Induction

/-! Numbers in a base, with the most significant digit first.

A reader continues a number digit by digit; a writer gives the last digits of a number, as
many as it is asked for. The two are inverse to each other where the digits are below the base.
-/

set_option autoImplicit false

namespace Yaz.Foundation

/-- The number that digits continue from `acc`. -/
def positional (base acc : Nat) (digits : List Nat) : Nat := digits.foldl (fun v d => v * base + d) acc

/-- The last `n` digits of a number. -/
def lastDigits (base x : Nat) : Nat → List Nat
  | 0 => []
  | n + 1 => lastDigits base (x / base) n ++ [x % base]

variable {base acc x n : Nat} {digits : List Nat}

@[simp] theorem positional_nil : positional base acc [] = acc := rfl

@[simp] theorem lastDigits_zero : lastDigits base x 0 = [] := rfl

theorem lastDigits_succ : lastDigits base x (n + 1) = lastDigits base (x / base) n ++ [x % base] := rfl

theorem positional_concat (d : Nat) :
    positional base acc (digits ++ [d]) = positional base acc digits * base + d := by
  simp [positional]

@[simp] theorem lastDigits_length : (lastDigits base x n).length = n := by
  induction n generalizing x with
  | zero => rfl
  | succ _ ih => simp [lastDigits_succ, ih]

theorem lastDigits_lt (positive : 0 < base) : ∀ d ∈ lastDigits base x n, d < base := by
  induction n generalizing x with
  | zero => simp
  | succ _ ih =>
    intro d inside
    rw [lastDigits_succ, List.mem_append, List.mem_singleton] at inside
    obtain inside | rfl := inside
    · exact ih d inside
    · exact Nat.mod_lt _ positive

theorem positional_lastDigits : positional base (x / base ^ n) (lastDigits base x n) = x := by
  induction n generalizing x with
  | zero => simp
  | succ n ih =>
    have front : x / base ^ (n + 1) = x / base / base ^ n := by
      rw [Nat.div_div_eq_div_mul, Nat.pow_succ, Nat.mul_comm]
    rw [lastDigits_succ, positional_concat, front, ih, Nat.mul_comm]
    exact Nat.div_add_mod x base

theorem positional_concat_div {d : Nat} (last : d < base) :
    positional base acc (digits ++ [d]) / base = positional base acc digits := by
  rw [positional_concat, Nat.add_comm, Nat.add_mul_div_right _ _ (by omega), Nat.div_eq_of_lt last, Nat.zero_add]

theorem positional_concat_mod {d : Nat} (last : d < base) : positional base acc (digits ++ [d]) % base = d := by
  rw [positional_concat, Nat.add_comm, Nat.add_mul_mod_self_right, Nat.mod_eq_of_lt last]

theorem positional_div (below : ∀ d ∈ digits, d < base) :
    positional base acc digits / base ^ digits.length = acc := by
  induction digits using List.reverseRecOn with
  | nil => simp
  | append_singleton _ d ih =>
    have last : d < base := below d (by simp)
    have earlier := ih fun d inside => below d (List.mem_append_left _ inside)
    rw [List.length_append, List.length_singleton, Nat.pow_succ', ← Nat.div_div_eq_div_mul,
      positional_concat_div last, earlier]

theorem lastDigits_positional (below : ∀ d ∈ digits, d < base) :
    lastDigits base (positional base acc digits) digits.length = digits := by
  induction digits using List.reverseRecOn with
  | nil => rfl
  | append_singleton _ d ih =>
    have last : d < base := below d (by simp)
    have earlier := ih fun d inside => below d (List.mem_append_left _ inside)
    rw [List.length_append, List.length_singleton, lastDigits_succ, positional_concat_div last, positional_concat_mod last,
      earlier]

end Yaz.Foundation
