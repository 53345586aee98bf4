import Mathlib.Data.List.Basic

/-! Functions that tell where the first message of a buffer ends.

A positive verdict is the length of the message, zero says that more is needed, and a
negative verdict is an error. The buffer is judged anew whenever it has grown.
-/

set_option autoImplicit false

namespace Yaz.Foundation

variable {α : Type} {complete : List α → Int}

/-- The verdict on `b` stands when `t` has arrived, and the end of a message in `b ++ t` is found as
soon as the message is there. -/
structure StableAt (complete : List α → Int) (b t : List α) : Prop where
  accepted : 0 < complete b → complete b ≤ b.length ∧ complete (b ++ t) = complete b
  rejected : complete b < 0 → complete (b ++ t) < 0
  early : 0 < complete (b ++ t) → ∀ n : Nat, (n : Int) < complete (b ++ t) → complete ((b ++ t).take n) = 0
  whole : 0 < complete (b ++ t) →
    complete ((b ++ t).take (complete (b ++ t)).toNat) = complete (b ++ t)

def PrefixStable (complete : List α → Int) : Prop := ∀ b t, StableAt complete b t

/-- A verdict is never reached too early if a positive one stands and a negative one does not turn
positive. -/
theorem stableAt_of_final (final : ∀ b t, 0 < complete b → complete b ≤ b.length ∧ complete (b ++ t) = complete b)
    (hopeless : ∀ b t, complete b < 0 → complete (b ++ t) ≤ 0) {b t : List α}
    (rejected : complete b < 0 → complete (b ++ t) < 0)
    (whole : 0 < complete (b ++ t) → complete ((b ++ t).take (complete (b ++ t)).toNat) = complete (b ++ t)) :
    StableAt complete b t where
  accepted := final b t
  rejected := rejected
  early := by
    intro positive n shorter
    have both := List.take_append_drop n (b ++ t)
    rcases Int.lt_trichotomy (complete ((b ++ t).take n)) 0 with negative | zero | found
    · have := hopeless _ ((b ++ t).drop n) negative
      rw [both] at this
      omega
    · exact zero
    · obtain ⟨inside, same⟩ := final _ ((b ++ t).drop n) found
      rw [both] at same
      have := List.length_take_le n (b ++ t)
      omega
  whole := whole

/-- At any time the first message of the stream is found if all of it has arrived. -/
def Finds (complete : List α → Int) (message rest : List α) : Prop :=
  ∀ ⦃arrived later⦄, arrived ++ later = message ++ rest →
    complete arrived = if arrived.length < message.length then 0 else (message.length : Int)

theorem PrefixStable.finds (stable : PrefixStable complete) {message : List α} (recognised : complete message = message.length)
    (nonempty : message ≠ []) (rest : List α) : Finds complete message rest := by
  intro arrived later stream
  have positive := List.length_pos_iff.mpr nonempty
  have all : complete (message ++ rest) = message.length := by
    rw [← recognised]
    exact ((stable message rest).accepted (by omega)).2
  split
  next short =>
    have early := (stable arrived later).early (by rw [stream, all]; omega) arrived.length (by rw [stream, all]; omega)
    rwa [List.take_left] at early
  next enough =>
    obtain ⟨more, rfl⟩ : ∃ more, arrived = message ++ more := by
      have front : message <+: arrived :=
        List.prefix_of_prefix_length_le (List.prefix_append message rest) (stream ▸ List.prefix_append arrived later)
          (by omega)
      obtain ⟨more, same⟩ := front
      exact ⟨more, same.symm⟩
    rw [← recognised]
    exact ((stable message more).accepted (by omega)).2

end Yaz.Foundation
