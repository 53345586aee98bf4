import Mathlib.Data.List.Basic

/-! Computations with what they do on the way.

A property that holds of all events of a computation holds of those of its parts, in the order in which these run.
-/

set_option autoImplicit false

namespace Yaz.Foundation

structure Watched (E α : Type) where
  val : α
  events : List E
  deriving DecidableEq

namespace Watched

variable {E α β : Type}

instance : Monad (Watched E) where
  pure val := ⟨val, []⟩
  bind x f := ⟨(f x.val).val, x.events ++ (f x.val).events⟩

def tell (events : List E) : Watched E Unit := ⟨(), events⟩

def All (P : E → Prop) (x : Watched E α) : Prop := ∀ e ∈ x.events, P e

@[simp] theorem val_pure (a : α) : (pure a : Watched E α).val = a := rfl
@[simp] theorem val_bind (x : Watched E α) (f : α → Watched E β) : (x >>= f).val = (f x.val).val := rfl

variable {P : E → Prop}

@[simp] theorem all_pure (a : α) : All P (pure a : Watched E α) := fun _ inside => absurd inside List.not_mem_nil

@[simp] theorem all_bind (x : Watched E α) (f : α → Watched E β) : All P (x >>= f) ↔ All P x ∧ All P (f x.val) := List.forall_mem_append

@[simp] theorem all_tell (events : List E) : All P (tell events) ↔ ∀ e ∈ events, P e := Iff.rfl

end Watched
end Yaz.Foundation
