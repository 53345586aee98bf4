import Mathlib.Data.List.Basic

/-! Runs of stateful code that may stop, with the calls they enter.

A run keeps its final state and its events also when it stops, so that a
statement about every step of a run does not lose the steps before the stop.
-/

set_option autoImplicit false

namespace Yaz.Foundation

variable {ε σ η κ α β : Type}

inductive Outcome (ε α : Type) where
  | returned (value : α)
  | stopped (why : ε)
  deriving DecidableEq

structure Execution (ε σ η α : Type) where
  outcome : Outcome ε α
  state : σ
  events : List η

def Run (ε σ η α : Type) := σ → Execution ε σ η α

namespace Run

def ret (value : α) : Run ε σ η α := fun s => ⟨.returned value, s, []⟩

def stop (why : ε) : Run ε σ η α := fun s => ⟨.stopped why, s, []⟩

def andThen (first : Run ε σ η α) (next : α → Run ε σ η β) : Run ε σ η β := fun s =>
  match first s with
  | ⟨.returned value, t, events⟩ =>
    let rest := next value t
    ⟨rest.outcome, rest.state, events ++ rest.events⟩
  | ⟨.stopped why, t, events⟩ => ⟨.stopped why, t, events⟩

instance : Monad (Run ε σ η) where
  pure := ret
  bind := andThen

def get : Run ε σ η σ := fun s => ⟨.returned s, s, []⟩

def modify (update : σ → σ) : Run ε σ η Unit := fun s => ⟨.returned (), update s, []⟩

def enter (call : κ) : Run ε σ (κ × σ) Unit := fun s => ⟨.returned (), s, [(call, s)]⟩

@[simp] theorem pure_apply (value : α) (s : σ) :
    (pure value : Run ε σ η α) s = ⟨.returned value, s, []⟩ := rfl

@[simp] theorem stop_apply (why : ε) (s : σ) :
    (stop why : Run ε σ η α) s = ⟨.stopped why, s, []⟩ := rfl

@[simp] theorem get_apply (s : σ) : (get : Run ε σ η σ) s = ⟨.returned s, s, []⟩ := rfl

@[simp] theorem modify_apply (update : σ → σ) (s : σ) :
    (modify update : Run ε σ η Unit) s = ⟨.returned (), update s, []⟩ := rfl

@[simp] theorem pure_bind_apply (value : α) (next : α → Run ε σ η β) (s : σ) :
    (pure value >>= next) s = next value s := rfl

@[simp] theorem stop_bind_apply (why : ε) (next : α → Run ε σ η β) (s : σ) :
    (stop why >>= next) s = ⟨.stopped why, s, []⟩ := rfl

@[simp] theorem get_bind_apply (next : σ → Run ε σ η β) (s : σ) : (get >>= next) s = next s s := rfl

@[simp] theorem modify_bind_apply (update : σ → σ) (next : Unit → Run ε σ η β) (s : σ) :
    (modify update >>= next) s = next () (update s) := rfl

@[simp] theorem enter_bind_apply (call : κ) (next : Unit → Run ε σ (κ × σ) β) (s : σ) :
    (enter call >>= next) s =
      ⟨(next () s).outcome, (next () s).state, (call, s) :: (next () s).events⟩ := rfl

theorem bind_of_returned {first : Run ε σ η α} {s : σ} {value : α}
    (h : (first s).outcome = .returned value) (next : α → Run ε σ η β) :
    (first >>= next) s = ⟨(next value (first s).state).outcome, (next value (first s).state).state,
      (first s).events ++ (next value (first s).state).events⟩ := by
  change andThen first next s = _
  unfold andThen
  generalize first s = execution at h ⊢
  obtain ⟨outcome, state, events⟩ := execution
  subst h
  rfl

theorem bind_of_stopped {first : Run ε σ η α} {s : σ} {why : ε}
    (h : (first s).outcome = .stopped why) (next : α → Run ε σ η β) :
    (first >>= next) s = ⟨.stopped why, (first s).state, (first s).events⟩ := by
  change andThen first next s = _
  unfold andThen
  generalize first s = execution at h ⊢
  obtain ⟨outcome, state, events⟩ := execution
  subst h
  rfl

theorem bind_assoc_apply {γ : Type} (first : Run ε σ η α) (next : α → Run ε σ η β)
    (last : β → Run ε σ η γ) (s : σ) :
    ((first >>= next) >>= last) s = (first >>= fun value => next value >>= last) s := by
  cases h : (first s).outcome with
  | stopped =>
    rw [bind_of_stopped h, bind_of_stopped]
    · rw [bind_of_stopped h]
    · rw [bind_of_stopped h]
  | returned value =>
    rw [bind_of_returned h]
    cases k : (next value (first s).state).outcome with
    | stopped why =>
      have both : ((first >>= next) s).outcome = .stopped why := by rw [bind_of_returned h]; exact k
      rw [bind_of_stopped both, bind_of_stopped k, bind_of_returned h]
    | returned other =>
      have both : ((first >>= next) s).outcome = .returned other := by rw [bind_of_returned h]; exact k
      rw [bind_of_returned both, bind_of_returned k, bind_of_returned h]
      simp only [List.append_assoc]

theorem bind_bind {γ : Type} (first : Run ε σ η α) (next : α → Run ε σ η β) (last : β → Run ε σ η γ) :
    ((first >>= next) >>= last) = (first >>= fun value => next value >>= last) :=
  funext (bind_assoc_apply first next last)

/-! ### Normal completion -/

def Returns (run : Run ε σ η α) (s : σ) (value : α) (t : σ) : Prop :=
  (run s).outcome = .returned value ∧ (run s).state = t

@[simp] theorem returns_pure_iff (value other : α) (s t : σ) :
    Returns (pure value : Run ε σ η α) s other t ↔ value = other ∧ s = t := by
  simp [Returns]

@[simp] theorem not_returns_stop (why : ε) (s : σ) (value : α) (t : σ) :
    ¬ Returns (stop why : Run ε σ η α) s value t := by
  simp [Returns]

@[simp] theorem returns_modify_iff (update : σ → σ) (s : σ) (value : Unit) (t : σ) :
    Returns (modify update : Run ε σ η Unit) s value t ↔ update s = t := by
  simp [Returns]

@[simp] theorem returns_pure_bind_iff (value : α) (next : α → Run ε σ η β) (s : σ) (other : β) (t : σ) :
    Returns (pure value >>= next) s other t ↔ Returns (next value) s other t := by
  simp [Returns]

@[simp] theorem not_returns_stop_bind (why : ε) (next : α → Run ε σ η β) (s : σ) (value : β) (t : σ) :
    ¬ Returns (stop why >>= next) s value t := by
  simp [Returns]

@[simp] theorem returns_get_bind_iff (next : σ → Run ε σ η β) (s : σ) (value : β) (t : σ) :
    Returns (get >>= next) s value t ↔ Returns (next s) s value t := by
  simp [Returns]

@[simp] theorem returns_modify_bind_iff (update : σ → σ) (next : Unit → Run ε σ η β) (s : σ) (value : β)
    (t : σ) : Returns (modify update >>= next) s value t ↔ Returns (next ()) (update s) value t := by
  simp [Returns]

@[simp] theorem returns_enter_bind_iff (call : κ) (next : Unit → Run ε σ (κ × σ) β) (s : σ) (value : β)
    (t : σ) : Returns (enter call >>= next) s value t ↔ Returns (next ()) s value t := by
  simp [Returns]

@[simp] theorem returns_ite_iff (c : Prop) [Decidable c] (first other : Run ε σ η α) (s : σ) (value : α)
    (t : σ) : Returns (if c then first else other) s value t ↔
      if c then Returns first s value t else Returns other s value t := by
  split <;> rfl

theorem returns_bind_iff (first : Run ε σ η α) (next : α → Run ε σ η β) (s : σ) (value : β) (t : σ) :
    Returns (first >>= next) s value t ↔
      ∃ middle u, Returns first s middle u ∧ Returns (next middle) u value t := by
  constructor
  · intro h
    cases k : (first s).outcome with
    | stopped => simp [Returns, bind_of_stopped k] at h
    | returned middle =>
      refine ⟨middle, (first s).state, ⟨k, rfl⟩, ?_⟩
      simpa [Returns, bind_of_returned k] using h
  · rintro ⟨middle, u, ⟨k, rfl⟩, h⟩
    simpa [Returns, bind_of_returned k] using h

theorem Returns.bind {first : Run ε σ η α} {next : α → Run ε σ η β} {s u t : σ} {middle : α} {value : β}
    (h : Returns first s middle u) (k : Returns (next middle) u value t) :
    Returns (first >>= next) s value t :=
  (returns_bind_iff first next s value t).mpr ⟨middle, u, h, k⟩

theorem Returns.unique {run : Run ε σ η α} {s t u : σ} {value other : α}
    (h : Returns run s value t) (k : Returns run s other u) : value = other ∧ t = u := by
  have same := h.1.symm.trans k.1
  exact ⟨by simpa using same, h.2.symm.trans k.2⟩

/-! ### Steps of a run -/

/-- What is assumed of the calls a run enters, what is to be shown of them, and the reasons for
which the run may stop. -/
structure Contract (ε η : Type) where
  assumed : η → Prop
  kept : η → Prop
  allowed : ε → Prop

section
variable {c : Contract ε η} {post : α → σ → Prop}

/-- If all calls a run enters meet the assumption, then all of them meet the guarantee, and the run
stops for an allowed reason or returns as `post` says. -/
def Upholds (c : Contract ε η) (run : Run ε σ η α) (s : σ) (post : α → σ → Prop) : Prop :=
  (∀ event ∈ (run s).events, c.assumed event) →
    (∀ event ∈ (run s).events, c.kept event) ∧
      match (run s).outcome with
      | .returned value => post value (run s).state
      | .stopped why => c.allowed why

@[simp] theorem upholds_pure_iff (value : α) (s : σ) :
    Upholds c (pure value) s post ↔ post value s := by
  simp [Upholds]

@[simp] theorem upholds_stop_iff (why : ε) (s : σ) :
    Upholds c (stop why : Run ε σ η α) s post ↔ c.allowed why := by
  simp [Upholds]

@[simp] theorem upholds_get_iff (s : σ) (post : σ → σ → Prop) : Upholds c get s post ↔ post s s := by
  simp [Upholds]

@[simp] theorem upholds_modify_iff (update : σ → σ) (s : σ) (post : Unit → σ → Prop) :
    Upholds c (modify update) s post ↔ post () (update s) := by
  simp [Upholds]

@[simp] theorem upholds_pure_bind_iff (value : β) (next : β → Run ε σ η α) (s : σ) :
    Upholds c (pure value >>= next) s post ↔ Upholds c (next value) s post := by
  simp [Upholds]

@[simp] theorem upholds_stop_bind_iff (why : ε) (next : β → Run ε σ η α) (s : σ) :
    Upholds c (stop why >>= next) s post ↔ c.allowed why := by
  simp [Upholds]

@[simp] theorem upholds_get_bind_iff (next : σ → Run ε σ η α) (s : σ) :
    Upholds c (get >>= next) s post ↔ Upholds c (next s) s post := by
  simp [Upholds]

@[simp] theorem upholds_modify_bind_iff (update : σ → σ) (next : Unit → Run ε σ η α) (s : σ) :
    Upholds c (modify update >>= next) s post ↔ Upholds c (next ()) (update s) post := by
  simp [Upholds]

@[simp] theorem upholds_ite_iff (p : Prop) [Decidable p] (first other : Run ε σ η α) (s : σ) :
    Upholds c (if p then first else other) s post ↔
      if p then Upholds c first s post else Upholds c other s post := by
  split <;> rfl

theorem Upholds.mono {run : Run ε σ η α} {s : σ} {other : α → σ → Prop}
    (h : Upholds c run s other) (weaker : ∀ value t, other value t → post value t) :
    Upholds c run s post := by
  intro met
  obtain ⟨kept, reached⟩ := h met
  refine ⟨kept, ?_⟩
  cases k : (run s).outcome with
  | returned value =>
    rw [k] at reached
    exact weaker value _ reached
  | stopped =>
    rw [k] at reached
    exact reached

/-- Every run from a state in `pre` upholds the contract and returns as `post` says. -/
def Triple (c : Contract ε η) (pre : σ → Prop) (run : Run ε σ η α) (post : α → σ → Prop) : Prop :=
  ∀ s, pre s → Upholds c run s post

theorem Upholds.bind {first : Run ε σ η β} {next : β → Run ε σ η α} {s : σ} {middle : β → σ → Prop}
    (h : Upholds c first s middle)
    (continues : ∀ value, Triple c (middle value) (next value) post) :
    Upholds c (first >>= next) s post := by
  intro met
  cases k : (first s).outcome with
  | stopped =>
    rw [bind_of_stopped k] at met ⊢
    have reached := h met
    rw [k] at reached
    exact reached
  | returned value =>
    rw [bind_of_returned k] at met ⊢
    have reached := h fun event inside => met event (List.mem_append_left _ inside)
    rw [k] at reached
    have rest := continues value _ reached.2 fun event inside => met event (List.mem_append_right _ inside)
    refine ⟨fun event inside => ?_, rest.2⟩
    exact (List.mem_append.mp inside).elim (reached.1 event) (rest.1 event)

variable {pre : σ → Prop}

theorem Triple.bind {first : Run ε σ η β} {next : β → Run ε σ η α} {middle : β → σ → Prop}
    (h : Triple c pre first middle) (continues : ∀ value, Triple c (middle value) (next value) post) :
    Triple c pre (first >>= next) post :=
  fun s holds => (h s holds).bind continues

theorem Triple.pure {value : α} (h : ∀ s, pre s → post value s) :
    Triple c pre (Pure.pure value : Run ε σ η α) post := by
  intro s holds
  simpa using h s holds

theorem Triple.modify {update : σ → σ} {post : Unit → σ → Prop} (h : ∀ s, pre s → post () (update s)) :
    Triple c pre (Run.modify update : Run ε σ η Unit) post := by
  intro s holds
  simpa using h s holds

theorem Triple.ite {p : Prop} [Decidable p] {first other : Run ε σ η α} (h : Triple c pre first post)
    (k : Triple c pre other post) : Triple c pre (if p then first else other) post := by
  split
  · exact h
  · exact k

theorem Triple.strengthen {run : Run ε σ η α} {pre' : σ → Prop} (h : Triple c pre run post)
    (stronger : ∀ s, pre' s → pre s) : Triple c pre' run post :=
  fun s holds => h s (stronger s holds)

theorem Triple.weaken {run : Run ε σ η α} {pre' : σ → Prop} {post' : α → σ → Prop}
    (h : Triple c pre run post) (stronger : ∀ s, pre' s → pre s) (weaker : ∀ value s, post value s → post' value s) :
    Triple c pre' run post' :=
  fun s holds => (h s (stronger s holds)).mono weaker

end

theorem Upholds.enter_bind {c : Contract ε (κ × σ)} {post : α → σ → Prop} {call : κ} {s : σ}
    {next : Unit → Run ε σ (κ × σ) α}
    (h : c.assumed (call, s) → c.kept (call, s) ∧ Upholds c (next ()) s post) :
    Upholds c (enter call >>= next) s post := by
  intro met
  simp only [enter_bind_apply, List.forall_mem_cons] at met ⊢
  obtain ⟨now, rest⟩ := h met.1
  obtain ⟨later, reached⟩ := rest met.2
  exact ⟨⟨now, later⟩, reached⟩

end Run
end Yaz.Foundation
