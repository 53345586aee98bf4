import Mathlib.Data.List.Count

/-! A client that waits for the response to a request, and goes on with it.

It is bounded by a measure how many requests are sent: each response lowers it, except for those that are counted apart.
-/

set_option autoImplicit false

open List

namespace Yaz.Foundation

structure Client (σ ρ κ : Type) where
  waiting : σ → Option κ
  receive : σ → ρ → σ

namespace Client
variable {σ ρ κ : Type} (client : Client σ ρ κ)

def exchanges : σ → List ρ → List (σ × ρ)
  | _, [] => []
  | state, response :: responses =>
    match client.waiting state with
    | none => []
    | some _ => (state, response) :: exchanges (client.receive state response) responses

def requests : σ → List ρ → List κ
  | state, [] => (client.waiting state).toList
  | state, response :: responses =>
    match client.waiting state with
    | none => []
    | some request => request :: requests (client.receive state response) responses

attribute [local simp] exchanges requests

theorem exchanges_none {state : σ} (idle : client.waiting state = none) (responses : List ρ) : client.exchanges state responses = [] := by
  cases responses with
  | nil => rfl
  | cons => simp [idle]

theorem exchanges_some {state : σ} {request : κ} (waits : client.waiting state = some request) (response : ρ) (responses : List ρ) :
    client.exchanges state (response :: responses) = (state, response) :: client.exchanges (client.receive state response) responses := by
  simp [waits]

theorem requests_none {state : σ} (idle : client.waiting state = none) (responses : List ρ) : client.requests state responses = [] := by
  cases responses with
  | nil => simp [idle]
  | cons => simp [idle]

theorem requests_some {state : σ} {request : κ} (waits : client.waiting state = some request) (response : ρ) (responses : List ρ) :
    client.requests state (response :: responses) = request :: client.requests (client.receive state response) responses := by
  simp [waits]

theorem exchanges_received {exchange : σ × ρ} (responses : List ρ) :
    ∀ state, exchange ∈ client.exchanges state responses → exchange.2 ∈ responses := by
  induction responses with
  | nil =>
    intro state among
    cases among
  | cons _ _ ih =>
    intro state among
    cases waits : client.waiting state with
    | none =>
      rw [client.exchanges_none waits] at among
      cases among
    | some =>
      rw [client.exchanges_some waits] at among
      rcases mem_cons.mp among with rfl | later
      · exact mem_cons_self
      · exact mem_cons_of_mem _ (ih _ later)

theorem exchanges_kept {Kept : σ → Prop} {Fair : σ → ρ → Prop}
    (step : ∀ state response request, Kept state → client.waiting state =
      some request → Fair state response → Kept (client.receive state response))
    (responses : List ρ) :
    ∀ state, Kept state → (∀ exchange ∈ client.exchanges state responses, Fair exchange.1 exchange.2) →
      ∀ exchange ∈ client.exchanges state responses, Kept exchange.1 ∧ ∃ request, client.waiting exchange.1 = some request := by
  induction responses with
  | nil =>
    intro state kept fair exchange among
    cases among
  | cons response _ ih =>
    intro state kept fair exchange among
    cases waits : client.waiting state with
    | none =>
      rw [client.exchanges_none waits] at among
      cases among
    | some request =>
      rw [client.exchanges_some waits] at fair among
      have first := fair _ mem_cons_self
      have next := step state response request kept waits first
      rcases mem_cons.mp among with rfl | later
      · exact ⟨kept, request, waits⟩
      · exact ih _ next (fun exchange among => fair exchange (mem_cons_of_mem _ among)) exchange later

theorem requests_length_le {Kept : σ → Prop} {Fair : σ → ρ → Prop} (measure : σ → Nat) (idle : σ × ρ → Bool)
    (positive : ∀ state request, Kept state → client.waiting state = some request → 0 < measure state)
    (step : ∀ state response request, Kept state → client.waiting state = some request → Fair state response →
      Kept (client.receive state response) ∧
        (client.waiting (client.receive state response) = none ∨
          measure (client.receive state response) < measure state + if idle (state, response) then 1 else 0))
    (responses : List ρ) :
    ∀ state, Kept state → (∀ exchange ∈ client.exchanges state responses, Fair exchange.1 exchange.2) →
      (client.requests state responses).length ≤ measure state + (client.exchanges state responses).countP idle := by
  induction responses with
  | nil =>
    intro state kept fair
    rw [requests, exchanges]
    cases waits : client.waiting state with
    | none => exact Nat.zero_le _
    | some request => exact positive state request kept waits
  | cons response _ ih =>
    intro state kept fair
    cases waits : client.waiting state with
    | none =>
      rw [client.requests_none waits]
      exact Nat.zero_le _
    | some request =>
      rw [client.exchanges_some waits] at fair
      have first := fair _ mem_cons_self
      obtain ⟨next, lower⟩ := step state response request kept waits first
      rw [client.requests_some waits, client.exchanges_some waits, length_cons, countP_cons]
      have some := positive state request kept waits
      rcases lower with done | lower
      · rw [client.requests_none done, client.exchanges_none done]
        simp only [length_nil, countP_nil]
        omega
      · have rest := ih _ next fun exchange among => fair exchange (mem_cons_of_mem _ among)
        omega

end Client

end Yaz.Foundation
