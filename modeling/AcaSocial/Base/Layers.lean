import Mathlib.Tactic.Common

/-!
# Handlers in layers

A handler takes an exchange on, and a middleware wraps one handler into another. What a server is
made of is a chain of middlewares around a handler.

* **`chain`** — the first middleware of the list is the outermost one.
* **`Sends`** — everything that a handler sends out answers to the request it was given.
* **`Layer`** — a middleware sends nothing by itself: it stops, or hands one request on.

`Layer.sends` and `chain_sends` carry a fact about the handler inside through the layers around it.
-/

namespace AcaSocial

abbrev Handler (σ : Type) := σ → σ

abbrev Middleware (σ : Type) := Handler σ → Handler σ

/-- `handler` wrapped in `middlewares`, the first of them outermost. -/
def chain {σ : Type} (handler : Handler σ) (middlewares : List (Middleware σ)) : Handler σ :=
  middlewares.foldr (fun m wrapped => m wrapped) handler

/-- A chain of no middlewares is the handler. -/
@[simp] theorem chain_nil {σ : Type} (handler : Handler σ) : chain handler [] = handler := rfl

/-- The first middleware of a chain is the outermost one. -/
@[simp] theorem chain_cons {σ : Type} (handler : Handler σ) (m : Middleware σ)
    (ms : List (Middleware σ)) : chain handler (m :: ms) = m (chain handler ms) := rfl

section Sending

variable {σ ρ ω : Type} (request : σ → ρ) (sent : σ → List ω)

/-- What the handler sends stands in the relation `S` to the request it was given. -/
def Sends (h : Handler σ) (S : ρ → ω → Prop) : Prop :=
  ∀ x, ∀ o ∈ sent (h x), o ∈ sent x ∨ S (request x) o

/-- The middleware sends nothing, or what the handler inside sends for a request that stands in the
relation `R` to the one the middleware was given. -/
def Layer (m : Middleware σ) (R : ρ → ρ → Prop) : Prop :=
  ∀ h x, sent (m h x) = sent x ∨
    ∃ y, sent y = sent x ∧ R (request x) (request y) ∧ sent (m h x) = sent (h y)

variable {request sent}

/-- What is sent may be described more loosely. -/
theorem Sends.mono {h : Handler σ} {S T : ρ → ω → Prop} (hS : Sends request sent h S)
    (hST : ∀ r o, S r o → T r o) : Sends request sent h T := by
  intro x o ho
  rcases hS x o ho with hold | hnew
  · exact .inl hold
  · exact .inr (hST _ _ hnew)

/-- What the handler inside sends, seen from the request that the middleware was given. -/
theorem Layer.sends {m : Middleware σ} {R : ρ → ρ → Prop} {h : Handler σ} {S T : ρ → ω → Prop}
    (hm : Layer request sent m R) (hS : Sends request sent h S)
    (hRS : ∀ r r' o, R r r' → S r' o → T r o) : Sends request sent (m h) T := by
  intro x o ho
  rcases hm h x with hstop | ⟨y, hy, hR, hsent⟩
  · rw [hstop] at ho
    exact .inl ho
  · rw [hsent] at ho
    rcases hS y o ho with hold | hnew
    · rw [hy] at hold
      exact .inl hold
    · exact .inr (hRS _ _ _ hR hnew)

/-- A relation that every layer carries outwards holds of what the whole chain sends. -/
theorem chain_sends {R : ρ → ρ → Prop} {S : ρ → ω → Prop} {h : Handler σ}
    {ms : List (Middleware σ)} (hms : ∀ m ∈ ms, Layer request sent m R)
    (hS : Sends request sent h S) (hRS : ∀ r r' o, R r r' → S r' o → S r o) :
    Sends request sent (chain h ms) S := by
  induction ms with
  | nil => exact hS
  | cons m ms ih =>
    rw [chain_cons]
    have hinner := ih fun m' hm' => hms m' (List.mem_cons_of_mem m hm')
    exact (hms m List.mem_cons_self).sends hinner hRS

end Sending

end AcaSocial
