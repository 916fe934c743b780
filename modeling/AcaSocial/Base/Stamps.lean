import AcaSocial.Base.Run

/-!
# Stamps

A row carries a number that grows whenever its contents change. Who names the number that they have read is talking about
the contents that they have read.

* **`Later`** — the number has grown, or it is the same and so are the contents.
* **`Later.of_run`** — what every step does to the row, a run does.
-/

namespace AcaSocial

variable {σ ε τ α : Type} {stamp : τ → Nat} {value : τ → α} {a b c : τ}

/-- `b` comes after `a`, and has other contents under a greater number only. -/
def Later (stamp : τ → Nat) (value : τ → α) (a b : τ) : Prop := stamp a < stamp b ∨ stamp a = stamp b ∧ value a = value b

namespace Later

/-- A value is at least as late as itself. -/
theorem refl (stamp : τ → Nat) (value : τ → α) (a : τ) : Later stamp value a a := .inr ⟨rfl, rfl⟩

/-- Later than what is later is later. -/
theorem trans (h : Later stamp value a b) (h' : Later stamp value b c) : Later stamp value a c := by
  rcases h with h | ⟨hstamp, hvalue⟩
  · rcases h' with h' | ⟨hstamp', -⟩
    · exact .inl (Nat.lt_trans h h')
    · exact .inl (hstamp' ▸ h)
  · rcases h' with h' | ⟨hstamp', hvalue'⟩
    · exact .inl (hstamp ▸ h')
    · exact .inr ⟨hstamp.trans hstamp', hvalue.trans hvalue'⟩

/-- The same number, the same contents. -/
theorem value_eq (h : Later stamp value a b) (hstamp : stamp a = stamp b) : value a = value b := by
  rcases h with h | ⟨-, hvalue⟩
  · omega
  · exact hvalue

/-- A row that no step takes away. -/
theorem of_run {step : σ → ε → σ} {row : σ → Option τ}
    (hstep : ∀ s e a, row s = some a → ∃ b, row (step s e) = some b ∧ Later stamp value a b) {s : σ} {a : τ}
    (ha : row s = some a) (es : List ε) : ∃ b, row (run step s es) = some b ∧ Later stamp value a b :=
  run_invariant (P := fun s => ∃ b, row s = some b ∧ Later stamp value a b)
    (fun s e hs => by
      obtain ⟨b, hb, hab⟩ := hs
      obtain ⟨c, hc, hbc⟩ := hstep s e b hb
      exact ⟨c, hc, hab.trans hbc⟩) ⟨a, ha, .refl _ _ a⟩ es

end Later

end AcaSocial
