import Mathlib.Tactic.Common

/-!
# Guards and failing computations

The services are written as sequences of checks that throw, followed by writes. Here such a
sequence is an `Except` computation built from two guards:

* **`require c e`** — `if (!c) throw e`;
* **`orThrow o e`** — `if (!o) throw e`, going on with the value of `o`.

A service call is an **`Outcome`**: the state that it leaves and its result. `commit` runs the
body of a transaction, which is rolled back when it throws, and then computes the response on
the committed state, so that a response can fail after its transaction has committed.

The `*_eq_ok` lemmas turn "the computation succeeded" into the conjunction of what was checked
on the way, so a service is inverted by rewriting with them and never by splitting its text.
-/

namespace AcaSocial

variable {ε α β : Type}

/-- `if (!c) throw e`. -/
def require (c : Prop) [Decidable c] (e : ε) : Except ε Unit := if c then .ok () else .error e

/-- `if (!o) throw e`, going on with the value. -/
def orThrow (o : Option α) (e : ε) : Except ε α :=
  match o with
  | some a => .ok a
  | none => .error e

/-- A guard is passed when its condition holds. -/
@[simp] theorem require_eq_ok {c : Prop} [Decidable c] {e : ε} {u : Unit} :
    require c e = .ok u ↔ c := by
  unfold require; split <;> simp [*]

/-- A lookup that succeeds has found the value. -/
@[simp] theorem orThrow_eq_ok {o : Option α} {e : ε} {a : α} :
    orThrow o e = .ok a ↔ o = some a := by
  cases o <;> simp [orThrow]

@[simp] theorem orThrow_some (a : α) (e : ε) : orThrow (some a) e = .ok a := rfl

/-- A sequence succeeds iff its first part does and its second part does on that result. -/
theorem bind_eq_ok {x : Except ε α} {f : α → Except ε β} {b : β} :
    x >>= f = .ok b ↔ ∃ a, x = .ok a ∧ f a = .ok b := by
  cases x with
  | error e => simp [bind, Except.bind]
  | ok a => simp [bind, Except.bind]

@[simp] theorem pure_eq_ok {a b : α} : (pure a : Except ε α) = .ok b ↔ a = b := by
  simp [pure, Except.pure]

@[simp] theorem ok_bind (a : α) (f : α → Except ε β) :
    (Except.ok a : Except ε α) >>= f = f a := rfl

@[simp] theorem error_bind (e : ε) (f : α → Except ε β) :
    (Except.error e : Except ε α) >>= f = .error e := rfl

/-- A check followed by a continuation. -/
theorem require_bind {c : Prop} [Decidable c] {e : ε} {f : Unit → Except ε β} :
    require c e >>= f = if c then f () else .error e := by
  unfold require; split <;> rfl

@[simp] theorem isOk_map {f : α → β} {x : Except ε α} : (x.map f).isOk = x.isOk := by
  cases x <;> rfl

/-- A computation succeeds with some value. -/
theorem isOk_iff {x : Except ε α} : x.isOk = true ↔ ∃ a, x = .ok a := by
  cases x with
  | error e => exact iff_of_false (fun h => by cases h) (by rintro ⟨_, h⟩; cases h)
  | ok a => exact iff_of_true rfl ⟨a, rfl⟩

/-- A mapped computation succeeds with a mapped value. -/
theorem map_eq_ok {f : α → β} {x : Except ε α} {b : β} : x.map f = .ok b ↔ ∃ a, x = .ok a ∧ f a = b := by
  cases x with
  | error e => exact iff_of_false (fun h => by cases h) (by rintro ⟨_, h, -⟩; cases h)
  | ok a => exact ⟨fun h => ⟨a, rfl, Except.ok.inj h⟩, by rintro ⟨_, ha, hb⟩; rw [← hb, ← Except.ok.inj ha]; rfl⟩

/-- Every element of a sequence of results comes from an element of the list. -/
theorem mem_of_mapM_eq_ok {f : α → Except ε β} {l : List α} {bs : List β} (h : l.mapM f = .ok bs) {b : β}
    (hb : b ∈ bs) : ∃ a ∈ l, f a = .ok b := by
  induction l generalizing bs with
  | nil =>
    obtain rfl : [] = bs := Except.ok.inj h
    exact absurd hb List.not_mem_nil
  | cons a l ih =>
    rw [List.mapM_cons] at h
    simp only [bind_eq_ok, pure_eq_ok] at h
    obtain ⟨b', hb', bs', hbs', rfl⟩ := h
    rcases List.mem_cons.mp hb with rfl | hb
    · exact ⟨a, List.mem_cons_self, hb'⟩
    · obtain ⟨a', ha', hfa'⟩ := ih hbs' hb
      exact ⟨a', List.mem_cons_of_mem a ha', hfa'⟩

/-! ## Transactions

A call of a service runs its body, and commits what the body has written or rolls it back. The response may be
computed from the committed state. -/

variable {σ : Type}

/-- What a call leaves behind and what it returns. -/
structure Outcome (σ ε α : Type) where
  state : σ
  result : Except ε α

/-- Change the type of the response. -/
def Outcome.map (f : α → β) (o : Outcome σ ε α) : Outcome σ ε β := ⟨o.state, o.result.map f⟩

@[simp] theorem Outcome.map_state (f : α → β) (o : Outcome σ ε α) : (o.map f).state = o.state :=
  rfl

/-- Run `body` as a transaction on `s`, then `respond` on the committed state. -/
def commit (s : σ) (body : Except ε (σ × α)) (respond : σ → α → Except ε β) : Outcome σ ε β :=
  match body with
  | .ok (s', a) => ⟨s', respond s' a⟩
  | .error e => ⟨s, .error e⟩

/-- Go on with the value of `x`, or fail and leave `s`. -/
def attempt (s : σ) (x : Except ε α) (k : α → Outcome σ ε β) : Outcome σ ε β :=
  match x with
  | .ok a => k a
  | .error e => ⟨s, .error e⟩

@[simp] theorem commit_ok (s s' : σ) (a : α) (respond : σ → α → Except ε β) :
    commit s (.ok (s', a)) respond = ⟨s', respond s' a⟩ := rfl

@[simp] theorem commit_error (s : σ) (e : ε) (respond : σ → α → Except ε β) :
    commit s (.error e) respond = ⟨s, .error e⟩ := rfl

/-- A transaction that goes through leaves the state that its body says. -/
theorem commit_state_of_ok {s s' : σ} {a : α} {body : Except ε (σ × α)}
    {respond : σ → α → Except ε β} (h : body = .ok (s', a)) :
    (commit s body respond).state = s' := by rw [h, commit_ok]

/-- A call whose response cannot fail leaves the state alone when it fails. -/
theorem commit_state_of_error {s : σ} {body : Except ε (σ × α)} {f : σ → α → β} {e : ε}
    (h : (commit s body fun s' a => .ok (f s' a)).result = .error e) :
    (commit s body fun s' a => .ok (f s' a)).state = s := by
  cases body with
  | error e => rfl
  | ok p => cases h

/-- A transaction leaves the state as it was or as its body says. -/
theorem commit_state (s : σ) (body : Except ε (σ × α)) (respond : σ → α → Except ε β) :
    (commit s body respond).state = s
      ∨ ∃ s' a, body = .ok (s', a) ∧ (commit s body respond).state = s' := by
  cases body with
  | error e => exact Or.inl rfl
  | ok p => exact Or.inr ⟨p.1, p.2, rfl, rfl⟩

/-- What holds before a transaction and of every state that its body leaves, holds after it. -/
theorem commit_induction {P : σ → Prop} {s : σ} {body : Except ε (σ × α)}
    {respond : σ → α → Except ε β} (hs : P s) (h : ∀ s' a, body = .ok (s', a) → P s') :
    P (commit s body respond).state := by
  rcases commit_state s body respond with he | ⟨s', a, hbody, he⟩
  · rw [he]
    exact hs
  · rw [he]
    exact h s' a hbody

/-- What holds of the state and of the call behind a check holds of both together. -/
theorem attempt_induction {P : σ → Prop} {s : σ} {x : Except ε α} {k : α → Outcome σ ε β}
    (hs : P s) (h : ∀ a, x = .ok a → P (k a).state) : P (attempt s x k).state := by
  cases x with
  | error e => exact hs
  | ok a => exact h a rfl

/-- What a transaction leaves alone when it goes through, it leaves alone. -/
theorem commit_frame {τ : Type} {F : σ → τ} {s s₀ : σ} {body : Except ε (σ × α)}
    {respond : σ → α → Except ε β} (hs : F s₀ = F s)
    (h : ∀ s' a, body = .ok (s', a) → F s' = F s) : F (commit s₀ body respond).state = F s :=
  commit_induction (P := fun s' => F s' = F s) hs h

/-- What the rest of a call leaves alone, the call leaves alone. -/
theorem attempt_frame {τ : Type} {F : σ → τ} {s : σ} {x : Except ε α} {k : α → Outcome σ ε β}
    (h : ∀ a, x = .ok a → F (k a).state = F s) : F (attempt s x k).state = F s :=
  attempt_induction (P := fun s' => F s' = F s) rfl h

/-! ## Calls that leave no trace

A call that fails has left the state as it was. -/

/-- When the call fails, the state is the one that it found. -/
def Outcome.Traceless (s : σ) (o : Outcome σ ε α) : Prop := ∀ e, o.result = .error e → o.state = s

/-- A check in front of a call leaves no trace by itself. -/
theorem traceless_attempt {s : σ} {x : Except ε α} {k : α → Outcome σ ε β} :
    (attempt s x k).Traceless s ↔ ∀ a, x = .ok a → (k a).Traceless s := by
  cases x with
  | error e => exact iff_of_true (fun _ _ => rfl) fun _ h => (by cases h)
  | ok a => exact ⟨fun h _ ha => Except.ok.inj ha ▸ h, fun h => h a rfl⟩

/-- A transaction on `s₁` leaves no trace on `s` when nothing fails after something was written for good: neither the
transaction, if `s₁` is not `s`, nor the response. -/
theorem traceless_commit {s s₁ : σ} {body : Except ε (σ × α)} {respond : σ → α → Except ε β}
    (hnew : ∀ s' a, body = .ok (s', a) → s' ≠ s) :
    (commit s₁ body respond).Traceless s
      ↔ (s₁ ≠ s → body.isOk = true) ∧ ∀ s' a, body = .ok (s', a) → (respond s' a).isOk = true := by
  cases body with
  -- the transaction fails: nothing may have been written before it
  | error e =>
    constructor
    · intro h
      exact ⟨fun hne => absurd (h e rfl) hne, fun _ _ h => (by cases h)⟩
    · intro h e' _
      by_contra hne
      cases h.1 hne
  | ok done =>
    obtain ⟨s', a⟩ := done
    have hne := hnew s' a rfl
    constructor
    · intro h
      refine ⟨fun _ => rfl, fun s'' a' hbody => ?_⟩
      obtain ⟨rfl, rfl⟩ := Prod.mk.inj (Except.ok.inj hbody)
      -- what was committed stays, so the response must not fail
      cases hrespond : respond s' a with
      | error e => exact absurd (h e hrespond) hne
      | ok b => rfl
    · intro h e hresult
      have hok := h.2 s' a rfl
      have hresult : respond s' a = .error e := hresult
      rw [hresult] at hok
      cases hok

end AcaSocial
