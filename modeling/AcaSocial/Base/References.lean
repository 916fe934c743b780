import AcaSocial.Base.Table

/-!
# References between tables

Tables of rows of which some columns are written once, and columns of one table that name rows of another.

* **`Table.column`** — the columns under each key.
* **`Grows`** — what was there stays there.
* **`Appends`** — it grows, and what is new has a property.
* **`Refers`** — what a column names is there.

`Refers.appends` says that references hold again after both tables have grown.
-/

namespace AcaSocial

variable {κ ι γ δ ρ : Type} {f g h : κ → Option γ} {P Q : γ → Prop}

/-- What `col` reads of the row under each key. -/
def Table.column [DecidableEq κ] {key : ρ → κ} (t : Table κ ρ key) (col : ρ → γ) (k : κ) : Option γ := (t.get? k).map col

def Grows (f g : κ → Option γ) : Prop := ∀ k c, f k = some c → g k = some c

structure Appends (P : γ → Prop) (f g : κ → Option γ) : Prop where
  grows : Grows f g
  new : ∀ k c, g k = some c → f k = some c ∨ P c

/-- The reference that `ref` reads of each row of `f` leads to a row of `g`. -/
def Refers (f : κ → Option γ) (ref : γ → ι) (g : ι → Option δ) : Prop := ∀ k c, f k = some c → (g (ref c)).isSome

/-! ## Growth

A table grows when its rows stay. It appends when its new rows have a property as well. -/

namespace Grows

theorem refl (f : κ → Option γ) : Grows f f := fun _ _ hk => hk

theorem trans (hf : Grows f g) (hg : Grows g h) : Grows f h := fun k c hk => hg k c (hf k c hk)

/-- What is there stays there. -/
theorem isSome {k : κ} (hf : Grows f g) (hk : (f k).isSome) : (g k).isSome := by
  obtain ⟨c, hc⟩ := Option.isSome_iff_exists.mp hk
  rw [hf k c hc]
  rfl

end Grows

namespace Appends

theorem refl (P : γ → Prop) (f : κ → Option γ) : Appends P f f := ⟨.refl f, fun _ _ => .inl⟩

/-- A property of new rows may be weakened. -/
theorem imp (hf : Appends P f g) (hPQ : ∀ c, P c → Q c) : Appends Q f g :=
  ⟨hf.grows, fun k c hk => (hf.new k c hk).imp_right (hPQ c)⟩

/-- A row under a new key. -/
theorem insert {key : ρ → Nat} {t : Serial ρ key} {mk : Nat → ρ} {hmk : ∀ i, key (mk i) = i} {col : ρ → γ}
    (hnew : P (col (mk t.next))) : Appends P (t.column col) ((t.insert mk hmk).column col) := by
  constructor
  · intro k c hk
    obtain ⟨r, hr, rfl⟩ := Option.map_eq_some_iff.mp hk
    exact Option.map_eq_some_iff.mpr ⟨r, Serial.get?_insert_of_some hr, rfl⟩
  · intro k c hk
    have hk : ((t.insert mk hmk).get? k).map col = some c := hk
    rw [Serial.get?_insert] at hk
    split at hk
    · next hnext =>
      subst hnext
      obtain rfl := Option.some.inj hk
      exact .inr hnew
    · exact .inl hk

/-- A row that is written over keeps these columns. -/
theorem save {key : ρ → Nat} {t : Serial ρ key} {r r₀ : ρ} {col : ρ → γ} {k : Nat} (hget : t.get? k = some r₀)
    (hkey : key r = key r₀) (hcol : col r = col r₀) : Appends P (t.column col) ((t.save r).column col) := by
  have hmem := (Table.get?_eq_some.mp hget).1
  have hsame : (t.save r).column col = t.column col :=
    funext fun k => Table.map_get?_save (hkey ▸ Table.get?_key hmem) hcol k
  rw [hsame]
  exact .refl P _

end Appends

/-! ## References

Rows of one table refer to rows of another. -/

/-- References stay good while both tables grow and new rows refer to rows that are there. -/
theorem Refers.appends {ref : γ → ι} {u v : ι → Option δ} (hrefers : Refers f ref u) (hf : Appends P f g) (hu : Grows u v)
    (hnew : ∀ c, P c → (u (ref c)).isSome) : Refers g ref v := by
  intro k c hk
  rcases hf.new k c hk with hold | hP
  · exact hu.isSome (hrefers k c hold)
  · exact hu.isSome (hnew c hP)

end AcaSocial
