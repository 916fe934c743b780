import Mathlib.Data.List.Infix
import AcaSocial.Base.Text

/-!
# Patterns made of texts

A text is searched for with the pattern that has it between two `%`. What the pattern finds is compared with the texts
that contain the one that was searched for.

* **`Contains`** — a text has another one inside it, up to the case of the letters.
* **`globMatch_plain`** — without `%`, `_` and `\`, the pattern finds the texts that contain the part.
* **`shortest`** — the shortest text that a pattern finds.
* **`finds_iff_plain`** — with one of the three, the pattern finds a text that does not contain the part.
-/

namespace AcaSocial.Text

variable {fold : Char → Char} {part text : List Char}

/-- The text has the part inside it, characters compared after `fold`. -/
def Contains (fold : Char → Char) (part text : List Char) : Prop := part.map fold <:+: text.map fold

instance : Decidable (Contains fold part text) := inferInstanceAs (Decidable (_ <:+: _))

/-- The characters that stand for something else in a pattern. -/
def isSpecial (c : Char) : Bool := decide (c = '%' ∨ c = '_' ∨ c = '\\')

/-- No other character becomes one of the three. -/
def KeepsSpecials (fold : Char → Char) : Prop := ∀ c d, isSpecial d = true → fold c = fold d → c = d

/-! ## Plain parts

A pattern without special characters is a text. -/

/-- Some suffix has the property. -/
theorem anySuffix_iff {p : List Char → Bool} : anySuffix p text = true ↔ ∃ suffix, suffix <:+ text ∧ p suffix = true := by
  induction text with
  | nil =>
    rw [anySuffix]
    constructor
    · intro h
      exact ⟨[], List.suffix_rfl, h⟩
    · rintro ⟨suffix, hsuffix, h⟩
      rw [List.suffix_nil.mp hsuffix] at h
      exact h
  | cons c text ih =>
    rw [anySuffix, Bool.or_eq_true, ih]
    constructor
    · rintro (h | ⟨suffix, hsuffix, h⟩)
      · exact ⟨c :: text, List.suffix_rfl, h⟩
      · exact ⟨suffix, hsuffix.trans (List.suffix_cons c text), h⟩
    · rintro ⟨suffix, hsuffix, h⟩
      rcases List.suffix_cons_iff.mp hsuffix with rfl | hsuffix
      · exact .inl h
      · exact .inr ⟨suffix, hsuffix, h⟩

/-- `%` matches every text. -/
theorem globMatch_many (text : List Char) : globMatch fold [.many] text = true := by
  rw [globMatch, anySuffix_iff]
  exact ⟨[], List.nil_suffix, rfl⟩

/-- A `%` can stand for nothing. -/
theorem globMatch_many_cons {pattern : List Glob} (h : globMatch fold pattern text = true) :
    globMatch fold (.many :: pattern) text = true := by
  rw [globMatch, anySuffix_iff]
  exact ⟨text, List.suffix_rfl, h⟩

/-- Characters in front of `%` are a prefix of the text. The induction is on the characters. -/
theorem globMatch_chars : globMatch fold (part.map .char ++ [.many]) text = true ↔ part.map fold <+: text.map fold := by
  induction part generalizing text with
  | nil => exact iff_of_true (globMatch_many text) List.nil_prefix
  | cons c part ih =>
    show globMatch fold (.char c :: (part.map .char ++ [.many])) text = true ↔ fold c :: part.map fold <+: _
    cases text with
    | nil =>
      rw [globMatch, List.map_nil, List.prefix_nil]
      exact iff_of_false Bool.false_ne_true (List.cons_ne_nil _ _)
    | cons d text =>
      rw [globMatch, Bool.and_eq_true, decide_eq_true_iff, ih, List.map_cons, List.cons_prefix_cons]

/-- A character that is not special stands for itself. -/
theorem globs_cons {c : Char} (hc : isSpecial c = false) (pattern : List Char) :
    globs (c :: pattern) = .char c :: globs pattern := by
  have hother := of_decide_eq_false hc
  rw [globs] <;> intros <;> exact hother (by tauto)

/-- A text without special characters is its own pattern. -/
theorem globs_plain (h : ∀ c ∈ part, isSpecial c = false) : globs (part ++ ['%']) = part.map .char ++ [.many] := by
  induction part with
  | nil => rfl
  | cons c part ih =>
    rw [List.cons_append, globs_cons (h c List.mem_cons_self), ih fun d hd => h d (List.mem_cons_of_mem c hd)]
    rfl

/-- **A plain part is found where it stands.** -/
theorem globMatch_plain (h : ∀ c ∈ part, isSpecial c = false) :
    globMatch fold (globs ('%' :: (part ++ ['%']))) text = true ↔ Contains fold part text := by
  show globMatch fold (.many :: globs (part ++ ['%'])) text = true ↔ _
  rw [globMatch, globs_plain h, anySuffix_iff, Contains, List.infix_iff_prefix_suffix]
  constructor
  · rintro ⟨suffix, hsuffix, hmatch⟩
    exact ⟨suffix.map fold, globMatch_chars.mp hmatch, hsuffix.map fold⟩
  · rintro ⟨rest, hprefix, hrest⟩
    obtain ⟨suffix, hsuffix, rfl⟩ := List.suffix_map_iff.mp hrest
    exact ⟨suffix, hsuffix, globMatch_chars.mpr hprefix⟩

/-! ## Other parts

A shortest text that a pattern matches. It is not the pattern itself as soon as there is a special character. -/

/-- The shortest text that the pattern finds. The `%` behind the part is what a `\` at its end escapes. -/
def shortest : List Char → List Char
  | [] => []
  | '\\' :: c :: part => c :: shortest part
  | '\\' :: [] => ['%']
  | '%' :: part => shortest part
  | '_' :: part => 'a' :: shortest part
  | c :: part => c :: shortest part

/-- What is left behind the first four cases of `shortest`. -/
theorem plain_of_cases {c : Char} (hpair : ∀ d rest, c = '\\' → part = d :: rest → False)
    (hend : c = '\\' → part = [] → False) (hmany : c = '%' → False) (hone : c = '_' → False) : isSpecial c = false := by
  refine decide_eq_false ?_
  rintro (h | h | h)
  · exact hmany h
  · exact hone h
  · cases part with
    | nil => exact hend h rfl
    | cons d rest => exact hpair d rest h rfl

/-- A character in front of both. -/
theorem globMatch_cons {c : Char} {pattern : List Glob} (h : globMatch fold pattern text = true) :
    globMatch fold (.char c :: pattern) (c :: text) = true := by
  rw [globMatch, Bool.and_eq_true, decide_eq_true_iff]
  exact ⟨rfl, h⟩

/-- The shortest text matches. -/
theorem globMatch_shortest (part : List Char) : globMatch fold (globs (part ++ ['%'])) (shortest part) = true := by
  fun_induction shortest part with
  | case1 => exact globMatch_many []
  | case2 c part ih => exact globMatch_cons ih
  | case3 => exact globMatch_cons rfl
  | case4 part ih => exact globMatch_many_cons ih
  | case5 part ih => exact ih
  | case6 c part hpair hend hmany hone ih =>
    rw [List.cons_append, globs_cons (plain_of_cases hpair hend hmany hone)]
    exact globMatch_cons ih

/-- It is no longer than the pattern. -/
theorem length_shortest (part : List Char) : (shortest part).length ≤ part.length := by
  fun_induction shortest part <;> simp only [List.length_cons, List.length_nil] at * <;> omega

/-- A text that is its own shortest one is plain. -/
theorem plain_of_shortest (hfold : KeepsSpecials fold) (h : part.map fold = (shortest part).map fold) :
    ∀ c ∈ part, isSpecial c = false := by
  have hlength := congrArg List.length h
  rw [List.length_map, List.length_map] at hlength
  fun_induction shortest part with
  | case1 => exact fun c hc => absurd hc List.not_mem_nil
  | case2 c part ih =>
    -- the escape is a character less
    have hshort := length_shortest part
    simp only [List.length_cons] at hlength
    omega
  | case3 =>
    have hfirst : fold '\\' = fold '%' := (List.cons.inj h).1
    exact absurd (hfold '\\' '%' rfl hfirst) (by decide)
  | case4 part ih =>
    have hshort := length_shortest part
    rw [List.length_cons] at hlength
    omega
  | case5 part ih =>
    have hfirst : fold '_' = fold 'a' := (List.cons.inj h).1
    exact absurd (hfold 'a' '_' rfl hfirst.symm) (by decide)
  | case6 c part hpair hend hmany hone ih =>
    intro d hd
    rcases List.mem_cons.mp hd with rfl | hd
    · exact plain_of_cases hpair hend hmany hone
    · exact ih (List.cons.inj h).2 (Nat.succ.inj hlength) d hd

/-- A part with one of the three is not in the shortest text that its pattern finds. -/
theorem not_contains_shortest (hfold : KeepsSpecials fold) (h : ¬ ∀ c ∈ part, isSpecial c = false) :
    ¬ Contains fold part (shortest part) := by
  intro hcontains
  have hlength : ((shortest part).map fold).length ≤ (part.map fold).length := by
    rw [List.length_map, List.length_map]
    exact length_shortest part
  exact h (plain_of_shortest hfold (hcontains.eq_of_length_le hlength))

/-- **The pattern of a part finds the texts that contain it, if and only if the part is plain.** -/
theorem finds_iff_plain (hfold : KeepsSpecials fold) :
    (∀ text, globMatch fold (globs ('%' :: (part ++ ['%']))) text = true ↔ Contains fold part text)
      ↔ ∀ c ∈ part, isSpecial c = false := by
  constructor
  · intro hfinds
    by_contra hspecial
    refine not_contains_shortest hfold hspecial ((hfinds _).mp ?_)
    exact globMatch_many_cons (globMatch_shortest part)
  · intro hplain text
    exact globMatch_plain hplain

end AcaSocial.Text
