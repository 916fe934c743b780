import AcaSocial.Base.Text
import Mathlib.Tactic.Common

/-!
# Texts in fields

A text is split at a separator, and fields are joined with one. Splitting what was joined gives the fields back, as long
as the separator is in none of them.

* **`splitOn_eq`** — the splitting of the model is `List.splitOn`.
* **`splitOn_intercalate_flatMap`** — joined texts split into the fields of each.
* **`intercalate_inj`** — as many fields with the same text joined are the same fields.
-/

namespace AcaSocial.Text

/-- The splitting of the model is the one of the library. -/
theorem splitOn_eq (sep : Char) (text : List Char) : splitOn sep [] text = text.splitOn sep := by
  have hfield : ∀ text field, splitOn sep field text = List.splitOnPPrepend (· == sep) text field := by
    intro text
    induction text with
    | nil => exact fun field => rfl
    | cons c text ih =>
      intro field
      rw [splitOn, List.splitOnPPrepend_cons_eq_if, ih, ih]
      simp only [beq_iff_eq]
      rfl
  rw [hfield]
  rfl

variable {α : Type} [DecidableEq α] {sep : α}

/-- No field has the separator. -/
theorem not_mem_of_mem_splitOn {text field : List α} (h : field ∈ text.splitOn sep) : sep ∉ field := by
  induction text generalizing field with
  | nil =>
    rw [List.splitOn_nil, List.mem_singleton] at h
    rw [h]
    exact List.not_mem_nil
  | cons c text ih =>
    rw [List.splitOn_cons_eq_if_modifyHead] at h
    by_cases hc : c = sep
    · rw [if_pos (beq_iff_eq.mpr hc), List.mem_cons] at h
      rcases h with rfl | h
      · exact List.not_mem_nil
      · exact ih h
    · rw [if_neg (mt beq_iff_eq.mp hc)] at h
      -- the character goes to the first of the other fields
      cases hfields : text.splitOn sep with
      | nil => exact absurd hfields (List.splitOn_ne_nil sep text)
      | cons first rest =>
        rw [hfields] at h ih
        rcases List.mem_cons.mp h with rfl | h
        · rw [List.mem_cons, not_or]
          exact ⟨Ne.symm hc, ih List.mem_cons_self⟩
        · exact ih (List.mem_cons_of_mem _ h)

/-- An element of a text is the separator or in a field. -/
theorem mem_splitOn {text : List α} {c : α} (h : c ∈ text) : c = sep ∨ ∃ field ∈ text.splitOn sep, c ∈ field := by
  have hjoined : ∀ fields : List (List α), c ∈ [sep].intercalate fields → c = sep ∨ ∃ field ∈ fields, c ∈ field := by
    intro fields
    induction fields with
    | nil => exact fun hc => absurd hc List.not_mem_nil
    | cons field fields ih =>
      intro hc
      by_cases hnil : fields = []
      · rw [hnil, List.intercalate_singleton] at hc
        exact .inr ⟨field, List.mem_cons_self, hc⟩
      · rw [List.intercalate_cons_of_ne_nil hnil, List.mem_append, List.mem_append, List.mem_singleton] at hc
        rcases hc with (hfield | hsep) | hrest
        · exact .inr ⟨field, List.mem_cons_self, hfield⟩
        · exact .inl hsep
        · refine (ih hrest).imp_right ?_
          rintro ⟨other, hother, hmem⟩
          exact ⟨other, List.mem_cons_of_mem _ hother, hmem⟩
  exact hjoined _ (by rwa [List.intercalate_splitOn])

/-- A text in one field is that field. -/
theorem splitOn_of_length {text : List α} (h : (text.splitOn sep).length = 1) : text.splitOn sep = [text] := by
  obtain ⟨field, hfield⟩ := List.length_eq_one_iff.mp h
  have htext : [sep].intercalate (text.splitOn sep) = text := List.intercalate_splitOn sep
  rw [hfield, List.intercalate_singleton] at htext
  rw [hfield, htext]

/-- Joined texts split into the fields of each. The induction is on the texts. -/
theorem splitOn_intercalate_flatMap {parts : List (List α)} (h : parts ≠ []) :
    ([sep].intercalate parts).splitOn sep = parts.flatMap fun part => part.splitOn sep := by
  induction parts with
  | nil => exact absurd rfl h
  | cons part parts ih =>
    cases parts with
    | nil => rw [List.intercalate_singleton, List.flatMap_singleton]
    | cons part' parts =>
      rw [List.intercalate_cons_cons, List.append_assoc, List.singleton_append, List.splitOn_append_cons_self,
        ih (List.cons_ne_nil part' parts)]
      rfl

/-- Every text has a field, so as many fields as texts are the texts. -/
theorem flatMap_splitOn_eq {parts : List (List α)}
    (h : (parts.flatMap fun part => part.splitOn sep).length = parts.length) :
    (parts.flatMap fun part => part.splitOn sep) = parts := by
  have hmany : ∀ parts : List (List α), parts.length ≤ (parts.flatMap fun part => part.splitOn sep).length := by
    intro parts
    induction parts with
    | nil => exact Nat.le_refl 0
    | cons part parts ih =>
      have hsome := List.length_pos_iff.mpr (List.splitOn_ne_nil sep part)
      rw [List.flatMap_cons, List.length_append, List.length_cons]
      omega
  induction parts with
  | nil => rfl
  | cons part parts ih =>
    have hsome := List.length_pos_iff.mpr (List.splitOn_ne_nil sep part)
    have hrest := hmany parts
    rw [List.flatMap_cons, List.length_append, List.length_cons] at h
    have hone : (part.splitOn sep).length = 1 := by omega
    rw [List.flatMap_cons, splitOn_of_length hone, ih (by omega)]
    rfl

/-- **As many fields with the same text joined are the same fields**, if the separator is in none of the first. -/
theorem intercalate_inj {parts parts' : List (List α)} (hlength : parts.length = parts'.length)
    (hparts : ∀ part ∈ parts, sep ∉ part) (h : [sep].intercalate parts = [sep].intercalate parts') : parts = parts' := by
  by_cases hnil : parts = []
  · rw [hnil] at hlength ⊢
    exact (List.eq_nil_of_length_eq_zero hlength.symm).symm
  · have hnil' : parts' ≠ [] := by
      intro hnil'
      rw [hnil'] at hlength
      exact hnil (List.eq_nil_of_length_eq_zero hlength)
    have hsplit := List.splitOn_intercalate sep hparts hnil
    rw [h, splitOn_intercalate_flatMap hnil'] at hsplit
    rw [← hsplit]
    exact flatMap_splitOn_eq (by rw [hsplit, hlength])

/-- Fields with a text in each of the second are told apart by the joined text alone. -/
theorem intercalate_inj_of_ne_nil {parts parts' : List (List α)} (hparts : ∀ part ∈ parts, sep ∉ part)
    (hparts' : ∀ part ∈ parts', sep ∉ part ∧ part ≠ []) (hsome : parts' ≠ [])
    (h : [sep].intercalate parts = [sep].intercalate parts') : parts = parts' := by
  have hsplit' := List.splitOn_intercalate sep (fun part hpart => (hparts' part hpart).1) hsome
  by_cases hnil : parts = []
  · -- nothing joined is the empty text, which is one empty field
    rw [← h, hnil, List.intercalate_nil, List.splitOn_nil] at hsplit'
    have hempty : ([] : List α) ∈ parts' := by
      rw [← hsplit']
      exact List.mem_singleton_self _
    exact absurd rfl (hparts' [] hempty).2
  · rw [← List.splitOn_intercalate sep hparts hnil, h, hsplit']

/-- Joined fields that are not empty begin with no separator. -/
theorem dropWhile_intercalate {parts : List (List α)} (hparts : ∀ part ∈ parts, sep ∉ part ∧ part ≠ []) :
    ([sep].intercalate parts).dropWhile (· == sep) = [sep].intercalate parts := by
  cases parts with
  | nil => rfl
  | cons part parts =>
    obtain ⟨hsep, hne⟩ := hparts part List.mem_cons_self
    cases part with
    | nil => exact absurd rfl hne
    | cons c part =>
      rw [List.intercalate_cons_cons_left, List.dropWhile_cons_of_neg]
      rw [beq_iff_eq]
      intro hc
      exact hsep (hc ▸ List.mem_cons_self)

omit [DecidableEq α] in
/-- A field at the end. -/
theorem intercalate_concat {parts : List (List α)} (h : parts ≠ []) (part : List α) :
    [sep].intercalate (parts ++ [part]) = [sep].intercalate parts ++ [sep] ++ part := by
  induction parts with
  | nil => exact absurd rfl h
  | cons first parts ih =>
    by_cases hnil : parts = []
    · rw [hnil, List.singleton_append, List.intercalate_cons_cons, List.intercalate_singleton,
        List.intercalate_singleton]
    · have hmore : parts ++ [part] ≠ [] := List.append_ne_nil_of_left_ne_nil hnil _
      rw [List.cons_append, List.intercalate_cons_of_ne_nil hmore, ih hnil, List.intercalate_cons_of_ne_nil hnil]
      simp only [List.append_assoc]

omit [DecidableEq α] in
/-- Reading backwards, the fields come in the other order and read backwards. -/
theorem reverse_intercalate (parts : List (List α)) :
    ([sep].intercalate parts).reverse = [sep].intercalate (parts.map List.reverse).reverse := by
  induction parts with
  | nil => rfl
  | cons part parts ih =>
    rw [List.map_cons, List.reverse_cons]
    by_cases hnil : parts = []
    · rw [hnil, List.map_nil, List.reverse_nil, List.nil_append, List.intercalate_singleton, List.intercalate_singleton]
    · have hrev : (parts.map List.reverse).reverse ≠ [] := by
        rw [ne_eq, List.reverse_eq_nil_iff, List.map_eq_nil_iff]
        exact hnil
      rw [List.intercalate_cons_of_ne_nil hnil, List.reverse_append, List.reverse_append, ih,
        intercalate_concat hrev, List.append_assoc]
      rfl

end AcaSocial.Text
