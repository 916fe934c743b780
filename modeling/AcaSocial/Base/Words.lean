import Mathlib.Tactic.Common
import Mathlib.Data.List.Basic

/-!
# Words

The words of a text are its runs of letters, for any notion of a letter.

* **`words`** — the words of a text.
* **`words_intercalate`** — words that are joined with a separator are the words of the joined text.
* **`flatten_words`** — the words have all letters of the text, in their order.
-/

namespace AcaSocial.Text

variable {α : Type} {p : α → Bool} {c d : α} {text : List α}

/-- The runs of elements with `p`. -/
def words (p : α → Bool) (text : List α) : List (List α) :=
  (text.splitOnP fun c => !p c).filter fun word => !word.isEmpty

theorem words_nil : words p [] = [] := rfl

/-- An element that is no letter belongs to no word. -/
theorem words_cons_of_not (hc : p c = false) : words p (c :: text) = words p text := by
  have hsep : (!p c) = true := by rw [hc]; rfl
  rw [words, List.splitOnP_cons_eq_if_modifyHead, if_pos hsep, List.filter_cons_of_neg]
  · rfl
  · exact Bool.false_ne_true

/-- A letter belongs to the first word. -/
theorem splitOnP_cons_letter (hc : p c = true) :
    (c :: text).splitOnP (fun c => !p c) = (text.splitOnP fun c => !p c).modifyHead (c :: ·) := by
  have hsep : ¬ (!p c) = true := by rw [hc]; exact Bool.false_ne_true
  rw [List.splitOnP_cons_eq_if_modifyHead, if_neg hsep]

/-- A letter in front of a letter belongs to its word. -/
theorem words_cons_cons (hc : p c = true) (hd : p d = true) :
    words p (c :: d :: text) = (words p (d :: text)).modifyHead (c :: ·) := by
  rw [words, words, splitOnP_cons_letter hc, splitOnP_cons_letter hd]
  cases hparts : text.splitOnP fun c => !p c with
  | nil => exact absurd hparts (List.splitOnP_ne_nil _ _)
  | cons part parts => rfl

/-- A letter at the end is a word. -/
theorem words_singleton (hc : p c = true) : words p [c] = [[c]] := by
  rw [words, splitOnP_cons_letter hc]
  rfl

/-- So is a letter in front of something else. -/
theorem words_cons_sep (hc : p c = true) (hd : p d = false) : words p (c :: d :: text) = [c] :: words p text := by
  have hsep : (!p d) = true := by rw [hd]; rfl
  rw [words, splitOnP_cons_letter hc, List.splitOnP_cons_eq_if_modifyHead, if_pos hsep]
  rfl

/-- Each word has letters, and nothing else. -/
theorem of_mem_words {word : List α} (h : word ∈ words p text) : word ≠ [] ∧ ∀ c ∈ word, p c = true := by
  induction text generalizing word with
  | nil => exact absurd h List.not_mem_nil
  | cons c text ih =>
    cases hc : p c with
    | false =>
      rw [words_cons_of_not hc] at h
      exact ih h
    | true =>
      have hone : ∀ c' ∈ [c], p c' = true := fun c' hc' => List.mem_singleton.mp hc' ▸ hc
      -- a letter begins a word; whether it is a word of its own depends on what follows
      cases text with
      | nil =>
        rw [words_singleton hc, List.mem_singleton] at h
        rw [h]
        exact ⟨List.cons_ne_nil _ _, hone⟩
      | cons d text =>
        cases hd : p d with
        | false =>
          rw [words_cons_sep hc hd, List.mem_cons] at h
          rcases h with rfl | h
          · exact ⟨List.cons_ne_nil _ _, hone⟩
          · exact ih ((words_cons_of_not hd).symm ▸ h)
        | true =>
          -- it is put before the first word of the rest
          rw [words_cons_cons hc hd] at h
          cases hwords : words p (d :: text) with
          | nil =>
            rw [hwords] at h
            exact absurd h List.not_mem_nil
          | cons first rest =>
            rw [hwords] at h ih
            rcases List.mem_cons.mp h with rfl | h
            · refine ⟨List.cons_ne_nil _ _, ?_⟩
              intro c' hc'
              rcases List.mem_cons.mp hc' with rfl | hc'
              · exact hc
              · exact (ih List.mem_cons_self).2 c' hc'
            · exact ih (List.mem_cons_of_mem _ h)

/-- The words have all the letters. -/
theorem flatten_words : (words p text).flatten = text.filter p := by
  induction text with
  | nil => rfl
  | cons c text ih =>
    cases hc : p c with
    | false => rw [words_cons_of_not hc, ih, List.filter_cons_of_neg (by rw [hc]; exact Bool.false_ne_true)]
    | true =>
      rw [List.filter_cons_of_pos hc, ← ih]
      cases text with
      | nil =>
        rw [words_singleton hc]
        rfl
      | cons d text =>
        cases hd : p d with
        | false =>
          rw [words_cons_sep hc hd, words_cons_of_not hd]
          rfl
        | true =>
          rw [words_cons_cons hc hd]
          cases hwords : words p (d :: text) with
          | nil =>
            -- the letter `d` is in no word
            rw [hwords, List.flatten_nil, List.filter_cons_of_pos hd] at ih
            exact absurd ih.symm (List.cons_ne_nil _ _)
          | cons first rest => rfl

/-- There is a word if and only if there is a letter. -/
theorem words_eq_nil_iff : words p text = [] ↔ ∀ c ∈ text, p c = false := by
  constructor
  · intro h c hc
    have hfilter : text.filter p = [] := by rw [← flatten_words, h]; rfl
    exact Bool.eq_false_iff.mpr (List.filter_eq_nil_iff.mp hfilter c hc)
  · intro h
    cases hwords : words p text with
    | nil => rfl
    | cons word rest =>
      have hmem : word ∈ words p text := hwords ▸ List.mem_cons_self
      obtain ⟨hne, hletters⟩ := of_mem_words hmem
      obtain ⟨c, hc⟩ := List.exists_mem_of_ne_nil word hne
      have htext : c ∈ text.filter p := by
        rw [← flatten_words]
        exact List.mem_flatten.mpr ⟨word, hmem, hc⟩
      exact absurd (hletters c hc) (Bool.eq_false_iff.mp (h c (List.mem_filter.mp htext).1))

/-! ## Joined words

Words put together with a separator between them. -/

variable {sep : α}

/-- A word in front of something that is no letter. -/
theorem words_append_sep {word : List α} (hne : word ≠ []) (hword : ∀ c ∈ word, p c = true) (hsep : p sep = false) :
    words p (word ++ sep :: text) = word :: words p text := by
  induction word with
  | nil => exact absurd rfl hne
  | cons c word ih =>
    have hc := hword c List.mem_cons_self
    cases word with
    | nil => exact words_cons_sep hc hsep
    | cons d word =>
      have hd := hword d (List.mem_cons_of_mem _ List.mem_cons_self)
      have hrest := ih (List.cons_ne_nil _ _) fun c' hc' => hword c' (List.mem_cons_of_mem _ hc')
      show words p (c :: d :: (word ++ sep :: text)) = _
      rw [words_cons_cons hc hd]
      show (words p (d :: word ++ sep :: text)).modifyHead _ = _
      rw [hrest]
      rfl

/-- A word alone. -/
theorem words_of_letters {word : List α} (hne : word ≠ []) (hword : ∀ c ∈ word, p c = true) : words p word = [word] := by
  induction word with
  | nil => exact absurd rfl hne
  | cons c word ih =>
    have hc := hword c List.mem_cons_self
    cases word with
    | nil => exact words_singleton hc
    | cons d word =>
      have hd := hword d (List.mem_cons_of_mem _ List.mem_cons_self)
      rw [words_cons_cons hc hd, ih (List.cons_ne_nil _ _) fun c' hc' => hword c' (List.mem_cons_of_mem _ hc')]
      rfl

/-- **The words of joined words are these words.** -/
theorem words_intercalate {ws : List (List α)} (hsep : p sep = false)
    (h : ∀ word ∈ ws, word ≠ [] ∧ ∀ c ∈ word, p c = true) : words p ([sep].intercalate ws) = ws := by
  induction ws with
  | nil => rfl
  | cons word ws ih =>
    obtain ⟨hne, hword⟩ := h word List.mem_cons_self
    cases ws with
    | nil =>
      rw [List.intercalate_singleton]
      exact words_of_letters hne hword
    | cons next ws =>
      have hrest := ih fun other hother => h other (List.mem_cons_of_mem _ hother)
      rw [List.intercalate_cons_of_ne_nil (List.cons_ne_nil _ _), List.append_assoc]
      show words p (word ++ sep :: [sep].intercalate (next :: ws)) = _
      rw [words_append_sep hne hword hsep, hrest]

/-- A letter in front of the first word. -/
theorem intercalate_modifyHead {ws : List (List α)} (hne : ws ≠ []) :
    [sep].intercalate (ws.modifyHead (c :: ·)) = c :: [sep].intercalate ws := by
  cases ws with
  | nil => exact absurd rfl hne
  | cons word ws =>
    cases ws with
    | nil => rfl
    | cons next ws =>
      rw [List.modifyHead_cons, List.intercalate_cons_of_ne_nil (List.cons_ne_nil _ _),
        List.intercalate_cons_of_ne_nil (List.cons_ne_nil _ _)]
      rfl

/-- Words put together are not nothing. -/
theorem intercalate_ne_nil {word : List α} (hne : word ≠ []) (ws : List (List α)) :
    [sep].intercalate (word :: ws) ≠ [] := by
  cases ws with
  | nil =>
    rw [List.intercalate_singleton]
    exact hne
  | cons next ws =>
    rw [List.intercalate_cons_of_ne_nil (List.cons_ne_nil _ _), List.append_assoc]
    exact fun hnil => hne (List.append_eq_nil_iff.mp hnil).1

/-- The length of joined words: their letters, and the separators between them. -/
theorem length_intercalate (ws : List (List α)) :
    ([sep].intercalate ws).length = ws.flatten.length + (ws.length - 1) := by
  induction ws with
  | nil => rfl
  | cons word ws ih =>
    cases ws with
    | nil =>
      rw [List.intercalate_singleton, List.flatten_singleton]
      rfl
    | cons next ws =>
      have hflatten : (word :: next :: ws).flatten.length = word.length + (next :: ws).flatten.length := by
        rw [List.flatten_cons, List.length_append]
      rw [List.intercalate_cons_of_ne_nil (List.cons_ne_nil _ _), List.length_append, List.length_append, ih, hflatten]
      simp only [List.length_cons, List.length_nil]
      omega

end AcaSocial.Text
