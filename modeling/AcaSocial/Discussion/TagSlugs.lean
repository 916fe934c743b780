import AcaSocial.Base.Fields
import AcaSocial.Base.Words
import AcaSocial.Discussion.Service

/-!
# Slugs of tags

`generateSlug` of the tags service, and what `create` makes of a name without a slug.

* **`slugWords`** — the words of a name, after the letters are folded and the marks are gone.
* **`generateSlug_eq`** — the slug of a name is its words, joined with hyphens.
* **`generateSlug_normal`** — a slug has the form that `create` asks for, and is its own slug.
* **`slugSize`** — how long the slug of a name will be, counted in the folded name.
* **`create_total_iff`** — a name is stored or refused as it should be, unless one of its texts does not go into its
  column.

One character can become several: `#` is `sharp`, and 25 of them are more than the column holds.
-/

namespace AcaSocial

namespace TagsService

/-! ## Words

A slug is made of the runs of letters and digits of a name. The regular expressions of the source are read back as
these words, joined by dashes. -/

/-- The text before the last two replacements. -/
def bare (w : World) (text : String) : List Char :=
  let lower := (w.toLowerCase text).toList.flatMap transliterate
  (w.normalizeNFD (String.ofList lower)).toList.filter fun c => !decide (0x300 ≤ c.toNat ∧ c.toNat ≤ 0x36f)

/-- The runs of `[a-z0-9]`. -/
def slugWords (w : World) (text : String) : List (List Char) := Text.words isSlugChar (bare w text)

theorem isSlugChar_dash : isSlugChar '-' = false := by decide

/-- Without the hyphens at the end. -/
def trimEnd (text : List Char) : List Char := (text.reverse.dropWhile fun c => decide (c = '-')).reverse

theorem trimEnd_cons (c : Char) (text : List Char) :
    trimEnd (c :: text) = if trimEnd text = [] ∧ c = '-' then [] else c :: trimEnd text := by
  have hreverse : (c :: text).reverse = text.reverse ++ [c] := List.reverse_cons
  rw [trimEnd, hreverse, List.dropWhile_append, trimEnd]
  cases hrest : text.reverse.dropWhile fun c => decide (c = '-') with
  | nil =>
    by_cases hc : c = '-'
    · rw [hc]
      rfl
    · have hstays : [c].dropWhile (fun c => decide (c = '-')) = [c] :=
        List.dropWhile_cons_of_neg fun hdash => hc (of_decide_eq_true hdash)
      have hne : ¬ (([] : List Char).reverse = [] ∧ c = '-') := fun h => hc h.2
      rw [if_neg hne]
      exact congrArg List.reverse hstays
  | cons d rest =>
    have hne : ¬ ((d :: rest).reverse = [] ∧ c = '-') := fun h =>
      absurd (List.reverse_eq_nil_iff.mp h.1) (List.cons_ne_nil d rest)
    rw [if_neg hne]
    show (d :: rest ++ [c]).reverse = _
    rw [List.reverse_append]
    rfl

theorem trimEnd_cons_letter {c : Char} (hc : isSlugChar c = true) (text : List Char) :
    trimEnd (c :: text) = c :: trimEnd text := by
  rw [trimEnd_cons, if_neg]
  rintro ⟨_, rfl⟩
  rw [isSlugChar_dash] at hc
  exact absurd hc Bool.false_ne_true

theorem dashes_cons_letter {c : Char} (hc : isSlugChar c = true) (dashed : Bool) (text : List Char) :
    dashes dashed (c :: text) = c :: dashes false text := by
  rw [dashes, if_pos hc]

theorem dashes_true_cons {c : Char} (hc : isSlugChar c = false) (text : List Char) :
    dashes true (c :: text) = dashes true text := by
  rw [dashes, if_neg (Bool.eq_false_iff.mp hc), if_pos rfl]

theorem dashes_false_cons {c : Char} (hc : isSlugChar c = false) (text : List Char) :
    dashes false (c :: text) = '-' :: dashes true text := by
  rw [dashes, if_neg (Bool.eq_false_iff.mp hc), if_neg Bool.false_ne_true]

theorem dropWhile_letter {c : Char} (hc : isSlugChar c = true) (text : List Char) :
    (c :: text).dropWhile (fun c => decide (c = '-')) = c :: text := by
  refine List.dropWhile_cons_of_neg ?_
  intro hdash
  rw [of_decide_eq_true hdash, isSlugChar_dash] at hc
  exact absurd hc Bool.false_ne_true

/-- Behind a hyphen that was written, no other one is. -/
theorem dropWhile_dashes_true (text : List Char) :
    (dashes true text).dropWhile (fun c => decide (c = '-')) = dashes true text := by
  induction text with
  | nil => rfl
  | cons c text ih =>
    cases hc : isSlugChar c with
    | false =>
      rw [dashes_true_cons hc]
      exact ih
    | true =>
      rw [dashes_cons_letter hc]
      exact dropWhile_letter hc _

/-- Dashes at the beginning are dropped. -/
theorem dropWhile_dashes (text : List Char) :
    (dashes false text).dropWhile (fun c => decide (c = '-')) = dashes true text := by
  cases text with
  | nil => rfl
  | cons c text =>
    cases hc : isSlugChar c with
    | false =>
      rw [dashes_false_cons hc, dashes_true_cons hc]
      exact dropWhile_dashes_true text
    | true =>
      rw [dashes_cons_letter hc, dashes_cons_letter hc]
      exact dropWhile_letter hc _

/-- **The words are joined with single hyphens.** The induction is on the text, and a letter goes on with a word or ends
it. -/
theorem trimEnd_dashes (text : List Char) :
    trimEnd (dashes true text) = ['-'].intercalate (Text.words isSlugChar text) := by
  induction text with
  | nil => rfl
  | cons c text ih =>
    cases hc : isSlugChar c with
    | false => rw [dashes_true_cons hc, Text.words_cons_of_not hc, ih]
    | true =>
      rw [dashes_cons_letter hc, trimEnd_cons_letter hc]
      cases text with
      | nil =>
        rw [Text.words_singleton hc, List.intercalate_singleton]
        rfl
      | cons d text =>
        cases hd : isSlugChar d with
        | true =>
          rw [dashes_cons_letter hd] at ih ⊢
          rw [ih, Text.words_cons_cons hc hd, Text.intercalate_modifyHead]
          exact fun hnil => absurd (Text.words_eq_nil_iff.mp hnil d List.mem_cons_self) (Bool.eq_false_iff.not.mpr (not_not.mpr hd))
        | false =>
          -- the word ends, and a hyphen stays if another one follows
          rw [dashes_true_cons hd, Text.words_cons_of_not hd] at ih
          rw [dashes_false_cons hd, Text.words_cons_sep hc hd, trimEnd_cons, ih]
          cases hwords : Text.words isSlugChar text with
          | nil => rfl
          | cons word rest =>
            have hword := (Text.of_mem_words (hwords ▸ List.mem_cons_self : word ∈ Text.words isSlugChar text)).1
            rw [if_neg fun h => Text.intercalate_ne_nil hword rest h.1,
              List.intercalate_cons_of_ne_nil (List.cons_ne_nil word rest)]
            rfl

/-- **The slug as words.** -/
theorem generateSlug_eq (w : World) (text : String) :
    (generateSlug w text).toList = ['-'].intercalate (slugWords w text) := by
  have htrim : trimDashes (dashes false (bare w text)) = trimEnd (dashes true (bare w text)) := by
    rw [trimDashes, dropWhile_dashes]
    rfl
  show (String.ofList (trimDashes (dashes false (bare w text)))).toList = _
  rw [String.toList_ofList, htrim, trimEnd_dashes]
  rfl

/-! ## The normal form

A slug is its own slug, and has no dash at an end and no two in a row. -/

/-- Lower-casing and decomposing leave texts of `[a-z0-9-]` as they are. -/
def KeepsSlugs (w : World) : Prop :=
  ∀ text : String, (∀ c ∈ text.toList, isSlugChar c = true ∨ c = '-') →
    w.toLowerCase text = text ∧ w.normalizeNFD text = text

variable {w : World}

/-- A word has at least one character, and only letters and digits. -/
theorem of_mem_slugWords {name : String} {word : List Char} (h : word ∈ slugWords w name) :
    word ≠ [] ∧ ∀ c ∈ word, isSlugChar c = true := Text.of_mem_words h

/-- Joined words have only letters and hyphens. -/
theorem mem_intercalate {words : List (List Char)} (h : ∀ word ∈ words, ∀ c ∈ word, isSlugChar c = true) {c : Char}
    (hc : c ∈ ['-'].intercalate words) : isSlugChar c = true ∨ c = '-' := by
  induction words with
  | nil => exact absurd hc List.not_mem_nil
  | cons word words ih =>
    by_cases hnil : words = []
    · rw [hnil, List.intercalate_singleton] at hc
      exact .inl (h word List.mem_cons_self c hc)
    · rw [List.intercalate_cons_of_ne_nil hnil, List.mem_append, List.mem_append, List.mem_singleton] at hc
      rcases hc with (hword | hdash) | hrest
      · exact .inl (h word List.mem_cons_self c hword)
      · exact .inr hdash
      · exact ih (fun other hother => h other (List.mem_cons_of_mem _ hother)) hrest

/-- The characters of a slug are digits and lower-case letters. -/
theorem toNat_of_isSlugChar {c : Char} (h : isSlugChar c = true) :
    c.toNat ≤ 57 ∨ 97 ≤ c.toNat ∧ c.toNat ≤ 122 := by
  rw [isSlugChar, Bool.or_eq_true] at h
  rcases h with hlower | hdigit
  · have hbounds : 'a'.val ≤ c.val ∧ c.val ≤ 'z'.val := by
      have hboth := Bool.and_eq_true_iff.mp hlower
      exact ⟨of_decide_eq_true hboth.1, of_decide_eq_true hboth.2⟩
    exact .inr ⟨UInt32.le_iff_toNat_le.mp hbounds.1, UInt32.le_iff_toNat_le.mp hbounds.2⟩
  · rw [Char.isDigit, Bool.and_eq_true, decide_eq_true_iff, decide_eq_true_iff] at hdigit
    exact .inl (UInt32.le_iff_toNat_le.mp hdigit.2)

/-- A letter or digit stands for itself. -/
theorem transliterate_of_isSlugChar {c : Char} (h : isSlugChar c = true) : transliterate c = [c] := by
  rw [transliterate, if_neg, if_neg, if_neg] <;>
    · rintro rfl
      exact absurd h (by decide)

/-- A text of letters and hyphens is not changed before the last two replacements. -/
theorem bare_of_slug (hw : KeepsSlugs w) {slug : String} (h : ∀ c ∈ slug.toList, isSlugChar c = true ∨ c = '-') :
    bare w slug = slug.toList := by
  have hplain : ∀ c ∈ slug.toList, transliterate c = [c] ∧ ¬ (0x300 ≤ c.toNat ∧ c.toNat ≤ 0x36f) := by
    intro c hc
    rcases h c hc with hletter | rfl
    · exact ⟨transliterate_of_isSlugChar hletter, fun hmark => by
        have := toNat_of_isSlugChar hletter
        omega⟩
    · exact ⟨rfl, by decide⟩
  have hsame : slug.toList.flatMap transliterate = slug.toList := by
    rw [List.flatMap_congr fun c hc => (hplain c hc).1]
    exact List.flatMap_singleton' _
  rw [bare, (hw slug h).1, hsame, String.ofList_toList, (hw slug h).2, List.filter_eq_self]
  intro c hc
  rw [Bool.not_eq_true', decide_eq_false_iff_not]
  exact (hplain c hc).2

/-- The slug of a name with letters has the form that `create` asks for. -/
theorem isSlug_generateSlug {name : String} (h : slugWords w name ≠ []) : isSlug (generateSlug w name) = true := by
  have hparts : Text.splitOn '-' [] (generateSlug w name).toList = slugWords w name := by
    rw [Text.splitOn_eq, generateSlug_eq]
    refine List.splitOn_intercalate '-' ?_ h
    intro word hword hdash
    have hletter := (of_mem_slugWords hword).2 '-' hdash
    rw [isSlugChar_dash] at hletter
    exact absurd hletter Bool.false_ne_true
  rw [isSlug, hparts, List.all_eq_true]
  intro word hword
  obtain ⟨hne, hletters⟩ := of_mem_slugWords hword
  rw [Bool.and_eq_true, Bool.not_eq_true', List.isEmpty_eq_false_iff, List.all_eq_true]
  exact ⟨hne, hletters⟩

/-- The slug is empty when the name has no letter and no digit. -/
theorem generateSlug_eq_empty_iff {name : String} : generateSlug w name = "" ↔ slugWords w name = [] := by
  rw [← String.toList_inj, generateSlug_eq]
  constructor
  · intro hempty
    cases hwords : slugWords w name with
    | nil => rfl
    | cons word rest =>
      rw [hwords] at hempty
      have hword := (of_mem_slugWords (hwords ▸ List.mem_cons_self : word ∈ slugWords w name)).1
      exact absurd hempty (Text.intercalate_ne_nil hword rest)
  · intro hnil
    rw [hnil]
    rfl

/-- **Slugs are in normal form.** A slug is empty or a list of runs of `[a-z0-9]` joined with single hyphens, and it is
its own slug. -/
theorem generateSlug_normal (hw : KeepsSlugs w) (text : String) :
    (generateSlug w text = "" ∨ isSlug (generateSlug w text) = true
        ∧ ∃ runs ≠ [], (∀ run ∈ runs, run ≠ [] ∧ ∀ c ∈ run, isSlugChar c = true)
          ∧ (generateSlug w text).toList = ['-'].intercalate runs)
      ∧ generateSlug w (generateSlug w text) = generateSlug w text := by
  have hletters : ∀ c ∈ (generateSlug w text).toList, isSlugChar c = true ∨ c = '-' := by
    intro c hc
    rw [generateSlug_eq] at hc
    exact mem_intercalate (fun word hword => (of_mem_slugWords hword).2) hc
  have hwords : slugWords w (generateSlug w text) = slugWords w text := by
    rw [slugWords, bare_of_slug hw hletters, generateSlug_eq]
    exact Text.words_intercalate isSlugChar_dash fun word hword => of_mem_slugWords hword
  constructor
  · by_cases hnil : slugWords w text = []
    · exact .inl (generateSlug_eq_empty_iff.mpr hnil)
    · exact .inr ⟨isSlug_generateSlug hnil, slugWords w text, hnil, fun _ => of_mem_slugWords, generateSlug_eq w text⟩
  · rw [← String.toList_inj, generateSlug_eq, hwords, generateSlug_eq]

/-- Lower-casing as it is for the ASCII letters, for examples. -/
def lowering : World := { World.quiet 0 with toLowerCase := fun text => String.ofList (text.toList.map Char.toLower) }

/-- Lower-casing leaves slugs as they are. -/
theorem keepsSlugs_lowering : KeepsSlugs lowering := by
  intro text h
  refine ⟨?_, rfl⟩
  show String.ofList (text.toList.map Char.toLower) = text
  have hsame : text.toList.map Char.toLower = text.toList := by
    refine (List.map_congr_left fun c hc => ?_).trans (List.map_id _)
    rcases h c hc with hletter | rfl
    · -- a digit or a lower-case letter is no capital
      have hsmall : ¬(c.val ≥ 'A'.val ∧ c.val ≤ 'Z'.val) := by
        rintro ⟨hlow, hhigh⟩
        have hbounds := toNat_of_isSlugChar hletter
        have hA : 65 ≤ c.toNat := UInt32.le_iff_toNat_le.mp hlow
        have hZ : c.toNat ≤ 90 := UInt32.le_iff_toNat_le.mp hhigh
        omega
      exact (dif_neg hsmall : Char.toLower c = c)
    · rfl
  rw [hsame, String.ofList_toList]

theorem generateSlug_normal_csharp :
    KeepsSlugs lowering ∧ generateSlug lowering "C# / .NET" = "csharp-net"
      ∧ generateSlug lowering (generateSlug lowering "C# / .NET") = generateSlug lowering "C# / .NET" :=
  ⟨keepsSlugs_lowering, by decide, (generateSlug_normal keepsSlugs_lowering "C# / .NET").2⟩

/-! ## Creating a tag

The columns have room for 100 and 120 characters, and a slug may be longer than its name: `#` becomes `sharp`. -/

/-- How many characters the slug of a name has: the letters and digits of the folded name, and one hyphen for each gap
between its words. -/
def slugSize (w : World) (name : String) : Nat :=
  ((bare w name).filter isSlugChar).length + ((slugWords w name).length - 1)

/-- The length of a slug, from the words of its name. -/
theorem length_generateSlug (w : World) (name : String) : (generateSlug w name).length = slugSize w name := by
  rw [← String.length_toList, generateSlug_eq, Text.length_intercalate, slugWords, Text.flatten_words]
  rfl

/-- Without a letter or a digit, a name has no slug. -/
theorem isSlug_generateSlug_iff {name : String} :
    isSlug (generateSlug w name) = true ↔ ∃ c ∈ bare w name, isSlugChar c = true := by
  constructor
  · intro h
    by_contra hnone
    have hnil : slugWords w name = [] := by
      rw [slugWords, Text.words_eq_nil_iff]
      exact fun c hc => Bool.eq_false_iff.mpr fun hletter => hnone ⟨c, hc, hletter⟩
    rw [generateSlug_eq_empty_iff.mpr hnil] at h
    exact absurd h (by decide)
  · rintro ⟨c, hc, hletter⟩
    refine isSlug_generateSlug fun hnil => ?_
    exact absurd hletter (Bool.eq_false_iff.mp (Text.words_eq_nil_iff.mp hnil c hc))

/-- The texts of a new tag go into their columns. -/
def Storable (w : World) (dto : CreateTagDto) : Prop :=
  hasNul dto.name = false ∧ dto.description.any hasNul = false ∧ dto.name.length ≤ 100 ∧ slugSize w dto.name ≤ 120

/-- A name has no letter and no digit after folding, or its tag can be stored. -/
def Creatable (w : World) (dto : CreateTagDto) : Prop :=
  (∀ c ∈ bare w dto.name, isSlugChar c = false) ∨ Storable w dto

/-- A tag is stored, or the request is refused and nothing changes. -/
def TagCreated (s : Db) (o : Outcome Db HttpError Tag) : Prop :=
  (∃ t, o.result = .ok t ∧ o.state.tags.rows = s.tags.rows ++ [t] ∧ isSlug t.slug = true ∧ t.slug.length ≤ 120)
    ∨ (∃ message, o.result = .error (.badRequest message) ∨ o.result = .error (.conflict message)) ∧ o.state = s

variable {s : Db} {dto : CreateTagDto} {user : GatewayUser}

/-- The columns take the texts of a tag if they are short enough and have no NUL. -/
theorem checkColumns_eq (w : World) (dto : CreateTagDto) :
    (Storable w dto → checkColumns dto (generateSlug w dto.name) = .ok ())
      ∧ (¬ Storable w dto → ∃ message, checkColumns dto (generateSlug w dto.name) = .error (.internal message)) := by
  rw [Storable, ← length_generateSlug, checkColumns]
  simp only [require_bind]
  constructor
  · rintro ⟨hname, hdescription, hlength, hsize⟩
    rw [if_pos ⟨hname, hdescription⟩, if_pos hlength]
    exact require_eq_ok.mpr hsize
  · intro h
    by_cases hnul : hasNul dto.name = false ∧ dto.description.any hasNul = false
    · rw [if_pos hnul]
      by_cases hlength : dto.name.length ≤ 100
      · rw [if_pos hlength, require, if_neg fun hsize => h ⟨hnul.1, hnul.2, hlength, hsize⟩]
        exact ⟨_, rfl⟩
      · rw [if_neg hlength]
        exact ⟨_, rfl⟩
    · rw [if_neg hnul]
      exact ⟨_, rfl⟩

/-- A name without a letter or a digit is refused. -/
theorem create_of_not_slug (hslug : dto.slug = none) (huser : guarded user = .ok ())
    (h : ¬ isSlug (generateSlug w dto.name) = true) :
    create w s dto user = ⟨s, .error (.badRequest "Tag name must produce a valid slug")⟩ := by
  rw [create, hslug]
  simp only [huser, ok_bind, require_bind, if_neg h]
  rfl

/-- A tag that the columns do not take fails, and the error is neither of the two. -/
theorem create_of_not_storable (hslug : dto.slug = none) (huser : guarded user = .ok ())
    (h : isSlug (generateSlug w dto.name) = true) (hcolumns : ¬ Storable w dto) :
    ∃ message, create w s dto user = ⟨s, .error (.internal message)⟩ := by
  obtain ⟨message, herror⟩ := (checkColumns_eq w dto).2 hcolumns
  refine ⟨message, ?_⟩
  rw [create, hslug]
  simp only [huser, ok_bind, require_bind, if_pos h, herror]
  rfl

/-- A tag that they take is stored, unless its name or its slug is in use. -/
theorem create_of_storable (hslug : dto.slug = none) (huser : guarded user = .ok ())
    (h : isSlug (generateSlug w dto.name) = true) (hcolumns : Storable w dto) : TagCreated s (create w s dto user) := by
  have hok := (checkColumns_eq w dto).1 hcolumns
  rw [create, hslug]
  simp only [huser, ok_bind, require_bind, if_pos h, hok]
  split
  · refine .inl ⟨_, rfl, ?_, h, ?_⟩
    · exact Table.rows_insert s.tags.get?_next
    · rw [length_generateSlug]
      exact hcolumns.2.2.2
  · exact .inr ⟨⟨_, .inr rfl⟩, rfl⟩

/-- **Creation is total on the names that go into the columns**, and on the names that have no slug. -/
theorem create_total_iff (hslug : dto.slug = none) (huser : guarded user = .ok ()) :
    TagCreated s (create w s dto user) ↔ Creatable w dto := by
  by_cases h : isSlug (generateSlug w dto.name) = true
  · have hsome : ¬ ∀ c ∈ bare w dto.name, isSlugChar c = false := by
      intro hnone
      obtain ⟨c, hc, hletter⟩ := isSlug_generateSlug_iff.mp h
      exact absurd hletter (Bool.eq_false_iff.mp (hnone c hc))
    rw [Creatable, or_iff_right hsome]
    constructor
    · intro hcreated
      by_contra hcolumns
      obtain ⟨message, herror⟩ := create_of_not_storable (s := s) hslug huser h hcolumns
      rw [herror] at hcreated
      rcases hcreated with ⟨t, hok, -⟩ | ⟨⟨message', hbad | hconflict⟩, -⟩
      · cases hok
      · cases hbad
      · cases hconflict
    · exact create_of_storable hslug huser h
  · rw [create_of_not_slug hslug huser h]
    have hnone : ∀ c ∈ bare w dto.name, isSlugChar c = false := by
      intro c hc
      by_contra hletter
      exact h (isSlug_generateSlug_iff.mpr ⟨c, hc, Bool.not_eq_false _ ▸ hletter⟩)
    exact iff_of_true (.inr ⟨⟨_, .inl rfl⟩, rfl⟩) (.inl hnone)

/-- 25 signs `#`. -/
def sharps : CreateTagDto := { name := "#########################" }

theorem create_total_iff_plain :
    guarded Sample.administrator = .ok () ∧ Creatable lowering { name := "C++" }
      ∧ TagCreated Db.empty (create lowering Db.empty { name := "C++" } Sample.administrator) := by
  have hcreatable : Creatable lowering { name := "C++" } := .inr ⟨by decide, by decide, by decide, by decide⟩
  exact ⟨rfl, hcreatable, (create_total_iff rfl rfl).mpr hcreatable⟩

/-- The slug of 25 signs has 125 characters. -/
theorem create_total_sharps :
    sharps.slug = none ∧ sharps.name.length = 25 ∧ guarded Sample.administrator = .ok ()
      ∧ (create lowering Db.empty sharps Sample.administrator).result
        = .error (.internal "value too long for type character varying(120)")
      ∧ ¬ TagCreated Db.empty (create lowering Db.empty sharps Sample.administrator) := by
  have hresult : (create lowering Db.empty sharps Sample.administrator).result
      = .error (.internal "value too long for type character varying(120)") := by decide +kernel
  refine ⟨rfl, by decide, rfl, hresult, ?_⟩
  rw [TagCreated, hresult]
  rintro (⟨t, hok, -⟩ | ⟨⟨message, hbad | hconflict⟩, -⟩)
  · cases hok
  · cases hbad
  · cases hconflict

end TagsService

end AcaSocial
