import Mathlib.Data.List.Basic
import AcaSocial.Frontend.LinkDecoding

/-!
# Candidates for links

The expression of `externalLinks` in `lib/link-safety.ts` that finds the candidates in a decoded text.

* **`Lead`** — how a candidate begins: `https://`, `http://`, `www.` or `//`.
* **`pieces`** — the text, cut into the candidates and the units outside of them.
* **`Recased`** — the same text but for the case of letters in the leads of its candidates.
* **`pieces_of_recased`** — it has the same candidates, in the other spelling.
* **`mem_pieces_of_delimited`** — a lead with something behind it between white space is a candidate.
-/

namespace AcaSocial.Frontend.Links

/-! ## The expression

A candidate begins at a scheme or at `www.`, and goes on over the characters that are allowed. What follows the first
one is searched in the same way. -/

/-- `\s` -/
def isSpace (u : CodeUnit) : Bool :=
  let n := u.toNat
  decide ((9 ≤ n ∧ n ≤ 13) ∨ n = 0x20 ∨ n = 0xa0 ∨ n = 0x1680 ∨ (0x2000 ≤ n ∧ n ≤ 0x200a)
    ∨ n = 0x2028 ∨ n = 0x2029 ∨ n = 0x202f ∨ n = 0x205f ∨ n = 0x3000 ∨ n = 0xfeff)

/-- `[^\s<>"\[\]]` -/
def isAllowed (u : CodeUnit) : Bool := !isSpace u && !(units "<>\"[]").contains u

inductive Lead where
  | https | http | www | slashes
  deriving DecidableEq

def Lead.text : Lead → List CodeUnit
  | .https => units "https://"
  | .http => units "http://"
  | .www => units "www."
  | .slashes => units "//"

/-- The text begins with the lead, in some spelling. -/
def Lead.starts (l : Lead) (text : List CodeUnit) : Bool := decide ((text.take l.text.length).map lower = l.text)

/-- `(?<![:/])` -/
def mayBegin (before : Option CodeUnit) : Lead → Bool
  | .slashes => before.all fun u => decide (u ≠ 58 ∧ u ≠ 47)
  | _ => true

/-- `(?:https?:\/\/|www\.|(?<![:/])\/\/)` at the start of the text. -/
def leadAt (before : Option CodeUnit) (text : List CodeUnit) : Option Lead :=
  [Lead.https, .http, .www, .slashes].find? fun l => l.starts text && mayBegin before l

/-- A unit outside of the candidates, or a candidate: its lead, as it is written, and the rest. -/
inductive Piece where
  | plain (u : CodeUnit)
  | link (lead : Lead) (written rest : List CodeUnit)
  deriving DecidableEq

def Piece.text : Piece → List CodeUnit
  | .plain u => [u]
  | .link _ written rest => written ++ rest

/-- The candidate at the start of the text, and what is behind it. -/
def linkAt (before : Option CodeUnit) (text : List CodeUnit) : Option (Piece × List CodeUnit) :=
  match leadAt before text with
  | none => none
  | some l =>
    let behind := text.drop l.text.length
    let rest := behind.takeWhile isAllowed
    if rest = [] then none else some (.link l (text.take l.text.length) rest, behind.dropWhile isAllowed)

/-- The matches of the whole text. Each step takes a unit at least. -/
def scan : Nat → Option CodeUnit → List CodeUnit → List Piece
  | 0, _, _ => []
  | _ + 1, _, [] => []
  | fuel + 1, before, u :: text =>
    match linkAt before (u :: text) with
    | some (piece, behind) => piece :: scan fuel piece.text.getLast? behind
    | none => .plain u :: scan fuel (some u) text

def pieces (text : List CodeUnit) : List Piece := scan text.length none text

def joined (ps : List Piece) : List CodeUnit := ps.flatMap Piece.text

variable {before before' : Option CodeUnit} {text text' rest : List CodeUnit} {ps qs : List Piece} {l : Lead}

/-! ## The cut

A text is cut into links and the characters between them. The pieces put together are the text. -/

/-- The text does not go on with something allowed. -/
def Ended (behind : List CodeUnit) : Prop := ∀ u, behind.head? = some u → isAllowed u = false

/-- What is found is what the text begins with. -/
theorem starts_of_leadAt (h : leadAt before text = some l) : l.starts text = true := by
  have hfound := List.find?_some h
  rw [Bool.and_eq_true] at hfound
  exact hfound.1

/-- A candidate ends where the next character is not allowed. -/
theorem ended_dropWhile (text : List CodeUnit) : Ended (text.dropWhile isAllowed) := by
  intro u hu
  induction text with
  | nil => exact absurd hu.symm (Option.some_ne_none u)
  | cons v text ih =>
    rw [List.dropWhile_cons] at hu
    split at hu
    · exact ih hu
    · next hv =>
      obtain rfl : v = u := Option.some.inj hu
      exact Bool.eq_false_iff.mpr hv

/-- The allowed characters of a text end where they are said to end. -/
theorem takeWhile_of_ended {behind : List CodeUnit} (hrest : ∀ u ∈ rest, isAllowed u = true) (hbehind : Ended behind) :
    (rest ++ behind).takeWhile isAllowed = rest ∧ (rest ++ behind).dropWhile isAllowed = behind := by
  rw [List.takeWhile_append_of_pos hrest, List.dropWhile_append_of_pos hrest]
  cases behind with
  | nil => exact ⟨List.append_nil rest, rfl⟩
  | cons u behind =>
    have hu := Bool.eq_false_iff.mp (hbehind u rfl)
    rw [List.takeWhile_cons_of_neg hu, List.dropWhile_cons_of_neg hu]
    exact ⟨List.append_nil rest, rfl⟩

/-- A piece that is a link has a beginning, its allowed characters, and ends there. -/
theorem linkAt_eq_some {piece : Piece} {behind : List CodeUnit} (h : linkAt before text = some (piece, behind)) :
    ∃ l written rest, piece = .link l written rest ∧ text = written ++ rest ++ behind ∧ leadAt before text = some l
      ∧ written.map lower = l.text ∧ rest ≠ [] ∧ (∀ u ∈ rest, isAllowed u = true) ∧ Ended behind := by
  rw [linkAt] at h
  split at h
  · cases h
  · next l hl =>
    dsimp only at h
    split at h
    · cases h
    · next hne =>
      obtain ⟨rfl, rfl⟩ := Prod.mk.inj (Option.some.inj h)
      refine ⟨l, _, _, rfl, ?_, hl, of_decide_eq_true (starts_of_leadAt hl), hne, ?_, ended_dropWhile _⟩
      · rw [List.append_assoc, List.takeWhile_append_dropWhile, List.take_append_drop]
      · exact fun u hu => List.mem_takeWhile_imp hu

/-- A candidate is where there is a lead and something allowed behind it. -/
theorem linkAt_of {written behind : List CodeUnit} (hlead : leadAt before (written ++ rest ++ behind) = some l)
    (hlength : written.length = l.text.length) (hne : rest ≠ []) (hrest : ∀ u ∈ rest, isAllowed u = true)
    (hbehind : Ended behind) : linkAt before (written ++ rest ++ behind) = some (.link l written rest, behind) := by
  obtain ⟨htake, hdrop⟩ := takeWhile_of_ended hrest hbehind
  rw [linkAt, hlead]
  dsimp only
  rw [← hlength, List.append_assoc, List.take_left, List.drop_left, htake, hdrop, if_neg hne]

/-- A candidate is found where it begins. -/
theorem scan_link {fuel : Nat} {piece : Piece} {behind : List CodeUnit} (h : linkAt before text = some (piece, behind)) :
    scan (fuel + 1) before text = piece :: scan fuel piece.text.getLast? behind := by
  cases text with
  | nil =>
    obtain ⟨l, written, rest, -, htext, -, -, hne, -, -⟩ := linkAt_eq_some h
    have hnil := List.append_eq_nil_iff.mp (List.append_eq_nil_iff.mp htext.symm).1
    exact absurd hnil.2 hne
  | cons u text =>
    rw [scan, h]

/-- The pieces are the text. -/
theorem joined_scan {fuel : Nat} (hfuel : text.length ≤ fuel) : joined (scan fuel before text) = text := by
  induction fuel generalizing before text with
  | zero =>
    rw [List.length_eq_zero_iff.mp (Nat.le_zero.mp hfuel)]
    rfl
  | succ fuel ih =>
    cases text with
    | nil => rfl
    | cons u text =>
      rw [scan]
      cases hlink : linkAt before (u :: text) with
      | none =>
        have hrest : joined (scan fuel (some u) text) = text := ih (Nat.le_of_succ_le_succ hfuel)
        exact congrArg (u :: ·) hrest
      | some found =>
        obtain ⟨piece, behind⟩ := found
        obtain ⟨l, written, rest, rfl, htext, -, -, hne, -, -⟩ := linkAt_eq_some hlink
        have hlength := congrArg List.length htext
        have hpos := List.length_pos_iff.mpr hne
        rw [List.length_append, List.length_append] at hlength
        have hrest : joined (scan fuel (written ++ rest).getLast? behind) = behind := ih (by omega)
        show (written ++ rest) ++ joined (scan fuel (written ++ rest).getLast? behind) = _
        rw [hrest, htext]

/-- **The cut loses nothing.** -/
theorem joined_pieces (text : List CodeUnit) : joined (pieces text) = text := joined_scan (Nat.le_refl _)

/-- A candidate has its lead in some spelling, and something behind it. -/
theorem of_mem_scan {fuel : Nat} {written : List CodeUnit} (h : .link l written rest ∈ scan fuel before text) :
    written.map lower = l.text ∧ rest ≠ [] ∧ ∀ u ∈ rest, isAllowed u = true := by
  induction fuel generalizing before text with
  | zero => exact absurd h List.not_mem_nil
  | succ fuel ih =>
    cases text with
    | nil => exact absurd h List.not_mem_nil
    | cons u text =>
      rw [scan] at h
      cases hlink : linkAt before (u :: text) with
      | none =>
        rw [hlink] at h
        rcases List.mem_cons.mp h with hplain | h
        · cases hplain
        · exact ih h
      | some found =>
        obtain ⟨piece, behind⟩ := found
        rw [hlink] at h
        rcases List.mem_cons.mp h with rfl | h
        · obtain ⟨_, _, _, hpiece, -, -, hwritten, hne, hallowed, -⟩ := linkAt_eq_some hlink
          cases hpiece
          exact ⟨hwritten, hne, hallowed⟩
        · exact ih h

/-! ## The case of letters

Neither the beginning of a candidate nor its characters depend on the case of letters, so that a text and its pieces
can be written in another case together. -/

/-- The same piece but for the case of letters in its lead. -/
inductive Piece.Recased : Piece → Piece → Prop where
  | plain (u : CodeUnit) : Recased (.plain u) (.plain u)
  | link (l : Lead) {written written' : List CodeUnit} (rest : List CodeUnit)
      (h : written'.map lower = written.map lower) : Recased (.link l written rest) (.link l written' rest)

/-- The same text but for the case of letters in the leads of its candidates. -/
def Recased (text text' : List CodeUnit) : Prop := ∃ ps, List.Forall₂ Piece.Recased (pieces text) ps ∧ text' = joined ps

theorem isAllowed_letter {u : CodeUnit} (h : 65 ≤ u.toNat ∧ u.toNat ≤ 90 ∨ 97 ≤ u.toNat ∧ u.toNat ≤ 122) :
    isAllowed u = true := by
  have hspace : isSpace u = false := decide_eq_false (by omega)
  have hdelimiter : (units "<>\"[]").contains u = false := by
    rw [Bool.eq_false_iff]
    intro hmem
    have hcases : u = 60 ∨ u = 62 ∨ u = 34 ∨ u = 91 ∨ u = 93 := by
      simpa [units] using List.contains_iff_mem.mp hmem
    rcases hcases with rfl | rfl | rfl | rfl | rfl <;> exact absurd h (by decide)
  rw [isAllowed, hspace, hdelimiter]
  rfl

theorem toNat_lower {u : CodeUnit} (h : 65 ≤ u.toNat ∧ u.toNat ≤ 90) : (lower u).toNat = u.toNat + 32 := by
  rw [lower, if_pos h, UInt16.toNat_add]
  show (u.toNat + 32) % 2 ^ 16 = _
  omega

/-- A letter is allowed in both cases. -/
theorem isAllowed_lower (u : CodeUnit) : isAllowed (lower u) = isAllowed u := by
  by_cases h : 65 ≤ u.toNat ∧ u.toNat ≤ 90
  · have hlower := toNat_lower h
    rw [isAllowed_letter (.inl h), isAllowed_letter]
    omega
  · rw [lower, if_neg h]

/-- The beginning of a candidate does not depend on the case of letters. -/
theorem leadAt_congr (h : text'.map lower = text.map lower) : leadAt before text' = leadAt before text := by
  have hstarts : ∀ l : Lead, l.starts text' = l.starts text := by
    intro l
    rw [Lead.starts, Lead.starts, List.map_take, List.map_take, h]
  rw [leadAt, leadAt]
  congr 1
  funext l
  rw [hstarts]

theorem ended_congr (h : text'.map lower = text.map lower) (hended : Ended text) : Ended text' := by
  intro u hu
  have hhead : text.head?.map lower = some (lower u) := by
    rw [← List.head?_map, ← h, List.head?_map, hu]
    rfl
  obtain ⟨v, hv, hsame⟩ := Option.map_eq_some_iff.mp hhead
  rw [← isAllowed_lower, ← hsame, isAllowed_lower]
  exact hended v hv

theorem linkAt_none_congr (h : text'.map lower = text.map lower) (hnone : linkAt before text = none) :
    linkAt before text' = none := by
  rw [linkAt] at hnone ⊢
  rw [leadAt_congr h]
  cases hlead : leadAt before text with
  | none => rfl
  | some l =>
    rw [hlead] at hnone
    dsimp only at hnone ⊢
    have hempty : (text.drop l.text.length).takeWhile isAllowed = [] := by
      by_contra hne
      rw [if_neg hne] at hnone
      cases hnone
    -- what is allowed does not depend on the case
    have hcomp : isAllowed ∘ lower = isAllowed := funext isAllowed_lower
    have hempty' : ((text'.drop l.text.length).takeWhile isAllowed).map lower = [] := by
      rw [← hcomp, ← List.takeWhile_map, List.map_drop, h, ← List.map_drop, List.takeWhile_map, hcomp, hempty]
      rfl
    rw [if_pos (List.map_eq_nil_iff.mp hempty')]

/-- Pieces in another case make up a text in another case. -/
theorem lower_joined (h : List.Forall₂ Piece.Recased ps qs) : (joined qs).map lower = (joined ps).map lower := by
  induction h with
  | nil => rfl
  | cons hpiece _ ih =>
    show (_ ++ joined _).map lower = (_ ++ joined _).map lower
    rw [List.map_append, List.map_append, ih]
    cases hpiece with
    | plain u => rfl
    | link l rest hwritten =>
      show (_ ++ rest).map lower ++ _ = (_ ++ rest).map lower ++ _
      rw [List.map_append, List.map_append, hwritten]

/-- The spelling of the leads does not change what is found. The induction follows the scan. -/
theorem scan_recased {fuel : Nat} (hfuel : text.length ≤ fuel)
    (h : List.Forall₂ Piece.Recased (scan fuel before text) ps) : scan fuel before (joined ps) = ps := by
  induction fuel generalizing before text ps with
  | zero =>
    cases h
    rfl
  | succ fuel ih =>
    cases text with
    | nil =>
      cases h
      rfl
    | cons u text =>
      rw [scan] at h
      cases hlink : linkAt before (u :: text) with
      -- no link begins here, and none begins in the other spelling
      | none =>
        rw [hlink] at h
        cases h with
        | @cons _ piece _ qs hpiece hrest =>
          cases hpiece
          have hlower : (u :: joined qs).map lower = (u :: text).map lower := by
            rw [List.map_cons, List.map_cons, lower_joined hrest, joined_scan (Nat.le_of_succ_le_succ hfuel)]
          show scan (fuel + 1) before (u :: joined qs) = _
          rw [scan, linkAt_none_congr hlower hlink]
          dsimp only
          rw [ih (Nat.le_of_succ_le_succ hfuel) hrest]
      | some found =>
        obtain ⟨piece, behind⟩ := found
        obtain ⟨l, written, rest, rfl, htext, hlead, hwritten, hne, hallowed, hended⟩ := linkAt_eq_some hlink
        rw [hlink] at h
        have hbehind : behind.length ≤ fuel := by
          have hlength := congrArg List.length htext
          have hpos := List.length_pos_iff.mpr hne
          rw [List.length_append, List.length_append] at hlength
          omega
        cases h with
        | @cons _ piece _ qs hpiece hrest =>
          cases hpiece with
          | @link _ _ written' _ hcase =>
            have hlower := lower_joined hrest
            rw [joined_scan hbehind] at hlower
            -- the same lead is found, as leads are compared in lower case
            have hlead' : leadAt before (written' ++ rest ++ joined qs) = some l := by
              rw [← hlead, htext]
              refine leadAt_congr ?_
              rw [List.map_append, List.map_append, List.map_append, List.map_append, hcase, hlower]
            have hlength : written'.length = l.text.length := by
              rw [← List.length_map lower, hcase, hwritten]
            have hlink' := linkAt_of hlead' hlength hne hallowed (ended_congr hlower hended)
            -- the scan goes on behind the link, after the same character
            have hlast : (written' ++ rest).getLast? = (written ++ rest).getLast? := by
              rw [List.getLast?_append_of_ne_nil written' hne, List.getLast?_append_of_ne_nil written hne]
            show scan (fuel + 1) before (written' ++ rest ++ joined qs) = _
            rw [scan_link hlink']
            show _ :: scan fuel (written' ++ rest).getLast? (joined qs) = _
            have hscan : scan fuel (written ++ rest).getLast? (joined qs) = qs := ih hbehind hrest
            rw [hlast, hscan]

/-- Pieces in another case are the pieces of the text that they make up. -/
theorem pieces_of_recased (h : List.Forall₂ Piece.Recased (pieces text) ps) : pieces (joined ps) = ps := by
  have hlength : (joined ps).length = text.length := by
    have hlower := lower_joined h
    rw [joined_pieces] at hlower
    rw [← List.length_map lower, hlower, List.length_map]
  rw [pieces, hlength]
  exact scan_recased (Nat.le_refl _) h

/-! ## Candidates between white space

A word that begins with a scheme or with `www.` is a candidate, up to its first character that is not allowed. -/

/-- The units of a lead are allowed. -/
theorem isAllowed_lead {written : List CodeUnit} (h : written.map lower = l.text) : ∀ u ∈ written, isAllowed u = true := by
  have hlead : l.text.all isAllowed = true := by cases l <;> decide
  intro u hu
  rw [← isAllowed_lower]
  exact List.all_eq_true.mp hlead (lower u) (h ▸ List.mem_map_of_mem hu)

/-- A beginning is compared without regard to case. -/
theorem starts_iff : l.starts text = true ↔ l.text <+: text.map lower := by
  rw [Lead.starts, decide_eq_true_iff, List.prefix_iff_eq_take, List.map_take, eq_comm]

/-- A text begins with one lead at most: none of the four is the beginning of another one. -/
theorem lead_unique {l' : Lead} (h : l.starts text = true) (h' : l'.starts text = true) : l' = l := by
  rcases List.prefix_or_prefix_of_prefix (starts_iff.mp h) (starts_iff.mp h') with hprefix | hprefix
  · revert hprefix
    cases l <;> cases l' <;> decide
  · revert hprefix
    cases l <;> cases l' <;> decide

/-- A beginning is found where one may stand. -/
theorem leadAt_eq_some (hstarts : l.starts text = true) (hbefore : mayBegin before l = true) :
    leadAt before text = some l := by
  cases hlead : leadAt before text with
  | none =>
    have hmem : l ∈ [Lead.https, .http, .www, .slashes] := by cases l <;> decide
    refine absurd ?_ (List.find?_eq_none.mp hlead l hmem)
    rw [hstarts, hbefore]
    rfl
  | some l' => rw [lead_unique hstarts (starts_of_leadAt hlead)]

/-- What is before the position is white space, or nothing. -/
def Fresh (before : Option CodeUnit) (passed : List CodeUnit) : Prop :=
  ∀ u, (before.toList ++ passed).getLast? = some u → isSpace u = true

/-- White space ends a candidate. -/
theorem isAllowed_of_isSpace {u : CodeUnit} (h : isSpace u = true) : isAllowed u = false := by
  rw [isAllowed, h]
  rfl

/-- A candidate may begin behind white space. -/
theorem mayBegin_of_fresh (h : Fresh before []) : mayBegin before l = true := by
  cases l with
  | slashes =>
    cases before with
    | none => rfl
    | some u =>
      have hspace := h u rfl
      refine decide_eq_true ⟨?_, ?_⟩
      · rintro rfl
        exact absurd hspace (by decide)
      · rintro rfl
        exact absurd hspace (by decide)
  | _ => rfl

/-- A candidate before the position ends before it. -/
theorem fresh_behind {passed consumed behind tail : List CodeUnit} (hfresh : Fresh before passed) (hne : passed ≠ [])
    (hconsumed : ∀ u ∈ consumed, isAllowed u = true) (h : passed ++ behind = consumed ++ tail) :
    ∃ passed', tail = passed' ++ behind ∧ Fresh consumed.getLast? passed' := by
  have hlast : isSpace (passed.getLast hne) = true := by
    refine hfresh _ ?_
    rw [List.getLast?_append_of_ne_nil _ hne, List.getLast?_eq_some_getLast hne]
  have hnot : passed.getLast hne ∉ consumed := fun hmem =>
    absurd (hconsumed _ hmem) (Bool.eq_false_iff.mp (isAllowed_of_isSpace hlast))
  rcases List.append_eq_append_iff.mp h with ⟨more, hmore, -⟩ | ⟨passed', hpassed, htail⟩
  · refine absurd ?_ hnot
    rw [hmore]
    exact List.mem_append_left more (List.getLast_mem hne)
  · refine ⟨passed', htail, ?_⟩
    have hne' : passed' ≠ [] := by
      rintro rfl
      rw [List.append_nil] at hpassed
      exact hnot (hpassed ▸ List.getLast_mem hne)
    intro u hu
    rw [List.getLast?_append_of_ne_nil _ hne'] at hu
    refine hfresh u ?_
    rw [List.getLast?_append_of_ne_nil _ hne, hpassed, List.getLast?_append_of_ne_nil _ hne', hu]

/-- A lead with something behind it, after white space, is found. The induction follows the scan up to it. -/
theorem mem_scan {fuel : Nat} {passed written behind : List CodeUnit}
    (hfuel : (passed ++ (written ++ rest ++ behind)).length ≤ fuel) (hfresh : Fresh before passed)
    (hwritten : written.map lower = l.text) (hne : rest ≠ []) (hrest : ∀ u ∈ rest, isAllowed u = true)
    (hbehind : Ended behind) :
    .link l written rest ∈ scan fuel before (passed ++ (written ++ rest ++ behind)) := by
  have hlength : written.length = l.text.length := by rw [← List.length_map lower, hwritten]
  induction fuel generalizing before passed with
  | zero =>
    have hpos := List.length_pos_iff.mpr hne
    simp only [List.length_append] at hfuel
    omega
  | succ fuel ih =>
    cases passed with
    | nil =>
      have hstarts : l.starts (written ++ rest ++ behind) = true := by
        rw [starts_iff, List.append_assoc, List.map_append, hwritten]
        exact List.prefix_append _ _
      have hlead := leadAt_eq_some hstarts (mayBegin_of_fresh hfresh)
      rw [List.nil_append, scan_link (linkAt_of hlead hlength hne hrest hbehind)]
      exact List.mem_cons_self
    -- something stands before the lead: nothing is found in it, or a link that ends before the white space
    | cons u passed =>
      cases hlink : linkAt before (u :: (passed ++ (written ++ rest ++ behind))) with
      | none =>
        rw [List.cons_append, scan, hlink]
        refine List.mem_cons_of_mem _ (ih (Nat.le_of_succ_le_succ hfuel) fun v hv => hfresh v ?_)
        rw [List.getLast?_append_of_ne_nil _ (List.cons_ne_nil u passed)]
        exact hv
      | some found =>
        obtain ⟨piece, tail⟩ := found
        obtain ⟨l₂, written₂, rest₂, rfl, htext, -, hwritten₂, hne₂, hallowed, -⟩ := linkAt_eq_some hlink
        have hconsumed : ∀ v ∈ written₂ ++ rest₂, isAllowed v = true := by
          intro v hv
          rcases List.mem_append.mp hv with hv | hv
          · exact isAllowed_lead hwritten₂ v hv
          · exact hallowed v hv
        obtain ⟨passed', rfl, hfresh'⟩ := fresh_behind hfresh (List.cons_ne_nil u passed) hconsumed htext
        rw [List.cons_append, scan_link hlink]
        refine List.mem_cons_of_mem _ (ih ?_ hfresh')
        have hpos := List.length_pos_iff.mpr hne₂
        have htotal := congrArg List.length htext
        simp only [List.length_append, List.length_cons] at htotal hfuel ⊢
        omega

/-- **A lead with something allowed behind it, between white space or the ends of the text, is a candidate.** -/
theorem mem_pieces_of_delimited {passed written behind : List CodeUnit}
    (hpassed : ∀ u, passed.getLast? = some u → isSpace u = true)
    (hbehind : ∀ u, behind.head? = some u → isSpace u = true) (hwritten : written.map lower = l.text) (hne : rest ≠ [])
    (hrest : ∀ u ∈ rest, isAllowed u = true) :
    .link l written rest ∈ pieces (passed ++ (written ++ rest ++ behind)) :=
  mem_scan (Nat.le_refl _) hpassed hwritten hne hrest fun u hu => isAllowed_of_isSpace (hbehind u hu)

end AcaSocial.Frontend.Links
