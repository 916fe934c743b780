import AcaSocial.Base.Fields
import AcaSocial.Gateway.ReverseProxy
import Mathlib.Data.List.Basic

/-!
# Escaped paths

The path of a URL in the two forms of `net/url`: `URL.path` as it is meant, and the escaped form that goes over the wire.
A character stands for one byte here, as strings of Go are bytes.

* **`unescape`**, **`escape`** — percent-encoding of a path. `unescape_escape` is the round trip.
* **`URL.escapedPath`** — the hint `rawPath` if it is an encoding of the path, else the default encoding. In either case
  it is an encoding of the path (`unescape_escapedPath`).
* **`decode`** — a segment as it is meant.
-/

namespace AcaSocial.Gateway

/-! ## net/url

The two escapings of Go's `net/url` that the gateway uses, and `EscapedPath`, which keeps the raw path when it is a
valid one. -/

/-- The value of a hexadecimal digit. -/
def unhex (c : Char) : Option Nat :=
  if '0' ≤ c ∧ c ≤ '9' then some (c.toNat - '0'.toNat)
  else if 'a' ≤ c ∧ c ≤ 'f' then some (c.toNat - 'a'.toNat + 10)
  else if 'A' ≤ c ∧ c ≤ 'F' then some (c.toNat - 'A'.toNat + 10)
  else none

/-- `unescape(s, encodePath)`. -/
def unescape : List Char → Option (List Char)
  | [] => some []
  | '%' :: a :: b :: text =>
    match unhex a, unhex b with
    | some high, some low => (unescape text).map (Char.ofNat (16 * high + low) :: ·)
    | _, _ => none
  | '%' :: _ => none
  | c :: text => (unescape text).map (c :: ·)

/-- `shouldEscape(c, encodePath)`. No byte has a number from 256 on. -/
def shouldEscape (c : Char) : Bool :=
  !(decide ('a' ≤ c ∧ c ≤ 'z') || decide ('A' ≤ c ∧ c ≤ 'Z') || decide ('0' ≤ c ∧ c ≤ '9')
    || "-_.~$&+,/:;=@".toList.contains c) && decide (c.toNat < 256)

def upperhex (n : Nat) : Char := "0123456789ABCDEF".toList.getD n '0'

/-- `escape(s, encodePath)`. -/
def escape (text : List Char) : List Char :=
  text.flatMap fun c => if shouldEscape c then ['%', upperhex (c.toNat / 16), upperhex (c.toNat % 16)] else [c]

/-- `validEncoded(s, encodePath)`. -/
def validEncoded (text : List Char) : Bool :=
  text.all fun c => "!$&'()*+,;=:@[]%".toList.contains c || !shouldEscape c

/-- `URL.EscapedPath`. -/
def URL.escapedPath (u : URL) : String :=
  if u.rawPath ≠ "" ∧ validEncoded u.rawPath.toList = true ∧ unescape u.rawPath.toList = some u.path.toList then u.rawPath
  else if u.path = "*" then "*"
  else String.ofList (escape u.path.toList)

/-! ## Round trips

What is escaped is unescaped to the same text. -/

theorem unhex_upperhex : ∀ n < 16, unhex (upperhex n) = some n := by decide

/-- A character that is not escaped is itself. -/
theorem unescape_cons {c : Char} (h : c ≠ '%') (text : List Char) :
    unescape (c :: text) = (unescape text).map (c :: ·) := by
  rw [unescape]
  · exact fun _ _ _ hc _ => h hc
  · exact fun hc => h hc

/-- A character is escaped by itself. -/
theorem escape_cons (c : Char) (text : List Char) : escape (c :: text)
    = (if shouldEscape c then ['%', upperhex (c.toNat / 16), upperhex (c.toNat % 16)] else [c]) ++ escape text := by
  rw [escape, List.flatMap_cons]
  rfl

/-- **Escaping loses nothing.** The induction is on the text, and a character is escaped or stays. -/
theorem unescape_escape (text : List Char) : unescape (escape text) = some text := by
  induction text with
  | nil => rfl
  | cons c text ih =>
    rw [escape_cons]
    cases hc : shouldEscape c with
    | false =>
      have hne : c ≠ '%' := by
        rintro rfl
        exact absurd hc (by decide)
      rw [if_neg Bool.false_ne_true, List.singleton_append, unescape_cons hne, ih]
      rfl
    | true =>
      have hbyte : c.toNat < 256 := of_decide_eq_true (Bool.and_eq_true_iff.mp hc).2
      have hchar : 16 * (c.toNat / 16) + c.toNat % 16 = c.toNat := Nat.div_add_mod _ _
      rw [if_pos rfl]
      show unescape ('%' :: upperhex (c.toNat / 16) :: upperhex (c.toNat % 16) :: escape text) = _
      rw [unescape, unhex_upperhex _ (by omega), unhex_upperhex _ (by omega)]
      dsimp only
      rw [ih, hchar, Char.ofNat_toNat]
      rfl

/-- What is unescaped in parts. -/
theorem unescape_append {a a' : List Char} (b : List Char) (h : unescape a = some a') :
    unescape (a ++ b) = (unescape b).map (a' ++ ·) := by
  fun_induction unescape a generalizing a' with
  | case1 =>
    obtain rfl := Option.some.inj h
    simp
  | case2 x y text high low hx hy ih =>
    obtain ⟨rest, hrest, rfl⟩ := Option.map_eq_some_iff.mp h
    show unescape ('%' :: x :: y :: (text ++ b)) = _
    rw [unescape, hx, hy]
    dsimp only
    rw [ih hrest, Option.map_map]
    rfl
  | case3 => cases h
  | case4 => cases h
  | case5 c text hc hc' ih =>
    obtain ⟨rest, hrest, rfl⟩ := Option.map_eq_some_iff.mp h
    have hne : c ≠ '%' := by
      rintro rfl
      exact hc' rfl
    rw [List.cons_append, unescape_cons hne, ih hrest, Option.map_map]
    rfl

theorem upperhex_mem : ∀ n < 16, upperhex n ∈ "0123456789ABCDEF".toList := by decide

/-- What escaping writes: characters that stay, and `%` with hexadecimal digits. -/
theorem mem_escape {c : Char} {text : List Char} (h : c ∈ escape text) :
    (c ∈ text ∧ shouldEscape c = false) ∨ c = '%' ∨ c ∈ "0123456789ABCDEF".toList := by
  obtain ⟨d, hd, hc⟩ := List.mem_flatMap.mp h
  split at hc
  · next hescape =>
    have hbyte : d.toNat < 256 := of_decide_eq_true (Bool.and_eq_true_iff.mp hescape).2
    simp only [List.mem_cons, List.not_mem_nil, or_false] at hc
    rcases hc with rfl | rfl | rfl
    · exact .inr (.inl rfl)
    · exact .inr (.inr (upperhex_mem _ (by omega)))
    · exact .inr (.inr (upperhex_mem _ (by omega)))
  · next hstays =>
    obtain rfl := List.mem_singleton.mp hc
    exact .inl ⟨hd, Bool.eq_false_iff.mpr hstays⟩

/-- An escaped text has only characters that may stand in a path. -/
theorem validEncoded_escape (text : List Char) : validEncoded (escape text) = true := by
  have hdigits : ("0123456789ABCDEF".toList.all fun c => !shouldEscape c) = true := by decide
  refine List.all_eq_true.mpr fun c hc => ?_
  rcases mem_escape hc with ⟨-, hstays⟩ | rfl | hdigit
  · rw [hstays]
    exact Bool.or_true _
  · decide
  · have hstays := List.all_eq_true.mp hdigits c hdigit
    rw [Bool.not_eq_true'] at hstays
    rw [hstays]
    exact Bool.or_true _

/-- Escaping makes no slash and hides none. -/
theorem slash_mem_escape {text : List Char} : '/' ∈ escape text ↔ '/' ∈ text := by
  constructor
  · intro h
    rcases mem_escape h with ⟨hmem, -⟩ | hc | hc
    · exact hmem
    · exact absurd hc (by decide)
    · exact absurd hc (by decide)
  · intro h
    exact List.mem_flatMap.mpr ⟨'/', h, by decide⟩

/-- **The escaped path is an encoding of the path.** -/
theorem unescape_escapedPath (u : URL) : unescape u.escapedPath.toList = some u.path.toList := by
  unfold URL.escapedPath
  split
  · next hraw => exact hraw.2.2
  · split
    · next hstar =>
      rw [hstar]
      decide
    · rw [String.toList_ofList, unescape_escape]

/-- It is its own hint. -/
theorem escapedPath_hint (u : URL) : URL.escapedPath { u with rawPath := u.escapedPath } = u.escapedPath := by
  by_cases hempty : u.escapedPath = ""
  · -- only the empty path has an empty encoding
    have hpath := unescape_escapedPath u
    rw [hempty] at hpath
    have hnil : u.path.toList = [] := (Option.some.inj hpath).symm
    have hnone : u.path = "" := String.toList_injective hnil
    rw [hempty, URL.escapedPath, if_neg fun h => h.1 rfl]
    dsimp only
    rw [hnone]
    rfl
  · have hvalid : validEncoded u.escapedPath.toList = true := by
      unfold URL.escapedPath
      split
      · next hraw => exact hraw.2.1
      · split
        · decide
        · rw [String.toList_ofList, validEncoded_escape]
    rw [URL.escapedPath, if_pos ⟨hempty, hvalid, unescape_escapedPath u⟩]

/-! ## Segments

A path is its segments behind slashes. -/

/-- A segment as it is meant, if its encoding is right. -/
def decode (segment : String) : Option String := (unescape segment.toList).map String.ofList

/-- A path made of segments. -/
def renderPath (segments : List String) : String := "/" ++ join segments "/"

/-- The characters of a path. -/
theorem toList_renderPath (segments : List String) :
    (renderPath segments).toList = '/' :: ['/'].intercalate (segments.map String.toList) := by
  rw [renderPath, String.toList_append, join, String.toList_intercalate]
  rfl

/-- Segments and their encodings make a path and its encoding. -/
theorem unescape_renderPath {segments encoded : List String} (h : encoded.map decode = segments.map some) :
    unescape (renderPath encoded).toList = some (renderPath segments).toList := by
  have hslash : ∀ text : List Char, unescape ('/' :: text) = (unescape text).map ('/' :: ·) :=
    unescape_cons (by decide)
  -- the induction is on the encodings, with a slash after all but the last
  have hjoined : ∀ (encoded segments : List String), encoded.map decode = segments.map some →
      unescape (['/'].intercalate (encoded.map String.toList)) = some (['/'].intercalate (segments.map String.toList)) := by
    intro encoded
    induction encoded with
    | nil =>
      intro segments h
      rw [List.map_nil] at h
      rw [List.map_eq_nil_iff.mp h.symm]
      rfl
    | cons raw encoded ih =>
      intro segments h
      cases segments with
      | nil => cases h
      | cons segment segments =>
        obtain ⟨hraw, hrest⟩ := List.cons.inj h
        obtain ⟨text, htext, rfl⟩ := Option.map_eq_some_iff.mp hraw
        have htail := ih segments hrest
        cases encoded with
        | nil =>
          obtain rfl := List.map_eq_nil_iff.mp hrest.symm
          rw [List.map_singleton, List.map_singleton, List.intercalate_singleton, List.intercalate_singleton, htext,
            String.toList_ofList]
        | cons raw' encoded =>
          cases segments with
          | nil => cases hrest
          | cons segment' segments =>
            simp only [List.map_cons] at htail ⊢
            rw [List.intercalate_cons_cons, List.intercalate_cons_cons, List.append_assoc, unescape_append _ htext,
              List.singleton_append, hslash, htail, String.toList_ofList]
            simp
  rw [toList_renderPath, toList_renderPath, hslash, hjoined encoded segments h]
  rfl

/-- Escaping a path escapes its segments. -/
theorem escape_renderPath (segments : List String) : escape (renderPath segments).toList
    = (renderPath (segments.map fun segment => String.ofList (escape segment.toList))).toList := by
  have hslash : shouldEscape '/' = false := by decide
  have happend : ∀ a b : List Char, escape (a ++ b) = escape a ++ escape b := fun a b => List.flatMap_append
  have hjoined : ∀ parts : List (List Char),
      escape (['/'].intercalate parts) = ['/'].intercalate (parts.map escape) := by
    intro parts
    induction parts with
    | nil => rfl
    | cons part parts ih =>
      cases parts with
      | nil => rw [List.map_singleton, List.intercalate_singleton, List.intercalate_singleton]
      | cons part' parts =>
        simp only [List.map_cons] at ih ⊢
        rw [List.intercalate_cons_cons, List.intercalate_cons_cons, happend, happend, ih]
        rfl
  rw [toList_renderPath, toList_renderPath, escape_cons, hslash, if_neg Bool.false_ne_true, hjoined, List.map_map,
    List.map_map, List.singleton_append]
  congr 2
  refine List.map_congr_left fun segment _ => ?_
  exact (String.toList_ofList ..).symm

/-- A segment and the default encoding of it. -/
theorem decode_escape (segment : String) : decode (String.ofList (escape segment.toList)) = some segment := by
  rw [decode, String.toList_ofList, unescape_escape]
  exact congrArg some (String.ofList_toList ..)

/-- Two paths of one length have the same segments. -/
theorem renderPath_inj {segments segments' : List String} (hlength : segments.length = segments'.length)
    (hslash : ∀ segment ∈ segments, '/' ∉ segment.toList) (h : renderPath segments = renderPath segments') :
    segments = segments' := by
  have htexts := congrArg String.toList h
  rw [toList_renderPath, toList_renderPath] at htexts
  have hparts := Text.intercalate_inj (by rw [List.length_map, List.length_map, hlength]) (fun part hpart => by
    obtain ⟨segment, hsegment, rfl⟩ := List.mem_map.mp hpart
    exact hslash segment hsegment) (List.cons.inj htexts).2
  exact List.map_injective_iff.mpr (fun _ _ htext => String.toList_injective htext) hparts

/-- A segment of a path is not empty, and has no slash. -/
def IsSegment (segment : String) : Prop := segment ≠ "" ∧ '/' ∉ segment.toList

/-- Two paths have the same segments if these have no slashes. -/
theorem renderPath_inj_of_isSegment {segments segments' : List String}
    (hslash : ∀ segment ∈ segments, '/' ∉ segment.toList) (hsegments : ∀ segment ∈ segments', IsSegment segment)
    (hsome : segments' ≠ []) (h : renderPath segments = renderPath segments') : segments = segments' := by
  have htexts := congrArg String.toList h
  rw [toList_renderPath, toList_renderPath] at htexts
  have hparts := Text.intercalate_inj_of_ne_nil (fun part hpart => by
    obtain ⟨segment, hsegment, rfl⟩ := List.mem_map.mp hpart
    exact hslash segment hsegment) (fun part hpart => by
    obtain ⟨segment, hsegment, rfl⟩ := List.mem_map.mp hpart
    refine ⟨(hsegments segment hsegment).2, fun hempty => (hsegments segment hsegment).1 ?_⟩
    exact String.toList_injective hempty) (by rwa [ne_eq, List.map_eq_nil_iff]) (List.cons.inj htexts).2
  exact List.map_injective_iff.mpr (fun _ _ htext => String.toList_injective htext) hparts

/-! ## Splitting

`splitPath` drops the slashes at both ends, and cuts at the others. -/

/-- How a path is cut. -/
theorem splitPath_eq (path : String) : splitPath path =
    let trimmed := trimBoth (· == '/') path.toList
    if trimmed = [] then [] else (trimmed.splitOn '/').map String.ofList := by
  have hempty : ∀ text : List Char, String.ofList text = "" ↔ text = [] := by
    intro text
    constructor
    · intro h
      rw [← String.toList_ofList (l := text), h]
      rfl
    · rintro rfl
      rfl
  rw [splitPath]
  dsimp only
  simp only [hempty]
  split
  · rfl
  · rw [split, String.toList_ofList, Text.splitOn_eq]

/-- No segment has a slash. -/
theorem slash_not_mem_splitPath {path segment : String} (h : segment ∈ splitPath path) : '/' ∉ segment.toList := by
  rw [splitPath_eq] at h
  dsimp only at h
  split at h
  · exact absurd h List.not_mem_nil
  · obtain ⟨part, hpart, rfl⟩ := List.mem_map.mp h
    rw [String.toList_ofList]
    exact Text.not_mem_of_mem_splitOn hpart

/-- **A path splits into the segments that it is made of.** -/
theorem splitPath_renderPath {segments : List String} (h : ∀ segment ∈ segments, IsSegment segment) :
    splitPath (renderPath segments) = segments := by
  -- a segment is not empty and has no slash
  have hparts : ∀ part ∈ segments.map String.toList, '/' ∉ part ∧ part ≠ [] := by
    intro part hpart
    obtain ⟨segment, hsegment, rfl⟩ := List.mem_map.mp hpart
    refine ⟨(h segment hsegment).2, fun hempty => (h segment hsegment).1 ?_⟩
    exact String.toList_injective hempty
  have hreverse : ∀ part ∈ ((segments.map String.toList).map List.reverse).reverse, '/' ∉ part ∧ part ≠ [] := by
    intro part hpart
    obtain ⟨part', hpart', rfl⟩ := List.mem_map.mp (List.mem_reverse.mp hpart)
    rw [List.mem_reverse, ne_eq, List.reverse_eq_nil_iff]
    exact hparts part' hpart'
  -- only the slash at the front is trimmed
  have htrim : trimBoth (· == '/') (renderPath segments).toList = ['/'].intercalate (segments.map String.toList) := by
    rw [toList_renderPath, trimBoth, List.dropWhile_cons_of_pos (by decide), Text.dropWhile_intercalate hparts,
      Text.reverse_intercalate, Text.dropWhile_intercalate hreverse, ← Text.reverse_intercalate, List.reverse_reverse]
  rw [splitPath_eq, htrim]
  cases segments with
  | nil => rfl
  | cons segment segments =>
    have hsplit := List.splitOn_intercalate '/' (fun part hpart => (hparts part hpart).1)
      (List.cons_ne_nil segment.toList (segments.map String.toList))
    -- a first segment that is not empty leaves something to split
    have hsome : ['/'].intercalate ((segment :: segments).map String.toList) ≠ [] := by
      intro hnil
      rw [hnil, List.splitOn_nil] at hsplit
      have hfirst : segment.toList = [] := (List.cons.inj hsplit).1.symm
      exact (hparts segment.toList List.mem_cons_self).2 hfirst
    dsimp only
    rw [if_neg hsome, hsplit, List.map_map]
    exact List.map_id'' (fun segment => String.ofList_toList ..) _

end AcaSocial.Gateway
