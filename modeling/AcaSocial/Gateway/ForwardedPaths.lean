import AcaSocial.Gateway.EscapedPaths
import AcaSocial.Gateway.IdentityHeaders
import Mathlib.Data.List.Forall2

/-!
# The path at the backend

A route has a pattern for the paths that it takes and one for the paths of its backend, with the same wildcards.
`http.ServeMux` matches the escaped path, where `%2F` is a part of a segment. `rewritePath` works on the path as it is
meant, where it is a slash.

* **`PathPattern`** — literal segments and wildcards.
* **`ServeMuxMatch`** — a URL matches a pattern, with a value for each wildcard.
* **`ForwardedAs`** — an escaped path has certain segments, and no others.
* **`KeepsSegments`** — the path, split at its slashes, still matches: the literals are at their places, and so are the
  values that the backend pattern uses.

`forwardedAs_iff` says when the path on the wire is the backend pattern with the values filled in.
-/

namespace AcaSocial.Gateway

/-! ## Patterns

A pattern is a list of segments, and its text is that of the segments behind slashes. -/

/-- A segment of a pattern. -/
inductive PathSegment where
  | literal (text : String)
  | wildcard (name : String)
deriving DecidableEq

namespace PathSegment

/-- The segment as it is written. -/
def text : PathSegment → String
  | literal text => text
  | wildcard name => "\x7b" ++ name ++ "\x7d"

/-- The segment with the values of the wildcards filled in. -/
def value (s : String → String) : PathSegment → String
  | literal text => text
  | wildcard name => s name

/-- A literal is a segment that does not look like a wildcard. -/
def WellFormed : PathSegment → Prop
  | literal text => IsSegment text ∧ placeholder text = none
  | wildcard name => '/' ∉ name.toList

def name? : PathSegment → Option String
  | literal _ => none
  | wildcard name => some name

end PathSegment

structure PathPattern where
  segments : List PathSegment
  wellFormed : ∀ segment ∈ segments, segment.WellFormed

def PathPattern.text (p : PathPattern) : String := renderPath (p.segments.map PathSegment.text)

/-- The names of the wildcards. -/
def PathPattern.names (p : PathPattern) : List String := p.segments.filterMap PathSegment.name?

/-- The path with the values of the wildcards filled in, in segments. -/
def PathPattern.filled (p : PathPattern) (s : String → String) : List String := p.segments.map (PathSegment.value s)

/-- The names of a pattern are those of its wildcards. -/
theorem PathPattern.mem_names {p : PathPattern} {name : String} :
    name ∈ p.names ↔ PathSegment.wildcard name ∈ p.segments := by
  rw [PathPattern.names, List.mem_filterMap]
  constructor
  · rintro ⟨segment, hsegment, hname⟩
    cases segment with
    | literal text => cases hname
    | wildcard other =>
      obtain rfl := Option.some.inj hname
      exact hsegment
  · intro h
    exact ⟨_, h, rfl⟩

/-- The code reads a wildcard as such. -/
theorem placeholder_wildcard (name : String) : placeholder (PathSegment.wildcard name).text = some name := by
  have htext : (PathSegment.wildcard name).text.toList = '\x7b' :: (name.toList ++ ['\x7d']) := by
    rw [PathSegment.text, String.toList_append, String.toList_append]
    rfl
  have hstarts : hasPrefix (PathSegment.wildcard name).text "\x7b" = true := by
    rw [hasPrefix, htext]
    rfl
  have hends : ∀ segment : String, ['\x7d'] <:+ segment.toList → hasSuffix segment "\x7d" = true := by
    intro segment h
    exact List.isSuffixOf_iff_suffix.mpr h
  have htrimmed : (trimPrefix (PathSegment.wildcard name).text "\x7b").toList = name.toList ++ ['\x7d'] := by
    rw [trimPrefix, if_pos hstarts, String.toList_ofList, htext]
    rfl
  unfold placeholder
  rw [hstarts, hends _ (by rw [htext]; exact ⟨'\x7b' :: name.toList, rfl⟩), trimSuffix,
    hends _ (by rw [htrimmed]; exact ⟨name.toList, rfl⟩), if_pos rfl, htrimmed]
  simp

/-- The placeholder of a segment is read back from its text. -/
theorem placeholder_text {segment : PathSegment} (h : segment.WellFormed) : placeholder segment.text = segment.name? := by
  cases segment with
  | literal text => exact h.2
  | wildcard name => exact placeholder_wildcard name

/-- The text of a segment has no slash. -/
theorem isSegment_text {segment : PathSegment} (h : segment.WellFormed) : IsSegment segment.text := by
  cases segment with
  | literal text => exact h.1
  | wildcard name =>
    have htext : (PathSegment.wildcard name).text.toList = '\x7b' :: (name.toList ++ ['\x7d']) := by
      rw [PathSegment.text, String.toList_append, String.toList_append]
      rfl
    constructor
    · intro hempty
      rw [hempty] at htext
      cases htext
    · rw [htext]
      simp only [List.mem_cons, List.mem_append, List.not_mem_nil, or_false, not_or]
      exact ⟨by decide, h, by decide⟩

/-- Two segments with one text are the same. -/
theorem PathSegment.text_inj {a b : PathSegment} (ha : a.WellFormed) (hb : b.WellFormed) (h : a.text = b.text) : a = b := by
  have hname : a.name? = b.name? := by rw [← placeholder_text ha, ← placeholder_text hb, h]
  cases a with
  | literal text =>
    cases b with
    | literal text' => exact congrArg _ h
    | wildcard name' => cases hname
  | wildcard name =>
    cases b with
    | literal text' => cases hname
    | wildcard name' => exact congrArg _ (Option.some.inj hname)

/-- The text of a pattern is cut into the texts of its segments. -/
theorem PathPattern.splitPath_text (p : PathPattern) : splitPath p.text = p.segments.map PathSegment.text := by
  refine splitPath_renderPath fun text htext => ?_
  obtain ⟨segment, hsegment, rfl⟩ := List.mem_map.mp htext
  exact isSegment_text (p.wellFormed segment hsegment)

/-- A pattern is known by its text. -/
theorem PathPattern.segments_eq {p q : PathPattern} (h : p.text = q.text) : p.segments = q.segments := by
  have htexts : p.segments.map PathSegment.text = q.segments.map PathSegment.text := by
    rw [← p.splitPath_text, ← q.splitPath_text, h]
  have hinj : ∀ as bs : List PathSegment, (∀ a ∈ as, a.WellFormed) → (∀ b ∈ bs, b.WellFormed) →
      as.map PathSegment.text = bs.map PathSegment.text → as = bs := by
    intro as
    induction as with
    | nil =>
      intro bs _ _ hmap
      exact (List.map_eq_nil_iff.mp hmap.symm).symm
    | cons a as ih =>
      intro bs has hbs hmap
      cases bs with
      | nil => cases hmap
      | cons b bs =>
        obtain ⟨hhead, htail⟩ := List.cons.inj hmap
        rw [PathSegment.text_inj (has a List.mem_cons_self) (hbs b List.mem_cons_self) hhead,
          ih bs (fun x hx => has x (List.mem_cons_of_mem _ hx)) (fun x hx => hbs x (List.mem_cons_of_mem _ hx)) htail]
  exact hinj _ _ p.wellFormed q.wellFormed htexts

/-! ## What the rewriter binds

The rewriter cuts the two paths at slashes and binds the placeholders to the segments of the request. -/

/-- The segments of a path have the literals of the pattern at their places. -/
def Fits (segments : List PathSegment) (path : List String) : Prop :=
  List.Forall₂ (fun segment part => ∀ text, segment = .literal text → part = text) segments path

/-- The bindings give each wildcard the segment at its place. -/
def Binds (params : List (String × String)) (segments : List PathSegment) (path : List String) : Prop :=
  List.Forall₂ (fun segment part => ∀ name, segment = .wildcard name → params.reverse.lookup name = some part)
    segments path

/-- The value of a wildcard among the bindings, or the wildcard itself. -/
def bound (params : List (String × String)) (name : String) : String :=
  (params.reverse.lookup name).getD (PathSegment.wildcard name).text

/-- A segment is filled with the value that its name is bound to. -/
theorem fillSegment_text {segment : PathSegment} (h : segment.WellFormed) (params : List (String × String)) :
    fillSegment params segment.text = segment.value (bound params) := by
  unfold fillSegment
  rw [placeholder_text h]
  cases segment <;> rfl

/-- **The bindings of a path that fits.** The induction is on the pattern; a name that occurs once is bound by its own
segment. -/
theorem bindSegments_of_fits {segments : List PathSegment} {path : List String}
    (hwell : ∀ segment ∈ segments, segment.WellFormed) (hdistinct : (segments.filterMap PathSegment.name?).Nodup)
    (h : Fits segments path) : ∃ params, bindSegments (segments.map PathSegment.text) path = some params
      ∧ Binds params segments path
      ∧ ∀ name ∉ segments.filterMap PathSegment.name?, params.reverse.lookup name = none := by
  induction h with
  | nil => exact ⟨[], rfl, .nil, fun _ _ => rfl⟩
  | @cons segment part segments path hhead _ ih =>
    have hwell' : ∀ segment ∈ segments, segment.WellFormed := fun x hx => hwell x (List.mem_cons_of_mem _ hx)
    have hplaceholder := placeholder_text (hwell segment List.mem_cons_self)
    rw [List.map_cons, bindSegments, hplaceholder]
    cases segment with
    | literal text =>
      obtain ⟨params, hparams, hbinds, hnone⟩ := ih hwell' hdistinct
      have hsame : ¬ (PathSegment.literal text).text ≠ part := not_not.mpr (hhead text rfl).symm
      refine ⟨params, ?_, .cons (fun name hname => PathSegment.noConfusion hname) hbinds, hnone⟩
      show (if _ then none else bindSegments _ _) = _
      rw [if_neg hsame, hparams]
    | wildcard name =>
      obtain ⟨hnew, hdistinct'⟩ := List.nodup_cons.mp (show (name :: segments.filterMap PathSegment.name?).Nodup from hdistinct)
      obtain ⟨params, hparams, hbinds, hnone⟩ := ih hwell' hdistinct'
      -- the later binding of a name wins, and there is none
      have hlookup : ∀ other, ((name, part) :: params).reverse.lookup other
          = (params.reverse.lookup other).or ([(name, part)].lookup other) := by
        intro other
        rw [List.reverse_cons, List.lookup_append]
      refine ⟨(name, part) :: params, ?_, .cons (fun other hother => ?_) (hbinds.imp fun segment part' hbound other hother => ?_),
        fun other hother => ?_⟩
      · show (bindSegments _ _).map _ = _
        rw [hparams]
        rfl
      · obtain rfl := PathSegment.wildcard.inj hother
        rw [hlookup, hnone _ hnew, List.lookup_cons_self]
        rfl
      · rw [hlookup, hbound other hother]
        rfl
      · obtain ⟨hne, hother'⟩ := not_or.mp (mt List.mem_cons.mpr hother)
        rw [hlookup, hnone other hother', List.lookup_cons, beq_eq_false_iff_ne.mpr hne]
        rfl

/-- A path of the right length that does not fit binds nothing. -/
theorem bindSegments_of_not_fits {segments : List PathSegment} {path : List String}
    (hwell : ∀ segment ∈ segments, segment.WellFormed) (hlength : path.length = segments.length)
    (h : ¬ Fits segments path) : bindSegments (segments.map PathSegment.text) path = none := by
  induction segments generalizing path with
  | nil =>
    rw [List.eq_nil_of_length_eq_zero hlength] at h
    exact absurd .nil h
  | cons segment segments ih =>
    cases path with
    | nil => cases hlength
    | cons part path =>
      have hwell' : ∀ segment ∈ segments, segment.WellFormed := fun x hx => hwell x (List.mem_cons_of_mem _ hx)
      have hplaceholder := placeholder_text (hwell segment List.mem_cons_self)
      have hrest : ¬ Fits segments path → bindSegments (segments.map PathSegment.text) path = none :=
        ih hwell' (Nat.succ.inj hlength)
      rw [List.map_cons, bindSegments, hplaceholder]
      cases segment with
      -- a literal that differs ends the binding; one that agrees leaves it to the rest
      | literal text =>
        show (if text ≠ part then none else bindSegments _ _) = _
        by_cases hsame : text = part
        · rw [if_neg (not_not.mpr hsame)]
          apply hrest
          intro hfits
          exact h (.cons (fun other hother => by rw [← PathSegment.literal.inj hother, hsame]) hfits)
        · exact if_pos hsame
      -- a wildcard takes any segment, so the rest does not fit
      | wildcard name =>
        show (bindSegments _ _).map _ = _
        rw [hrest fun hfits => h (.cons (fun other hother => PathSegment.noConfusion hother) hfits)]
        rfl

variable {endpoint backend : PathPattern} {path : String} {s : String → String}

/-- **What the rewriter makes of a path that fits.** -/
theorem rewritePath_of_fits (hdistinct : endpoint.names.Nodup) (hne : backend.text ≠ endpoint.text)
    (h : Fits endpoint.segments (splitPath path)) : ∃ params, Binds params endpoint.segments (splitPath path)
      ∧ rewritePath path endpoint.text backend.text = renderPath (backend.filled (bound params)) := by
  obtain ⟨params, hparams, hbinds, -⟩ := bindSegments_of_fits endpoint.wellFormed hdistinct h
  have hnonempty : backend.text ≠ "" := by
    intro hempty
    have hlist := toList_renderPath (backend.segments.map PathSegment.text)
    rw [← PathPattern.text, hempty] at hlist
    cases hlist
  have hfill : (splitPath backend.text).map (fillSegment params) = backend.filled (bound params) := by
    rw [backend.splitPath_text, List.map_map]
    exact List.map_congr_left fun segment hsegment => fillSegment_text (backend.wellFormed segment hsegment) params
  refine ⟨params, hbinds, ?_⟩
  unfold rewritePath
  rw [if_neg (not_or.mpr ⟨hnonempty, hne⟩)]
  dsimp only
  rw [if_neg (not_not.mpr ?_), endpoint.splitPath_text, hparams]
  · show "/" ++ join ((splitPath backend.text).map (fillSegment params)) "/" = _
    rw [hfill]
    rfl
  · rw [endpoint.splitPath_text, List.length_map, h.length_eq]

/-- **What it makes of any other path**: the text of the backend pattern. -/
theorem rewritePath_of_not_fits (hne : backend.text ≠ endpoint.text) (h : ¬ Fits endpoint.segments (splitPath path)) :
    rewritePath path endpoint.text backend.text = backend.text := by
  unfold rewritePath
  by_cases hnonempty : backend.text = ""
  · rw [if_pos (.inl hnonempty)]
    have hlist := toList_renderPath (backend.segments.map PathSegment.text)
    rw [← PathPattern.text, hnonempty] at hlist
    cases hlist
  rw [if_neg (not_or.mpr ⟨hnonempty, hne⟩)]
  dsimp only
  rw [endpoint.splitPath_text, List.length_map]
  by_cases hlength : (splitPath path).length = endpoint.segments.length
  · rw [if_neg (not_not.mpr hlength), bindSegments_of_not_fits endpoint.wellFormed hlength h]
  · rw [if_pos hlength]

/-! ## Matching and forwarding

The mux binds wildcards to raw segments. What is forwarded is right when the rewriter binds them to the same values.
-/

/-- `http.ServeMux` matches the escaped path with the pattern, one segment for each segment. `raws` are the segments of
the request, and `s` has the values of the wildcards. A pattern with two wildcards of one name is not registered. -/
structure ServeMuxMatch (endpoint : PathPattern) (u : URL) (raws : List String) (s : String → String) : Prop where
  distinct : endpoint.names.Nodup
  escaped : u.escapedPath = renderPath raws
  segments : ∀ raw ∈ raws, IsSegment raw
  values : raws.map decode = (endpoint.filled s).map some

/-- The escaped path has these segments and no others. -/
def ForwardedAs (escaped : String) (segments : List String) : Prop :=
  ∃ raws, escaped = renderPath raws ∧ (∀ raw ∈ raws, '/' ∉ raw.toList) ∧ raws.map decode = segments.map some

/-- The path, split at its slashes, has the literals of the endpoint pattern at their places, and the values that the
backend pattern uses. -/
def KeepsSegments (endpoint backend : PathPattern) (path : String) (s : String → String) : Prop :=
  List.Forall₂ (fun segment part => match segment with
    | .literal text => part = text
    | .wildcard name => name ∈ backend.names → part = s name) endpoint.segments (splitPath path)

/-- When the path reaches the backend as the backend pattern says. Where the split path does not fit the endpoint
pattern, the backend pattern itself is sent, which is right if filling it in changes nothing. -/
def ArrivesRight (endpoint backend : PathPattern) (path : String) (s : String → String) : Prop :=
  backend.text = endpoint.text ∨ KeepsSegments endpoint backend path s
    ∨ (¬ Fits endpoint.segments (splitPath path) ∧ backend.filled s = backend.segments.map PathSegment.text
      ∧ backend.text ≠ path)

variable {u : URL} {raws : List String}

/-- A value that is decoded from some characters has some. -/
theorem decode_ne_empty {raw value : String} (hraw : raw ≠ "") (h : decode raw = some value) : value ≠ "" := by
  rintro rfl
  obtain ⟨text, htext, hvalue⟩ := Option.map_eq_some_iff.mp h
  have hnil : text = [] := by rw [← String.toList_ofList (l := text), hvalue]; rfl
  have hempty : raw.toList = [] := by
    generalize raw.toList = chars at htext
    subst hnil
    unfold unescape at htext
    split at htext
    · rfl
    · split at htext
      · obtain ⟨_, _, hcons⟩ := Option.map_eq_some_iff.mp htext
        cases hcons
      · cases htext
    · cases htext
    · obtain ⟨_, _, hcons⟩ := Option.map_eq_some_iff.mp htext
      cases hcons
  exact hraw (String.toList_injective hempty)

/-- The path of a matched request is made of the values. -/
theorem ServeMuxMatch.path_eq (h : ServeMuxMatch endpoint u raws s) : u.path = renderPath (endpoint.filled s) := by
  have hpath := unescape_escapedPath u
  rw [h.escaped, unescape_renderPath h.values] at hpath
  exact String.toList_injective (Option.some.inj hpath).symm

/-- No value is empty. -/
theorem ServeMuxMatch.filled_ne (h : ServeMuxMatch endpoint u raws s) : ∀ part ∈ endpoint.filled s, part ≠ "" := by
  intro part hpart
  have hmem : some part ∈ raws.map decode := by
    rw [h.values]
    exact List.mem_map_of_mem hpart
  obtain ⟨raw, hraw, hdecode⟩ := List.mem_map.mp hmem
  exact decode_ne_empty (h.segments raw hraw).1 hdecode

/-- The escaped segments are the only ones that the request can be read as. -/
theorem ServeMuxMatch.eq_of_forwardedAs {segments : List String} (h : ServeMuxMatch endpoint u raws s)
    (hsome : endpoint.segments ≠ []) (hforwarded : ForwardedAs u.escapedPath segments) : segments = endpoint.filled s := by
  obtain ⟨raws', hescaped, hslash, hvalues⟩ := hforwarded
  have hne : raws ≠ [] := by
    intro hnil
    have hlength := congrArg List.length h.values
    rw [hnil, List.map_nil, PathPattern.filled, List.map_map, List.length_map] at hlength
    exact hsome (List.eq_nil_of_length_eq_zero hlength.symm)
  have hraws : raws' = raws := renderPath_inj_of_isSegment hslash h.segments hne (by rw [← hescaped, h.escaped])
  have hsame : segments.map some = (endpoint.filled s).map some := by rw [← hvalues, hraws, h.values]
  exact List.map_injective_iff.mpr (fun _ _ => Option.some.inj) hsame

/-- What the mux has matched is what should be forwarded. -/
theorem ServeMuxMatch.forwardedAs (h : ServeMuxMatch endpoint u raws s) : ForwardedAs u.escapedPath (endpoint.filled s) :=
  ⟨raws, h.escaped, fun raw hraw => (h.segments raw hraw).2, h.values⟩

/-- The default encoding of a path has the segments of the path. -/
theorem forwardedAs_escape {segments : List String} (hslash : ∀ segment ∈ segments, '/' ∉ segment.toList) :
    ForwardedAs (String.ofList (escape (renderPath segments).toList)) segments := by
  refine ⟨segments.map fun segment => String.ofList (escape segment.toList), ?_, fun raw hraw => ?_, ?_⟩
  · rw [escape_renderPath, String.ofList_toList]
  · obtain ⟨segment, hsegment, rfl⟩ := List.mem_map.mp hraw
    rw [String.toList_ofList, slash_mem_escape]
    exact hslash segment hsegment
  · rw [List.map_map]
    refine List.map_congr_left fun segment _ => ?_
    rw [Function.comp_apply, decode_escape]

/-- A path with certain segments is made of them. -/
theorem ForwardedAs.path_eq {escaped : String} {path : String} {segments : List String}
    (h : ForwardedAs escaped segments) (hpath : unescape escaped.toList = some path.toList) : path = renderPath segments := by
  obtain ⟨raws, rfl, -, hvalues⟩ := h
  rw [unescape_renderPath hvalues] at hpath
  exact String.toList_injective (Option.some.inj hpath).symm

/-- No segment has a slash. -/
theorem PathPattern.slash_not_mem_text (p : PathPattern) :
    ∀ text ∈ p.segments.map PathSegment.text, '/' ∉ text.toList := by
  intro text htext
  obtain ⟨segment, hsegment, rfl⟩ := List.mem_map.mp htext
  exact (isSegment_text (p.wellFormed segment hsegment)).2

/-- What is filled in has no slash, if no value that is used has one. -/
theorem PathPattern.slash_not_mem_filled {p : PathPattern} {given : String → String}
    (h : ∀ name ∈ p.names, '/' ∉ (given name).toList) : ∀ part ∈ p.filled given, '/' ∉ part.toList := by
  intro part hpart
  obtain ⟨segment, hsegment, rfl⟩ := List.mem_map.mp hpart
  cases segment with
  | literal text => exact (p.wellFormed _ hsegment).1.2
  | wildcard name => exact h name (PathPattern.mem_names.mpr hsegment)

/-- A wildcard of the pattern is bound by a segment of the path. -/
theorem Binds.bound_mem {params : List (String × String)} {segments : List PathSegment} {parts : List String}
    (h : Binds params segments parts) {name : String} (hname : PathSegment.wildcard name ∈ segments) :
    bound params name ∈ parts := by
  induction h with
  | nil => exact absurd hname List.not_mem_nil
  | cons hhead _ ih =>
    rcases List.mem_cons.mp hname with hfirst | hrest
    · rw [bound, hhead name hfirst.symm]
      exact List.mem_cons_self
    · exact List.mem_cons_of_mem _ (ih hrest)

/-- Two relations between the elements of two lists hold together. -/
theorem forall₂_and {α β : Type} {R S : α → β → Prop} {as : List α} {bs : List β} (hR : List.Forall₂ R as bs)
    (hS : List.Forall₂ S as bs) : List.Forall₂ (fun a b => R a b ∧ S a b) as bs := by
  induction hR with
  | nil => exact .nil
  | cons hhead _ ih =>
    cases hS with
    | cons hhead' htail => exact .cons ⟨hhead, hhead'⟩ (ih htail)

/-- A path that fits keeps its segments when the bindings that are used are the values. -/
theorem keepsSegments_iff {params : List (String × String)} (hwildcards : ∀ name ∈ backend.names, name ∈ endpoint.names)
    (hfits : Fits endpoint.segments (splitPath path)) (hbinds : Binds params endpoint.segments (splitPath path)) :
    KeepsSegments endpoint backend path s ↔ backend.filled (bound params) = backend.filled s := by
  rw [PathPattern.filled, PathPattern.filled, List.map_inj_left]
  constructor
  · intro hkeeps segment hsegment
    cases segment with
    | literal text => rfl
    | wildcard name =>
      have hused := PathPattern.mem_names.mpr hsegment
      have hmem := PathPattern.mem_names.mp (hwildcards name hused)
      -- the segment of the endpoint pattern that has the name
      have hvalue : ∀ (segments : List PathSegment) (parts : List String), Binds params segments parts →
          List.Forall₂ (fun segment part => match segment with
            | .literal text => part = text
            | .wildcard name => name ∈ backend.names → part = s name) segments parts →
          PathSegment.wildcard name ∈ segments → bound params name = s name := by
        intro segments parts hbinds hkeeps hmem
        induction hbinds with
        | nil => exact absurd hmem List.not_mem_nil
        | cons hhead _ ih =>
          cases hkeeps with
          | cons hkept hkeeps =>
            rcases List.mem_cons.mp hmem with hfirst | hrest
            · subst hfirst
              rw [bound, hhead name rfl]
              exact hkept hused
            · exact ih hkeeps hrest
      exact hvalue _ _ hbinds hkeeps hmem
  · intro hvalues
    refine (forall₂_and hfits hbinds).imp fun segment part hboth => ?_
    obtain ⟨hliteral, hbound⟩ := hboth
    cases segment with
    | literal text => exact hliteral text rfl
    | wildcard name =>
      intro hused
      have hsame := hvalues _ (PathPattern.mem_names.mp hused)
      have hpart : bound params name = part := by rw [bound, hbound name rfl]; rfl
      rw [← hpart]
      exact hsame

/-- The values as segments of the path fit the pattern. -/
theorem fits_filled (endpoint : PathPattern) (s : String → String) : Fits endpoint.segments (endpoint.filled s) := by
  have hall : ∀ segments : List PathSegment, Fits segments (segments.map (PathSegment.value s)) := by
    intro segments
    induction segments with
    | nil => exact .nil
    | cons segment segments ih =>
      refine .cons (fun text htext => ?_) ih
      rw [htext]
      rfl
  exact hall endpoint.segments

/-- The URL after the director has joined it with a backend that is a host, and rewritten its path. -/
def rewritten (u : URL) (path : String) : URL := ⟨"", "", path, if u.rawPath = "" then "" else u.escapedPath, ""⟩

/-- A path that is not changed keeps its encoding, and any other gets the default one. -/
theorem escapedPath_rewritten (u : URL) (path : String) (hstar : path ≠ "*") : (rewritten u path).escapedPath
    = if path = u.path then u.escapedPath else String.ofList (escape path.toList) := by
  by_cases hsame : path = u.path
  · subst hsame
    rw [if_pos rfl]
    by_cases hraw : u.rawPath = ""
    · unfold rewritten URL.escapedPath
      simp only [hraw, if_pos]
    · rw [rewritten, if_neg hraw]
      exact escapedPath_hint u
  · rw [if_neg hsame]
    have hhint : ¬ ((rewritten u path).rawPath ≠ "" ∧ validEncoded (rewritten u path).rawPath.toList = true
        ∧ unescape (rewritten u path).rawPath.toList = some path.toList) := by
      rintro ⟨hsome, -, hpath⟩
      unfold rewritten at hsome hpath
      dsimp only at hsome hpath
      split at hsome
      · exact hsome rfl
      · next hraw =>
        rw [if_neg hraw, unescape_escapedPath u] at hpath
        exact hsame (String.toList_injective (Option.some.inj hpath).symm)
    unfold URL.escapedPath
    exact (if_neg hhint).trans (if_neg hstar)

/-- **The path at the backend** is right exactly under the condition. -/
theorem forwardedAs_rewritten_iff (hmatch : ServeMuxMatch endpoint u raws s)
    (hwildcards : ∀ name ∈ backend.names, name ∈ endpoint.names) :
    ForwardedAs (rewritten u (rewritePath u.path endpoint.text backend.text)).escapedPath (backend.filled s)
      ↔ ArrivesRight endpoint backend u.path s := by
  have hslash : ∀ segments : List String, renderPath segments ≠ "*" := by
    intro segments hstar
    have hlist := toList_renderPath segments
    rw [hstar] at hlist
    exact absurd (List.cons.inj hlist).1 (by decide)
  have hlength : ∀ given given' : String → String, (backend.filled given).length = (backend.filled given').length := by
    intro given given'
    rw [PathPattern.filled, PathPattern.filled, List.length_map, List.length_map]
  by_cases hsame : backend.text = endpoint.text
  · -- the path is sent as it is
    refine iff_of_true ?_ (.inl hsame)
    have hpath : rewritePath u.path endpoint.text backend.text = u.path := if_pos (.inr hsame)
    have hfilled : backend.filled s = endpoint.filled s := by
      rw [PathPattern.filled, PathPattern.segments_eq hsame]
      rfl
    rw [hpath, escapedPath_rewritten _ _ (hmatch.path_eq ▸ hslash _), if_pos rfl, hfilled]
    exact hmatch.forwardedAs
  by_cases hfits : Fits endpoint.segments (splitPath u.path)
  · obtain ⟨params, hbinds, hpath⟩ := @rewritePath_of_fits endpoint backend u.path hmatch.distinct hsame hfits
    have hcondition : ArrivesRight endpoint backend u.path s ↔ backend.filled (bound params) = backend.filled s := by
      rw [← keepsSegments_iff hwildcards hfits hbinds]
      constructor
      · rintro (hcase | hcase | ⟨hcase, -⟩)
        · exact absurd hcase hsame
        · exact hcase
        · exact absurd hfits hcase
      · exact fun hkeeps => .inr (.inl hkeeps)
    have hused : ∀ part ∈ backend.filled (bound params), '/' ∉ part.toList := by
      refine PathPattern.slash_not_mem_filled fun name hname => ?_
      exact slash_not_mem_splitPath (hbinds.bound_mem (PathPattern.mem_names.mp (hwildcards name hname)))
    rw [hcondition, hpath, escapedPath_rewritten _ _ (hslash _)]
    constructor
    · intro hforwarded
      have hencodes : unescape (rewritten u (renderPath (backend.filled (bound params)))).escapedPath.toList
          = some (renderPath (backend.filled (bound params))).toList := unescape_escapedPath _
      rw [escapedPath_rewritten _ _ (hslash _)] at hencodes
      exact renderPath_inj (hlength _ _) hused (hforwarded.path_eq hencodes)
    · intro hvalues
      rw [hvalues] at hused ⊢
      by_cases hunchanged : renderPath (backend.filled s) = u.path
      · -- the segments of the path are as many as those of the endpoint pattern, and so the segments of the request
        have hsegments : ∀ part ∈ backend.filled s, IsSegment part := by
          intro part hpart
          refine ⟨?_, hused part hpart⟩
          obtain ⟨segment, hsegment, rfl⟩ := List.mem_map.mp hpart
          cases segment with
          | literal text => exact (backend.wellFormed _ hsegment).1.1
          | wildcard name =>
            have hmem := PathPattern.mem_names.mp (hwildcards name (PathPattern.mem_names.mpr hsegment))
            exact hmatch.filled_ne _ (List.mem_map_of_mem (f := PathSegment.value s) hmem)
        have hsplit : splitPath u.path = backend.filled s := by rw [← hunchanged, splitPath_renderPath hsegments]
        have hcount : (backend.filled s).length = (endpoint.filled s).length := by
          rw [← hsplit, PathPattern.filled, List.length_map, hfits.length_eq]
        have hfilled : backend.filled s = endpoint.filled s :=
          renderPath_inj hcount hused (hunchanged.trans hmatch.path_eq)
        rw [if_pos hunchanged, hfilled]
        exact hmatch.forwardedAs
      · rw [if_neg hunchanged]
        exact forwardedAs_escape hused
  · have hpath := rewritePath_of_not_fits hsame hfits
    have hcondition : ArrivesRight endpoint backend u.path s
        ↔ backend.filled s = backend.segments.map PathSegment.text ∧ backend.text ≠ u.path := by
      constructor
      · rintro (hcase | hcase | ⟨-, hcase⟩)
        · exact absurd hcase hsame
        · refine absurd (hcase.imp fun segment part hkept text htext => ?_) hfits
          subst htext
          exact hkept
        · exact hcase
      · exact fun hcase => .inr (.inr ⟨hfits, hcase⟩)
    rw [hcondition, hpath, escapedPath_rewritten u backend.text (hslash _)]
    constructor
    · intro hforwarded
      have hencodes : unescape (rewritten u backend.text).escapedPath.toList = some backend.text.toList :=
        unescape_escapedPath _
      rw [escapedPath_rewritten u backend.text (hslash _)] at hencodes
      have htexts : backend.segments.map PathSegment.text = backend.filled s := by
        refine renderPath_inj ?_ backend.slash_not_mem_text (hforwarded.path_eq hencodes)
        rw [PathPattern.filled, List.length_map, List.length_map]
      refine ⟨htexts.symm, fun hunchanged => ?_⟩
      -- the path would be the text of the backend pattern, which splits into the values
      rw [if_pos hunchanged] at hforwarded
      by_cases hnone : endpoint.segments = []
      · have hsplit : splitPath u.path = [] := by
          rw [hmatch.path_eq, PathPattern.filled, hnone]
          exact splitPath_renderPath fun _ h => absurd h List.not_mem_nil
        rw [hnone, hsplit] at hfits
        exact hfits .nil
      · have hfilled := hmatch.eq_of_forwardedAs hnone hforwarded
        have hsplit : splitPath u.path = endpoint.filled s := by
          rw [← hunchanged, backend.splitPath_text, htexts, hfilled]
        rw [hsplit] at hfits
        exact hfits (fits_filled endpoint s)
    · rintro ⟨hfilled, hchanged⟩
      rw [if_neg hchanged, hfilled]
      exact forwardedAs_escape backend.slash_not_mem_text

/-- A request whose values have no slash keeps its segments. -/
theorem keepsSegments_of_slash (hmatch : ServeMuxMatch endpoint u raws s)
    (hslash : ∀ name ∈ endpoint.names, '/' ∉ (s name).toList) : KeepsSegments endpoint backend u.path s := by
  have hsplit : splitPath u.path = endpoint.filled s := by
    rw [hmatch.path_eq]
    refine splitPath_renderPath fun part hpart => ⟨hmatch.filled_ne part hpart, ?_⟩
    exact PathPattern.slash_not_mem_filled hslash part hpart
  have hall : ∀ segments : List PathSegment, List.Forall₂ (fun segment part => match segment with
      | .literal text => part = text
      | .wildcard name => name ∈ backend.names → part = s name) segments (segments.map (PathSegment.value s)) := by
    intro segments
    induction segments with
    | nil => exact .nil
    | cons segment segments ih =>
      refine .cons ?_ ih
      cases segment with
      | literal text => rfl
      | wildcard name => exact fun _ => rfl
  rw [KeepsSegments, hsplit]
  exact hall endpoint.segments

/-! ## The director

The director joins the path of the backend and the rewritten one, escaped again. -/

variable {env : Env} {p : ReverseProxy} {r o : Request} {target : BackendTarget} {targetURL : URL} {timeoutSec : Int}

/-- The URL of a backend is a host, with no path of its own. -/
def URL.IsHost (u : URL) : Prop := u.rawPath = "" ∧ (u.path = "" ∨ u.path = "/")

/-- A path begins with a slash. -/
theorem hasPrefix_renderPath (segments : List String) : hasPrefix (renderPath segments) "/" = true := by
  rw [hasPrefix, toList_renderPath]
  rfl

/-- The path of a host goes before no path. -/
theorem joinURLPath_host (hlib : env.escapedPath = URL.escapedPath) (hhost : targetURL.IsHost)
    (hmatch : ServeMuxMatch endpoint u raws s) :
    joinURLPath env targetURL u = (u.path, if u.rawPath = "" then "" else u.escapedPath) := by
  have hpath : hasPrefix u.path "/" = true := hmatch.path_eq ▸ hasPrefix_renderPath _
  have hescaped : hasPrefix u.escapedPath "/" = true := hmatch.escaped ▸ hasPrefix_renderPath _
  have hdrop : "/" ++ String.ofList u.path.toList.tail = u.path := by
    have htrim : trimPrefix u.path "/" = String.ofList (u.path.toList.drop 1) := if_pos hpath
    rw [← List.drop_one, ← htrim, append_trimPrefix hpath]
  obtain ⟨hraw, hbare | hslash⟩ := hhost
  -- a host without a path
  · have htarget : targetURL.escapedPath = "" := by
      unfold URL.escapedPath
      rw [hraw, hbare]
      rfl
    have hends : hasSuffix "" "/" = false := by decide
    unfold joinURLPath singleJoiningSlash
    rw [hlib]
    dsimp only
    rw [hraw, hbare, htarget, hpath, hescaped, hends]
    by_cases hnone : u.rawPath = "" <;> simp [hnone]
  -- a host with a slash behind it, of which one is dropped
  · have htarget : targetURL.escapedPath = "/" := by
      unfold URL.escapedPath
      rw [hraw, hslash]
      decide
    have hends : hasSuffix "/" "/" = true := by decide
    unfold joinURLPath singleJoiningSlash
    rw [hlib]
    dsimp only
    rw [hraw, hslash, htarget, hpath, hescaped, hends]
    by_cases hnone : u.rawPath = ""
    · simp [hnone, append_trimPrefix hpath]
    · simp [hnone, append_trimPrefix hescaped, hdrop]

/-- The escaped path of what a proxy sends. -/
theorem escapedPath_outgoing (hlib : env.escapedPath = URL.escapedPath) (hurl : env.parseURL target.host = some targetURL)
    (hhost : targetURL.IsHost)
    (hpattern : (if target.urlPattern = "" then endpoint.text else target.urlPattern) = backend.text)
    (hp : newProxy env endpoint.text timeoutSec target = .ok p) (ho : p.outgoing env r = some o)
    (hmatch : ServeMuxMatch endpoint r.url raws s) : env.escapedPath o.url
      = (rewritten r.url (rewritePath r.url.path endpoint.text backend.text)).escapedPath := by
  have hdirector : p.director = director env targetURL endpoint.text backend.text := by
    unfold newProxy at hp
    rw [hurl] at hp
    dsimp only at hp
    rw [hpattern] at hp
    rw [← Except.ok.inj hp]
  -- the library changes headers after the director, and no URL
  have hout : o.url = (director env targetURL endpoint.text backend.text r).url := by
    unfold ReverseProxy.outgoing at ho
    dsimp only at ho
    split at ho
    · rw [← Option.some.inj ho, hdirector]
      rfl
    · cases ho
  have hpaths : ∀ a b : URL, a.path = b.path → a.rawPath = b.rawPath → a.escapedPath = b.escapedPath := by
    intro a b hpath hraw
    unfold URL.escapedPath
    rw [hpath, hraw]
  have hjoined := joinURLPath_host hlib hhost hmatch
  -- the director sets both paths
  have hsent : (director env targetURL endpoint.text backend.text r).url.path
      = rewritePath r.url.path endpoint.text backend.text
      ∧ (director env targetURL endpoint.text backend.text r).url.rawPath
        = (rewritten r.url (rewritePath r.url.path endpoint.text backend.text)).escapedPath := by
    unfold director rewriteRequestURL
    dsimp only
    rw [hjoined, hlib]
    dsimp only
    constructor
    · split <;> rfl
    · split <;> exact hpaths _ _ rfl rfl
  rw [hlib, hout]
  exact (hpaths _ _ hsent.1 hsent.2).trans (escapedPath_hint _)

/-- **The gateway forwards to the right path** exactly when the path, split at its slashes, still has the segments that
were matched, or the backend pattern does not depend on it; and so whenever no value has a slash. -/
theorem forwarded_right_iff (hlib : env.escapedPath = URL.escapedPath)
    (hurl : env.parseURL target.host = some targetURL) (hhost : targetURL.IsHost)
    (hpattern : (if target.urlPattern = "" then endpoint.text else target.urlPattern) = backend.text)
    (hwildcards : ∀ name ∈ backend.names, name ∈ endpoint.names)
    (hp : newProxy env endpoint.text timeoutSec target = .ok p) (ho : p.outgoing env r = some o)
    (hmatch : ServeMuxMatch endpoint r.url raws s) :
    (ForwardedAs (env.escapedPath o.url) (backend.filled s) ↔ ArrivesRight endpoint backend r.url.path s)
      ∧ ((∀ name ∈ endpoint.names, '/' ∉ (s name).toList) → ArrivesRight endpoint backend r.url.path s) := by
  constructor
  · rw [escapedPath_outgoing hlib hurl hhost hpattern hp ho hmatch]
    exact forwardedAs_rewritten_iff hmatch hwildcards
  · exact fun hslash => .inr (.inl (keepsSegments_of_slash hmatch hslash))

namespace Sample

/-- `/api/media/{id}`, and the path of the media service for it. -/
def mediaEndpoint : PathPattern where
  segments := [.literal "api", .literal "media", .wildcard "id"]
  wellFormed := by
    intro segment hsegment
    simp only [List.mem_cons, List.not_mem_nil, or_false] at hsegment
    rcases hsegment with rfl | rfl | rfl
    · exact ⟨⟨by decide, by decide⟩, by decide⟩
    · exact ⟨⟨by decide, by decide⟩, by decide⟩
    · show '/' ∉ "id".toList
      decide

def mediaBackend : PathPattern where
  segments := [.literal "media", .wildcard "id"]
  wellFormed := fun segment hsegment =>
    mediaEndpoint.wellFormed segment (List.mem_cons_of_mem _ hsegment)

/-- A gateway with the paths of `net/url`. -/
def pathGateway : Env :=
  { gateway with
    escapedPath := URL.escapedPath
    parseURL := fun _ => some ⟨"http", "media:8082", "", "", ""⟩ }

def mediaTarget : BackendTarget := ⟨"http://media:8082", "/media/{id}"⟩

def mediaProxy : ReverseProxy where
  director := director pathGateway ⟨"http", "media:8082", "", "", ""⟩ "/api/media/{id}" "/media/{id}"
  backend := ⟨"http", "media:8082", "", "", ""⟩
  timeoutSec := 15

/-- A request for a file, with the path in both forms. -/
def getMedia (path rawPath : String) : Request :=
  { listDiscussions .empty 0 with url := ⟨"", "", path, rawPath, ""⟩ }

end Sample

/-- A plain id arrives as it is. -/
theorem forwarded_right_iff_plain : ∃ o, Sample.mediaProxy.outgoing Sample.pathGateway (Sample.getMedia "/api/media/7" "") = some o
    ∧ ForwardedAs (Sample.pathGateway.escapedPath o.url) ["media", "7"] := by
  obtain ⟨o, ho⟩ := Option.isSome_iff_exists.mp (show (Sample.mediaProxy.outgoing Sample.pathGateway
    (Sample.getMedia "/api/media/7" "")).isSome = true by decide +kernel)
  have hmatch : ServeMuxMatch Sample.mediaEndpoint (Sample.getMedia "/api/media/7" "").url ["api", "media", "7"]
      (fun _ => "7") :=
    ⟨by decide +kernel, by decide +kernel, by unfold IsSegment; decide +kernel, by decide +kernel⟩
  have hright := @forwarded_right_iff Sample.mediaEndpoint Sample.mediaBackend (fun _ => "7") ["api", "media", "7"]
    Sample.pathGateway Sample.mediaProxy (Sample.getMedia "/api/media/7" "") o Sample.mediaTarget
    ⟨"http", "media:8082", "", "", ""⟩ 15 rfl rfl ⟨rfl, .inl rfl⟩ (by decide +kernel) (by decide +kernel) (by rfl) ho hmatch
  exact ⟨o, ho, hright.1.mpr (hright.2 (by decide +kernel))⟩

/-- An id with an encoded slash: the backend gets the text of its pattern. -/
theorem not_forwardedAs_slash :
    ServeMuxMatch Sample.mediaEndpoint (Sample.getMedia "/api/media/a/b" "/api/media/a%2Fb").url
        ["api", "media", "a%2Fb"] (fun _ => "a/b")
      ∧ ∃ o, Sample.mediaProxy.outgoing Sample.pathGateway (Sample.getMedia "/api/media/a/b" "/api/media/a%2Fb") = some o
        ∧ Sample.pathGateway.escapedPath o.url = "/media/%7Bid%7D"
        ∧ ¬ ForwardedAs (Sample.pathGateway.escapedPath o.url) (Sample.mediaBackend.filled fun _ => "a/b") := by
  have hmatch : ServeMuxMatch Sample.mediaEndpoint (Sample.getMedia "/api/media/a/b" "/api/media/a%2Fb").url
      ["api", "media", "a%2Fb"] (fun _ => "a/b") :=
    ⟨by decide +kernel, by decide +kernel, by unfold IsSegment; decide +kernel, by decide +kernel⟩
  obtain ⟨o, ho⟩ := Option.isSome_iff_exists.mp (show (Sample.mediaProxy.outgoing Sample.pathGateway
    (Sample.getMedia "/api/media/a/b" "/api/media/a%2Fb")).isSome = true by decide +kernel)
  have hsent : Sample.pathGateway.escapedPath o.url = "/media/%7Bid%7D" := by
    rw [@escapedPath_outgoing Sample.mediaEndpoint Sample.mediaBackend _ _ Sample.pathGateway Sample.mediaProxy _ o
      Sample.mediaTarget ⟨"http", "media:8082", "", "", ""⟩ 15 rfl rfl ⟨rfl, .inl rfl⟩ (by decide +kernel) (by rfl) ho hmatch]
    decide +kernel
  refine ⟨hmatch, o, ho, hsent, fun hforwarded => ?_⟩
  have hpath : unescape (Sample.pathGateway.escapedPath o.url).toList = some "/media/{id}".toList := by
    rw [hsent]
    decide +kernel
  exact absurd (hforwarded.path_eq hpath) (by decide +kernel)

end AcaSocial.Gateway
