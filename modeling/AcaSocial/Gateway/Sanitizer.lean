import AcaSocial.Gateway.Router
import AcaSocial.Base.Run

/-!
# The sanitizer of a response

`headerSanitizerWriter` of `sanitize.go`, call by call. Its header map is the one of the writer around it, and
`doSanitize` deletes the sensitive headers once, at the first call that writes anything. A reverse proxy that relays
`103 Early Hints` writes before it has the final headers.

* **`WriterCall`** — what a handler may do with the writer.
* **`SanitizerState`** — the map, the flag, and the map as it was when the final status line was sent.
* **`leftBy`** — whether a header is in the map after some calls, told from their changes of it.
* **`SeesAll`** — no sensitive header is left by the changes that come after an informational response.

`sent_clean_iff` says that the final response is clean exactly then.
-/

namespace AcaSocial.Gateway

/-! ## sanitize.go

The writer that deletes the sensitive headers before the backend's response is flushed. -/

/-- A status that `WriteHeader` accepts. -/
def StatusCode := { n : Nat // 100 ≤ n ∧ n ≤ 999 }

/-- 101 ends the exchange of headers, unlike the others of its class. -/
def StatusCode.informational (status : StatusCode) : Bool := decide (status.val ≤ 199) && decide (status.val ≠ 101)

/-- A call of the handler, on the writer or on its header map. -/
inductive WriterCall where
  | set (name value : String)
  | add (name value : String)
  | del (name : String)
  | writeHeader (status : StatusCode)
  | write (text : String)
  | flushError

/-- `sent` is the header map at the moment when the final status line is sent. -/
structure SanitizerState where
  header : Header
  sanitized : Bool
  sent : Option Header

namespace SanitizerState

def doSanitize (s : SanitizerState) : SanitizerState :=
  if s.sanitized then s else { s with sanitized := true, header := s.header.delAll sensitiveBackendHeaders }

/-- The writer of the server sends the final status line once. -/
def sendFinal (s : SanitizerState) : SanitizerState := { s with sent := some (s.sent.getD s.header) }

def call (s : SanitizerState) : WriterCall → SanitizerState
  | .set name value => { s with header := s.header.set name value }
  | .add name value => { s with header := s.header.add name value }
  | .del name => { s with header := s.header.del name }
  | .writeHeader status =>
    let s := s.doSanitize
    -- an informational response goes out by itself, and the final one is still to come
    if status.informational then s else s.sendFinal
  | .write _ =>
    let s := if s.sanitized = false then s.doSanitize else s
    s.sendFinal
  | .flushError => s.doSanitize.sendFinal

end SanitizerState

/-- The header map when the final status line is sent; the server sends it after the handler if the handler has not. -/
def finalHeader (h : Header) (calls : List WriterCall) : Header :=
  let s := run SanitizerState.call ⟨h, false, none⟩ calls
  s.sent.getD s.header

/-! ## What the calls do to one header

A call sets, deletes or flushes, and the rest is left. -/

namespace WriterCall

/-- The call sends the final status line, unless it is sent. -/
def sendsFinal : WriterCall → Bool
  | writeHeader status => !status.informational
  | write _ => true
  | flushError => true
  | _ => false

def isInformational : WriterCall → Bool
  | writeHeader status => status.informational
  | _ => false

/-- Whether the header is in the map after the call. -/
def leaves (name : String) (present : Bool) : WriterCall → Bool
  | set other _ => decide (headerKey name = headerKey other) || present
  | add other _ => decide (headerKey name = headerKey other) || present
  | del other => !decide (headerKey name = headerKey other) && present
  | _ => present

end WriterCall

/-- Whether the header is in the map after the calls, by their changes of it. -/
def leftBy (name : String) (present : Bool) (calls : List WriterCall) : Bool :=
  calls.foldl (WriterCall.leaves name) present

/-- The calls before the final status line. -/
def beforeFinal (calls : List WriterCall) : List WriterCall := calls.takeWhile fun c => !c.sendsFinal

/-- Those of them from the first informational response on. -/
def late (calls : List WriterCall) : List WriterCall := (beforeFinal calls).dropWhile fun c => !c.isInformational

/-- The header is in the map. -/
def hasHeader (h : Header) (name : String) : Bool := !(h.values name).isEmpty

/-- No sensitive header is left by the changes after an informational response; and if the handler writes nothing at all,
by any. -/
def SeesAll (h : Header) (calls : List WriterCall) : Prop :=
  if calls.any fun c => c.sendsFinal || c.isInformational then
    ∀ name ∈ sensitiveBackendHeaders, leftBy name false (late calls) = false
  else ∀ name ∈ sensitiveBackendHeaders, leftBy name (hasHeader h name) calls = false

/-! ## Following one header

Whether a header is there, call by call. -/

variable {s : SanitizerState} {name : String}

/-- A header that is not there has no values. -/
theorem hasHeader_eq_false {h : Header} : hasHeader h name = false ↔ h.values name = [] := by
  rw [hasHeader, Bool.not_eq_false', List.isEmpty_iff]

/-- A header that is deleted is not there. -/
theorem hasHeader_delAll {h : Header} (hname : name ∈ sensitiveBackendHeaders) :
    hasHeader (h.delAll sensitiveBackendHeaders) name = false := by
  rw [hasHeader_eq_false, Header.values_delAll, if_pos ⟨name, hname, rfl⟩]

/-- The headers are deleted once. -/
theorem SanitizerState.doSanitize_of_sanitized (h : s.sanitized = true) : s.doSanitize = s := if_pos h

/-- **One call** before the final line that does not make the sanitizer run changes the map as `leaves` says. -/
theorem call_has {c : WriterCall} (hfinal : c.sendsFinal = false) (hquiet : s.sanitized = true ∨ c.isInformational = false) :
    hasHeader (s.call c).header name = c.leaves name (hasHeader s.header name) ∧ (s.call c).sanitized = s.sanitized
      ∧ (s.call c).sent = s.sent := by
  cases c with
  | set other value =>
    refine ⟨?_, rfl, rfl⟩
    show hasHeader (s.header.set other value) name = _
    rw [hasHeader, Header.values_set, WriterCall.leaves]
    by_cases hname : headerKey name = headerKey other
    · rw [if_pos hname, decide_eq_true hname]
      rfl
    · rw [if_neg hname, decide_eq_false hname]
      rfl
  | add other value =>
    refine ⟨?_, rfl, rfl⟩
    show hasHeader (s.header.add other value) name = _
    rw [hasHeader, Header.values_add, WriterCall.leaves]
    by_cases hname : headerKey name = headerKey other
    · rw [if_pos hname, decide_eq_true hname]
      simp
    · rw [if_neg hname, decide_eq_false hname]
      rfl
  | del other =>
    refine ⟨?_, rfl, rfl⟩
    show hasHeader (s.header.del other) name = _
    rw [hasHeader, Header.values_del, WriterCall.leaves]
    by_cases hname : headerKey name = headerKey other
    · rw [if_pos hname, decide_eq_true hname]
      rfl
    · rw [if_neg hname, decide_eq_false hname]
      rfl
  | writeHeader status =>
    have hinformational : status.informational = true := by
      rw [WriterCall.sendsFinal, Bool.not_eq_false'] at hfinal
      exact hfinal
    -- an informational response makes the sanitizer run, unless it has run before
    have hsanitized : s.sanitized = true := by
      rcases hquiet with hsanitized | hnone
      · exact hsanitized
      · exact absurd (hnone.symm.trans hinformational) Bool.false_ne_true
    have hcall : s.call (.writeHeader status) = s := by
      show (if status.informational then s.doSanitize else s.doSanitize.sendFinal) = s
      rw [if_pos hinformational, s.doSanitize_of_sanitized hsanitized]
    rw [hcall]
    exact ⟨rfl, rfl, rfl⟩
  | write text => exact absurd hfinal.symm Bool.false_ne_true
  | flushError => exact absurd hfinal.symm Bool.false_ne_true

/-- **Some of these calls.** The induction is on the calls. -/
theorem run_has {calls : List WriterCall}
    (h : ∀ c ∈ calls, c.sendsFinal = false ∧ (s.sanitized = true ∨ c.isInformational = false)) :
    hasHeader (run SanitizerState.call s calls).header name = leftBy name (hasHeader s.header name) calls
      ∧ (run SanitizerState.call s calls).sanitized = s.sanitized
      ∧ (run SanitizerState.call s calls).sent = s.sent := by
  induction calls generalizing s with
  | nil => exact ⟨rfl, rfl, rfl⟩
  | cons c calls ih =>
    obtain ⟨hfinal, hquiet⟩ := h c List.mem_cons_self
    obtain ⟨hhas, hsanitized, hsent⟩ := @call_has s name c hfinal hquiet
    have hrest := ih fun c' hc' => hsanitized ▸ h c' (List.mem_cons_of_mem _ hc')
    rw [run_cons, leftBy, List.foldl_cons, ← hhas]
    exact ⟨hrest.1, hrest.2.1.trans hsanitized, hrest.2.2.trans hsent⟩

/-- Once the final line is sent, nothing changes what was sent. -/
theorem sent_run {h : Header} (hsent : s.sent = some h) (calls : List WriterCall) :
    (run SanitizerState.call s calls).sent = some h := by
  have hsanitize : ∀ s : SanitizerState, s.doSanitize.sent = s.sent := by
    intro s
    unfold SanitizerState.doSanitize
    split <;> rfl
  have hfinal : ∀ s : SanitizerState, s.sent = some h → s.sendFinal.sent = some h := by
    intro s hs
    rw [SanitizerState.sendFinal, hs]
    rfl
  -- no call sends the final line twice
  have hcall : ∀ (s : SanitizerState) (c : WriterCall), s.sent = some h → (s.call c).sent = some h := by
    intro s c hs
    cases c with
    | set name value => exact hs
    | add name value => exact hs
    | del name => exact hs
    | writeHeader status =>
      show (if status.informational then s.doSanitize else s.doSanitize.sendFinal).sent = some h
      split
      · rw [hsanitize, hs]
      · exact hfinal _ ((hsanitize s).trans hs)
    | write text =>
      show (if s.sanitized = false then s.doSanitize else s).sendFinal.sent = some h
      apply hfinal
      split
      · rw [hsanitize, hs]
      · exact hs
    | flushError => exact hfinal _ ((hsanitize s).trans hs)
  exact run_invariant (P := fun s : SanitizerState => s.sent = some h) hcall hsent calls

/-- The call that sends the final line sanitizes first, if that has not been done. -/
theorem call_final {c : WriterCall} (hfinal : c.sendsFinal = true) (hnone : s.sent = none) :
    (s.call c).sent = some s.doSanitize.header := by
  have hsent : s.doSanitize.sent = none := by
    unfold SanitizerState.doSanitize
    split <;> exact hnone
  have hsend : s.doSanitize.sendFinal.sent = some s.doSanitize.header := by
    rw [SanitizerState.sendFinal, hsent]
    rfl
  cases c with
  | set name value => exact absurd hfinal Bool.false_ne_true
  | add name value => exact absurd hfinal Bool.false_ne_true
  | del name => exact absurd hfinal Bool.false_ne_true
  | writeHeader status =>
    have hlast : ¬ status.informational = true := by
      rw [WriterCall.sendsFinal, Bool.not_eq_true'] at hfinal
      rw [hfinal]
      exact Bool.false_ne_true
    show (if status.informational then s.doSanitize else s.doSanitize.sendFinal).sent = _
    rw [if_neg hlast, hsend]
  | write text =>
    show (if s.sanitized = false then s.doSanitize else s).sendFinal.sent = _
    -- an interim line may have sanitized before the body is written
    by_cases hsanitized : s.sanitized = false
    · rw [if_pos hsanitized, hsend]
    · rw [if_neg hsanitized]
      rw [s.doSanitize_of_sanitized (Bool.not_eq_false _ ▸ hsanitized)] at hsend ⊢
      exact hsend
  | flushError => exact hsend

/-! ## The final response

What is sent last is clean if the headers are set before the first flush. -/

/-- A sensitive header is gone after the deletion. -/
theorem hasHeader_doSanitize (hsanitized : s.sanitized = false) (hname : name ∈ sensitiveBackendHeaders) :
    hasHeader s.doSanitize.header name = false := by
  rw [SanitizerState.doSanitize, if_neg (by rw [hsanitized]; exact Bool.false_ne_true)]
  exact hasHeader_delAll hname

/-- Without an informational response the final line is sent with the map as the handler left it, less the sensitive
headers. -/
theorem finalHeader_of_quiet {h : Header} {early rest : List WriterCall} {c : WriterCall}
    (hearly : ∀ c ∈ early, c.sendsFinal = false ∧ c.isInformational = false) (hfinal : c.sendsFinal = true) :
    finalHeader h (early ++ c :: rest)
      = (run SanitizerState.call ⟨h, false, none⟩ early).header.delAll sensitiveBackendHeaders := by
  obtain ⟨-, hsanitized, hsent⟩ := @run_has ⟨h, false, none⟩ "" early fun c hc => ⟨(hearly c hc).1, .inr (hearly c hc).2⟩
  have hlast := sent_run (call_final hfinal hsent) rest
  rw [finalHeader, run_append, run_cons]
  show (run SanitizerState.call _ rest).sent.getD _ = _
  rw [hlast, SanitizerState.doSanitize, hsanitized]
  rfl

/-- From the first informational response on, the map has what the changes leave. -/
theorem run_late_has {i : WriterCall} {tail : List WriterCall} (hi : i.isInformational = true)
    (htail : ∀ c ∈ tail, c.sendsFinal = false) (hsanitized : s.sanitized = false) (hsent : s.sent = none)
    (hname : name ∈ sensitiveBackendHeaders) :
    hasHeader (run SanitizerState.call s (i :: tail)).header name = leftBy name false (i :: tail)
      ∧ (run SanitizerState.call s (i :: tail)).sanitized = true
      ∧ (run SanitizerState.call s (i :: tail)).sent = none := by
  cases i with
  | set name value => exact absurd hi Bool.false_ne_true
  | add name value => exact absurd hi Bool.false_ne_true
  | del name => exact absurd hi Bool.false_ne_true
  | write text => exact absurd hi Bool.false_ne_true
  | flushError => exact absurd hi Bool.false_ne_true
  | writeHeader status =>
    have hcall : s.call (.writeHeader status) = s.doSanitize := if_pos hi
    have hdone : s.doSanitize.sanitized = true := by
      rw [SanitizerState.doSanitize, if_neg (by rw [hsanitized]; exact Bool.false_ne_true)]
    have hopen : s.doSanitize.sent = none := by
      unfold SanitizerState.doSanitize
      split <;> exact hsent
    obtain ⟨hhas, hkept, hstill⟩ := @run_has s.doSanitize name tail fun c hc => ⟨htail c hc, .inl hdone⟩
    rw [run_cons, hcall]
    refine ⟨?_, hkept.trans hdone, hstill.trans hopen⟩
    rw [hhas, hasHeader_doSanitize hsanitized hname]
    rfl

/-- The calls in three parts: the ones before anything is written, those from the first informational response on, and
those from the final line on. -/
theorem calls_parts (calls : List WriterCall) : ∃ early rest, calls = early ++ late calls ++ rest
    ∧ (∀ c ∈ early, c.sendsFinal = false ∧ c.isInformational = false) ∧ (∀ c ∈ late calls, c.sendsFinal = false)
    ∧ (∀ i tail, late calls = i :: tail → i.isInformational = true)
    ∧ ∀ c rest', rest = c :: rest' → c.sendsFinal = true := by
  have hsplit : beforeFinal calls ++ calls.dropWhile (fun c => !c.sendsFinal) = calls := List.takeWhile_append_dropWhile
  have hlate : (beforeFinal calls).takeWhile (fun c => !c.isInformational) ++ late calls = beforeFinal calls :=
    List.takeWhile_append_dropWhile
  have hall : ∀ (p : WriterCall → Bool) (cs : List WriterCall), ∀ c ∈ cs.takeWhile (fun c => !p c), p c = false := by
    intro p cs c hc
    have hnot := List.all_eq_true.mp List.all_takeWhile c hc
    rwa [Bool.not_eq_true'] at hnot
  have hhead : ∀ (p : WriterCall → Bool) (cs : List WriterCall) (c : WriterCall) (tail : List WriterCall),
      cs.dropWhile (fun c => !p c) = c :: tail → p c = true := by
    intro p cs c tail hcons
    have hnot := List.head?_dropWhile_not (fun c => !p c) cs
    rw [hcons] at hnot
    simpa using hnot
  have hbefore : ∀ c ∈ beforeFinal calls, c.sendsFinal = false := hall WriterCall.sendsFinal calls
  refine ⟨(beforeFinal calls).takeWhile fun c => !c.isInformational, calls.dropWhile fun c => !c.sendsFinal, ?_,
    fun c hc => ⟨?_, hall _ _ c hc⟩, fun c hc => ?_, hhead _ _, hhead _ _⟩
  · rw [hlate, hsplit]
  · exact hbefore c (hlate ▸ List.mem_append_left _ hc)
  · exact hbefore c (hlate ▸ List.mem_append_right _ hc)

/-- **What is sent at the end is clean** exactly when the sanitizer has seen all changes that count. The cases are whether
an informational response comes before the final line, and whether the handler sends that line. -/
theorem sent_clean_iff (h : Header) (calls : List WriterCall) :
    (∀ name ∈ sensitiveBackendHeaders, (finalHeader h calls).values name = []) ↔ SeesAll h calls := by
  obtain ⟨early, rest, hcalls, hquiet, hopen, hfirst, hfinal⟩ := calls_parts calls
  have hearly := fun name => @run_has ⟨h, false, none⟩ name early fun c hc => ⟨(hquiet c hc).1, .inr (hquiet c hc).2⟩
  unfold SeesAll
  cases hlate : late calls with
  | nil =>
    rw [hlate, List.append_nil] at hcalls
    cases hrest : rest with
    | nil =>
      -- the handler has written nothing, and the server sends the map as it is
      rw [hrest, List.append_nil] at hcalls
      have hnone : ¬ (calls.any fun c => c.sendsFinal || c.isInformational) = true := by
        rw [Bool.not_eq_true, List.any_eq_false]
        intro c hc
        rw [(hquiet c (hcalls ▸ hc)).1, (hquiet c (hcalls ▸ hc)).2]
        exact Bool.false_ne_true
      rw [if_neg hnone, hcalls, finalHeader]
      refine forall₂_congr fun name _ => ?_
      obtain ⟨hhas, -, hsent⟩ := hearly name
      rw [← hasHeader_eq_false]
      show hasHeader ((run SanitizerState.call ⟨h, false, none⟩ early).sent.getD _) name = false ↔ _
      rw [hsent, Option.getD_none, hhas]
    | cons c rest' =>
      have hlast := hfinal c rest' hrest
      have hsome : (calls.any fun c => c.sendsFinal || c.isInformational) = true := by
        refine List.any_eq_true.mpr ⟨c, ?_, by rw [hlast]; rfl⟩
        rw [hcalls, hrest]
        exact List.mem_append_right _ List.mem_cons_self
      rw [if_pos hsome]
      refine iff_of_true (fun name hname => ?_) fun name _ => rfl
      rw [hcalls, hrest, finalHeader_of_quiet hquiet hlast, Header.values_delAll, if_pos ⟨name, hname, rfl⟩]
  | cons i tail =>
    have hi := hfirst i tail hlate
    have htail : ∀ c ∈ tail, c.sendsFinal = false := by
      intro c hc
      apply hopen
      rw [hlate]
      exact List.mem_cons_of_mem _ hc
    have hsome : (calls.any fun c => c.sendsFinal || c.isInformational) = true := by
      refine List.any_eq_true.mpr ⟨i, ?_, by rw [hi]; exact Bool.or_true _⟩
      rw [hcalls, hlate]
      exact List.mem_append_left _ (List.mem_append_right _ List.mem_cons_self)
    rw [if_pos hsome]
    refine forall₂_congr fun name hname => ?_
    obtain ⟨-, hsanitized, hsent⟩ := hearly name
    obtain ⟨hhas, hdone, hstill⟩ := run_late_has hi htail hsanitized hsent hname
    rw [← run_append] at hhas hdone hstill
    -- nothing is sanitized any more, whoever sends the final line
    have hheader : finalHeader h calls = (run SanitizerState.call ⟨h, false, none⟩ (early ++ i :: tail)).header := by
      rw [hcalls, hlate, finalHeader, run_append]
      cases hrest : rest with
      | nil =>
        show (run SanitizerState.call ⟨h, false, none⟩ (early ++ i :: tail)).sent.getD _ = _
        rw [hstill]
        rfl
      | cons c rest' =>
        have hlast := call_final (hfinal c rest' hrest) hstill
        rw [SanitizerState.doSanitize_of_sanitized hdone] at hlast
        rw [run_cons]
        show (run SanitizerState.call _ rest').sent.getD _ = _
        rw [sent_run hlast]
        rfl
    rw [hheader, ← hasHeader_eq_false, hhas]

/-- The calls of a reverse proxy whose backend sends early hints before its headers. -/
def Sample.hinted : List WriterCall :=
  [.add "Link" "</style.css>", .writeHeader ⟨103, by decide⟩, .del "Link", .add "Server" "Express",
    .writeHeader ⟨200, by decide⟩, .write "ok"]

/-- The backend's `Server` header is sent. -/
theorem not_sent_clean_hinted : (finalHeader .empty Sample.hinted).values "Server" = ["Express"]
    ∧ ¬ ∀ name ∈ sensitiveBackendHeaders, (finalHeader .empty Sample.hinted).values name = [] := by
  have hserver : (finalHeader .empty Sample.hinted).values "Server" = ["Express"] := by decide +kernel
  refine ⟨hserver, fun hclean => ?_⟩
  have hnone := hclean "Server" (by decide)
  exact List.cons_ne_nil _ _ (hserver.symm.trans hnone)

/-- Without the hints it is not. -/
example : (finalHeader .empty [.add "Server" "Express", .writeHeader ⟨200, by decide⟩, .write "ok"]).values "Server" = [] := by
  decide +kernel

end AcaSocial.Gateway
