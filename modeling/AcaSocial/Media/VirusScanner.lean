import AcaSocial.Base.LengthPrefix
import AcaSocial.Base.Text
import AcaSocial.Media.MediaService
import Mathlib.Data.List.Induction

/-!
# The virus scanner

`virus-scanner.service.ts`: a file goes to ClamD over a socket, and nothing is stored before ClamD has said that it is
clean.

* **`connectWrites`** — what is written to the socket. `framing_exact` reads the file out of it.
* **`Scanning`** — the variables of `scan`, what the promise was settled with, and what was written.
* **`Scanning.on`** — what an event of the socket does. Events come in any order, also after the promise is settled.
* **`CleanReply`** — the events in which ClamD says that the file is clean.
* **`scan_fails_closed`** — no other events let a file through.
-/

namespace AcaSocial.Media

/-! ## What is written

The command and the chunks, each behind its length. -/

/-- The slices that the loop takes of the file. -/
def chunks (buffer : Buffer) : List Buffer := LengthPrefix.slices 65536 buffer 0

/-- `zINSTREAM\0` -/
def instream : Buffer := [122, 73, 78, 83, 84, 82, 69, 65, 77, 0]

/-- The writes when the socket is connected. -/
def connectWrites (buffer : Buffer) : List Buffer :=
  instream :: (chunks buffer).flatMap (fun chunk => [LengthPrefix.be32 chunk.length, chunk])
    ++ [LengthPrefix.be32 0]

/-- The bytes that are written. -/
theorem flatten_connectWrites (buffer : Buffer) :
    (connectWrites buffer).flatten = instream ++ LengthPrefix.encode (chunks buffer) := by
  have hframes : ∀ chunks : List Buffer,
      (chunks.flatMap fun chunk => [LengthPrefix.be32 chunk.length, chunk]).flatten
        = chunks.flatMap LengthPrefix.frame := by
    intro chunks
    induction chunks with
    | nil => rfl
    | cons chunk chunks ih =>
      rw [List.flatMap_cons, List.flatMap_cons, List.flatten_append, ih, LengthPrefix.frame]
      congr 1
      rw [List.flatten_cons, List.flatten_singleton]
  rw [connectWrites, List.cons_append, List.flatten_cons, List.flatten_append, hframes, List.flatten_singleton]
  rfl

/-- **The framing is exact.** What is behind the command is read as the file, with nothing left over, and each chunk
has from 1 to 65536 bytes. -/
theorem framing_exact (buffer : Buffer) :
    ∃ bytes chunks, (connectWrites buffer).flatten = instream ++ bytes
      ∧ LengthPrefix.decode bytes = some (chunks, []) ∧ chunks.flatten = buffer
      ∧ ∀ chunk ∈ chunks, 1 ≤ chunk.length ∧ chunk.length ≤ 65536 := by
  have hlength : ∀ chunk ∈ chunks buffer, 0 < chunk.length ∧ chunk.length < 2 ^ 32 := by
    intro chunk hchunk
    have hbounds := LengthPrefix.length_slices hchunk
    exact ⟨hbounds.1, Nat.lt_of_le_of_lt hbounds.2 (by decide)⟩
  have hdecode := LengthPrefix.decode_encode hlength []
  rw [List.append_nil] at hdecode
  have hflatten : (chunks buffer).flatten = buffer := LengthPrefix.flatten_slices (by decide)
  exact ⟨_, _, flatten_connectWrites buffer, hdecode, hflatten, fun _ => LengthPrefix.length_slices⟩

/-! ## The scan

The promise is decided once, by whichever event comes first. -/

/-- What happens to the socket, or that the deadline has come. -/
inductive SocketEvent where
  | connect
  | data (chunk : Buffer)
  | error
  | ended
  | timeout

/-- The variables of `scan`, the calls of `resolve` and `reject` in their order, and the bytes that were written. -/
structure Scanning where
  response : List Char := []
  finished : Bool := false
  settled : List (Except Unit (List Char)) := []
  written : List Buffer := []

/-- `response.replace(/\0.*$/s, '').trim()` -/
def replyOf (response : List Char) : List Char := Text.trim (response.takeWhile (· ≠ '\x00'))

/-- `finish`, with an error or without one. -/
def Scanning.finish (q : Scanning) (failed : Bool) : Scanning :=
  if q.finished then q
  else
    { q with
      finished := true
      settled := q.settled ++ [if failed then .error () else .ok (replyOf q.response)] }

/-- `response.length` counts UTF-16 units. -/
def utf16Length (text : List Char) : Nat := (text.map Text.utf16Size).sum

/-- `utf8` is `chunk.toString('utf8')`. -/
def Scanning.on (utf8 : Buffer → List Char) (buffer : Buffer) (q : Scanning) : SocketEvent → Scanning
  | .error => q.finish true
  | .ended => q.finish true
  | .timeout => q.finish true
  | .data chunk =>
    let q := { q with response := q.response ++ utf8 chunk }
    if 4096 < utf16Length q.response then q.finish true
    else if '\x00' ∈ q.response then q.finish false
    else q
  | .connect => { q with written := q.written ++ connectWrites buffer }

/-- What comes behind the promise. -/
def scanResult : Except Unit (List Char) → Except HttpException Unit
  | .error () =>
    .error (.serviceUnavailable "Không thể quét virus. File chưa được tải lên; vui lòng thử lại.")
  | .ok result =>
    if " FOUND".toList.isSuffixOf result then
      .error (.badRequest "File bị chặn do phát hiện mối đe dọa. Hãy gỡ hoặc thay file.")
    else if result ≠ "stream: OK".toList then
      .error (.serviceUnavailable "Không kiểm tra được file. File chưa được tải lên; vui lòng thử lại.")
    else .ok ()

section

variable (utf8 : Buffer → List Char)

/-- `scan` after these events. A promise keeps what it is settled with first. -/
def scan (buffer : Buffer) (events : List SocketEvent) : Option (Except HttpException Unit) :=
  (run (Scanning.on utf8 buffer) {} events).settled.head?.map scanResult

/-- `upload` when the socket has had these events. It goes on when `scan` has returned. -/
def uploadScanned (env : Env) (s : Store) (file : File) (category : MediaCategory) (userId : UserId)
    (events : List SocketEvent) (cdn : Option UploadApiResponse) (now : Time) :
    Store × Option (Except HttpException Reply) :=
  match scan utf8 file.buffer events with
  | none => (s, none)
  | some result =>
    let uploaded := upload env s file category userId result cdn now
    (uploaded.1, some uploaded.2)

/-! ## What ClamD has said

The texts of the data events, up to the limit. -/

/-- The text of an event. -/
def SocketEvent.text : SocketEvent → List Char
  | .data chunk => utf8 chunk
  | _ => []

/-- The decoded data of all events. -/
def heard (events : List SocketEvent) : List Char := events.flatMap (SocketEvent.text utf8)

/-- Neither an error nor the end nor the deadline. -/
def SocketEvent.Open : SocketEvent → Prop
  | .connect => True
  | .data _ => True
  | _ => False

/-- Before anything else than data, and within 4096 characters, there is a NUL in the data, and the text before the first
one is `stream: OK`. -/
def CleanReply (events : List SocketEvent) : Prop :=
  ∃ before after, events = before ++ after ∧ (∀ e ∈ before, e.Open) ∧ utf16Length (heard utf8 before) ≤ 4096
    ∧ '\x00' ∈ heard utf8 before ∧ replyOf (heard utf8 before) = "stream: OK".toList

end

/-! ## Events

The state of the scan after some events says what was heard so far. -/

section

variable {utf8 : Buffer → List Char} {buffer : Buffer} {q : Scanning}

/-- A text before the first NUL stays when more text follows. -/
theorem replyOf_append {text : List Char} (h : '\x00' ∈ text) (more : List Char) :
    replyOf (text ++ more) = replyOf text := by
  have htake : (text ++ more).takeWhile (· ≠ '\x00') = text.takeWhile (· ≠ '\x00') := by
    induction text with
    | nil => exact absurd h List.not_mem_nil
    | cons c text ih =>
      rw [List.cons_append, List.takeWhile_cons, List.takeWhile_cons]
      by_cases hc : c = '\x00'
      · rw [if_neg, if_neg]
        · exact fun hne => absurd hc (of_decide_eq_true hne)
        · exact fun hne => absurd hc (of_decide_eq_true hne)
      · have hmem : '\x00' ∈ text := (List.mem_cons.mp h).resolve_left (Ne.symm hc)
        rw [if_pos (decide_eq_true hc), if_pos (decide_eq_true hc), ih hmem]
  rw [replyOf, htake, replyOf]

/-- The length of two texts is the sum of theirs. -/
theorem utf16Length_append (text more : List Char) :
    utf16Length (text ++ more) = utf16Length text + utf16Length more := by
  rw [utf16Length, List.map_append, List.sum_append]
  rfl

/-- One event more. -/
theorem heard_concat (events : List SocketEvent) (e : SocketEvent) :
    heard utf8 (events ++ [e]) = heard utf8 events ++ e.text utf8 := by
  rw [heard, List.flatMap_append, List.flatMap_singleton]
  rfl

/-- A promise is decided once. -/
theorem finish_of_finished (h : q.finished = true) (failed : Bool) : q.finish failed = q := if_pos h

/-- After the promise is settled, no event settles it again. -/
theorem on_of_finished (h : q.finished = true) (e : SocketEvent) :
    (q.on utf8 buffer e).finished = true ∧ (q.on utf8 buffer e).settled = q.settled := by
  have hfinish : ∀ (p : Scanning) failed, p.finished = true → (p.finish failed).finished = true
      ∧ (p.finish failed).settled = p.settled := by
    intro p failed hp
    rw [finish_of_finished hp]
    exact ⟨hp, rfl⟩
  cases e with
  | connect => exact ⟨h, rfl⟩
  | error => exact hfinish q true h
  | ended => exact hfinish q true h
  | timeout => exact hfinish q true h
  | data chunk =>
    show Scanning.finished (if _ then _ else if _ then _ else _) = true
      ∧ Scanning.settled (if _ then _ else if _ then _ else _) = _
    split
    · exact hfinish _ true h
    · split
      · exact hfinish _ false h
      · exact ⟨h, rfl⟩

/-- And no events do. -/
theorem run_of_finished (h : q.finished = true) (events : List SocketEvent) :
    (run (Scanning.on utf8 buffer) q events).settled = q.settled := by
  induction events generalizing q with
  | nil => rfl
  | cons e events ih =>
    obtain ⟨hfinished, hsettled⟩ := @on_of_finished utf8 buffer q h e
    rw [run_cons, ih hfinished, hsettled]

/-- What holds after some events. Without an outcome there were no events but data and the connection, and no NUL. A
text that the promise is resolved with was the reply at one time. -/
structure Heard (utf8 : Buffer → List Char) (events : List SocketEvent) (q : Scanning) : Prop where
  waiting : q.finished = false → q.settled = [] ∧ (∀ e ∈ events, e.Open) ∧ q.response = heard utf8 events
    ∧ '\x00' ∉ q.response
  decided : q.finished = true → ∃ outcome, q.settled = [outcome]
  replied : ∀ text, q.settled = [.ok text] → ∃ before after, events = before ++ after ∧ (∀ e ∈ before, e.Open)
    ∧ utf16Length (heard utf8 before) ≤ 4096 ∧ '\x00' ∈ heard utf8 before ∧ text = replyOf (heard utf8 before)
  rejected : q.settled = [.error ()] → (∃ e ∈ events, ¬ e.Open) ∨ 4096 < utf16Length (heard utf8 events)

/-- A first call of `finish` settles the promise. -/
theorem finish_of_waiting (h : q.finished = false) (hsettled : q.settled = []) (failed : Bool) :
    (q.finish failed).finished = true
      ∧ (q.finish failed).settled = [if failed then .error () else .ok (replyOf q.response)] := by
  have hnot : ¬ q.finished = true := by
    rw [h]
    exact Bool.false_ne_true
  rw [Scanning.finish, if_neg hnot, hsettled]
  exact ⟨rfl, rfl⟩

/-- The promise is rejected. -/
theorem Heard.of_error {events : List SocketEvent} (h : q.finished = true) (hsettled : q.settled = [.error ()])
    (hwhy : (∃ e ∈ events, ¬ e.Open) ∨ 4096 < utf16Length (heard utf8 events)) : Heard utf8 events q where
  waiting := fun hfalse => absurd (h.symm.trans hfalse) Bool.noConfusion
  decided := fun _ => ⟨_, hsettled⟩
  replied := by
    intro text htext
    have houtcome := (List.cons.inj (hsettled.symm.trans htext)).1
    cases houtcome
  rejected := fun _ => hwhy

/-- The promise was settled before. -/
theorem Heard.of_settled {events : List SocketEvent} {q' : Scanning} (h : Heard utf8 events q)
    (hfinished : q.finished = true) (hfinished' : q'.finished = true) (hsettled : q'.settled = q.settled)
    (e : SocketEvent) : Heard utf8 (events ++ [e]) q' where
  waiting := fun hfalse => absurd (hfinished'.symm.trans hfalse) Bool.noConfusion
  decided := fun _ => hsettled ▸ h.decided hfinished
  replied := by
    intro text htext
    rw [hsettled] at htext
    obtain ⟨before, after, heq, hrest⟩ := h.replied text htext
    refine ⟨before, after ++ [e], ?_, hrest⟩
    rw [heq, List.append_assoc]
  rejected := by
    intro houtcome
    rw [hsettled] at houtcome
    rcases h.rejected houtcome with ⟨e', he', hclosed⟩ | hlength
    · exact .inl ⟨e', List.mem_append_left _ he', hclosed⟩
    · rw [heard_concat, utf16Length_append]
      exact .inr (by omega)

/-- Data comes while the promise is not settled. -/
theorem Heard.data {events : List SocketEvent} (h : Heard utf8 events q) (hwaiting : q.finished = false)
    (chunk : Buffer) : Heard utf8 (events ++ [.data chunk]) (q.on utf8 buffer (.data chunk)) := by
  obtain ⟨hsettled, hopen, hresponse, hnul⟩ := h.waiting hwaiting
  have hopen' : ∀ e ∈ events ++ [.data chunk], e.Open := by
    intro e he
    rcases List.mem_append.mp he with he | he
    · exact hopen e he
    · rw [List.mem_singleton.mp he]
      trivial
  -- the response is all that has come, joined
  have hheard : q.response ++ utf8 chunk = heard utf8 (events ++ [.data chunk]) := by
    rw [heard_concat, hresponse]
    rfl
  show Heard utf8 _ (if _ then Scanning.finish _ true else if _ then Scanning.finish _ false else _)
  rw [hheard]
  split
  · obtain ⟨hfinished, houtcome⟩ := @finish_of_waiting ⟨heard utf8 (events ++ [.data chunk]), q.finished, q.settled, q.written⟩ hwaiting hsettled true
    exact Heard.of_error hfinished houtcome (.inr (by assumption))
  -- not too long: the response ends with a NUL, or more is to come
  · next hlength =>
    split
    · next hmem =>
      obtain ⟨hfinished, houtcome⟩ := @finish_of_waiting ⟨heard utf8 (events ++ [.data chunk]), q.finished, q.settled, q.written⟩ hwaiting hsettled false
      constructor
      · exact fun hfalse => absurd (hfinished.symm.trans hfalse) Bool.noConfusion
      · exact fun _ => ⟨_, houtcome⟩
      · intro text htext
        rw [houtcome] at htext
        refine ⟨_, [], (List.append_nil _).symm, hopen', Nat.le_of_not_lt hlength, hmem, ?_⟩
        exact (Except.ok.inj (List.cons.inj htext).1).symm
      · intro hfail
        have hsame := (List.cons.inj (houtcome.symm.trans hfail)).1
        cases hsame
    · next hmem =>
      constructor
      · exact fun _ => ⟨hsettled, hopen', rfl, hmem⟩
      · exact fun htrue => absurd (hwaiting.symm.trans htrue) Bool.noConfusion
      · exact fun _ htext => absurd (hsettled.symm.trans htext) (List.cons_ne_nil _ _).symm
      · exact fun hfail => absurd (hsettled.symm.trans hfail) (List.cons_ne_nil _ _).symm

/-- **One event.** -/
theorem Heard.on {events : List SocketEvent} (h : Heard utf8 events q) (e : SocketEvent) :
    Heard utf8 (events ++ [e]) (q.on utf8 buffer e) := by
  cases hq : q.finished with
  | true =>
    obtain ⟨hfinished, hsettled⟩ := @on_of_finished utf8 buffer q hq e
    exact h.of_settled hq hfinished hsettled e
  | false =>
    obtain ⟨hsettled, hopen, hresponse, hnul⟩ := h.waiting hq
    -- an event that closes the socket fails the scan
    have hfail : ¬ e.Open → Heard utf8 (events ++ [e]) (q.finish true) := by
      intro hclosed
      obtain ⟨hfinished, houtcome⟩ := finish_of_waiting hq hsettled true
      exact Heard.of_error hfinished houtcome (.inl ⟨e, List.mem_append_right _ List.mem_cons_self, hclosed⟩)
    cases e with
    | error => exact hfail id
    | ended => exact hfail id
    | timeout => exact hfail id
    | data chunk => exact h.data hq chunk
    -- a connection adds nothing to what is heard
    | connect =>
      constructor
      · intro _
        refine ⟨hsettled, ?_, ?_, hnul⟩
        · intro e he
          rcases List.mem_append.mp he with he | he
          · exact hopen e he
          · rw [List.mem_singleton.mp he]
            trivial
        · rw [heard_concat]
          exact hresponse.trans (List.append_nil _).symm
      · exact fun htrue => absurd (hq.symm.trans htrue) Bool.noConfusion
      · exact fun _ htext => absurd (hsettled.symm.trans htext) (List.cons_ne_nil _ _).symm
      · exact fun hfail => absurd (hsettled.symm.trans hfail) (List.cons_ne_nil _ _).symm

/-- **What the scan has heard after some events.** -/
theorem heard_run (events : List SocketEvent) : Heard utf8 events (run (Scanning.on utf8 buffer) {} events) := by
  induction events using List.reverseRecOn with
  | nil =>
    constructor
    · exact fun _ => ⟨rfl, fun _ he => absurd he List.not_mem_nil, rfl, List.not_mem_nil⟩
    · exact fun htrue => absurd htrue Bool.false_ne_true
    · exact fun _ htext => absurd htext (List.cons_ne_nil _ _).symm
    · exact fun hfail => absurd hfail (List.cons_ne_nil _ _).symm
  | append_singleton events e ih =>
    rw [run_append]
    exact ih.on e

/-! ## Outcomes

An upload is let through when ClamD has said that the file is clean, and in no other case. -/

/-- The promise is settled once at most. -/
theorem length_settled (events : List SocketEvent) :
    (run (Scanning.on utf8 buffer) {} events).settled.length ≤ 1 := by
  have h := @heard_run utf8 buffer events
  cases hq : (run (Scanning.on utf8 buffer) {} events).finished with
  | true =>
    obtain ⟨outcome, houtcome⟩ := h.decided hq
    rw [houtcome]
    exact Nat.le_refl 1
  | false =>
    rw [(h.waiting hq).1]
    exact Nat.zero_le 1

/-- A result stays what it is. -/
theorem scan_append {events : List SocketEvent} {result : Except HttpException Unit}
    (h : scan utf8 buffer events = some result) (more : List SocketEvent) :
    scan utf8 buffer (events ++ more) = some result := by
  have hheard := @heard_run utf8 buffer events
  cases hq : (run (Scanning.on utf8 buffer) {} events).finished with
  | true =>
    rw [scan, run_append, run_of_finished hq]
    exact h
  | false =>
    rw [scan, (hheard.waiting hq).1] at h
    exact absurd h (Option.some_ne_none _).symm

/-- The one text that lets a file through. -/
theorem scanResult_eq_ok {outcome : Except Unit (List Char)} :
    scanResult outcome = .ok () ↔ outcome = .ok "stream: OK".toList := by
  constructor
  · intro h
    cases outcome with
    | error _ =>
      rw [scanResult] at h
      cases h
    | ok text =>
      rw [scanResult] at h
      split at h
      · cases h
      · split at h
        · cases h
        · next hne => rw [Decidable.not_not.mp hne]
  · rintro rfl
    decide

/-- A scan resolves if and only if ClamD has said that the file is clean. -/
theorem scan_eq_ok_iff {events : List SocketEvent} :
    scan utf8 buffer events = some (.ok ()) ↔ CleanReply utf8 events := by
  constructor
  · intro h
    obtain ⟨outcome, houtcome, hok⟩ := Option.map_eq_some_iff.mp h
    have hheard := @heard_run utf8 buffer events
    have hsettled : (run (Scanning.on utf8 buffer) {} events).settled = [.ok "stream: OK".toList] := by
      cases hq : (run (Scanning.on utf8 buffer) {} events).finished with
      | true =>
        obtain ⟨first, hfirst⟩ := hheard.decided hq
        rw [hfirst] at houtcome ⊢
        rw [Option.some.inj houtcome, scanResult_eq_ok.mp hok]
      | false =>
        rw [(hheard.waiting hq).1] at houtcome
        exact absurd houtcome (Option.some_ne_none _).symm
    obtain ⟨before, after, heq, hopen, hlength, hnul, htext⟩ := hheard.replied _ hsettled
    exact ⟨before, after, heq, hopen, hlength, hnul, htext.symm⟩
  · rintro ⟨before, after, rfl, hopen, hlength, hnul, htext⟩
    refine scan_append ?_ after
    have hheard := @heard_run utf8 buffer before
    cases hq : (run (Scanning.on utf8 buffer) {} before).finished with
    | false =>
      obtain ⟨_, _, hresponse, hnone⟩ := hheard.waiting hq
      rw [hresponse] at hnone
      exact absurd hnul hnone
    | true =>
      obtain ⟨outcome, houtcome⟩ := hheard.decided hq
      have hok : outcome = .ok "stream: OK".toList := by
        cases outcome with
        | error _ =>
          rcases hheard.rejected houtcome with ⟨e, he, hclosed⟩ | hlong
          · exact absurd (hopen e he) hclosed
          · omega
        | ok text =>
          -- it was resolved with an earlier text, in which there was a NUL already
          obtain ⟨first, rest, heq, _, _, hmem, hreply⟩ := hheard.replied text houtcome
          have hwhole : heard utf8 before = heard utf8 first ++ heard utf8 rest := by
            rw [heq, heard, List.flatMap_append]
            rfl
          rw [hwhole, replyOf_append hmem] at htext
          rw [hreply, htext]
      rw [scan, houtcome]
      exact congrArg some (scanResult_eq_ok.mpr hok)

/-- **The scan fails closed.** For any events the promise is settled once at most, and a result stays. A file is let
through only if ClamD has said that it is clean, and otherwise an upload stores nothing. -/
theorem scan_fails_closed (utf8 : Buffer → List Char) (buffer : Buffer) (events : List SocketEvent) :
    (run (Scanning.on utf8 buffer) {} events).settled.length ≤ 1
      ∧ (∀ result more, scan utf8 buffer events = some result → scan utf8 buffer (events ++ more) = some result)
      ∧ (scan utf8 buffer events = some (.ok ()) → CleanReply utf8 events)
      ∧ ∀ env s file category userId cdn now, file.buffer = buffer → ¬ CleanReply utf8 events →
          (uploadScanned utf8 env s file category userId events cdn now).1 = s := by
  refine ⟨length_settled events, fun _ more h => scan_append h more, scan_eq_ok_iff.mp, ?_⟩
  intro env s file category userId cdn now hbuffer hclean
  rw [uploadScanned, hbuffer]
  cases hscan : scan utf8 buffer events with
  | none => rfl
  | some result =>
    cases result with
    | error _ => rfl
    | ok _ => exact absurd (scan_eq_ok_iff.mp hscan) hclean

/-- `stream: OK\0` in two parts, and the end of the connection. -/
example :
    scan (·.map fun byte => Char.ofNat byte.toNat) []
      [.connect, .data [115, 116, 114, 101, 97, 109, 58], .data [32, 79, 75, 0], .ended] = some (.ok ()) := by
  decide +kernel

end

end AcaSocial.Media
