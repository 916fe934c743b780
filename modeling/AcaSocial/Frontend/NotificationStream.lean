import AcaSocial.Base.Chunks
import AcaSocial.Base.Text

/-!
# The notification stream

`consumeNotificationStream` of `lib/notifications/stream.ts`, on the chunks that the body of the response comes in.

* **`execBoundary`** — the search for `/\r?\n\r?\n/` in the buffer. It is a `Cutter`.
* **`consumeNotificationStream`** — the calls of `onNotification`, for any decoder.
* **`events`** — what the stream says, read line by line from the whole text.
* **`textDecoder_chunkInvariant`** — the UTF-8 decoder of `TextDecoder` gives one text however the bytes are cut.

`execBoundary` could find a boundary early or late where one is cut. `execBoundary_append` says that it does not.
-/

namespace AcaSocial.Frontend

open Chunks

/-! ## Lines and frames

What a stream says, line by line: a blank line ends a frame, and the `data:` lines of a frame are its payload. -/

/-- `/\r?\n/` at the start of the text, with what is behind it. -/
def lineBreak : List Char → Option (List Char)
  | '\r' :: '\n' :: text => some text
  | '\n' :: text => some text
  | _ => none

/-- `/\r?\n\r?\n/` at the start of the text. -/
def blankLine (text : List Char) : Option (List Char) := (lineBreak text).bind lineBreak

/-- `/\r?\n\r?\n/.exec(buffer)`: the slices of the buffer before the match and behind it. -/
def execBoundary : List Char → Option (List Char × List Char)
  | [] => none
  | c :: text =>
    match blankLine (c :: text) with
    | some rest => some ([], rest)
    | none => (execBoundary text).map fun found => (c :: found.1, found.2)

/-- `frame.split(/\r?\n/)` -/
def splitLines : List Char → List (List Char)
  | [] => [[]]
  | '\r' :: '\n' :: text => [] :: splitLines text
  | '\n' :: text => [] :: splitLines text
  | c :: text => (splitLines text).modifyHead (c :: ·)

/-- `line.replace(/^ /, '')` -/
def withoutSpace : List Char → List Char
  | ' ' :: line => line
  | line => line

/-- `data` of a frame with these lines. -/
def dataOf (lines : List (List Char)) : List Char :=
  ['\n'].intercalate
    ((lines.filter fun line => "data:".toList.isPrefixOf line).map fun line => withoutSpace (line.drop 5))

/-- The calls of `onNotification` for frames with these lines. -/
def payloads (frames : List (List (List Char))) : List (List Char) :=
  (frames.map dataOf).filter (· ≠ [])

/-- Payloads are read frame by frame. -/
theorem payloads_append (frames more : List (List (List Char))) :
    payloads (frames ++ more) = payloads frames ++ payloads more := by
  rw [payloads, List.map_append, List.filter_append]
  rfl

/-! ## Line breaks

A line ends with a line feed, alone or behind a carriage return. -/

/-- The two line breaks. -/
theorem lineBreak_eq_some {text rest : List Char} :
    lineBreak text = some rest ↔ text = '\n' :: rest ∨ text = '\r' :: '\n' :: rest := by
  constructor
  · intro h
    unfold lineBreak at h
    split at h
    · exact .inr (congrArg ('\r' :: '\n' :: ·) (Option.some.inj h))
    · exact .inl (congrArg ('\n' :: ·) (Option.some.inj h))
    · exact absurd h.symm (Option.some_ne_none _)
  · intro h
    rcases h with rfl | rfl
    · rfl
    · rfl

/-- A line break takes something away. -/
theorem lineBreak_length {text rest : List Char} (h : lineBreak text = some rest) :
    rest.length < text.length := by
  rcases lineBreak_eq_some.mp h with rfl | rfl
  · show rest.length < rest.length + 1
    omega
  · show rest.length < rest.length + 1 + 1
    omega

/-- A line break is one whatever follows. -/
theorem lineBreak_append {text rest : List Char} (more : List Char) (h : lineBreak text = some rest) :
    lineBreak (text ++ more) = some (rest ++ more) := by
  rcases lineBreak_eq_some.mp h with rfl | rfl
  · rfl
  · rfl

/-- A line break that more text completes has only a `\r` so far, or nothing. -/
theorem of_lineBreak_append {text more rest : List Char} (hnone : lineBreak text = none)
    (h : lineBreak (text ++ more) = some rest) : text = [] ∨ text = ['\r'] := by
  match text with
  | [] => exact .inl rfl
  | [c] =>
    rcases lineBreak_eq_some.mp h with heq | heq
    · rw [(List.cons.inj heq).1] at hnone
      exact absurd hnone.symm (Option.some_ne_none _).symm
    · rw [(List.cons.inj heq).1]
      exact .inr rfl
  | c :: d :: text =>
    rcases lineBreak_eq_some.mp h with heq | heq
    · rw [(List.cons.inj heq).1] at hnone
      exact absurd hnone.symm (Option.some_ne_none _).symm
    · rw [(List.cons.inj heq).1, (List.cons.inj (List.cons.inj heq).2).1] at hnone
      exact absurd hnone.symm (Option.some_ne_none _).symm

/-- Texts are read to their end line break by line break and character by character. -/
theorem text_induct {P : List Char → Prop} (hnil : P [])
    (hbreak : ∀ text rest, lineBreak text = some rest → P rest → P text)
    (hcons : ∀ c text, lineBreak (c :: text) = none → P text → P (c :: text)) (text : List Char) : P text := by
  induction h : text.length using Nat.strongRecOn generalizing text with
  | ind n ih =>
    cases hline : lineBreak text with
    | some rest =>
      have hlen := lineBreak_length hline
      exact hbreak text rest hline (ih _ (h ▸ hlen) _ rfl)
    | none =>
      match text with
      | [] => exact hnil
      | c :: text =>
        have hlen : text.length < n := by
          rw [← h]
          exact Nat.lt_succ_self _
        exact hcons c text hline (ih _ hlen _ rfl)

/-! ## The boundary

The regular expression of the source finds the first blank line. -/

/-- A blank line is found where it is. -/
theorem execBoundary_blank {text rest : List Char} (h : blankLine text = some rest) :
    execBoundary text = some ([], rest) := by
  cases text with
  | nil => exact absurd h (Option.some_ne_none _).symm
  | cons c text =>
    rw [execBoundary, h]

/-- A character that begins no blank line belongs to the frame. -/
theorem execBoundary_cons {c : Char} {text : List Char} (h : blankLine (c :: text) = none) :
    execBoundary (c :: text) = (execBoundary text).map fun found => (c :: found.1, found.2) := by
  rw [execBoundary, h]

/-- What was found is at the start of the text, or further on. -/
theorem execBoundary_cases {c : Char} {text frame rest : List Char}
    (h : execBoundary (c :: text) = some (frame, rest)) :
    (blankLine (c :: text) = some rest ∧ frame = [])
      ∨ blankLine (c :: text) = none ∧ ∃ front, execBoundary text = some (front, rest) ∧ frame = c :: front := by
  cases hblank : blankLine (c :: text) with
  | some behind =>
    rw [execBoundary_blank hblank] at h
    have hpair := Prod.mk.inj (Option.some.inj h)
    exact .inl ⟨congrArg some hpair.2, hpair.1.symm⟩
  | none =>
    rw [execBoundary_cons hblank] at h
    obtain ⟨found, hfound, heq⟩ := Option.map_eq_some_iff.mp h
    have hpair := Prod.mk.inj heq
    refine .inr ⟨rfl, found.1, ?_, hpair.1.symm⟩
    rw [hfound, ← hpair.2]

/-- The text is the frame, the boundary and the rest. -/
theorem eq_of_execBoundary {text frame rest : List Char} (h : execBoundary text = some (frame, rest)) :
    ∃ boundary, text = frame ++ (boundary ++ rest) ∧ boundary ≠ [] := by
  induction text generalizing frame with
  | nil => exact absurd h (Option.some_ne_none _).symm
  | cons c text ih =>
    rcases execBoundary_cases h with ⟨hblank, rfl⟩ | ⟨_, front, hfront, rfl⟩
    · obtain ⟨line, hline, hrest⟩ := Option.bind_eq_some_iff.mp hblank
      rcases lineBreak_eq_some.mp hline with heq | heq
      · rcases lineBreak_eq_some.mp hrest with rfl | rfl
        · exact ⟨['\n', '\n'], heq, List.cons_ne_nil _ _⟩
        · exact ⟨['\n', '\r', '\n'], heq, List.cons_ne_nil _ _⟩
      · rcases lineBreak_eq_some.mp hrest with rfl | rfl
        · exact ⟨['\r', '\n', '\n'], heq, List.cons_ne_nil _ _⟩
        · exact ⟨['\r', '\n', '\r', '\n'], heq, List.cons_ne_nil _ _⟩
    · obtain ⟨boundary, heq, hne⟩ := ih hfront
      exact ⟨boundary, congrArg (c :: ·) heq, hne⟩

/-- What is behind the boundary is shorter. -/
theorem execBoundary_length {text frame rest : List Char} (h : execBoundary text = some (frame, rest)) :
    rest.length < text.length := by
  obtain ⟨boundary, rfl, hne⟩ := eq_of_execBoundary h
  have hpos := List.length_pos_iff.mpr hne
  rw [List.length_append, List.length_append]
  omega

/-- The boundary at the start of a text that only more text completes has none behind its first character. -/
theorem execBoundary_of_completed {c : Char} {text more rest : List Char} (hnone : blankLine (c :: text) = none)
    (h : blankLine (c :: (text ++ more)) = some rest) : execBoundary text = none := by
  cases hline : lineBreak (c :: text) with
  | none =>
    -- not even the first line break is complete
    obtain ⟨line, hmore, _⟩ := Option.bind_eq_some_iff.mp h
    rcases of_lineBreak_append hline hmore with heq | heq
    · exact absurd heq (List.cons_ne_nil _ _)
    · rw [(List.cons.inj heq).2]
      rfl
  | some line =>
    have hsecond : lineBreak line = none := by
      rw [blankLine, hline] at hnone
      exact hnone
    have hstart : lineBreak (c :: (text ++ more)) = some (line ++ more) := lineBreak_append more hline
    rw [blankLine, hstart] at h
    -- the second one is missing, or its `\r` is there
    rcases of_lineBreak_append hsecond h with rfl | rfl
    · rcases lineBreak_eq_some.mp hline with heq | heq
      · rw [(List.cons.inj heq).2]
        rfl
      · rw [(List.cons.inj heq).2]
        rfl
    · rcases lineBreak_eq_some.mp hline with heq | heq
      · rw [(List.cons.inj heq).2]
        rfl
      · rw [(List.cons.inj heq).2]
        rfl

/-- More text moves no boundary that is there already. -/
theorem execBoundary_append {text frame rest : List Char} (more : List Char)
    (h : execBoundary text = some (frame, rest)) : execBoundary (text ++ more) = some (frame, rest ++ more) := by
  induction text generalizing frame with
  | nil => exact absurd h (Option.some_ne_none _).symm
  | cons c text ih =>
    rcases execBoundary_cases h with ⟨hblank, rfl⟩ | ⟨hblank, front, hfront, rfl⟩
    · obtain ⟨line, hline, hrest⟩ := Option.bind_eq_some_iff.mp hblank
      refine execBoundary_blank ?_
      rw [blankLine, lineBreak_append more hline]
      exact lineBreak_append more hrest
    · have hstays : blankLine (c :: (text ++ more)) = none := by
        cases hmore : blankLine (c :: (text ++ more)) with
        | none => rfl
        | some behind =>
          rw [execBoundary_of_completed hblank hmore] at hfront
          exact absurd hfront (Option.some_ne_none _).symm
      show execBoundary (c :: (text ++ more)) = some (c :: front, rest ++ more)
      rw [execBoundary_cons hstays, ih hfront]
      rfl

/-- The frames of the stream. -/
def frameCutter : Cutter Char where
  cut := execBoundary
  shrinks := execBoundary_length
  append := execBoundary_append

/-! ## The loop

The buffer is cut at boundaries until there is none. -/

variable {σ : Type}

/-- The calls of `onNotification` for the chunks that `reader.read` gives, with the decoder and the buffer in these
states. `decode` is `decoder.decode(value, { stream: true })`. -/
def consumeNotificationStream (decode : σ → List UInt8 → List Char × σ) :
    σ → List Char → List (List UInt8) → List (List Char)
  | _, _, [] => []
  | decoder, buffer, value :: values =>
    let decoded := decode decoder value
    let drained := frameCutter.drain (buffer ++ decoded.1)
    payloads (drained.1.map splitLines) ++ consumeNotificationStream decode decoded.2 drained.2 values

/-- The calls are those for the frames of the decoded chunks. -/
theorem consume_eq (decode : σ → List UInt8 → List Char × σ) (decoder : σ) (buffer : List Char)
    (values : List (List UInt8)) :
    consumeNotificationStream decode decoder buffer values
      = payloads ((frameCutter.feed buffer (outputs decode decoder values)).map splitLines) := by
  induction values generalizing decoder buffer with
  | nil => rfl
  | cons value values ih =>
    rw [consumeNotificationStream, ih, outputs, Cutter.feed, List.map_append, payloads_append]

/-! ## Lines

A frame is split into lines in the same way as the stream is. -/

/-- A line break ends a line. -/
theorem splitLines_break {text rest : List Char} (h : lineBreak text = some rest) :
    splitLines text = [] :: splitLines rest := by
  rcases lineBreak_eq_some.mp h with rfl | rfl
  · rw [splitLines]
  · rw [splitLines]

/-- Another character belongs to the line. -/
theorem splitLines_cons {c : Char} {text : List Char} (h : lineBreak (c :: text) = none) :
    splitLines (c :: text) = (splitLines text).modifyHead (c :: ·) := by
  rw [splitLines]
  · rintro rest rfl rfl
    exact absurd h.symm (Option.some_ne_none _).symm
  · rintro rfl
    exact absurd h.symm (Option.some_ne_none _).symm

/-- There is a first line. -/
theorem exists_splitLines (text : List Char) : ∃ line lines, splitLines text = line :: lines := by
  induction text using text_induct with
  | hnil => exact ⟨[], [], rfl⟩
  | hbreak text rest h _ => exact ⟨[], splitLines rest, splitLines_break h⟩
  | hcons c text h ih =>
    obtain ⟨line, lines, heq⟩ := ih
    refine ⟨c :: line, lines, ?_⟩
    rw [splitLines_cons h, heq]
    rfl

/-- The first line is only blank at a line break. -/
theorem first_ne_nil {text line : List Char} {lines : List (List Char)} (hne : text ≠ [])
    (h : lineBreak text = none) (heq : splitLines text = line :: lines) : line ≠ [] := by
  cases text with
  | nil => exact absurd rfl hne
  | cons c text =>
    obtain ⟨first, others, hfirst⟩ := exists_splitLines text
    rw [splitLines_cons h, hfirst] at heq
    rw [← (List.cons.inj heq).1]
    exact List.cons_ne_nil _ _

/-- Behind a line break that does not start a boundary the search goes on. -/
theorem execBoundary_break {text next frame rest : List Char} (hline : lineBreak text = some next)
    (hnext : lineBreak next = none) (h : execBoundary text = some (frame, rest)) :
    ∃ front, execBoundary next = some (front, rest) ∧ lineBreak frame = some front := by
  have hblank : blankLine text = none := by
    rw [blankLine, hline]
    exact hnext
  rcases lineBreak_eq_some.mp hline with rfl | rfl
  · rcases execBoundary_cases h with ⟨hsome, _⟩ | ⟨_, front, hfront, rfl⟩
    · exact absurd (hsome.symm.trans hblank) (Option.some_ne_none _)
    · exact ⟨front, hfront, rfl⟩
  · rcases execBoundary_cases h with ⟨hsome, _⟩ | ⟨_, front, hfront, rfl⟩
    · exact absurd (hsome.symm.trans hblank) (Option.some_ne_none _)
    · -- the `\n` of `\r\n` is a line break of its own
      rcases execBoundary_cases hfront with ⟨hsome, _⟩ | ⟨_, behind, hbehind, rfl⟩
      · exact absurd (hsome.symm.trans hnext) (Option.some_ne_none _)
      · exact ⟨behind, hbehind, rfl⟩

/-- And where there is none it has none behind it. -/
theorem execBoundary_break_none {text next : List Char} (hline : lineBreak text = some next)
    (h : execBoundary text = none) : lineBreak next = none ∧ execBoundary next = none := by
  have hblank : blankLine text = none := by
    cases hblank : blankLine text with
    | none => rfl
    | some rest => exact absurd ((execBoundary_blank hblank).symm.trans h) (Option.some_ne_none _)
  have hnext : lineBreak next = none := by
    rw [blankLine, hline] at hblank
    exact hblank
  refine ⟨hnext, ?_⟩
  rcases lineBreak_eq_some.mp hline with rfl | rfl
  · rw [execBoundary_cons hblank, Option.map_eq_none_iff] at h
    exact h
  · have hinner : blankLine ('\n' :: next) = none := hnext
    rw [execBoundary_cons hblank, Option.map_eq_none_iff, execBoundary_cons hinner, Option.map_eq_none_iff] at h
    exact h

/-- The lines of a frame, the blank one and the lines of the rest are those of the text. Only the first line of the
frame may be blank. -/
theorem lines_of_execBoundary {text frame rest : List Char} (h : execBoundary text = some (frame, rest)) :
    ∃ line lines, splitLines frame = line :: lines ∧ [] ∉ lines
      ∧ splitLines text = (line :: lines) ++ [] :: splitLines rest := by
  induction text using text_induct generalizing frame with
  | hnil => exact absurd h (Option.some_ne_none _).symm
  | hbreak text next hline ih =>
    cases hnext : lineBreak next with
    | some behind =>
      have hblank : blankLine text = some behind := by
        rw [blankLine, hline]
        exact hnext
      have hpair := Prod.mk.inj (Option.some.inj ((execBoundary_blank hblank).symm.trans h))
      refine ⟨[], [], hpair.1 ▸ rfl, List.not_mem_nil, ?_⟩
      rw [splitLines_break hline, splitLines_break hnext, hpair.2]
      rfl
    | none =>
      obtain ⟨front, hfront, hframe⟩ := execBoundary_break hline hnext h
      obtain ⟨line, lines, hlines, hmem, htext⟩ := ih hfront
      have hne : next ≠ [] := by
        rintro rfl
        exact absurd hfront (Option.some_ne_none _).symm
      have hfirst : line ≠ [] := first_ne_nil hne hnext htext
      refine ⟨[], line :: lines, ?_, ?_, ?_⟩
      · rw [splitLines_break hframe, hlines]
      · rw [List.mem_cons, not_or]
        exact ⟨hfirst.symm, hmem⟩
      · rw [splitLines_break hline, htext]
        rfl
  | hcons c text hnone ih =>
    have hblank : blankLine (c :: text) = none := by
      rw [blankLine, hnone]
      rfl
    rcases execBoundary_cases h with ⟨hsome, _⟩ | ⟨_, front, hfront, rfl⟩
    · exact absurd (hsome.symm.trans hblank) (Option.some_ne_none _)
    · obtain ⟨line, lines, hlines, hmem, htext⟩ := ih hfront
      have hfirst : lineBreak (c :: front) = none := by
        -- a line break there would be one of the text
        cases hbreak : lineBreak (c :: front) with
        | none => rfl
        | some behind =>
          obtain ⟨boundary, heq, _⟩ := eq_of_execBoundary hfront
          have hmore := lineBreak_append (boundary ++ rest) hbreak
          rw [List.cons_append, ← heq, hnone] at hmore
          exact absurd hmore.symm (Option.some_ne_none _)
      refine ⟨c :: line, lines, ?_, hmem, ?_⟩
      · rw [splitLines_cons hfirst, hlines]
        rfl
      · rw [splitLines_cons hnone, htext]
        rfl

/-- Without a boundary, only the first of the finished lines may be blank. -/
theorem lines_of_not_execBoundary {text : List Char} (h : execBoundary text = none) :
    [] ∉ (splitLines text).dropLast.tail := by
  induction text using text_induct with
  | hnil => exact List.not_mem_nil
  | hbreak text next hline ih =>
    obtain ⟨hnext, hsearch⟩ := execBoundary_break_none hline h
    obtain ⟨line, lines, hlines⟩ := exists_splitLines next
    have htail : (splitLines text).dropLast.tail = (splitLines next).dropLast := by
      rw [splitLines_break hline, hlines]
      rfl
    rw [htail]
    cases lines with
    | nil =>
      rw [hlines]
      exact List.not_mem_nil
    | cons other lines =>
      have hne : next ≠ [] := by
        rintro rfl
        exact absurd (List.cons.inj hlines).2.symm (List.cons_ne_nil _ _)
      have hfirst : line ≠ [] := first_ne_nil hne hnext hlines
      have hrest := ih hsearch
      rw [hlines] at hrest ⊢
      rw [List.dropLast_cons_of_ne_nil (List.cons_ne_nil _ _), List.mem_cons, not_or]
      exact ⟨hfirst.symm, hrest⟩
  | hcons c text hnone ih =>
    have hblank : blankLine (c :: text) = none := by
      rw [blankLine, hnone]
      rfl
    rw [execBoundary_cons hblank, Option.map_eq_none_iff] at h
    obtain ⟨line, lines, hlines⟩ := exists_splitLines text
    have hrest := ih h
    rw [splitLines_cons hnone]
    rw [hlines] at hrest ⊢
    -- only the first line is another one
    cases lines with
    | nil => exact List.not_mem_nil
    | cons other lines => exact hrest

/-! ## What the stream says

The frames that the loop cuts are those of the lines. -/

/-- The lines of the text that are finished, in the runs between blank ones. A run that no blank line ends is left
out. -/
def runsOf (text : List Char) : List (List (List Char)) := ((splitLines text).dropLast.splitOn []).dropLast

/-- The notifications of a whole text: for each run of lines the data in it, if there is some. -/
def events (text : List Char) : List (List Char) := payloads (runsOf text)

theorem dataOf_blank (lines : List (List Char)) : dataOf ([] :: lines) = dataOf lines := rfl

/-- A blank first line is a run of its own. -/
theorem splitOn_run {line : List Char} {lines : List (List Char)} (h : [] ∉ lines) :
    (line :: lines).splitOn [] = if line = [] then [[], lines] else [line :: lines] := by
  rw [List.splitOn_cons_eq_if_modifyHead, List.splitOn_eq_singleton h]
  by_cases hline : line = []
  · rw [if_pos (beq_iff_eq.mpr hline), if_pos hline]
  · rw [if_neg (mt beq_iff_eq.mp hline), if_neg hline]
    rfl

/-- A run of lines gives what the frame with these lines gives, be its first line blank or not. -/
theorem payloads_splitOn {line : List Char} {lines : List (List Char)} (h : [] ∉ lines) :
    payloads ((line :: lines).splitOn []) = payloads [line :: lines] := by
  rw [splitOn_run h]
  by_cases hline : line = []
  · rw [if_pos hline, hline]
    show (dataOf [] :: [dataOf lines]).filter _ = [dataOf ([] :: lines)].filter _
    rw [dataOf_blank]
    rfl
  · rw [if_neg hline]

/-- A frame that is cut off is what the stream says first. -/
theorem events_of_execBoundary {text frame rest : List Char} (h : execBoundary text = some (frame, rest)) :
    events text = payloads [splitLines frame] ++ events rest := by
  obtain ⟨line, lines, hframe, hmem, htext⟩ := lines_of_execBoundary h
  obtain ⟨next, others, hrest⟩ := exists_splitLines rest
  have hne : splitLines rest ≠ [] := by
    rw [hrest]
    exact List.cons_ne_nil _ _
  have hdrop : (splitLines text).dropLast = (line :: lines) ++ [] :: (splitLines rest).dropLast := by
    rw [htext, List.dropLast_append_of_ne_nil (List.cons_ne_nil _ _), List.dropLast_cons_of_ne_nil hne]
  have hruns : runsOf text = (line :: lines).splitOn [] ++ runsOf rest := by
    rw [runsOf, hdrop, List.splitOn_append_cons_self,
      List.dropLast_append_of_ne_nil (List.splitOn_ne_nil _ _)]
    rfl
  rw [events, hruns, payloads_append, payloads_splitOn hmem, hframe]
  rfl

/-- Without a boundary the stream says nothing. -/
theorem events_of_not_execBoundary {text : List Char} (h : execBoundary text = none) : events text = [] := by
  have hmem := lines_of_not_execBoundary h
  rw [events, runsOf]
  cases hlines : (splitLines text).dropLast with
  | nil => rfl
  | cons line lines =>
    rw [hlines] at hmem
    have hrun : (line :: lines).splitOn [] = _ := splitOn_run hmem
    rw [hrun]
    by_cases hline : line = []
    · rw [if_pos hline]
      rfl
    · rw [if_neg hline]
      rfl

/-- **The frames that the loop cuts off are what the stream says.** -/
theorem payloads_drain (text : List Char) :
    payloads ((frameCutter.drain text).1.map splitLines) = events text := by
  induction text using frameCutter.drain_induct with
  | hnone text h =>
    rw [frameCutter.drain_none h, events_of_not_execBoundary h]
    rfl
  | hsome text frame rest h ih =>
    rw [frameCutter.drain_some h, events_of_execBoundary h, ← ih, ← payloads_append]
    rfl

/-! ## Packets

How the bytes are cut into packets does not matter, as what is left over is put in front of the next packet. -/

/-- Whatever chunks the bytes come in, the decoder gives the same text. -/
def ChunkInvariant (decode : σ → List UInt8 → List Char × σ) (decoder : σ) : Prop :=
  ∀ values, (outputs decode decoder values).flatten = (decode decoder values.flatten).1

/-- The calls are what the stream says, in the text that the bytes are decoded to. -/
theorem consume_eq_events (decode : σ → List UInt8 → List Char × σ) (decoder : σ)
    (h : ChunkInvariant decode decoder) (values : List (List UInt8)) :
    consumeNotificationStream decode decoder [] values = events (decode decoder values.flatten).1 := by
  have hempty : frameCutter.cut [] = none := rfl
  rw [consume_eq, frameCutter.feed_eq hempty, List.nil_append, h, payloads_drain]

/-! ## The decoder of the browser

The decoder keeps the bytes of a character that is not complete yet. -/

/-- `TextDecoder` for UTF-8: the code point as far as it is read, how many bytes are missing, the bounds of the next of
them, and whether a first character has been seen. -/
structure TextDecoder where
  codePoint : Nat := 0
  needed : Nat := 0
  lower : Nat := 0x80
  upper : Nat := 0xBF
  bomSeen : Bool := false

namespace TextDecoder

/-- A whole character. A byte order mark at the start is left out. -/
def emit (decoder : TextDecoder) (c : Char) : List Char × TextDecoder :=
  (if decoder.bomSeen = false ∧ c = Char.ofNat 0xFEFF then [] else [c], { bomSeen := true })

def replacement : Char := Char.ofNat 0xFFFD

/-- The first byte of a character. -/
def lead (decoder : TextDecoder) (byte : Nat) : List Char × TextDecoder :=
  if byte ≤ 0x7F then decoder.emit (Char.ofNat byte)
  else if 0xC2 ≤ byte ∧ byte ≤ 0xDF then
    ([], { bomSeen := decoder.bomSeen, codePoint := byte % 0x20, needed := 1 })
  else if 0xE0 ≤ byte ∧ byte ≤ 0xEF then
    ([], { bomSeen := decoder.bomSeen, codePoint := byte % 0x10, needed := 2,
           lower := if byte = 0xE0 then 0xA0 else 0x80, upper := if byte = 0xED then 0x9F else 0xBF })
  else if 0xF0 ≤ byte ∧ byte ≤ 0xF4 then
    ([], { bomSeen := decoder.bomSeen, codePoint := byte % 0x08, needed := 3,
           lower := if byte = 0xF0 then 0x90 else 0x80, upper := if byte = 0xF4 then 0x8F else 0xBF })
  else decoder.emit replacement

/-- One byte. One that does not continue a character replaces what there is of it, and is a first byte itself. -/
def step (decoder : TextDecoder) (value : UInt8) : List Char × TextDecoder :=
  let byte := value.toNat
  if decoder.needed = 0 then decoder.lead byte
  else if byte < decoder.lower ∨ decoder.upper < byte then
    let replaced := decoder.emit replacement
    let next := replaced.2.lead byte
    (replaced.1 ++ next.1, next.2)
  else
    let codePoint := decoder.codePoint * 0x40 + byte % 0x40
    if decoder.needed = 1 then decoder.emit (Char.ofNat codePoint)
    else ([], { bomSeen := decoder.bomSeen, codePoint := codePoint, needed := decoder.needed - 1 })

/-- `decoder.decode(value, { stream: true })` -/
def decode : TextDecoder → List UInt8 → List Char × TextDecoder := Chunks.run step

/-- A character that is cut waits in the decoder for the rest of it. -/
theorem decode_chunkInvariant (decoder : TextDecoder) : ChunkInvariant decode decoder := fun values =>
  run_flatten step decoder values

end TextDecoder

/-- **The calls do not depend on the packets.** Two ways to cut the same bytes give the same calls, those for the bytes
as one chunk: for each run of lines that a blank line ends the data in it, if there is some. -/
theorem packets_irrelevant (decode : σ → List UInt8 → List Char × σ) (decoder : σ)
    (h : ChunkInvariant decode decoder) (values values' : List (List UInt8))
    (hbytes : values.flatten = values'.flatten) :
    consumeNotificationStream decode decoder [] values = consumeNotificationStream decode decoder [] values'
      ∧ consumeNotificationStream decode decoder [] values
        = consumeNotificationStream decode decoder [] [values.flatten]
      ∧ consumeNotificationStream decode decoder [] values = events (decode decoder values.flatten).1 := by
  have hwhole := consume_eq_events decode decoder h values
  refine ⟨?_, ?_, hwhole⟩
  · rw [hwhole, consume_eq_events decode decoder h values', hbytes]
  · rw [hwhole, consume_eq_events decode decoder h [values.flatten], List.flatten_singleton]

/-- `data: é\r\n\r\n`, cut in the character, in the `\r\n` and between the line breaks, against the bytes as one
chunk. -/
theorem packets_irrelevant_cut :
    let values : List (List UInt8) := [[100, 97, 116, 97, 58, 32, 195], [], [169, 13], [10], [13], [10]]
    (values.flatten = [values.flatten].flatten ∧ ChunkInvariant TextDecoder.decode {})
      ∧ consumeNotificationStream TextDecoder.decode {} [] values = [[Char.ofNat 233]]
      ∧ consumeNotificationStream TextDecoder.decode {} [] values
        = consumeNotificationStream TextDecoder.decode {} [] [values.flatten]
      ∧ consumeNotificationStream TextDecoder.decode {} [] values
        = events (TextDecoder.decode {} values.flatten).1 := by
  intro values
  have hinvariant := TextDecoder.decode_chunkInvariant {}
  have hcalls := packets_irrelevant TextDecoder.decode {} hinvariant values [values.flatten]
    List.flatten_singleton.symm
  refine ⟨⟨List.flatten_singleton.symm, hinvariant⟩, ?_, hcalls.2⟩
  rw [hcalls.2.2]
  decide +kernel

end AcaSocial.Frontend
