import Mathlib.Tactic.Common

/-!
# Texts that arrive in chunks

What arrives is put behind what is left, and frames are cut off the front as long as there is one.

* **`Cutter`** — cuts the first frame off a text, and the same frame off when more text follows.
* **`Cutter.feed`** — the frames of a text that arrives in chunks.
* **`Cutter.feed_eq`** — they are the frames of the whole text, wherever it was cut.
* **`run_flatten`** — a decoder that goes from one input to the next does not see the chunks either.
-/

namespace AcaSocial.Chunks

/-! ## Frames

What a cutter finds in a text: the frames in their order, and the rest that is not complete yet. -/

/-- Cuts a text into its first frame and the rest, and finds none in a text without an end of a frame. -/
structure Cutter (α : Type) where
  cut : List α → Option (List α × List α)
  shrinks : ∀ {text frame rest}, cut text = some (frame, rest) → rest.length < text.length
  append : ∀ {text frame rest} (more : List α),
    cut text = some (frame, rest) → cut (text ++ more) = some (frame, rest ++ more)

namespace Cutter

/-- The frames of a text, and what is left behind the last of them. -/
def drain {α : Type} (c : Cutter α) (text : List α) : List (List α) × List α :=
  match _h : c.cut text with
  | none => ([], text)
  | some (frame, rest) => (frame :: (c.drain rest).1, (c.drain rest).2)
termination_by text.length
decreasing_by all_goals exact c.shrinks _h

variable {α : Type} (c : Cutter α)

/-- A text without a complete frame stays as it is. -/
theorem drain_none {text : List α} (h : c.cut text = none) : c.drain text = ([], text) := by
  rw [drain]
  split
  · rfl
  · next hcut => exact absurd (h.symm.trans hcut) (Option.some_ne_none _).symm

/-- Otherwise the first frame is taken, and the rest is drained. -/
theorem drain_some {text frame rest : List α} (h : c.cut text = some (frame, rest)) :
    c.drain text = (frame :: (c.drain rest).1, (c.drain rest).2) := by
  rw [drain]
  split
  · next hcut => exact absurd (hcut.symm.trans h) (Option.some_ne_none _).symm
  · next hcut =>
    have hpair := Option.some.inj (hcut.symm.trans h)
    rw [(Prod.mk.inj hpair).1, (Prod.mk.inj hpair).2]

/-- A property of texts that holds when there is no frame, and of a text when it holds of the rest. -/
theorem drain_induct {P : List α → Prop} (hnone : ∀ text, c.cut text = none → P text)
    (hsome : ∀ text frame rest, c.cut text = some (frame, rest) → P rest → P text) (text : List α) : P text := by
  induction h : text.length using Nat.strongRecOn generalizing text with
  | ind n ih =>
    cases hcut : c.cut text with
    | none => exact hnone text hcut
    | some pair =>
      have hlen := c.shrinks hcut
      exact hsome text _ _ hcut (ih _ (h ▸ hlen) _ rfl)

/-- There is no frame in what is left. -/
theorem cut_drain (text : List α) : c.cut (c.drain text).2 = none := by
  induction text using c.drain_induct with
  | hnone text h =>
    rw [c.drain_none h]
    exact h
  | hsome text frame rest h ih =>
    rw [c.drain_some h]
    exact ih

/-- More text gives the frames that are there already, and then those of what was left with it. -/
theorem drain_append (text more : List α) :
    c.drain (text ++ more)
      = ((c.drain text).1 ++ (c.drain ((c.drain text).2 ++ more)).1, (c.drain ((c.drain text).2 ++ more)).2) := by
  induction text using c.drain_induct with
  | hnone text h => rw [c.drain_none h, List.nil_append]
  | hsome text frame rest h ih =>
    rw [c.drain_some h, c.drain_some (c.append more h), ih]
    rfl

/-- The frames of a text that arrives in chunks, with `buffer` left of earlier ones. -/
def feed (buffer : List α) : List (List α) → List (List α)
  | [] => []
  | chunk :: rest => (c.drain (buffer ++ chunk)).1 ++ feed (c.drain (buffer ++ chunk)).2 rest

/-- The frames are those of the whole text. -/
theorem feed_eq {buffer : List α} (hbuffer : c.cut buffer = none) (chunks : List (List α)) :
    c.feed buffer chunks = (c.drain (buffer ++ chunks.flatten)).1 := by
  induction chunks generalizing buffer with
  | nil =>
    rw [List.flatten_nil, List.append_nil, c.drain_none hbuffer]
    rfl
  | cons chunk rest ih =>
    -- what the first chunk leaves has no frame, and so the rest starts like the whole
    rw [feed, ih (c.cut_drain _), List.flatten_cons, ← List.append_assoc, c.drain_append (buffer ++ chunk)]

end Cutter

/-! ## Decoders

A decoder with a state reads two parts of the input as it reads them joined. -/

variable {σ α β : Type} (step : σ → α → List β × σ)

/-- What a machine puts out for a list of inputs, and its state behind them. -/
def run : σ → List α → List β × σ
  | s, [] => ([], s)
  | s, a :: rest => ((step s a).1 ++ (run (step s a).2 rest).1, (run (step s a).2 rest).2)

/-- What is read along two inputs is what is read along one after the other. -/
theorem run_append (s : σ) (as bs : List α) :
    run step s (as ++ bs)
      = ((run step s as).1 ++ (run step (run step s as).2 bs).1, (run step (run step s as).2 bs).2) := by
  induction as generalizing s with
  | nil => rfl
  | cons a as ih =>
    show ((step s a).1 ++ (run step (step s a).2 (as ++ bs)).1, (run step (step s a).2 (as ++ bs)).2) = _
    rw [ih, ← List.append_assoc]
    rfl

/-- What a decoder with a state puts out for each chunk. -/
def outputs (decode : σ → List α → List β × σ) : σ → List (List α) → List (List β)
  | _, [] => []
  | s, chunk :: rest => (decode s chunk).1 :: outputs decode (decode s chunk).2 rest

/-- Together the outputs are the output for all chunks as one. -/
theorem run_flatten (s : σ) (chunks : List (List α)) :
    (outputs (run step) s chunks).flatten = (run step s chunks.flatten).1 := by
  induction chunks generalizing s with
  | nil => rfl
  | cons chunk rest ih =>
    rw [outputs, List.flatten_cons, List.flatten_cons, ih, run_append]

end AcaSocial.Chunks
