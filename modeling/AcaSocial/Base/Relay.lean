import Mathlib.Logic.Relation
import Mathlib.Data.List.Perm.Basic
import Mathlib.Data.List.Nodup
import Mathlib.Tactic.Common

/-!
# Relays

What is entered in a log is copied to a channel, and a receiver takes it from there. The sender may copy an entry any
number of times, and the channel may deliver a copy any number of times. The receiver keeps an account of what it has
accepted, and it accepts nothing twice.

* **`Relay`** — the log, what the sender has marked as sent, the channel, the copies in it that are settled, and the
  account of the receiver.
* **`Relay.Step`** — what the parties may do.
* **`Relay.Sound`** — what holds in every state that they reach.

`Sound.owed` says where an entry is that has not been accepted yet, and `Sound.perm` what the account is when nothing is
left to do: the wanted entries of the log, each of them once.
-/

namespace AcaSocial

structure Relay (ε : Type) where
  log : List ε
  /-- The entries that the sender will not copy again. -/
  sent : List ε
  channel : List ε
  /-- The positions of the channel that are not delivered again. -/
  settled : List Nat
  accepted : List ε

namespace Relay

variable {ε : Type}

/-- Nothing has been entered. -/
def init : Relay ε := ⟨[], [], [], [], []⟩

/-- What the parties may do. The receiver accepts the entries that are `wanted`, and settles the others at once. -/
inductive Step (wanted : ε → Prop) (r : Relay ε) : Relay ε → Prop where
  | append (es : List ε) : Step wanted r { r with log := r.log ++ es }
  | copy (e : ε) (he : e ∈ r.log) : Step wanted r { r with channel := r.channel ++ [e] }
  | mark (e : ε) (he : e ∈ r.channel) : Step wanted r { r with sent := e :: r.sent }
  | accept (e : ε) (he : e ∈ r.channel) (hw : wanted e) (hnew : e ∉ r.accepted) :
      Step wanted r { r with accepted := r.accepted ++ [e] }
  | settle (i : Nat) (e : ε) (hi : r.channel[i]? = some e) (hdone : wanted e → e ∈ r.accepted) :
      Step wanted r { r with settled := i :: r.settled }

/-- What holds in every state of a relay. -/
structure Sound (wanted : ε → Prop) (r : Relay ε) : Prop where
  channel : ∀ e ∈ r.channel, e ∈ r.log
  sent : ∀ e ∈ r.sent, e ∈ r.channel
  accepted : ∀ e ∈ r.accepted, e ∈ r.channel ∧ wanted e
  nodup : r.accepted.Nodup
  settled : ∀ i ∈ r.settled, ∃ e, r.channel[i]? = some e ∧ (wanted e → e ∈ r.accepted)

variable {wanted : ε → Prop} {r r' : Relay ε}

/-- Nothing has been sent in the beginning. -/
theorem Sound.init : Sound wanted (init : Relay ε) where
  channel _ he := absurd he List.not_mem_nil
  sent _ he := absurd he List.not_mem_nil
  accepted _ he := absurd he List.not_mem_nil
  nodup := .nil
  settled _ hi := absurd hi List.not_mem_nil

/-- **One step.** -/
theorem Sound.step (h : Sound wanted r) (hstep : Step wanted r r') : Sound wanted r' := by
  cases hstep with
  | append es => exact { h with channel := fun e he => List.mem_append_left es (h.channel e he) }
  | copy e he =>
    have hmore : ∀ e' ∈ r.channel, e' ∈ r.channel ++ [e] := fun e' he' => List.mem_append_left [e] he'
    refine { h with channel := ?_, sent := ?_, accepted := ?_, settled := ?_ }
    · intro e' he'
      rcases List.mem_append.mp he' with he' | he'
      · exact h.channel e' he'
      · exact List.mem_singleton.mp he' ▸ he
    · exact fun e' he' => hmore e' (h.sent e' he')
    · exact fun e' he' => ⟨hmore e' (h.accepted e' he').1, (h.accepted e' he').2⟩
    · intro i hi
      -- the copies that were there stay where they were
      obtain ⟨e', he', hdone⟩ := h.settled i hi
      exact ⟨e', List.getElem?_append_left (List.getElem?_eq_some_iff.mp he').1 ▸ he', hdone⟩
  | mark e he =>
    refine { h with sent := ?_ }
    intro e' he'
    rcases List.mem_cons.mp he' with rfl | he'
    · exact he
    · exact h.sent e' he'
  | accept e he hw hnew =>
    refine { h with accepted := ?_, nodup := ?_, settled := ?_ }
    · intro e' he'
      rcases List.mem_append.mp he' with he' | he'
      · exact h.accepted e' he'
      · rw [List.mem_singleton.mp he']
        exact ⟨he, hw⟩
    · exact List.nodup_append.mpr ⟨h.nodup, List.pairwise_singleton _ _, fun a ha b hb hab =>
        hnew (List.mem_singleton.mp hb ▸ hab ▸ ha)⟩
    · intro i hi
      obtain ⟨e', he', hdone⟩ := h.settled i hi
      exact ⟨e', he', fun hw' => List.mem_append_left [e] (hdone hw')⟩
  | settle i e hi hdone =>
    refine { h with settled := ?_ }
    intro j hj
    rcases List.mem_cons.mp hj with rfl | hj
    · exact ⟨e, hi, hdone⟩
    · exact h.settled j hj

/-- **Every run.** -/
theorem Sound.steps (h : Sound wanted r) (hsteps : Relation.ReflTransGen (Step wanted) r r') : Sound wanted r' := by
  induction hsteps with
  | refl => exact h
  | tail _ hstep ih => exact ih.step hstep

/-- Entries that are in the channel may be marked one after the other. -/
theorem steps_mark (es : List ε) (h : ∀ e ∈ es, e ∈ r.channel) :
    Relation.ReflTransGen (Step wanted) r { r with sent := es ++ r.sent } := by
  induction es with
  | nil => exact .refl
  | cons e es ih =>
    have hrest := ih fun e' he' => h e' (List.mem_cons_of_mem e he')
    exact hrest.tail (.mark e (h e List.mem_cons_self))

/-- **Nothing is lost.** A wanted entry that has not been accepted is still to be sent, or the channel holds it and will
deliver it. -/
theorem Sound.owed (h : Sound wanted r) {e : ε} (hw : wanted e) (hnot : e ∉ r.accepted) :
    e ∉ r.sent ∨ ∃ i, r.channel[i]? = some e ∧ i ∉ r.settled := by
  by_cases hsent : e ∈ r.sent
  · obtain ⟨i, hi⟩ := List.mem_iff_getElem?.mp (h.sent e hsent)
    refine .inr ⟨i, hi, fun hsettled => ?_⟩
    obtain ⟨e', he', hdone⟩ := h.settled i hsettled
    rw [hi] at he'
    cases he'
    exact hnot (hdone hw)
  · exact .inl hsent

/-- **Exactly once.** When every entry has been sent and every copy is settled, the receiver has accepted the wanted
entries, each of them once. -/
theorem Sound.perm [DecidablePred wanted] (h : Sound wanted r) (hlog : r.log.Nodup) (hsent : ∀ e ∈ r.log, e ∈ r.sent)
    (hsettled : ∀ i < r.channel.length, i ∈ r.settled) : r.accepted.Perm (r.log.filter fun e => decide (wanted e)) := by
  refine (List.perm_ext_iff_of_nodup h.nodup (hlog.filter _)).mpr fun e => ?_
  constructor
  · intro he
    obtain ⟨hchannel, hw⟩ := h.accepted e he
    exact List.mem_filter.mpr ⟨h.channel e hchannel, decide_eq_true hw⟩
  · intro he
    obtain ⟨helog, hw⟩ := List.mem_filter.mp he
    by_contra hnot
    rcases h.owed (of_decide_eq_true hw) hnot with hunsent | ⟨i, hi, hunsettled⟩
    · exact hunsent (hsent e helog)
    · exact hunsettled (hsettled i (List.getElem?_eq_some_iff.mp hi).1)

end Relay

end AcaSocial
