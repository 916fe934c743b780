import AcaSocial.Discussion.AlikeChildren
import AcaSocial.Discussion.Publication

/-!
# The text of held and hidden posts

What an ordinary reader is told does not depend on text that is not published.

* **`Discussion.SameShown`** — the same post, but for its title, content and moderation note while
  it is not visible and for the contents of its draft. The reader is not the author of a post that
  differs.
* **`Db.SameShown`** — the same store, but for such posts and for what was recorded of them: their
  revisions, their reviews, the events already in the outbox.
* **`Unseen`** — a call responds the same and emits the same events in both stores.

The calls keep stores alike (`serve_alike`), so whole sessions of a reader look the same as well.
-/

namespace AcaSocial

/-- The same post, but for what is not published of it. -/
structure Discussion.SameShown (user : GatewayUser) (p p' : Discussion) : Prop where
  labels : p' = p.disguise p'.title p'.content p'.moderationNote p'.pendingRevision p.authorId
  visible : p.visibility = .visible → p'.title = p.title ∧ p'.content = p.content
    ∧ p'.moderationNote = p.moderationNote
  draft : p'.pendingRevision.isSome = p.pendingRevision.isSome
  other : user.id = some p.authorId → p' = p

/-- The same store, but for what is not published and what was recorded of it. -/
structure Db.SameShown (user : GatewayUser) (s s' : Db) : Prop where
  tables : s' = { s with
    discussions := s'.discussions, revisions := s'.revisions, reviews := s'.reviews,
    outbox := s'.outbox }
  discussions : s.discussions.Alike (Discussion.SameShown user) s'.discussions
  revisions : s.revisions.Alike (fun _ _ => True) s'.revisions
  outbox : s'.outbox.next = s.outbox.next

/-- The events that a call appends to the outbox. -/
def emitted (s : Db) (c : Call) : List OutboxEvent := (s.step c).eventsFrom s.outbox.next

/-- The call responds the same and emits the same in both stores. -/
def Unseen (s s' : Db) (c : Call) : Prop :=
  (serve s' c).result = (serve s c).result ∧ emitted s' c = emitted s c

variable {user : GatewayUser} {s s' : Db}

/-- To someone who is not a moderator such posts look alike. -/
theorem Discussion.SameShown.alike {p p' : Discussion} (hrole : user.isModerator = false)
    (h : p.SameShown user p') : p.Alike false user p' := by
  have hauthor : p'.authorId = p.authorId := by
    rw [h.labels]
    rfl
  have hnone : ¬ user.isModerator = true := Bool.eq_false_iff.mp hrole
  refine ⟨hauthor ▸ h.labels, fun hown => ?_, fun htext => ?_, fun hm => absurd hm hnone, h.draft,
    fun _ => hauthor⟩
  · rw [hauthor, or_self] at hown
    exact h.other hown
  · have hshown := h.visible (htext.resolve_right hnone)
    exact ⟨hshown.1, hshown.2.1⟩

/-- Nothing has been written after the last event. -/
theorem Db.eventsFrom_next (s : Db) : s.eventsFrom s.outbox.next = [] := by
  refine List.filter_eq_nil_iff.mpr fun e he => ?_
  have hlt : e.id < s.outbox.next := s.outbox.fresh e he
  simpa using hlt

/-- Two stores in which a user is shown the same are alike for this user. -/
theorem Db.SameShown.alike (hrole : user.isModerator = false) (h : s.SameShown user s') :
    s.Alike false user s.outbox.next s' := by
  have hnext : s'.eventsFrom s.outbox.next = s.eventsFrom s.outbox.next := by
    rw [s.eventsFrom_next, ← h.outbox, s'.eventsFrom_next]
  have hcomments : s'.comments = s.comments := by rw [h.tables]
  have hanswers : s'.answers = s.answers := by rw [h.tables]
  have hanswerRevisions : s'.answerRevisions = s.answerRevisions := by rw [h.tables]
  have hmemberships : s'.memberships = s.memberships := by rw [h.tables]
  exact {
    discussions := h.discussions.imp fun _ _ hp => hp.alike hrole
    comments := hcomments ▸ .refl .refl _
    answers := hanswers ▸ .refl .refl _
    revisions := h.revisions
    answerRevisions := hanswerRevisions ▸ .refl (fun _ => trivial) _
    media := by rw [h.tables]
    tags := by rw [h.tables]
    discussionTags := by rw [h.tables]
    acceptances := by rw [h.tables]
    votes := by rw [h.tables]
    rooms := by rw [h.tables]
    bindings := by rw [h.tables]
    memberships := fun u _ r => by rw [Db.membership?, hmemberships, Db.membership?]
    outbox := h.outbox
    started := Nat.le_refl _
    events := fun _ => hnext }

/-- The first events of two lists of later ones. -/
theorem Db.Alike.eventsFrom {since : Id} (h : s.Alike false user since s') {t : Id} (ht : since ≤ t) :
    s'.eventsFrom t = s.eventsFrom t := by
  have hlater : ∀ s : Db, s.eventsFrom t = (s.eventsFrom since).filter fun e => decide (t ≤ e.id) := by
    intro s
    unfold Db.eventsFrom Table.select
    rw [List.filter_filter]
    refine List.filter_congr fun e _ => ?_
    by_cases hle : t ≤ e.id
    · simp [hle, ht.trans hle]
    · simp [hle]
  rw [hlater s, hlater s', h.events rfl]

/-- A call of a reader to whom the stores look alike. -/
theorem unseen_of_alike {since : Id} {c : Call} (h : s.Alike false c.user since s')
    (hrole : c.user.isModerator = false) (hcontent : c.operation.isContent = true) :
    Unseen s s' c ∧ (s.step c).Alike false c.user since (s'.step c) := by
  have hway : SameWay s s' c := by
    unfold SameWay
    split
    · exact h.editWay_congr _ _ fun hm => absurd hm (Bool.eq_false_iff.mp hrole)
    · trivial
  have hserved := serve_alike h hcontent hway fun hmasks => (by cases hmasks)
  refine ⟨⟨hserved.result.symm, ?_⟩, hserved.state⟩
  unfold emitted
  rw [h.outbox]
  exact hserved.state.eventsFrom h.started

/-- No read and no operation on discussions, answers, comments or votes tells a reader anything
about text that is not published. -/
theorem hiddenText_unseen {c : Call} (h : s.SameShown c.user s')
    (hrole : c.user.isModerator = false) (hcontent : c.operation.isContent = true) :
    Unseen s s' c :=
  (unseen_of_alike (h.alike hrole) hrole hcontent).1

/-- Nor does any session of such calls. -/
theorem hiddenText_unseen_run (h : s.SameShown user s') (hrole : user.isModerator = false)
    {calls : List Call} (hcalls : ∀ c ∈ calls, c.user = user ∧ c.operation.isContent = true) :
    Meets (fun (p : Db × Db) c => (p.1.step c, p.2.step c)) (fun p c => Unseen p.1 p.2 c) (s, s')
      calls := by
  have halike := h.alike hrole
  generalize s.outbox.next = since at halike
  clear h
  induction calls generalizing s s' with
  | nil => trivial
  | cons c cs ih =>
    obtain ⟨rfl, hcontent⟩ := hcalls c List.mem_cons_self
    have hstep := unseen_of_alike halike hrole hcontent
    exact ⟨hstep.1, ih (fun c' hc' => hcalls c' (List.mem_cons_of_mem c hc')) hstep.2⟩

namespace Sample

/-- Student `1` asks under a title of their own choice. -/
def askOf (title content : String) : Call := call 1 (student 1) (.discussions (.create
  { roomId := Id.text 0, title := title, content := content, postType := .question }))

/-- A question that waits for approval. -/
def held (title content : String) : Db := Db.after [moderatedForum, askOf title content]

/-- Student `3` searches for a word of the text that waits. -/
def search : Call := call 2 (student 3) (.discussions (.findAll { search := some "planar" }))

end Sample

/-- Two texts waiting for review answer a search in the same way, here with a word of the first one. -/
theorem hiddenText_unseen_search :
    Unseen (Sample.held "Why is this graph planar?" "I do not see a drawing without a crossing.")
      (Sample.held "Where is the library?" "I have not found it on the map of the campus.")
      Sample.search := by
  refine hiddenText_unseen (c := Sample.search) ⟨rfl, ?_, ?_, rfl⟩ rfl rfl
  · refine ⟨.cons ⟨rfl, ⟨rfl, fun h => ?_, rfl, fun h => ?_⟩⟩ .nil, rfl⟩
    · cases h
    · cases h
  · exact .cons ⟨rfl, trivial⟩ .nil

end AcaSocial
