import AcaSocial.Base.TwoRuns
import AcaSocial.Discussion.Service

/-!
# Stores that look alike to a viewer

Two stores that differ only in what a viewer is not meant to see.

* **`Discussion.Alike`** — the same post, but for its text while it is not published, its draft and
  its moderation note, and, if `masks` allows it, its author while it is anonymous. The viewer's
  own posts are the same, and a moderator sees all text.
* **`Authored.Alike`** — the same comment or answer, but for the author of an anonymous one.
* **`Db.Alike`** — the same tables, but for such rows, what was recorded of them earlier, and the
  memberships of other users.

The writes of the services keep stores alike, and what is read of alike stores is the same. When
`masks` is off, the events from `since` on are the same as well.
-/

namespace AcaSocial

variable {masks : Bool} {user : GatewayUser} {since : Id}

/-! ## Posts

Two posts that the viewer cannot tell apart: the same row but for a masked author and a text that the viewer does not
see. -/

/-- The post with other text and another author. -/
def Discussion.disguise (p : Discussion) (title content note : String)
    (draft : Option PendingRevision) (author : Id) : Discussion :=
  { p with title, content, moderationNote := note, pendingRevision := draft, authorId := author }

/-- The same post, but for what the viewer is not shown of it. -/
structure Discussion.Alike (masks : Bool) (user : GatewayUser) (p p' : Discussion) : Prop where
  labels : p' = p.disguise p'.title p'.content p'.moderationNote p'.pendingRevision p'.authorId
  own : user.id = some p.authorId ∨ user.id = some p'.authorId → p' = p
  text : p.visibility = .visible ∨ user.isModerator → p'.title = p.title ∧ p'.content = p.content
  note : user.isModerator → p'.moderationNote = p.moderationNote
    ∧ p'.pendingRevision = p.pendingRevision
  draft : p'.pendingRevision.isSome = p.pendingRevision.isSome
  author : masks = false ∨ p.isAnonymous = false → p'.authorId = p.authorId

namespace Discussion.Alike

variable {p p' : Discussion}

theorem refl (p : Discussion) : p.Alike masks user p :=
  ⟨rfl, fun _ => rfl, fun _ => ⟨rfl, rfl⟩, fun _ => ⟨rfl, rfl⟩, rfl, fun _ => rfl⟩

theorem id (h : p.Alike masks user p') : p'.id = p.id := by rw [h.labels]; rfl

theorem status (h : p.Alike masks user p') : p'.status = p.status := by
  rw [h.labels]; rfl

theorem postType (h : p.Alike masks user p') : p'.postType = p.postType := by
  rw [h.labels]; rfl

theorem roomId (h : p.Alike masks user p') : p'.roomId = p.roomId := by
  rw [h.labels]; rfl

theorem contentVersion (h : p.Alike masks user p') : p'.contentVersion = p.contentVersion := by
  rw [h.labels]; rfl

theorem acceptedAnswerId (h : p.Alike masks user p') : p'.acceptedAnswerId = p.acceptedAnswerId := by
  rw [h.labels]; rfl

theorem acceptedCommentId (h : p.Alike masks user p') :
    p'.acceptedCommentId = p.acceptedCommentId := by
  rw [h.labels]; rfl

theorem deletedAt (h : p.Alike masks user p') : p'.deletedAt = p.deletedAt := by
  rw [h.labels]; rfl

theorem approved (h : p.Alike masks user p') : approved p' = approved p := by
  rw [h.labels]; rfl

/-- The viewer is the author of both or of none. -/
theorem isAuthor (h : p.Alike masks user p') :
    user.id = some p'.authorId ↔ user.id = some p.authorId := by
  constructor
  · intro hu
    rw [← h.own (.inr hu)]
    exact hu
  · intro hu
    rw [h.own (.inl hu)]
    exact hu

theorem canManage (h : p.Alike masks user p') :
    canManage p'.authorId user = canManage p.authorId user := by
  unfold AcaSocial.canManage
  exact decide_eq_decide.mpr (and_congr_right fun _ => or_congr_left h.isAuthor)

theorem authorId_eq_iff (h : p.Alike masks user p') {u : Id} (hu : user.id = some u) :
    p'.authorId = u ↔ p.authorId = u := by
  have hauthor := h.isAuthor
  rw [hu, Option.some_inj, Option.some_inj] at hauthor
  exact eq_comm.trans (hauthor.trans eq_comm)

/-- A change of other columns, with the texts and the author kept. -/
theorem frame (h : p.Alike masks user p') {f : Discussion → Discussion}
    (hf : ∀ t c n d a, f (p.disguise t c n d a) = (f p).disguise t c n d a)
    (hvisible : (f p).visibility = p.visibility) (hanonymous : (f p).isAnonymous = p.isAnonymous) :
    (f p).Alike masks user (f p') := by
  have hp : f p = (f p).disguise p.title p.content p.moderationNote p.pendingRevision p.authorId :=
    hf p.title p.content p.moderationNote p.pendingRevision p.authorId
  have hp' : f p' = (f p).disguise p'.title p'.content p'.moderationNote p'.pendingRevision
      p'.authorId := by
    conv => lhs; rw [h.labels]
    exact hf _ _ _ _ _
  have htitle : (f p).title = p.title := by rw [hp]; rfl
  have hcontent : (f p).content = p.content := by rw [hp]; rfl
  have hnote : (f p).moderationNote = p.moderationNote := by rw [hp]; rfl
  have hdraft : (f p).pendingRevision = p.pendingRevision := by
    rw [hp]; rfl
  have hauthor : (f p).authorId = p.authorId := by rw [hp]; rfl
  refine ⟨?_, fun hown => ?_, fun htext => ?_, fun hmoderator => ?_, ?_, fun hmask => ?_⟩
  · rw [hp']
    rfl
  · rw [hauthor, hp'] at hown
    rw [h.own hown]
  · rw [hp', htitle, hcontent]
    exact h.text (hvisible ▸ htext)
  · rw [hp', hnote, hdraft]
    exact h.note hmoderator
  · rw [hp', hdraft]
    exact h.draft
  · rw [hp', hauthor]
    exact h.author (hanonymous ▸ hmask)

end Discussion.Alike

/-! ## Comments and answers

Comments and answers are alike when they are the same row but for a masked author. -/

/-- Rows that have an author and may be anonymous. -/
class Authored (ρ : Type) where
  authorId : ρ → Id
  isAnonymous : ρ → Bool
  /-- The row with another author. -/
  signed : ρ → Id → ρ
  authorId_signed : ∀ r a, authorId (signed r a) = a
  signed_authorId : ∀ r, signed r (authorId r) = r

instance : Authored Comment where
  authorId := Comment.authorId
  isAnonymous := Comment.isAnonymous
  signed c author := { c with authorId := author }
  authorId_signed _ _ := rfl
  signed_authorId _ := rfl

instance : Authored Answer where
  authorId := Answer.authorId
  isAnonymous := Answer.isAnonymous
  signed a author := { a with authorId := author }
  authorId_signed _ _ := rfl
  signed_authorId _ := rfl

/-- The same row, but for the author of an anonymous one. -/
structure Authored.Alike {ρ : Type} [Authored ρ] (masks : Bool) (user : GatewayUser) (r r' : ρ) :
    Prop where
  labels : r' = signed r (authorId r')
  own : user.id = some (authorId r) ∨ user.id = some (authorId r') → r' = r
  author : masks = false ∨ isAnonymous r = false → authorId r' = authorId r

namespace Authored.Alike

variable {ρ : Type} [Authored ρ] {r r' : ρ}

theorem refl (r : ρ) : Authored.Alike masks user r r :=
  ⟨(signed_authorId r).symm, fun _ => rfl, fun _ => rfl⟩

theorem isAuthor (h : Authored.Alike masks user r r') :
    user.id = some (authorId r') ↔ user.id = some (authorId r) := by
  constructor
  · intro hu
    rw [← h.own (.inr hu)]
    exact hu
  · intro hu
    rw [h.own (.inl hu)]
    exact hu

theorem canManage (h : Authored.Alike masks user r r') :
    canManage (authorId r') user = canManage (authorId r) user := by
  unfold AcaSocial.canManage
  exact decide_eq_decide.mpr (and_congr_right fun _ => or_congr_left h.isAuthor)

theorem authorId_eq_iff (h : Authored.Alike masks user r r') {u : Id} (hu : user.id = some u) :
    authorId r' = u ↔ authorId r = u := by
  have hauthor := h.isAuthor
  rw [hu, Option.some_inj, Option.some_inj] at hauthor
  exact eq_comm.trans (hauthor.trans eq_comm)

/-- A change of other columns, after which the row is still anonymous if it was and its author
differs. -/
theorem frame_keep (h : Authored.Alike masks user r r') {f : ρ → ρ}
    (hf : ∀ r a, f (signed r a) = signed (f r) a)
    (hkeep : masks = true → isAnonymous r = true → isAnonymous (f r) = false →
      authorId r' = authorId r) :
    Authored.Alike masks user (f r) (f r') := by
  have hauthor : authorId (f r) = authorId r := by
    rw [← authorId_signed (f r) (authorId r), ← hf, signed_authorId]
  have hr' : f r' = signed (f r) (authorId r') := by
    conv => lhs; rw [h.labels]
    exact hf _ _
  have hauthor' : authorId (f r') = authorId r' := by rw [hr', authorId_signed]
  refine ⟨?_, fun hown => ?_, fun hmask => ?_⟩
  · rw [hauthor', hr']
  · rw [hauthor, hauthor'] at hown
    rw [h.own hown]
  · rw [hauthor, hauthor']
    cases hm : masks with
    | false => exact h.author (.inl hm)
    | true =>
      have hshown := hmask.resolve_left (by rw [hm]; exact Bool.noConfusion)
      cases hanonymous : isAnonymous r with
      | false => exact h.author (.inr hanonymous)
      | true => exact hkeep hm hanonymous hshown

theorem frame (h : Authored.Alike masks user r r') {f : ρ → ρ}
    (hf : ∀ r a, f (signed r a) = signed (f r) a)
    (hanonymous : isAnonymous (f r) = isAnonymous r) :
    Authored.Alike masks user (f r) (f r') :=
  h.frame_keep hf fun _ hmask hshown => (by cases hmask.symm.trans (hanonymous.symm.trans hshown))

end Authored.Alike

abbrev Comment.Alike (masks : Bool) (user : GatewayUser) (c c' : Comment) : Prop :=
  Authored.Alike masks user c c'

abbrev Answer.Alike (masks : Bool) (user : GatewayUser) (a a' : Answer) : Prop :=
  Authored.Alike masks user a a'

/-- What the relation leaves alone in a comment. -/
theorem Comment.Alike.labels {c c' : Comment} (h : c.Alike masks user c') :
    c' = { c with authorId := c'.authorId } := Authored.Alike.labels h

theorem Answer.Alike.labels {a a' : Answer} (h : a.Alike masks user a') :
    a' = { a with authorId := a'.authorId } := Authored.Alike.labels h

/-! ## Stores

The stores that a viewer cannot tell apart. The tables with the authors of others may differ, the rest is the same. -/

/-- The events from `since` on. -/
def Db.eventsFrom (s : Db) (since : Id) : List OutboxEvent :=
  s.outbox.select fun e => decide (since ≤ e.id)

/-- The same tables, but for what the viewer is not shown. -/
structure Db.Alike (masks : Bool) (user : GatewayUser) (since : Id) (s s' : Db) : Prop where
  discussions : s.discussions.Alike (Discussion.Alike masks user) s'.discussions
  comments : s.comments.Alike (Comment.Alike masks user) s'.comments
  answers : s.answers.Alike (Answer.Alike masks user) s'.answers
  revisions : s.revisions.Alike (fun _ _ => True) s'.revisions
  answerRevisions : s.answerRevisions.Alike (fun _ _ => True) s'.answerRevisions
  media : s'.media = s.media
  tags : s'.tags = s.tags
  discussionTags : s'.discussionTags = s.discussionTags
  acceptances : s'.acceptances = s.acceptances
  votes : s'.votes = s.votes
  rooms : s'.rooms = s.rooms
  bindings : s'.bindings = s.bindings
  memberships : ∀ u, user.id = some u → ∀ r, s'.membership? r u = s.membership? r u
  outbox : s'.outbox.next = s.outbox.next
  started : since ≤ s.outbox.next
  events : masks = false → s'.eventsFrom since = s.eventsFrom since

namespace Db.Alike

variable {s s' : Db}

/-! ### Lookups

What is found by an id is found alike. -/

/-- A lookup by id finds alike posts in both stores. -/
theorem post? (h : s.Alike masks user since s') (i : Id) :
    Option.Rel (Discussion.Alike masks user) (s.post? i) (s'.post? i) :=
  filter_congr (h.discussions.rows.get? i) fun _ _ hp => by rw [hp.deletedAt]

/-- A lookup by id finds alike comments in both stores. -/
theorem comment? (h : s.Alike masks user since s') (i : Id) :
    Option.Rel (Comment.Alike masks user) (s.comment? i) (s'.comment? i) :=
  filter_congr (h.comments.rows.get? i) fun _ _ hc => by rw [Comment.Alike.labels hc]

/-- A lookup by id finds alike answers in both stores. -/
theorem answer? (h : s.Alike masks user since s') (i : Id) :
    Option.Rel (Answer.Alike masks user) (s.answer? i) (s'.answer? i) :=
  filter_congr (h.answers.rows.get? i) fun _ _ ha => by rw [Answer.Alike.labels ha]

/-! ### Rooms

The rooms and the viewer's own memberships are the same, so that a room answers the viewer alike. -/

theorem room? (h : s.Alike masks user since s') (r : Id) : s'.room? r = s.room? r := by
  unfold Db.room?
  rw [h.rooms]

/-- What the viewer is in a room. -/
theorem membership (h : s.Alike masks user since s') (r : Id) :
    user.id.bind (s'.membership? r) = user.id.bind (s.membership? r) := by
  cases hu : user.id with
  | none => rfl
  | some u => exact h.memberships u hu r

/-- A room is visible in both stores or in none. -/
theorem requireVisible (h : s.Alike masks user since s') (r : Option Id) :
    RoomsService.requireVisible s' r user = RoomsService.requireVisible s r user := by
  cases r with
  | none => rfl
  | some r => simp only [RoomsService.requireVisible, RoomsService.findOne, h.room?, h.membership]

/-- The room answers alike to a viewer who is not one of the two authors. -/
theorem assertCanPost (h : s.Alike masks user since s') (w : World) (r : Id) :
    RoomsService.assertCanPost w s' r user = RoomsService.assertCanPost w s r user := by
  unfold RoomsService.assertCanPost
  cases hu : user.id with
  | none => simp only [authenticated, hu]; rfl
  | some u =>
    simp only [authenticated, hu, orThrow_some, ok_bind, h.room?, h.memberships u hu,
      Db.binding?, h.bindings]

theorem assertCanPostTo (h : s.Alike masks user since s') (w : World) (r : Option Id) :
    RoomsService.assertCanPostTo w s' r user = RoomsService.assertCanPostTo w s r user := by
  cases r with
  | none => rfl
  | some r => simp only [RoomsService.assertCanPostTo, h.assertCanPost]

/-- The memberships of the viewer after a row is inserted for one user in both stores. -/
theorem autoJoin (h : s.Alike masks user since s') (r u : Id) :
    (RoomsService.autoJoin s r u).Alike masks user since (RoomsService.autoJoin s' r u) := by
  refine { h with memberships := fun v hv r' => ?_ }
  have hold : s'.memberships.get? (r', v) = s.memberships.get? (r', v) := h.memberships v hv r'
  show (RoomsService.autoJoined s' r u).get? (r', v) = (RoomsService.autoJoined s r u).get? (r', v)
  unfold RoomsService.autoJoined
  rw [h.room?]
  split
  · rw [Table.get?_insert, Table.get?_insert, hold]
  · exact hold

theorem autoJoinTo (h : s.Alike masks user since s') (r : Option Id) (u : Id) :
    (RoomsService.autoJoinTo s r u).Alike masks user since (RoomsService.autoJoinTo s' r u) := by
  cases r with
  | none => exact h
  | some r => exact h.autoJoin r u

/-- The memberships of the viewer when two others join. -/
theorem autoJoinTo_of_ne (h : s.Alike masks user since s') (r : Option Id) {u u' : Id}
    (hu : user.id ≠ some u) (hu' : user.id ≠ some u') :
    (RoomsService.autoJoinTo s r u).Alike masks user since (RoomsService.autoJoinTo s' r u') := by
  cases r with
  | none => exact h
  | some r =>
    refine { h with memberships := fun v hv r' => ?_ }
    have hold : s'.memberships.get? (r', v) = s.memberships.get? (r', v) := h.memberships v hv r'
    have hother : ∀ (s : Db) {u : Id}, user.id ≠ some u →
        (RoomsService.autoJoined s r u).get? (r', v) = s.memberships.get? (r', v) := by
      intro s u hu
      unfold RoomsService.autoJoined
      split
      · have hne : (r, u) ≠ (r', v) := by
          rintro he
          exact hu (hv.trans (congrArg (fun k : Id × Id => some k.2) he.symm))
        rw [Table.get?_insert, if_neg hne]
      · rfl
    exact (hother s' hu').trans (hold.trans (hother s hu).symm)

/-! ### Writes

A write of alike rows leaves alike stores. -/

/-- The save of alike posts leaves alike stores. -/
theorem savePost (h : s.Alike masks user since s') {p p' : Discussion}
    (hp : p.Alike masks user p') :
    (s.savePost p).Alike masks user since (s'.savePost p') :=
  { h with discussions := h.discussions.save hp.id.symm hp }

/-- The save of alike comments leaves alike stores. -/
theorem saveComment (h : s.Alike masks user since s') {c c' : Comment}
    (hc : c.Alike masks user c') :
    (s.saveComment c).Alike masks user since (s'.saveComment c') := by
  have hid : c.id = c'.id := by rw [hc.labels]
  exact { h with comments := h.comments.save hid hc }

/-- The save of alike answers leaves alike stores. -/
theorem saveAnswer (h : s.Alike masks user since s') {a a' : Answer}
    (ha : a.Alike masks user a') :
    (s.saveAnswer a).Alike masks user since (s'.saveAnswer a') := by
  have hid : a.id = a'.id := by rw [ha.labels]
  exact { h with answers := h.answers.save hid ha }

/-- A new row of the viewer is the same in both stores. -/
theorem insertPost (h : s.Alike masks user since s') (mk : Id → Discussion)
    (hmk : ∀ k, (mk k).id = k) :
    (s.insertPost mk hmk).Alike masks user since (s'.insertPost mk hmk) :=
  { h with discussions := h.discussions.insert .refl mk hmk }

theorem insertComment (h : s.Alike masks user since s') (mk : Id → Comment)
    (hmk : ∀ k, (mk k).id = k) :
    (s.insertComment mk hmk).Alike masks user since (s'.insertComment mk hmk) :=
  { h with comments := h.comments.insert .refl mk hmk }

theorem insertAnswer (h : s.Alike masks user since s') (mk : Id → Answer)
    (hmk : ∀ k, (mk k).id = k) :
    (s.insertAnswer mk hmk).Alike masks user since (s'.insertAnswer mk hmk) :=
  { h with answers := h.answers.insert .refl mk hmk }

theorem insertAcceptance (h : s.Alike masks user since s') {mk mk' : Id → AnswerAcceptance}
    {hmk : ∀ k, (mk k).id = k} {hmk' : ∀ k, (mk' k).id = k} (he : mk' = mk) :
    (s.insertAcceptance mk hmk).Alike masks user since (s'.insertAcceptance mk' hmk') := by
  subst he
  refine { h with acceptances := ?_ }
  show s'.acceptances.insert mk' hmk' = s.acceptances.insert mk' hmk
  rw [h.acceptances]

/-- The tags of a post do not tell who has written it. -/
theorem setTags (h : s.Alike masks user since s') (d : Id) (ids : List Id) :
    (s.setTags d ids).Alike masks user since (s'.setTags d ids) := by
  refine { h with discussionTags := ?_ }
  show List.foldl _ (s'.discussionTags.erase _) _ = List.foldl _ (s.discussionTags.erase _) _
  rw [h.discussionTags]

theorem setMedia (h : s.Alike masks user since s') (d : Id) (ids : List UuidText) :
    (s.setMedia d ids).Alike masks user since (s'.setMedia d ids) := by
  refine { h with media := ?_ }
  show List.filter _ s'.media ++ _ = List.filter _ s.media ++ _
  rw [h.media]

theorem bumpTag (h : s.Alike masks user since s') (delta : Int) (t : Id) :
    (s.bumpTag delta t).Alike masks user since (s'.bumpTag delta t) := by
  refine { h with tags := ?_ }
  show s'.tags.modify _ _ = s.tags.modify _ _
  rw [h.tags]

/-- The counters of tags do not tell who has written a post. -/
theorem tagCounts (h : s.Alike masks user since s') (ids : List UuidText) (delta : Int) :
    (DiscussionsService.tagCounts s ids delta).Alike masks user since
      (DiscussionsService.tagCounts s' ids delta) := by
  unfold DiscussionsService.tagCounts
  induction sortIds ids generalizing s s' with
  | nil => exact h
  | cons t ts ih => exact ih (h.bumpTag delta t.id)

/-- The acceptances that end are the same in both stores. -/
theorem revokeAcceptances (h : s.Alike masks user since s') (d : Id) (now : Time) (actor : Id)
    (reason : String) :
    (s.revokeAcceptances d now actor reason).Alike masks user since
      (s'.revokeAcceptances d now actor reason) := by
  refine { h with acceptances := ?_ }
  show s'.acceptances.modify _ _ = s.acceptances.modify _ _
  rw [h.acceptances]

/-- Both record the same version, or both find its slot taken. -/
theorem insertRevision (h : s.Alike masks user since s') {r r' : DiscussionRevision}
    (hk : (r'.discussionId, r'.contentVersion) = (r.discussionId, r.contentVersion)) :
    Related (Db.Alike masks user since) (s.insertRevision r) (s'.insertRevision r') := by
  refine .require_bind ?_ fun _ => .ok { h with revisions := h.revisions.insert hk.symm trivial }
  rw [hk]
  exact h.revisions.get?_eq_none_iff _

theorem insertAnswerRevision (h : s.Alike masks user since s') (r : AnswerRevision) :
    Related (Db.Alike masks user since) (s.insertAnswerRevision r)
      (s'.insertAnswerRevision r) :=
  .require_bind (h.answerRevisions.get?_eq_none_iff _) fun _ =>
    .ok { h with answerRevisions := h.answerRevisions.insert rfl trivial }

/-- Both append an event, the same one when authors are not masked. -/
theorem event (h : s.Alike masks user since s') (type : String) {data data' : EventData}
    (hdata : masks = false → data' = data) :
    (s.event type data).Alike masks user since (s'.event type data') := by
  refine { h with
    outbox := congrArg (· + 1) h.outbox
    started := Nat.le_succ_of_le h.started
    events := fun hmasks => ?_ }
  have happend : ∀ (t : Db) (d : EventData), since ≤ t.outbox.next →
      (t.event type d).eventsFrom since
        = t.eventsFrom since ++ [⟨t.outbox.next, type, d⟩] := by
    intro t d hnext
    show ((t.outbox.toTable.insert _).rows.filter _) = _
    rw [Table.rows_insert t.outbox.get?_next, List.filter_append]
    simp [Db.eventsFrom, Table.select, hnext]
  rw [happend s data h.started, happend s' data' (h.outbox ▸ h.started), h.events hmasks,
    hdata hmasks, h.outbox]

/-- Mentions tell the actor to other users only, so that the stores stay alike. -/
theorem emit (h : s.Alike masks user since s') (w : World) (content : String) (actor : Id)
    {context context' : EventData} (hcontext : masks = false → context' = context) :
    (MentionService.emit w s content actor context).Alike masks user since
      (MentionService.emit w s' content actor context') := by
  unfold MentionService.emit
  induction MentionService.mentioned w content actor generalizing s s' with
  | nil => exact h
  | cons u us ih => exact ih (h.event _ fun hmasks => by rw [hcontext hmasks])

end Db.Alike

end AcaSocial
