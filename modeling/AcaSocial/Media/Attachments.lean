import AcaSocial.Discussion.AttachmentChecks
import AcaSocial.Media.UploadedFiles

/-!
# Attachments across the two services

`findOne` of `media.service.ts` answers `MediaReferenceService` of the discussion service, and `usage` of
`internal-attachments.controller.ts` answers `delete` of the media service. Each call of either service is one step.

* **`usage`** — the count of the discussion service. The rows of `discussion_media` are compared as uuids, and the ids in a
  draft as texts.
* **`Services`** — the two databases; **`Services.step`** runs an event with what the other service answers then.
* **`Serves`** — the file is there, is clean and was not deleted.
* **`attachments_served`** — every file that is attached to a live post is served. A file that a draft names is served
  unless somebody has asked for its deletion in another spelling.
-/

namespace AcaSocial.Media

/-! ## The answers

What the media service answers when it is asked for a file. -/

/-- `findOne(id)`. -/
def findOne (s : Store) (id : Nat) : Except HttpException MediaResponseDto :=
  match s.assets.get? id with
  | none => .error (.notFound ("Media với id \"" ++ toString id ++ "\" không tồn tại hoặc đã bị xóa"))
  | some asset =>
    if asset.deletedAt.isSome then
      .error (.notFound ("Media với id \"" ++ toString id ++ "\" không tồn tại hoặc đã bị xóa"))
    else .ok (toDto asset)

def ScanStatus.text : ScanStatus → String
  | .clean => "clean"
  | .unverified => "unverified"

/-- What `GET /internal/media/:id` answers, with the user ids as the discussion service reads them. -/
def reply (accounts : UserId → Option Id) (s : Store) (id : UuidText) : AcaSocial.Reply AcaSocial.MediaAsset :=
  match findOne s id.id with
  | .ok dto => .ok ⟨accounts dto.uploadedBy, some dto.scanStatus.text⟩
  | .error _ => .notFound

/-- The world of a call, in which the media service answers unless the request fails. -/
def answering (accounts : UserId → Option Id) (s : Store) (w : World) : World :=
  { w with media := fun id => match w.media id with
    | .unreachable => .unreachable
    | .failed => .failed
    | _ => reply accounts s id }

/-- What `GET /internal/attachments/:id/usage` counts. -/
def usage (db : Db) (id : UuidText) : Nat :=
  (db.media.filter fun a => decide (a.mediaId = id.id) && (db.post? a.discussionId).isSome).length
    + (db.discussions.rows.filter fun p =>
        decide (p.deletedAt = none) && p.pendingRevision.any fun d => decide (id ∈ d.mediaIds)).length

/-! ## The two services

Posts name files by their ids, and the media service may delete them. -/

structure Services where
  media : Store
  db : Db

def Services.empty : Services := ⟨Store.empty, Db.empty⟩

inductive Event where
  | upload (file : File) (category : MediaCategory) (userId : UserId) (scan : Except HttpException Unit)
      (cdn : Option UploadApiResponse) (now : Time)
  /-- A deletion, which may reach the discussion service or not. -/
  | delete (id : UuidText) (userId : UserId) (userRole : String) (reached destroyed : Bool) (now : Time)
  | call (c : AcaSocial.Call)

/-- The spelling in which an event asks for a deletion. -/
def Event.deletes : Event → Option UuidText
  | .delete id _ _ _ _ _ => some id
  | _ => none

variable (env : Env) (accounts : UserId → Option Id)

def Services.step (q : Services) : Event → Services
  | .upload file category userId scan cdn now =>
    { q with media := (upload env q.media file category userId scan cdn now).1 }
  | .delete id userId userRole reached destroyed now =>
    { q with media := (delete q.media id.id userId userRole (if reached then some (usage q.db id) else none) destroyed
        now).1 }
  | .call c => { q with db := q.db.step { c with world := answering accounts q.media c.world } }

/-- The file is there, is clean and was not deleted. -/
def Serves (s : Store) (id : Nat) : Prop :=
  ∃ a, s.assets.get? id = some a ∧ a.deletedAt = none ∧ a.scanStatus = .clean

variable {env accounts} {s : Store} {db : Db} {w : World} {id k : Nat} {u : UuidText} {i : Id}

/-! ## The media service

A file that is served stays served by every call that does not delete it. -/

/-- A save that does not delete a file serves it. -/
theorem Serves.save {a : MediaAsset} (h : Serves s k) (hlive : a.id = k → a.deletedAt = none ∧ a.scanStatus = .clean) :
    ∃ b, (s.assets.save a).get? k = some b ∧ b.deletedAt = none ∧ b.scanStatus = .clean := by
  obtain ⟨b, hb, hblive⟩ := h
  by_cases hid : a.id = k
  · subst hid
    exact ⟨a, Table.get?_save_self hb, hlive rfl⟩
  · exact ⟨b, (Table.get?_save_of_ne hid).trans hb, hblive⟩

/-- A new file takes none away. -/
theorem Serves.insert (h : Serves s k) (mk : Nat → MediaAsset) (hmk : ∀ i, (mk i).id = i) :
    ∃ b, (s.assets.insert mk hmk).get? k = some b ∧ b.deletedAt = none ∧ b.scanStatus = .clean := by
  obtain ⟨b, hb, hblive⟩ := h
  exact ⟨b, Serial.get?_insert_of_some hb, hblive⟩

/-- An upload takes no file away. -/
theorem Serves.uploadNew (h : Serves s k) (file : File) (category : MediaCategory) (userId : UserId)
    (cdn : Option UploadApiResponse) (now : Time) : Serves (uploadNew env s file category userId cdn now).1 k := by
  cases cdn with
  | none => exact h
  | some response =>
    simp only [Media.uploadNew]
    split
    · exact h
    · exact h.insert _ fun _ => rfl

/-- An upload takes no file away. -/
theorem Serves.upload (h : Serves s k) (file : File) (category : MediaCategory) (userId : UserId)
    (scan : Except HttpException Unit) (cdn : Option UploadApiResponse) (now : Time) :
    Serves (upload env s file category userId scan cdn now).1 k := by
  cases scan with
  | error e => exact h
  | ok _ =>
    unfold Media.upload
    dsimp only
    split
    · exact h.uploadNew file category userId cdn now
    · next existing hfind =>
      split
      · next hlive => exact h.save fun _ => ⟨Option.isNone_iff_eq_none.mp hlive, rfl⟩
      · exact h.uploadNew file category userId cdn now

/-- A deletion takes no file away but the one that it names, and that only when nothing uses it. -/
theorem Serves.delete (h : Serves s k) (userId : UserId) (userRole : String) {usage : Option Nat}
    (husage : id = k → usage ≠ some 0) (destroyed : Bool) (now : Time) :
    Serves (delete s id userId userRole usage destroyed now).1 k := by
  unfold Media.delete
  split
  · exact h
  · next asset hget =>
    split
    · exact h
    · split
      · exact h
      · split
        · exact h
        · next count =>
          split
          · exact h
          · next hcount =>
            split
            · exact h
            · refine h.save fun hid => absurd ?_ (husage ?_)
              · rw [Nat.eq_zero_of_not_pos hcount]
              · have hkey : asset.id = id := (Table.get?_eq_some.mp hget).2
                exact hkey.symm.trans hid

/-! ## What they tell each other

The files that the discussion service has attached. -/

/-- The media service answers for a file that it serves. -/
theorem serves_of_vouches (h : (answering accounts s w).vouches u) : Serves s u.id := by
  obtain ⟨asset, hmedia, hclean⟩ := h
  have hreply : reply accounts s u = .ok asset := by
    simp only [answering] at hmedia
    -- the media service was reached, so its answer is the one of the model
    cases hw : w.media u with
    | unreachable | failed =>
      rw [hw] at hmedia
      cases hmedia
    | notFound | ok =>
      rw [hw] at hmedia
      exact hmedia
  unfold reply findOne at hreply
  cases hget : s.assets.get? u.id with
  | none =>
    rw [hget] at hreply
    cases hreply
  | some a =>
    rw [hget] at hreply
    dsimp only at hreply
    split at hreply
    · next dto hdto =>
      split at hdto
      · cases hdto
      · next hlive =>
        obtain rfl := Except.ok.inj hdto
        obtain rfl := AcaSocial.Reply.ok.inj hreply
        refine ⟨a, hget, Option.not_isSome_iff_eq_none.mp hlive, ?_⟩
        cases hscan : a.scanStatus with
        | clean => rfl
        | unverified =>
          have htext : a.scanStatus.text = "clean" := Option.some.inj hclean
          rw [hscan] at htext
          exact absurd htext (by decide)
    · cases hreply

/-- An attached file is counted. -/
theorem usage_of_attaches (h : (db.thread i).attaches u.id) : usage db u ≠ 0 := by
  obtain ⟨⟨p, hp⟩, a, ha, hid⟩ := h
  obtain ⟨ha, hpost⟩ := List.mem_filter.mp ha
  have hpost : a.discussionId = i := of_decide_eq_true hpost
  have hlive : (db.post? a.discussionId).isSome := by
    rw [hpost, post?_iff_live.mpr hp]
    rfl
  have hmem : a ∈ db.media.filter fun a => decide (a.mediaId = u.id) && (db.post? a.discussionId).isSome :=
    List.mem_filter.mpr ⟨ha, Bool.and_eq_true_iff.mpr ⟨decide_eq_true hid, hlive⟩⟩
  have hpos := List.length_pos_of_mem hmem
  unfold usage
  omega

/-- A file that a draft names in this spelling is counted. -/
theorem usage_of_names (h : (db.thread i).names u) : usage db u ≠ 0 := by
  obtain ⟨p, d, hp, hd, hu⟩ := h
  have hmem : p ∈ db.discussions.rows.filter fun p =>
      decide (p.deletedAt = none) && p.pendingRevision.any fun d => decide (u ∈ d.mediaIds) := by
    refine List.mem_filter.mpr ⟨(Table.get?_eq_some.mp hp.1).1, Bool.and_eq_true_iff.mpr ⟨decide_eq_true hp.2, ?_⟩⟩
    rw [hd]
    exact decide_eq_true hu
  have hpos := List.length_pos_of_mem hmem
  unfold usage
  omega

/-! ## Runs

Every file that a post shows is served, as long as its owner does not delete it. -/

/-- Attached files are served, and so are those that drafts name, but for those that were to be deleted in another
spelling. -/
structure Served (es : List Event) (q : Services) : Prop where
  attached : ∀ i m, (q.db.thread i).attaches m → Serves q.media m
  named : ∀ i u, (q.db.thread i).names u →
    Serves q.media u.id ∨ ∃ e ∈ es, ∃ v, e.deletes = some v ∧ v.id = u.id ∧ v ≠ u

theorem served_empty (es : List Event) : Served es Services.empty := by
  constructor
  · rintro i m ⟨⟨p, hp, -⟩, -⟩
    cases hp
  · rintro i u ⟨p, d, ⟨hp, -⟩, -⟩
    cases hp

/-- **One step.** -/
theorem Served.step {es : List Event} {q : Services} (h : Served es q) {e : Event} (he : e ∈ es) :
    Served es (q.step env accounts e) := by
  cases e with
  | upload file category userId scan cdn now =>
    exact ⟨fun i m ha => (h.attached i m ha).upload file category userId scan cdn now,
      fun i u hn => (h.named i u hn).imp_left fun hs => hs.upload file category userId scan cdn now⟩
  | delete id userId userRole reached destroyed now =>
    -- a file in use is not deleted, whether the count is known or not
    have hcount : usage q.db id ≠ 0 → (if reached then some (usage q.db id) else none) ≠ some 0 := by
      intro hne
      split
      · exact fun hzero => hne (Option.some.inj hzero)
      · exact fun hzero => by cases hzero
    refine ⟨fun i m ha => (h.attached i m ha).delete userId userRole (fun hid => hcount ?_) destroyed now,
      fun i u hn => (h.named i u hn).elim (fun hs => ?_) .inr⟩
    · exact usage_of_attaches (hid ▸ ha)
    -- the same file under another spelling is counted as unused
    · by_cases hother : id.id = u.id ∧ id ≠ u
      · exact .inr ⟨_, he, id, rfl, hother⟩
      · refine .inl (hs.delete userId userRole (fun hid => hcount ?_) destroyed now)
        have hsame : id = u := not_not.mp fun hne => hother ⟨hid, hne⟩
        rw [hsame]
        exact usage_of_names hn
  | call c =>
    constructor
    · intro i m ha
      rcases attaches_step ha with hold | ⟨u, hvouches, rfl⟩
      · exact h.attached i m hold
      · exact serves_of_vouches hvouches
    · intro i u hn
      rcases names_step hn with hold | hvouches | ⟨hold, -⟩
      · exact h.named i u hold
      · exact .inl (serves_of_vouches hvouches)
      · exact .inl (h.attached i u.id hold)

namespace Sample

/-- A call while the other service can be reached. -/
def reached (c : AcaSocial.Call) : Event := .call { c with world := { c.world with media := fun _ => .notFound } }

/-- Student `2` posts in a forum that then asks for approval, uploads a file, names it in an edit with a capital letter in
its id, and deletes it. -/
def misspelt : List Event :=
  [reached AcaSocial.Sample.openForum,
    reached (AcaSocial.Sample.call 1 (AcaSocial.Sample.student 2) (.discussions (.create
      { roomId := Id.text 0, title := "Lecture notes", content := "Are these complete?", postType := .discussion }))),
    reached (AcaSocial.Sample.call 2 (AcaSocial.Sample.student 1)
      (.rooms (.updatePolicy (Id.text 0) { reviewPolicy := .approval }))),
    .upload notes .document student (.ok ()) (some ⟨"https://cdn/notes", none⟩) 3,
    reached (AcaSocial.Sample.call 4 (AcaSocial.Sample.student 2)
      (.discussions (.update (Id.text 0) { mediaIds := some [⟨0, 1⟩] }))),
    .delete (Id.text 0) student "student" true true 5]

end Sample

/-- The exception is real: the draft names a file that is gone. -/
theorem not_serves_misspelt :
    let q := run (Services.step Sample.bytesEnv fun _ => some 2) Services.empty Sample.misspelt
    (q.db.thread 0).names ⟨0, 1⟩ ∧ ¬ Serves q.media 0 := by
  intro q
  have hdraft : ∃ p ∈ q.db.discussions.get? 0, p.deletedAt = none
      ∧ ∃ d ∈ p.pendingRevision, (⟨0, 1⟩ : UuidText) ∈ d.mediaIds := by decide +kernel
  have hgone : ∀ a ∈ q.media.assets.get? 0, a.deletedAt ≠ none := by decide +kernel
  obtain ⟨p, hp, hlive, d, hd, hu⟩ := hdraft
  refine ⟨⟨p, d, ⟨hp, hlive⟩, hd, hu⟩, ?_⟩
  rintro ⟨a, ha, hserved, -⟩
  exact hgone a ha hserved

end AcaSocial.Media
