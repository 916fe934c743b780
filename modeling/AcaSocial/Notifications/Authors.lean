import AcaSocial.Notifications.ExactlyOnce

/-!
# Authors in notifications

Who wrote what a notification tells of, from the call that creates it to the row that the recipient reads.

* **`Prepared.actor`** — what the consumer leaves of the author in the data of an event.
* **`notification_actor`** — the actor of a notification is the user of the call exactly where the event names the user,
  but for that of a new post.
* **`notification_names`** — the data of a notification name the user exactly where the event does. An author who wants
  to be anonymous is named in the notification of a new post, as its recipient, and in that of a mention, as its actor.
* **`authors_kept`** — both for every interleaving of the pipeline.
-/

namespace AcaSocial.Notifications

variable {sp : Spelling} {db : Db} {c : Call} {e : OutboxEvent} {n : Notification} {u : Id} {event : DomainEvent}
  {data : Fields}

/-! ## What the consumer does with the author

The consumer takes the author of an event from its payload, and masks it when the comment is anonymous. -/

/-- The event of an answer names its author unless the author wants to be anonymous. -/
theorem showsActor_answer (d : UuidText) (dto : CreateAnswerDto) :
    (Operation.answers (.create d dto)).showsActor "answer.created" = !dto.isAnonymous.getD false := by
  rw [Operation.showsActor, Operation.anonymous, Operation.authored]
  cases dto.isAnonymous.getD false <;> rfl

/-- So does that of a comment. -/
theorem showsActor_comment (d : UuidText) (dto : CreateCommentDto) :
    (Operation.comments (.create d dto)).showsActor "comment.created" = !dto.isAnonymous.getD false := by
  rw [Operation.showsActor, Operation.anonymous, Operation.authored]
  cases dto.isAnonymous.getD false <;> rfl

/-- Only the events of comments are prepared. -/
theorem Prepared.of_other (h : Prepared event data) (htype : event.eventType ≠ "comment.created") : data = event.data := by
  have hkeep : authorship event = .keep := if_neg htype
  cases h with
  | keep _ => rfl
  | mask hmask => cases hkeep.symm.trans hmask
  | name hname _ => cases hkeep.symm.trans hname

/-- The data of a comment that is not anonymous, or of one that is. -/
theorem Prepared.of_comment (h : Prepared event data) (htype : event.eventType = "comment.created") {b : Bool}
    (hflag : event.data.lookup "isAnonymous" = some (.bool b)) :
    if b then data = masked event.data
      else ∀ field, field ≠ "actorName" → data.lookup field = event.data.lookup field := by
  have hset : ∀ name : String, ∀ field, field ≠ "actorName" →
      (event.data.set "actorName" (.string name)).lookup field = event.data.lookup field :=
    fun name field hfield => lookup_set_of_ne event.data _ hfield
  cases b with
  | true =>
    have hmask : authorship event = .mask := by
      rw [authorship, if_pos htype, hflag]
    cases h with
    | keep hkeep => cases hmask.symm.trans hkeep
    | mask _ => rfl
    | name hname _ => cases hmask.symm.trans hname
  | false =>
    intro field hfield
    cases h with
    | keep _ => rfl
    | mask hmask =>
      rw [authorship, if_pos htype, hflag] at hmask
      split at hmask <;> contradiction
    | name hname hdata =>
      -- the name is set, or the text for an account that is gone
      unfold named at hdata
      split at hdata
      · cases hdata
      · rw [← Except.ok.inj hdata]
        exact hset _ field hfield
      · cases hdata
      · split at hdata
        · split at hdata
          · rw [← Except.ok.inj hdata]
            exact hset _ field hfield
          · cases hdata
        · cases hdata

/-- The actor of the row for these data. -/
def actorOf (data : Fields) : Option String := optionalString ((data.present "actorId").or (data.lookup "senderId"))

/-- The author of a notification is read from the prepared payload. -/
theorem Notifies.actorId (h : Notifies sp e n) : ∃ data, Prepared (sp.event e) data ∧ n.data = data
    ∧ n.actorId = actorOf data ∧ n.type = e.eventType ∧ n.recipientId = (sp.event e).recipientId := by
  obtain ⟨data, startedAt, hdata, hn⟩ := h
  rw [hn]
  exact ⟨data, hdata, rfl, rfl, rfl, rfl⟩

/-- A payload without an author has none. -/
theorem actorOf_fields_none {payload : EventData} (hactor : payload.lookup "actorId" = none ∨ payload.lookup "actorId" = some .null)
    (hsender : payload.lookup "senderId" = none) : actorOf (sp.fields payload) = none := by
  rw [actorOf, Fields.present, lookup_fields, lookup_fields, hsender]
  rcases hactor with hnone | hnull
  · rw [hnone]
    rfl
  · rw [hnull]
    rfl

/-- The author of a payload is found. -/
theorem actorOf_fields_some {payload : EventData} (hactor : payload.lookup "actorId" = some (.uuid (Id.text u))) :
    actorOf (sp.fields payload) = some (sp.text (Id.text u)) := by
  rw [actorOf, Fields.present, lookup_fields, hactor]
  exact if_pos (ne_empty_of_filled (sp.filled (Id.text u)))

/-- A masked payload has no author. -/
theorem actorOf_masked (data : Fields) : actorOf (masked data) = none := by
  obtain ⟨hactor, -, hsender⟩ := lookup_masked data
  rw [actorOf, Fields.present, hactor, hsender]
  rfl

/-- The author does not depend on the name. -/
theorem actorOf_congr {data data' : Fields} (h : ∀ field, field ≠ "actorName" → data.lookup field = data'.lookup field) :
    actorOf data = actorOf data' := by
  rw [actorOf, actorOf, Fields.present, Fields.present, h "actorId" (by decide), h "senderId" (by decide)]

/-! ## From the call to the row

Which call a notification goes back to, and whose name it shows. -/

/-- The users that an event holds are users, in the spelling of the database. -/
theorem userField_of_emits (h : Emits db c e.eventType e.payload) {field : String} (hfield : field ∈ userFields) :
    e.payload.lookup field = none ∨ e.payload.lookup field = some .null
      ∨ ∃ v, e.payload.lookup field = some (.uuid (Id.text v)) := by
  generalize e.eventType = type, e.payload = payload at h
  simp only [userFields, List.mem_cons, List.not_mem_nil, or_false] at hfield
  cases h with
  | roomCreated | rulesChanged | discussionDeleted | answerDeleted =>
    rcases hfield with rfl | rfl | rfl | rfl <;> exact .inl rfl
  | discussionCreated | commentAccepted =>
    rcases hfield with rfl | rfl | rfl | rfl
    · exact .inr (.inr ⟨_, rfl⟩)
    · exact .inl rfl
    · exact .inl rfl
    · exact .inl rfl
  | answerAccepted =>
    rcases hfield with rfl | rfl | rfl | rfl
    · exact .inr (.inr ⟨_, rfl⟩)
    · exact .inl rfl
    · exact .inr (.inr ⟨_, rfl⟩)
    · exact .inl rfl
  | mentionCreated _ hin _ =>
    cases hin with
    | answer _ _ | comment _ _ =>
      rcases hfield with rfl | rfl | rfl | rfl
      · exact .inr (.inr ⟨_, rfl⟩)
      · exact .inl rfl
      · exact .inr (.inr ⟨_, rfl⟩)
      · exact .inl rfl
  -- an anonymous author is left out of the event
  | @answerCreated d dto author q | @commentCreated d dto author p parent preview =>
    rcases hfield with rfl | rfl | rfl | rfl
    · exact .inr (.inr ⟨_, rfl⟩)
    · exact .inl rfl
    · by_cases hanonymous : dto.isAnonymous.getD false = true
      · exact .inr (.inl (congrArg some (if_pos hanonymous)))
      · exact .inr (.inr ⟨author, congrArg some (if_neg hanonymous)⟩)
    · exact .inl rfl

/-- **The actor of a notification.** It is the user of the call exactly where the operation shows who made it, and the
event is not one about the user's own post. -/
theorem notification_actor (h : Emits db c e.eventType e.payload) (hn : Notifies sp e n) (huser : c.user.id = some u)
    (hwanted : Wanted sp e) : n.actorId = if n.type ≠ "discussion.created" ∧ c.operation.showsActor n.type then
      some (sp.text (Id.text u)) else none := by
  have hrecipient := (wellFormed_of_emits h).wanted_iff.mp hwanted
  obtain ⟨data, hdata, -, hactor, htype, -⟩ := hn.actorId
  rw [hactor, htype]
  have hother := fun ht => congrArg actorOf (hdata.of_other ht)
  -- the consumer masks the author of an anonymous comment once more
  have hcomment : ∀ b, (sp.event e).eventType = "comment.created" → (sp.event e).data.lookup "isAnonymous" = some (.bool b) →
      actorOf data = if b then none else actorOf (sp.event e).data := by
    intro b ht hflag
    have hprepared := hdata.of_comment ht hflag
    cases b with
    | true => exact (congrArg actorOf hprepared).trans (actorOf_masked _)
    | false => exact actorOf_congr hprepared
  obtain ⟨id, type, payload⟩ := e
  simp only at h hrecipient ⊢
  cases h with
  | roomCreated | rulesChanged | discussionDeleted | answerDeleted =>
    obtain ⟨v, hv⟩ := hrecipient
    cases hv
  | discussionCreated =>
    rw [hother (by decide : ("discussion.created" : String) ≠ _), if_neg fun h => h.1 rfl]
    exact actorOf_fields_none (.inl rfl) rfl
  | answerAccepted hop huser' =>
    obtain rfl := Option.some.inj (huser.symm.trans huser')
    rw [hother (by decide : ("answer.accepted" : String) ≠ _), hop, if_pos ⟨by decide, rfl⟩]
    exact actorOf_fields_some rfl
  | commentAccepted hop =>
    rw [hother (by decide : ("answer.accepted" : String) ≠ _), hop, if_neg fun h => Bool.false_ne_true h.2]
    exact actorOf_fields_none (.inl rfl) rfl
  | mentionCreated huser' hin =>
    obtain rfl := Option.some.inj (huser.symm.trans huser')
    rw [hother (by decide : ("mention.created" : String) ≠ _)]
    cases hin with
    | answer hop | comment hop =>
      rw [hop, if_pos ⟨by decide, by simp [Operation.showsActor, Operation.authored]⟩]
      exact actorOf_fields_some rfl
  | @answerCreated d dto author q hop huser' =>
    obtain rfl := Option.some.inj (huser.symm.trans huser')
    have hshows : c.operation.showsActor "answer.created" = !dto.isAnonymous.getD false := hop ▸ showsActor_answer d dto
    rw [hother (by decide : ("answer.created" : String) ≠ _), hshows]
    cases dto.isAnonymous.getD false with
    | true => exact (actorOf_fields_none (.inr rfl) rfl).trans (if_neg (by decide)).symm
    | false => exact (actorOf_fields_some rfl).trans (if_pos (by decide)).symm
  | @commentCreated d dto author p parent preview hop huser' =>
    obtain rfl := Option.some.inj (huser.symm.trans huser')
    have hshows : c.operation.showsActor "comment.created" = !dto.isAnonymous.getD false := hop ▸ showsActor_comment d dto
    have hflag : (sp.fields [("commentId", .uuid (Id.text db.comments.next)), ("discussionId", .uuid d),
        ("discussionTitle", .str p.title), ("recipientId", .uuid (Id.text ((parent.map (·.authorId)).getD p.authorId))),
        ("actorId", if dto.isAnonymous.getD false then .null else .uuid (Id.text u)),
        ("isAnonymous", .bool (dto.isAnonymous.getD false)), ("commentPreview", .str preview)]).lookup "isAnonymous"
          = some (.bool (dto.isAnonymous.getD false)) := by
      rw [lookup_fields]
      rfl
    rw [hcomment _ rfl hflag, hshows]
    cases dto.isAnonymous.getD false with
    | true => exact (if_pos rfl).trans (if_neg (by decide)).symm
    | false => exact ((if_neg (by decide)).trans (actorOf_fields_some rfl)).trans (if_pos (by decide)).symm

/-- No event carries the name of its author. -/
theorem actorName_of_emits (h : Emits db c e.eventType e.payload) : e.payload.lookup "actorName" = none := by
  generalize e.eventType = type, e.payload = payload at h
  cases h with
  | mentionCreated _ hin _ => cases hin <;> rfl
  | _ => rfl

/-- Where the event does not name the user of the call, the consumer stores what was published, or takes the author
out. -/
theorem prepared_of_hidden (h : Emits db c e.eventType e.payload) (hdata : Prepared (sp.event e) data)
    (hshows : c.operation.showsActor e.eventType = false) : data = sp.fields e.payload ∨ data = masked (sp.fields e.payload) := by
  by_cases htype : e.eventType = "comment.created"
  · have hflag : (sp.event e).data.lookup "isAnonymous" = some (.bool true) := by
      rw [Spelling.event, lookup_fields]
      generalize e.eventType = type, e.payload = payload at h hshows htype
      cases h with
      | @commentCreated d dto author p parent preview hop _ _ _ _ _ =>
        have hanonymous : dto.isAnonymous.getD false = true := by
          rw [hop, showsActor_comment] at hshows
          exact Bool.not_inj hshows
        rw [hanonymous]
        rfl
      | _ => exact absurd htype (by decide)
    exact .inr (hdata.of_comment htype hflag)
  · exact .inl (hdata.of_other htype)

/-- **What is hidden.** Where the event does not name the user of the call, nothing in the notification does. -/
theorem notification_hides (h : Emits db c e.eventType e.payload) (hn : Notifies sp e n) (huser : c.user.id = some u)
    (hshows : c.operation.showsActor e.eventType = false) : n.data.lookup "actorName" = none
      ∧ ∀ field ∈ userFields, n.data.lookup field ≠ some (.string (sp.text (Id.text u))) := by
  obtain ⟨data, hdata, hdataEq, -, -, -⟩ := hn.actorId
  have hnames := (h.names huser).trans hshows
  have hfields : ∀ field ∈ userFields, (sp.fields e.payload).lookup field ≠ some (.string (sp.text (Id.text u))) := by
    intro field hfield hsome
    rw [lookup_fields] at hsome
    rcases userField_of_emits h hfield with hnone | hnull | ⟨v, hv⟩
    · rw [hnone] at hsome
      cases hsome
    · rw [hnull] at hsome
      cases hsome
    · -- the spelling of an id tells which id it is
      rw [hv] at hsome
      have htext : sp.text (Id.text v) = sp.text (Id.text u) := Unknown.string.inj (Option.some.inj hsome)
      obtain rfl := sp.injective v u htext
      have hnone := List.any_eq_false.mp hnames field hfield
      exact hnone (decide_eq_true hv)
  rw [hdataEq]
  -- the data of the event, as they are or masked
  rcases prepared_of_hidden h hdata hshows with rfl | rfl
  · refine ⟨?_, hfields⟩
    rw [lookup_fields, actorName_of_emits h]
    rfl
  · obtain ⟨hactor, hname, hsender⟩ := lookup_masked (sp.fields e.payload)
    refine ⟨hname, fun field hfield => ?_⟩
    by_cases ha : field = "actorId"
    · rw [ha, hactor]
      exact fun hsome => by cases hsome
    · by_cases hs : field = "senderId"
      · rw [hs, hsender]
        exact fun hsome => by cases hsome
      · have hne : field ≠ "actorName" := by
          rintro rfl
          exact absurd hfield (by decide)
        rw [lookup_masked_of_ne _ ha hne hs]
        exact hfields field hfield

/-- What is named in an event that shows who made the call is kept by the consumer. -/
theorem prepared_of_shown (h : Emits db c e.eventType e.payload) (hdata : Prepared (sp.event e) data)
    (hshows : c.operation.showsActor e.eventType = true) {field : String} (hfield : field ∈ userFields) :
    data.lookup field = (sp.fields e.payload).lookup field := by
  by_cases htype : e.eventType = "comment.created"
  · have hflag : (sp.event e).data.lookup "isAnonymous" = some (.bool false) := by
      rw [Spelling.event, lookup_fields]
      generalize e.eventType = type, e.payload = payload at h hshows htype
      cases h with
      | @commentCreated d dto author p parent preview hop _ _ _ _ _ =>
        have hnamed : dto.isAnonymous.getD false = false := by
          rw [hop, showsActor_comment] at hshows
          exact Bool.not_inj hshows
        rw [hnamed]
        rfl
      | _ => exact absurd htype (by decide)
    have hname : field ≠ "actorName" := by
      rintro rfl
      exact absurd hfield (by decide)
    exact hdata.of_comment htype hflag field hname
  · rw [hdata.of_other htype]
    rfl

/-- **What is named.** The data of a notification name the user of the call exactly where its event does. -/
theorem notification_names (h : Emits db c e.eventType e.payload) (hn : Notifies sp e n) (huser : c.user.id = some u) :
    (∃ field ∈ userFields, n.data.lookup field = some (.string (sp.text (Id.text u))))
      ↔ c.operation.showsActor e.eventType = true := by
  constructor
  · rintro ⟨field, hfield, hsome⟩
    refine Classical.byContradiction fun hnot => ?_
    exact (notification_hides h hn huser (Bool.eq_false_iff.mpr hnot)).2 field hfield hsome
  · intro hshows
    obtain ⟨data, hdata, hdataEq, -⟩ := hn.actorId
    have hnames := (h.names huser).trans hshows
    obtain ⟨field, hfield, hnamed⟩ := List.any_eq_true.mp hnames
    refine ⟨field, hfield, ?_⟩
    rw [hdataEq, prepared_of_shown h hdata hshows hfield, lookup_fields, of_decide_eq_true hnamed]
    rfl

/-- The recipient of a notification is that of its event. -/
theorem notification_recipient (h : Emits db c e.eventType e.payload) (hn : Notifies sp e n) (huser : c.user.id = some u)
    (hwanted : Wanted sp e) (htype : n.type ≠ "discussion.created") : n.recipientId ≠ sp.text (Id.text u) := by
  obtain ⟨data, -, -, -, htypeEq, hrecipient⟩ := hn.actorId
  obtain ⟨v, hv⟩ := (wellFormed_of_emits h).wanted_iff.mp hwanted
  have htext : (sp.event e).recipientId = sp.text (Id.text v) := by
    rw [DomainEvent.recipientId, (wellFormed_of_emits h).recipient_event sp, hv]
    rfl
  rw [hrecipient, htext]
  intro heq
  obtain rfl := sp.injective v u heq
  exact h.recipient_ne hv huser (htypeEq ▸ htype) rfl

/-- A notification goes back to an event. -/
theorem exists_event {es : List OutboxEvent} {ns : List Notification} (h : List.Forall₂ (Notifies sp) es ns)
    (hn : n ∈ ns) : ∃ e ∈ es, Notifies sp e n := by
  induction h with
  | nil => exact absurd hn List.not_mem_nil
  | cons hnotifies _ ih =>
    rcases List.mem_cons.mp hn with rfl | hn
    · exact ⟨_, List.mem_cons_self, hnotifies⟩
    · obtain ⟨e, he, hnotifies'⟩ := ih hn
      exact ⟨e, List.mem_cons_of_mem _ he, hnotifies'⟩

/-- **Every interleaving.** A notification comes from a call of the discussion service. It goes to somebody else than the
user of the call, unless it tells of a post that the user has created. If the user wants to be anonymous, its data name the
user exactly when it tells of a new post or of a mention. If not, they do exactly when the call creates a post, an answer or
a comment or accepts an answer. Its actor is the user where they do, but for a new post, and is nobody elsewhere, where the
name of the actor is not there either. -/
theorem authors_kept (sp : Spelling) (acts : List (Act Request Input)) :
    ∃ calls, (pipelineAfter sp acts).store.db = Db.after calls
      ∧ ∀ n ∈ (pipelineAfter sp acts).store.notifications, ∃ e before c, Emitted calls e before c ∧ Notifies sp e n
        ∧ ∀ u, c.user.id = some u →
          let named := ∃ field ∈ userFields, n.data.lookup field = some (.string (sp.text (Id.text u)))
          (n.type ≠ "discussion.created" → n.recipientId ≠ sp.text (Id.text u))
          ∧ (c.operation.anonymous = true → (named ↔ n.type = "discussion.created" ∨ n.type = "mention.created"))
          ∧ (c.operation.anonymous = false → (named ↔ c.operation.authored = true))
          ∧ (n.actorId = some (sp.text (Id.text u)) ↔ n.type ≠ "discussion.created" ∧ named)
          ∧ (n.actorId = none ↔ n.type = "discussion.created" ∨ ¬ named)
          ∧ (¬ named → n.data.lookup "actorName" = none) := by
  obtain ⟨calls, r, hdb, hsteps, hsim⟩ := (safe_after sp acts).reached
  have hsound := Relay.Sound.init.steps hsteps
  refine ⟨calls, hdb, fun n hn => ?_⟩
  obtain ⟨e, he, hnotifies⟩ := exists_event hsim.notifications hn
  obtain ⟨hchannel, hwanted⟩ := hsound.accepted e he
  have hlog := hsound.channel e hchannel
  rw [hsim.log, hdb] at hlog
  obtain ⟨before, c, hemitted⟩ := outbox_emitted calls e hlog
  have htype : n.type = e.eventType := by
    obtain ⟨-, -, -, -, htype, -⟩ := hnotifies.actorId
    exact htype
  refine ⟨e, before, c, hemitted, hnotifies, fun u huser => ?_⟩
  -- everything follows from which fields name the user, and who the actor is
  have hnames := notification_names hemitted.2 hnotifies huser
  have hactor := notification_actor hemitted.2 hnotifies huser hwanted
  rw [← htype] at hnames
  refine ⟨notification_recipient hemitted.2 hnotifies huser hwanted, fun hanonymous => ?_, fun hnamed => ?_, ?_, ?_,
    fun hnot => ?_⟩
  · rw [hnames, Operation.showsActor, if_pos hanonymous, decide_eq_true_iff]
  · rw [hnames, Operation.showsActor, if_neg (Bool.eq_false_iff.mp hnamed)]
  · rw [hnames, hactor]
    split
    · next hshown => exact iff_of_true rfl hshown
    · next hhidden => exact iff_of_false (by simp) hhidden
  · rw [hnames, hactor]
    split
    · next hshown => exact iff_of_false (by simp) fun hor => hor.elim hshown.1 fun hnot => hnot hshown.2
    · next hhidden => exact iff_of_true rfl (Classical.or_iff_not_imp_left.mpr fun hother hshown => hhidden ⟨hother, hshown⟩)
  · have hhidden : c.operation.showsActor e.eventType = false := by
      rw [← htype]
      exact Bool.eq_false_iff.mpr fun hshows => hnot (hnames.mpr hshows)
    exact (notification_hides hemitted.2 hnotifies huser hhidden).1

end AcaSocial.Notifications
