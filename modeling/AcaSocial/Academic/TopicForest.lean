import AcaSocial.Academic.AcademicService
import AcaSocial.Base.Forest

/-!
# The topics are a forest

A topic may have a parent, and the catalogue is meant to be read as trees of topics.

* **`Db.parentOf`** — the parent links of the stored topics.
* **`TopicForest`** — no topic is its own ancestor, and the parents of each end at a root.
* **`ClosesCycle`** — the call moves a topic below itself. The service compares the new parent with the topic
  alone, and the two ids as they are spelled.

`topics_forest` says that the last is all that can break the second, and `not_topics_forest` is a run of moves
that does.
-/

namespace AcaSocial.Academic

variable {s s' : Db} {i k : Id}

/-- The parent of a topic, if there is the topic and it has one. -/
def Db.parentOf (s : Db) (i : Id) : Option Id := (s.topics.get? i).bind (·.parentTopicId)

/-- No topic is its own ancestor, and following the parents of any topic ends at a topic without one. -/
structure TopicForest (s : Db) : Prop where
  acyclic : ∀ t ∈ s.topics, ¬ Relation.TransGen (Link s.parentOf) t.id t.id
  rooted : ∀ t ∈ s.topics, ∃ root ∈ s.topics, root.parentTopicId = none ∧ Reaches s.parentOf t.id root.id

/-- The parents of the topics are stored. -/
def ParentsStored (s : Db) : Prop := ∀ i k, s.parentOf i = some k → (s.topics.get? k).isSome

/-- The call moves a topic below itself: the new parent, however it is spelled, is the topic or has it as an
ancestor. -/
def ClosesCycle (s : Db) (c : Call) : Prop :=
  match c.operation with
  | .updateTopic id dto => Admitted c.user ∧ (s.topics.get? id.id).isSome
      ∧ ∃ p, dto.parentTopicId = some (some p) ∧ p ≠ id ∧ Reaches s.parentOf p.id id.id
  | _ => False

/-! ## Forests of stored topics

The parents of the stored topics make no cycle. -/

/-- A topic with a parent is stored. -/
theorem stored_of_parentOf (h : s.parentOf i = some k) : (s.topics.get? i).isSome := by
  obtain ⟨t, ht, -⟩ := Option.bind_eq_some_iff.mp h
  rw [ht]
  rfl

/-- What the parents of a stored topic lead to is stored. -/
theorem stored_of_reaches (hstored : ParentsStored s) (hi : (s.topics.get? i).isSome)
    (h : Reaches s.parentOf i k) : (s.topics.get? k).isSome := by
  induction h with
  | refl => exact hi
  | tail _ hlink _ => exact hstored _ _ hlink

/-- With the parents stored, the rows form a forest exactly when the links do. -/
theorem topicForest_iff (hstored : ParentsStored s) : TopicForest s ↔ Forest s.parentOf := by
  constructor
  · intro hforest i
    cases hi : s.topics.get? i with
    | none =>
      -- there is no topic, and so no parent
      refine ⟨i, .here ?_⟩
      rw [Db.parentOf, hi]
      rfl
    | some t =>
      obtain ⟨ht, rfl⟩ := Table.get?_eq_some.mp hi
      obtain ⟨root, hroot, hnone, hreach⟩ := hforest.rooted t ht
      refine ⟨root.id, .of_root_reached hreach ?_⟩
      rw [Db.parentOf, Table.get?_key hroot]
      exact hnone
  · intro hforest
    constructor
    · intro t _
      obtain ⟨r, hr⟩ := hforest t.id
      exact hr.acyclic
    · intro t ht
      obtain ⟨r, hr⟩ := hforest t.id
      have hi : (s.topics.get? t.id).isSome := by
        rw [Table.get?_key ht]
        rfl
      obtain ⟨root, hroot⟩ := Option.isSome_iff_exists.mp (stored_of_reaches hstored hi hr.reaches)
      obtain ⟨hmem, rfl⟩ := Table.get?_eq_some.mp hroot
      refine ⟨root, hmem, ?_, hr.reaches⟩
      have hnone := hr.root
      rw [Db.parentOf, hroot] at hnone
      exact hnone

/-! ## What the operations do to the links

A creation adds a leaf, and an edit writes one link. -/

/-- What an operation does to the topics: nothing, a new row below a stored one, or a new parent. -/
inductive TopicsStep (s : Db) : Operation → Db → Prop where
  | aside {o : Operation} {s' : Db} (htopics : s'.topics = s.topics)
      (hrefused : ∀ id dto, o = .updateTopic id dto →
        ∀ p, dto.parentTopicId = some (some p) → (s.topics.get? p.id).isSome →
          (s.topics.get? id.id).isSome → p = id) : TopicsStep s o s'
  | created (dto : TopicDto) {s' : Db} (hparent : ∀ p ∈ dto.parentTopicId, (s.topics.get? p.id).isSome)
      (hlinks : s'.parentOf = Function.update s.parentOf s.topics.next (dto.parentTopicId.map (·.id)))
      (hkept : ∀ k, (s.topics.get? k).isSome → (s'.topics.get? k).isSome) :
      TopicsStep s (.createTopic dto) s'
  | moved (id : UuidText) (dto : UpdateTopicDto) {parent : Option Id} {s' : Db}
      (htopic : (s.topics.get? id.id).isSome) (hother : dto.parentTopicId ≠ some (some id))
      (hparent : ∀ p, dto.parentTopicId.join = some p → (s.topics.get? p.id).isSome)
      (hnew : parent = match dto.parentTopicId with
        | some p => p.map (·.id)
        | none => s.parentOf id.id)
      (hlinks : s'.parentOf = Function.update s.parentOf id.id parent)
      (hkept : ∀ k, (s.topics.get? k).isSome → (s'.topics.get? k).isSome) :
      TopicsStep s (.updateTopic id dto) s'

/-- The check of a parent asks that it is stored. -/
theorem requireParent_eq_ok {parentTopicId : Option UuidText} {u : Unit} :
    AcademicService.requireParent s parentTopicId = .ok u
      ↔ ∀ p, parentTopicId = some p → (s.topics.get? p.id).isSome := by
  cases parentTopicId with
  | none => exact iff_of_true rfl (fun _ h => by cases h)
  | some p =>
    show require _ _ = .ok u ↔ _
    rw [require_eq_ok]
    constructor
    · intro h q hq
      exact Option.some.inj hq ▸ h
    · intro h
      exact h p rfl

/-- A new topic is a leaf. -/
theorem createTopic_step {dto : TopicDto} {p : Db × Topic}
    (h : AcademicService.createTopic s dto = .ok p) : TopicsStep s (.createTopic dto) p.1 := by
  simp only [AcademicService.createTopic, bind_eq_ok, requireParent_eq_ok, pure_eq_ok] at h
  obtain ⟨-, hparent, -, -, rfl⟩ := h
  refine .created dto hparent (funext fun k => ?_) fun k hk => ?_
  · show ((s.topics.insert _ _).get? k).bind _ = _
    rw [Serial.get?_insert]
    by_cases hk : s.topics.next = k
    · rw [if_pos hk, ← hk, update_self]
      rfl
    · rw [if_neg hk, update_of_ne (Ne.symm hk)]
      rfl
  · show ((s.topics.insert _ _).get? k).isSome
    rw [Serial.get?_insert]
    split
    · rfl
    · exact hk

/-- An edit writes one link. -/
theorem updateTopic_step {id : UuidText} {dto : UpdateTopicDto} {p : Db × Topic}
    (h : AcademicService.updateTopic s id dto = .ok p) : TopicsStep s (.updateTopic id dto) p.1 := by
  simp only [AcademicService.updateTopic, bind_eq_ok, orThrow_eq_ok, require_eq_ok, requireParent_eq_ok,
    pure_eq_ok] at h
  obtain ⟨t, ht, -, hother, -, hparent, rfl⟩ := h
  have hid : t.id = id.id := (Table.get?_eq_some.mp ht).2
  refine .moved id dto (by rw [ht]; rfl) hother hparent rfl (funext fun k => ?_) fun k hk => ?_
  · show ((s.topics.save _).get? k).bind _ = _
    rw [Serial.save_toTable, Table.get?_save]
    by_cases hk : t.id = k
    · have hlink : s.parentOf id.id = t.parentTopicId := by
        rw [Db.parentOf, ht]
        rfl
      rw [if_pos hk, ← hk, hid, ht, update_self, hlink]
      rfl
    · rw [if_neg hk, update_of_ne fun hki => hk (hid.trans hki.symm)]
      rfl
  · show ((s.topics.save _).get? k).isSome
    rw [Serial.save_toTable, Table.isSome_get?_save]
    exact hk

/-- A move that names a stored parent, and not the topic as it is spelled, is accepted. -/
theorem updateTopic_accepted {id p : UuidText} {dto : UpdateTopicDto} {e : HttpError}
    (h : AcademicService.updateTopic s id dto = .error e) (hdto : dto.parentTopicId = some (some p))
    (hp : (s.topics.get? p.id).isSome) (hid : (s.topics.get? id.id).isSome) : p = id := by
  by_contra hne
  obtain ⟨t, ht⟩ := Option.isSome_iff_exists.mp hid
  have hother : dto.parentTopicId ≠ some (some id) := by
    rw [hdto]
    exact fun he => hne (Option.some.inj (Option.some.inj he))
  have hparent : AcademicService.requireParent s dto.parentTopicId.join = .ok () := by
    rw [requireParent_eq_ok, hdto]
    rintro q hq
    obtain rfl : p = q := Option.some.inj hq
    exact hp
  unfold AcademicService.updateTopic at h
  rw [ht, orThrow_some, ok_bind, require_bind, if_pos hother, hparent, ok_bind] at h
  cases h

/-- **What an operation does to the links.** -/
theorem topics_step (s : Db) (o : Operation) : TopicsStep s o (o.after s) := by
  cases o with
  | createMajor dto =>
    exact .aside (after_frame (F := Db.topics) rfl fun p hp => (createMajor_frame hp).2) (fun _ _ h => by cases h)
  | updateMajor id dto =>
    exact .aside (after_frame (F := Db.topics) rfl fun p hp => (updateMajor_frame hp).2) (fun _ _ h => by cases h)
  | createCurriculum dto =>
    exact .aside (after_frame (F := Db.topics) rfl fun p hp => topics_createCurriculum hp) (fun _ _ h => by cases h)
  | updateCurriculumStatus id status =>
    exact .aside (after_frame (F := Db.topics) rfl fun p hp => topics_updateCurriculumStatus hp) (fun _ _ h => by cases h)
  | createTopic dto =>
    cases h : AcademicService.createTopic s dto with
    | error e =>
      -- a call that is refused changes no topic
      rw [Operation.after_error rfl h]
      exact .aside rfl (fun _ _ h => by cases h)
    | ok p =>
      rw [Operation.after_ok rfl h]
      exact createTopic_step h
  | updateTopic id dto =>
    cases h : AcademicService.updateTopic s id dto with
    | error e =>
      rw [Operation.after_error rfl h]
      refine .aside rfl fun id' dto' hop p hdto hp hid => ?_
      cases hop
      exact updateTopic_accepted h hdto hp hid
    | ok p =>
      rw [Operation.after_ok rfl h]
      exact updateTopic_step h

/-! ## The invariant

Every parent is a stored topic. -/

/-- Parents stay stored: a new parent is looked up first. -/
theorem parentsStored_after (s : Db) (o : Operation) (h : ParentsStored s) : ParentsStored (o.after s) := by
  cases topics_step s o with
  | aside htopics _ =>
    intro i k hk
    rw [Db.parentOf, htopics] at hk
    rw [htopics]
    exact h i k hk
  | created dto hparent hlinks hkept =>
    intro i k hk
    apply hkept
    rw [hlinks] at hk
    -- the new topic, or one that was there
    by_cases hi : i = s.topics.next
    · rw [hi, update_self, Option.map_eq_some_iff] at hk
      obtain ⟨p, hp, rfl⟩ := hk
      exact hparent p hp
    · rw [update_of_ne hi] at hk
      exact h i k hk
  | moved id dto htopic hother hparent hnew hlinks hkept =>
    intro i k hk
    apply hkept
    rw [hlinks] at hk
    -- the topic that is moved, or another one
    by_cases hi : i = id.id
    · rw [hi, update_self, hnew] at hk
      cases hdto : dto.parentTopicId with
      -- a request without a parent keeps the old one
      | none =>
        rw [hdto] at hk
        exact h id.id k hk
      | some o =>
        rw [hdto] at hk hparent
        obtain ⟨p, hp, rfl⟩ := Option.map_eq_some_iff.mp hk
        exact hparent p hp
    · rw [update_of_ne hi] at hk
      exact h i k hk

/-- Every parent stays stored. -/
theorem parentsStored_step (s : Db) (c : Call) (h : ParentsStored s) : ParentsStored (s.step c) := by
  rw [step_eq]
  split
  · exact parentsStored_after s c.operation h
  · exact h

/-- Where a new topic comes, nothing has led before. -/
theorem not_reaches_next (hstored : ParentsStored s) {k : Id} (hk : (s.topics.get? k).isSome) :
    ¬ Reaches s.parentOf k s.topics.next := by
  intro hreach
  have hnext := stored_of_reaches hstored hk hreach
  rw [Serial.get?_next] at hnext
  cases hnext

/-- **One operation.** The links stay a forest exactly when it does not move a topic below itself. -/
theorem forest_after (hstored : ParentsStored s) (hforest : Forest s.parentOf) (o : Operation) :
    Forest (o.after s).parentOf ↔ ¬ ∃ id dto p, o = .updateTopic id dto ∧ (s.topics.get? id.id).isSome
      ∧ dto.parentTopicId = some (some p) ∧ p ≠ id ∧ Reaches s.parentOf p.id id.id := by
  cases topics_step s o with
  | aside htopics hrefused =>
    have hlinks : (o.after s).parentOf = s.parentOf := by
      unfold Db.parentOf
      rw [htopics]
    rw [hlinks]
    refine iff_of_true hforest ?_
    rintro ⟨id, dto, p, rfl, hid, hdto, hne, hreach⟩
    -- the parent is stored, being the topic itself or having a parent
    have hp : (s.topics.get? p.id).isSome := by
      rcases Relation.ReflTransGen.cases_head hreach with he | ⟨k, hlink, -⟩
      · exact he ▸ hid
      · exact stored_of_parentOf hlink
    exact hne (hrefused id dto rfl p hdto hp hid)
  | created dto hparent hlinks _ =>
    rw [hlinks]
    refine iff_of_true ?_ (by rintro ⟨_, _, _, hop, -⟩; cases hop)
    cases hdto : dto.parentTopicId with
    | none => exact hforest.update_none _
    | some p =>
      apply (forest_update_iff hforest).mpr
      exact not_reaches_next hstored (hparent p hdto)
  | @moved id dto parent _ htopic hother hparent hnew hlinks _ =>
    rw [hlinks]
    cases hdto : dto.parentTopicId with
    | none =>
      have hsame : Function.update s.parentOf id.id parent = s.parentOf := by
        rw [hnew, hdto]
        exact Function.update_eq_self id.id s.parentOf
      rw [hsame]
      refine iff_of_true hforest ?_
      rintro ⟨id', dto', p, hop, -, hdto', -⟩
      cases hop
      cases hdto.symm.trans hdto'
    | some o =>
      rw [hdto] at hnew
      cases o with
      | none =>
        rw [hnew]
        refine iff_of_true (hforest.update_none _) ?_
        rintro ⟨id', dto', p, hop, -, hdto', -⟩
        cases hop
        cases hdto.symm.trans hdto'
      | some p =>
        rw [hnew]
        refine (forest_update_iff hforest).trans (not_congr ?_)
        constructor
        · intro hreach
          have hne : p ≠ id := fun he => hother (by rw [hdto, he])
          exact ⟨id, dto, p, rfl, htopic, hdto, hne, hreach⟩
        · rintro ⟨id', dto', p', hop, -, hdto', -, hreach⟩
          cases hop
          obtain rfl : p = p' := Option.some.inj (Option.some.inj (hdto.symm.trans hdto'))
          exact hreach

/-- **One call.** The topics stay a forest exactly when it does not move one below itself. -/
theorem topicForest_step {c : Call} (hstored : ParentsStored s) (h : TopicForest s) :
    TopicForest (s.step c) ↔ ¬ ClosesCycle s c := by
  have hforest := (topicForest_iff hstored).mp h
  rw [step_eq]
  by_cases hadmitted : Admitted c.user
  · rw [if_pos hadmitted]
    show TopicForest (c.operation.after s) ↔ _
    rw [topicForest_iff (parentsStored_after s _ hstored), forest_after hstored hforest]
    apply not_congr
    unfold ClosesCycle
    constructor
    · rintro ⟨id, dto, p, hop, hid, hdto, hne, hreach⟩
      rw [hop]
      exact ⟨hadmitted, hid, p, hdto, hne, hreach⟩
    · intro hcloses
      split at hcloses
      · next id dto hop =>
        obtain ⟨-, hid, p, hdto, hne, hreach⟩ := hcloses
        exact ⟨id, dto, p, hop, hid, hdto, hne, hreach⟩
      · exact hcloses.elim
  · rw [if_neg hadmitted]
    refine iff_of_true h fun hcloses => ?_
    unfold ClosesCycle at hcloses
    split at hcloses
    · exact hadmitted hcloses.1
    · exact hcloses

/-! ## Runs

The topics are a forest along a run exactly as long as no edit puts a topic below itself. -/

theorem topicForest_empty : TopicForest Db.empty :=
  ⟨fun _ ht => absurd ht List.not_mem_nil, fun _ ht => absurd ht List.not_mem_nil⟩

/-- The topics are a forest in every state of a run exactly when no call of it moves a topic below itself. -/
theorem topics_forest (calls : List Call) : Always Db.step TopicForest Db.empty calls
    ↔ Meets Db.step (fun s c => ¬ ClosesCycle s c) Db.empty calls := by
  refine always_iff_meets_of_invariant (Q := ParentsStored) (d := fun _ _ => True)
    (fun c s hs _ => parentsStored_step s c hs) (fun c s hs _ h => topicForest_step hs h) ?_
    topicForest_empty (.of_forall (fun _ _ => trivial) _ _)
  intro i k hk
  cases hk

/-! ## Samples

Two topics below each other. -/

namespace Sample

/-- An administrator asks for an operation. -/
def ordered (o : Operation) : Call := ⟨⟨some 9, some .admin⟩, o⟩

/-- The topic `0`, and below it the topic `1`. -/
def nested : List Call :=
  [ordered (.createTopic { code := "DSA", name := "Algorithms" }),
    ordered (.createTopic { code := "GRAPH", name := "Graphs", parentTopicId := some (Id.text 0) })]

/-- A topic is moved below another. -/
def move (id parent : UuidText) : Call := ordered (.updateTopic id { parentTopicId := some (some parent) })

/-- The topic `1` is moved below `0`, where it is. -/
def again : List Call := nested ++ [move (Id.text 1) (Id.text 0)]

/-- The id of the topic `0` with an upper-case letter. -/
def shouted : UuidText := ⟨0, 1⟩

end Sample

/-- A child moved below its own parent stays where it is. -/
example : (run Db.step Db.empty Sample.again).parentOf 1 = some 0 := by decide

/-- Two topics, each moved below the other: the second move looks at the first topic alone. -/
theorem not_topics_forest :
    ¬ ∀ calls : List Call, TopicForest (run Db.step Db.empty calls) := by
  intro h
  have hforest := h (Sample.nested ++ [Sample.move (Id.text 0) (Id.text 1)])
  have htopic : ∃ t ∈ (run Db.step Db.empty (Sample.nested ++
      [Sample.move (Id.text 0) (Id.text 1)])).topics.rows, t.id = 0 := by decide
  obtain ⟨t, ht, hid⟩ := htopic
  apply hforest.acyclic t ht
  rw [hid]
  refine .tail (b := 1) (.single ?_) ?_
  · show Db.parentOf _ 0 = some 1
    decide
  · show Db.parentOf _ 1 = some 0
    decide

/-- A single move is enough when the id of the topic is spelled in another way. -/
example : (run Db.step Db.empty (Sample.nested ++ [Sample.move (Id.text 0) Sample.shouted])).parentOf 0
    = some 0 := by decide

end AcaSocial.Academic
