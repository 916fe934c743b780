import AcaSocial.Discussion.CapabilityFlags
import AcaSocial.Discussion.ChildCounts

/-!
# The tree of comments and its listing

A reply is posted to a comment of its own discussion that is there and not deleted. The comment may be deleted
later: it is listed as long as it has replies.

* **`Rooted`** — the parent of a reply is an older comment of the same discussion, whatever is deleted.
* **`levelIds`** — what the pages of `findAllByDiscussion` show of one level, one page after the other.
* **`Reached`** — what a reader finds who starts at the roots and lists the replies of what is listed.

`comments_reachable` says that a level shows its listed comments once each, and that every comment that is not
deleted is reached.
-/

namespace AcaSocial

variable {w : World} {s s' : Db} {user : GatewayUser} {c : Call} {i k : Id}

/-! ## Parents

A comment answers a comment of its own post, and was written after it. Comments are never deleted for good, so that a
parent stays. -/

/-- The parent of a reply is an older comment of the discussion. -/
def Content.Rooted (s : Content) : Prop :=
  ∀ m ∈ s.comments, ∀ j, m.parentCommentId = some j →
    ∃ p ∈ s.comments, p.id = j ∧ p.discussionId = m.discussionId ∧ j < m.id

namespace Thread

/-- The same of one thread, which is what every step keeps. -/
def Rooted (t : Thread) : Prop :=
  ∀ m ∈ t.comments, ∀ j, m.parentCommentId = some j → ∃ p ∈ t.comments, p.id = j ∧ j < m.id

variable {t t' : Thread}

/-- What is said of the comments of a thread depends on them alone. -/
theorem Rooted.of_comments (h : t.Rooted) (hcomments : t'.comments = t.comments) : t'.Rooted := by
  rw [Rooted, hcomments]
  exact h

/-- A comment is saved that keeps its parent. -/
theorem Rooted.saveComment {m m₀ : Comment} (h : t.Rooted) (hm : t.comment? k = some m₀)
    (hid : m.id = m₀.id) (hparent : m.parentCommentId = m₀.parentCommentId) : (t.saveComment m).Rooted := by
  have hm₀ : m₀ ∈ t.comments := (Table.get?_eq_some.mp (Option.filter_eq_some_iff.mp hm).1).1
  have hmem : ∀ p ∈ t.comments, ∃ p' ∈ t.comments.save m, p'.id = p.id := by
    intro p hp
    by_cases hp' : p.id = m.id
    · exact ⟨m, Table.mem_save_self hm₀ hid.symm, hp'.symm⟩
    · exact ⟨p, Table.mem_save.mpr (.inr ⟨hp, hp'⟩), rfl⟩
  have hkept : ∀ m₁ ∈ t.comments, ∀ j, m₁.parentCommentId = some j →
      ∃ p ∈ t.comments.save m, p.id = j ∧ j < m₁.id := by
    intro m₁ hm₁ j hj
    obtain ⟨p, hp, rfl, hlt⟩ := h m₁ hm₁ j hj
    obtain ⟨p', hp', hpid⟩ := hmem p hp
    exact ⟨p', hp', hpid, hlt⟩
  intro m₁ hm₁ j hj
  rcases Table.mem_save.mp hm₁ with ⟨rfl, -⟩ | ⟨hm₁, -⟩
  · rw [hid]
    exact hkept m₀ hm₀ j (hparent ▸ hj)
  · exact hkept m₁ hm₁ j hj

/-- A comment is added that names an older one, or none. -/
theorem Rooted.insertComment {m : Comment} (h : t.Rooted)
    (hparent : ∀ j, m.parentCommentId = some j → ∃ p ∈ t.comments, p.id = j ∧ j < m.id) :
    (t.insertComment m).Rooted := by
  intro m₁ hm₁ j hj
  have hold : ∃ p ∈ t.comments, p.id = j ∧ j < m₁.id := by
    rcases Table.mem_insert.mp hm₁ with hm₁ | ⟨rfl, -⟩
    · exact h m₁ hm₁ j hj
    · exact hparent j hj
  obtain ⟨p, hp, hpid, hlt⟩ := hold
  exact ⟨p, Table.mem_insert.mpr (.inl hp), hpid, hlt⟩

end Thread

open Thread DiscussionsService AnswersService CommentsService

/-- The comments of a thread are those of its post. -/
theorem mem_thread_comments {m : Comment} : m ∈ (s.thread i).comments ↔ m ∈ s.comments ∧ m.discussionId = i := by
  show m ∈ s.comments.toTable.restrict _ ↔ _
  rw [Table.mem_restrict, decide_eq_true_eq]
  rfl

/-- The parent that `create` accepts is in the thread, and older than what is created. -/
theorem parentOf_mem {d : UuidText} {dto : CreateCommentDto} {parent : Option Comment}
    (h : parentOf s d dto = .ok parent) :
    ∀ p ∈ parent, p ∈ (s.thread d.id).comments ∧ p.id < s.comments.next := by
  unfold parentOf at h
  cases hdto : dto.parentCommentId with
  | none =>
    rw [hdto] at h
    obtain rfl := Except.ok.inj h
    exact fun p hp => (by cases hp)
  | some u =>
    rw [hdto] at h
    simp only [bind_eq_ok, orThrow_eq_ok, require_eq_ok, pure_eq_ok] at h
    obtain ⟨p, hp, -, hd, rfl⟩ := h
    obtain ⟨hmem, -, -⟩ := Content.comment?_eq_some.mp hp
    intro p' hp'
    obtain rfl := Option.some.inj hp'
    exact ⟨mem_thread_comments.mpr ⟨hmem, congrArg UuidText.id hd⟩, s.comments.fresh p hmem⟩

/-- **One step** keeps the parents of a thread in it. -/
theorem rooted_step {t' : Thread} (hstep : ThreadStep s c i (s.thread i) t') (h : (s.thread i).Rooted) :
    t'.Rooted := by
  cases hstep with
  | edited | reviewed | answerAccepted => exact h.of_comments (children_ite_revoke _ _ _ _).1
  | @commentCreated p d dto author k parent hop _ _ _ _ hparent hnew =>
    subst hnew
    refine (h.insertComment fun j hj => ?_).of_comments rfl
    obtain ⟨p', hp', rfl⟩ := Option.map_eq_some_iff.mp hj
    obtain ⟨hmem, hlt⟩ := parentOf_mem hparent p' hp'
    exact ⟨p', hop.2 ▸ hmem, rfl, hlt⟩
  | commentUpdated _ _ hm =>
    refine h.saveComment hm (edited_id _ _) ?_
    unfold CommentsService.edited
    split <;> rfl
  | acceptedCommentUpdated _ _ hm =>
    refine (h.saveComment hm (edited_id _ _) ?_).of_comments rfl
    unfold CommentsService.edited
    split <;> rfl
  | @commentRemoved p m id _ _ hm =>
    have hsaved : ((s.thread i).saveComment { m with deletedAt := some c.world.now }).Rooted :=
      h.saveComment hm rfl rfl
    exact hsaved.of_comments rfl
  | commentVoted _ _ hm => exact h.saveComment hm rfl rfl
  | _ => exact h.of_comments rfl

/-- The stores are rooted when each thread is. -/
theorem rooted_iff : s.Rooted ↔ ∀ i, (s.thread i).Rooted := by
  constructor
  · intro h i m hm j hj
    obtain ⟨hmem, rfl⟩ := mem_thread_comments.mp hm
    obtain ⟨p, hp, hpid, hpost, hlt⟩ := h m hmem j hj
    exact ⟨p, mem_thread_comments.mpr ⟨hp, hpost⟩, hpid, hlt⟩
  · intro h m hm j hj
    obtain ⟨p, hp, hpid, hlt⟩ := h m.discussionId m (mem_thread_comments.mpr ⟨hm, rfl⟩) j hj
    obtain ⟨hp, hpost⟩ := mem_thread_comments.mp hp
    exact ⟨p, hp, hpid, hpost, hlt⟩

/-- A call keeps every comment below its parent. -/
theorem rooted_call (h : s.Rooted) : (s.step c).Rooted :=
  rooted_iff.mpr fun i => rooted_step (thread_step s c i) (rooted_iff.mp h i)

theorem rooted_empty : Db.empty.Rooted := fun m hm => absurd hm (Table.not_mem_empty m)

/-- Comments are below their parents after every run. -/
theorem rooted_after (calls : List Call) : (Db.after calls).Rooted :=
  run_invariant (P := fun s : Db => s.Rooted) (fun _ _ => rooted_call) rooted_empty calls

/-! ## Pages

A level of the tree is cut into pages. Each comment of a level is on one of them. -/

namespace SortKey

/-- Two keys are always in order, one way or the other. -/
theorem le_total (oldest : Bool) (a b : SortKey) : a.le oldest b || b.le oldest a := by
  simp only [le, Bool.or_eq_true, decide_eq_true_eq]
  cases oldest <;> simp only [if_true, if_false, Bool.false_eq_true] <;> grind

theorem le_trans (oldest : Bool) (a b c : SortKey) (hab : a.le oldest b) (hbc : b.le oldest c) :
    a.le oldest c := by
  simp only [le, decide_eq_true_eq] at *
  cases oldest <;> simp only [if_true, if_false, Bool.false_eq_true] at * <;> grind

/-- Two rows that could be in either order are one. -/
theorem id_eq_of_le (oldest : Bool) {a b : SortKey} (hab : a.le oldest b) (hba : b.le oldest a) : a.id = b.id := by
  simp only [le, decide_eq_true_eq] at *
  cases oldest <;> simp only [if_true, if_false, Bool.false_eq_true] at * <;> grind

end SortKey

namespace CommentsService

/-- The rows of a level, in the order of the query. -/
def level (s : Db) (discussionId : Id) (sort : SortBy) (parent : Option Id) : List Comment :=
  (s.comments.select (listed s discussionId parent)).mergeSort
    fun a b => (sortKey sort a).le (decide (sort = .oldest)) (sortKey sort b)

/-- The comments of a level. -/
theorem mem_level {discussionId : Id} {sort : SortBy} {parent : Option Id} {m : Comment} :
    m ∈ level s discussionId sort parent ↔ m ∈ s.comments ∧ listed s discussionId parent m :=
  List.mem_mergeSort.trans Table.mem_select

/-- The order leaves no choice: whoever sorts the rows gets the level, so that every page is cut out of the same
rows. -/
theorem level_unique {discussionId : Id} {sort : SortBy} {parent : Option Id} {rows : List Comment}
    (hrows : rows.Perm (s.comments.select (listed s discussionId parent)))
    (hsorted : rows.Pairwise fun a b => (sortKey sort a).le (decide (sort = .oldest)) (sortKey sort b)) :
    rows = level s discussionId sort parent := by
  have hlevel : (level s discussionId sort parent).Pairwise
      fun a b => (sortKey sort a).le (decide (sort = .oldest)) (sortKey sort b) :=
    List.pairwise_mergeSort (fun a b c => SortKey.le_trans _ (sortKey sort a) (sortKey sort b) (sortKey sort c))
      (fun a b => SortKey.le_total _ (sortKey sort a) (sortKey sort b)) _
  refine List.Perm.eq_of_pairwise (fun a b ha hb hab hba => ?_) hsorted hlevel
    (hrows.trans (List.mergeSort_perm _ _).symm)
  have hmem : ∀ m ∈ s.comments.select (listed s discussionId parent), m ∈ s.comments :=
    fun m hm => (Table.mem_select.mp hm).1
  exact Table.eq_of_key_eq (hmem a (hrows.mem_iff.mp ha)) (hmem b (List.mem_mergeSort.mp hb))
    (SortKey.id_eq_of_le _ hab hba)

/-- A comment counts replies when it has some. -/
theorem replyCount_pos : 0 < replyCount s k ↔ ∃ m ∈ s.comments, m.parentCommentId = some k := by
  simp only [replyCount, List.length_pos_iff_exists_mem, Table.mem_select, decide_eq_true_eq]
  rfl

/-- A comment is listed when it is not deleted, or deleted with replies. -/
theorem listed_iff {discussionId : Id} {parent : Option Id} {m : Comment} :
    listed s discussionId parent m ↔ m.discussionId = discussionId ∧ m.parentCommentId = parent
      ∧ (m.deletedAt = none ∨ ∃ reply ∈ s.comments, reply.parentCommentId = some m.id) := by
  rw [listed, decide_eq_true_eq, replyCount_pos]

/-- The level that a filter asks for. -/
def levelOf (s : Db) (d : UuidText) (filter : FilterCommentDto) : List Comment :=
  level s d.id filter.sort (filter.parentCommentId.map (·.id))

/-- The discussion `p` is shown to the reader, with the comment that the filter names. -/
structure Opens (s : Db) (d : UuidText) (filter : FilterCommentDto) (user : GatewayUser) (p : Discussion) :
    Prop where
  post : s.post? d.id = some p
  readable : Readable user p
  visible : RoomsService.requireVisible s p.roomId user = .ok ()
  parent : ∀ u ∈ filter.parentCommentId, ∃ m ∈ s.comments, m.id = u.id ∧ m.discussionId = d.id

/-- What the list responds with. -/
def page (w : World) (s : Db) (d : UuidText) (filter : FilterCommentDto) (user : GatewayUser) (p : Discussion) :
    PaginatedResult CommentItem :=
  let items := pageOf filter.page filter.limit (levelOf s d filter)
  { data := List.zipWith (item s p user) items (ContentPresenter.comments w s user items)
    page := filter.page
    limit := filter.limit
    totalItems := (levelOf s d filter).length
    totalPages := totalPages (levelOf s d filter).length filter.limit }

/-- A page is returned for a post that may be read. -/
theorem findAllByDiscussion_eq_ok {d : UuidText} {filter : FilterCommentDto}
    {result : PaginatedResult CommentItem} :
    findAllByDiscussion w s d filter user = .ok result
      ↔ ∃ p, Opens s d filter user p ∧ result = page w s d filter user p := by
  have hparent : (filter.parentCommentId.all fun u =>
      (s.comments.get? u.id).any fun m => decide (m.discussionId = d.id)) = true
        ↔ ∀ u ∈ filter.parentCommentId, ∃ m ∈ s.comments, m.id = u.id ∧ m.discussionId = d.id := by
    simp only [Option.all_eq_true, Option.mem_def, Option.any_eq_true, decide_eq_true_eq]
    refine forall_congr' fun u => imp_congr_right fun _ => ⟨?_, ?_⟩
    · rintro ⟨m, hm, hd⟩
      obtain ⟨hmem, hid⟩ := Table.get?_eq_some.mp hm
      exact ⟨m, hmem, hid, hd⟩
    · rintro ⟨m, hm, hid, hd⟩
      exact ⟨m, Table.get?_eq_some.mpr ⟨hm, hid⟩, hd⟩
  simp only [findAllByDiscussion, bind_eq_ok, orThrow_eq_ok, requireReadable_eq_ok, require_eq_ok, pure_eq_ok,
    hparent]
  constructor
  · rintro ⟨p, hp, -, hreadable, ⟨⟩, hvisible, -, hfound, rfl⟩
    exact ⟨p, ⟨hp, hreadable, hvisible, hfound⟩, rfl⟩
  · rintro ⟨p, hopens, rfl⟩
    exact ⟨p, hopens.post, (), hopens.readable, (), hopens.visible, (), hopens.parent, rfl⟩

/-- The elements of the response are the comments of the page. -/
theorem page_ids {d : UuidText} {filter : FilterCommentDto} {p : Discussion} :
    (page w s d filter user p).data.map (·.id)
      = (pageOf filter.page filter.limit (levelOf s d filter)).map (·.id) := by
  show (List.zipWith _ _ (List.map _ _)).map _ = _
  rw [List.zipWith_map_right, List.zipWith_self, List.map_map]
  rfl

/-- A comment of the page is shown with the number of the rows below it. -/
theorem exists_mem_page {d : UuidText} {filter : FilterCommentDto} {p : Discussion} {m : Comment}
    (hm : m ∈ pageOf filter.page filter.limit (levelOf s d filter)) :
    ∃ item ∈ (page w s d filter user p).data, item.id = m.id ∧ item.replyCount = replyCount s m.id := by
  have hdata : (page w s d filter user p).data = (pageOf filter.page filter.limit (levelOf s d filter)).map
      fun m => item s p user m (ContentPresenter.commentView s (ContentPresenter.profiles w
        ((pageOf filter.page filter.limit (levelOf s d filter)).map (·.item))) user (Id.text m.discussionId) m) := by
    show List.zipWith _ _ (List.map _ _) = _
    rw [List.zipWith_map_right, List.zipWith_self]
  rw [hdata]
  exact ⟨_, List.mem_map_of_mem hm, rfl, rfl⟩

/-- The comments that one page shows. -/
def pageIds (w : World) (s : Db) (d : UuidText) (user : GatewayUser) (filter : FilterCommentDto) : List Id :=
  match findAllByDiscussion w s d filter user with
  | .ok result => result.data.map (·.id)
  | .error _ => []

/-- The comments that the pages of a level show, in their order. The first page says how many there are. -/
def levelIds (w : World) (s : Db) (d : UuidText) (user : GatewayUser) (limit : Nat) (sort : SortBy)
    (parentCommentId : Option UuidText) : List Id :=
  match findAllByDiscussion w s d { limit, sort, parentCommentId } user with
  | .ok result => (List.range result.totalPages).flatMap fun page =>
      pageIds w s d user { page := page + 1, limit, sort, parentCommentId }
  | .error _ => []

/-- **The pages of a level**, one after the other, are the level. -/
theorem levelIds_eq {d : UuidText} {limit : Nat} {sort : SortBy} {parentCommentId : Option UuidText}
    {p : Discussion} (hlimit : 0 < limit) (h : Opens s d { limit, sort, parentCommentId } user p) :
    levelIds w s d user limit sort parentCommentId
      = (level s d.id sort (parentCommentId.map (·.id))).map (·.id) := by
  have hpage : ∀ page, pageIds w s d user { page := page + 1, limit, sort, parentCommentId }
      = (pageOf (page + 1) limit (level s d.id sort (parentCommentId.map (·.id)))).map (·.id) := by
    intro page
    have hok : findAllByDiscussion w s d { page := page + 1, limit, sort, parentCommentId } user
        = .ok (CommentsService.page w s d { page := page + 1, limit, sort, parentCommentId } user p) :=
      findAllByDiscussion_eq_ok.mpr ⟨p, ⟨h.post, h.readable, h.visible, h.parent⟩, rfl⟩
    rw [pageIds, hok]
    exact page_ids
  have hok : findAllByDiscussion w s d { limit, sort, parentCommentId } user
      = .ok (CommentsService.page w s d { limit, sort, parentCommentId } user p) :=
    findAllByDiscussion_eq_ok.mpr ⟨p, h, rfl⟩
  rw [levelIds, hok]
  show (List.range (totalPages (level s d.id sort (parentCommentId.map (·.id))).length limit)).flatMap _ = _
  simp only [hpage]
  rw [← List.map_flatMap, flatMap_pageOf, List.take_of_length_le (le_totalPages_mul hlimit _)]

/-- A level shows no comment twice, as ids are unique. -/
theorem level_ids_nodup (discussionId : Id) (sort : SortBy) (parent : Option Id) :
    ((level s discussionId sort parent).map (·.id)).Nodup := by
  have hids : (s.comments.rows.map Comment.id).Nodup := s.comments.nodup
  have hselected : ((s.comments.select (listed s discussionId parent)).map Comment.id).Nodup :=
    hids.sublist (List.filter_sublist.map Comment.id)
  exact ((List.mergeSort_perm _ _).map Comment.id).nodup_iff.mpr hselected

end CommentsService

/-! ## Reachability

A viewer reaches a comment from the top level down, over pages of replies. -/

/-- A reader starts with the roots and lists the replies of the comments that are listed. -/
inductive Reached (w : World) (s : Db) (d : UuidText) (user : GatewayUser) (limit : Nat) (sort : SortBy) :
    Id → Prop where
  | root {k : Id} (hk : k ∈ levelIds w s d user limit sort none) : Reached w s d user limit sort k
  | reply {j k : Id} (hj : Reached w s d user limit sort j)
      (hk : k ∈ levelIds w s d user limit sort (some (Id.text j))) : Reached w s d user limit sort k

/-- A comment that is listed at its level is reached. The induction is on its age. -/
theorem reached_of_listed {d : UuidText} {limit : Nat} {sort : SortBy} {p : Discussion} (hlimit : 0 < limit)
    (hrooted : s.Rooted) (hopens : Opens s d { limit, sort } user p) :
    ∀ n, ∀ m ∈ s.comments, m.id = n → m.discussionId = d.id →
      (m.deletedAt = none ∨ ∃ reply ∈ s.comments, reply.parentCommentId = some m.id) →
      Reached w s d user limit sort n := by
  intro n
  induction n using Nat.strongRecOn with
  | ind n ih =>
    intro m hm hid hd hshown
    have hlevel : ∀ parent, m.parentCommentId = parent → n ∈ (level s d.id sort parent).map (·.id) := by
      intro parent hparent
      exact List.mem_map.mpr ⟨m, mem_level.mpr ⟨hm, CommentsService.listed_iff.mpr ⟨hd, hparent, hshown⟩⟩, hid⟩
    cases hparent : m.parentCommentId with
    | none =>
      refine .root ?_
      rw [levelIds_eq hlimit hopens]
      exact hlevel none hparent
    | some j =>
      -- the parent is older, and has this reply
      obtain ⟨q, hq, hqid, hqd, hlt⟩ := hrooted m hm j hparent
      have hreached : Reached w s d user limit sort j := by
        refine ih j (hid ▸ hlt) q hq hqid (hqd.trans hd) (.inr ⟨m, hm, ?_⟩)
        rw [hparent, hqid]
      have hopens' : Opens s d { limit, sort, parentCommentId := some (Id.text j) } user p := by
        refine ⟨hopens.post, hopens.readable, hopens.visible, fun u hu => ?_⟩
        obtain rfl := Option.some.inj hu
        exact ⟨q, hq, hqid, hqd.trans hd⟩
      refine .reply hreached ?_
      rw [levelIds_eq hlimit hopens']
      exact hlevel (some j) hparent

/-- **No live comment becomes unreachable.** In every state that the service reaches, the pages of a level show
its listed comments once each and nothing else, whatever the limit and the order, and a reader of the discussion
reaches every comment of it that is not deleted. -/
theorem comments_reachable (calls : List Call) (w : World) (d : UuidText) (user : GatewayUser) (limit : Nat)
    (sort : SortBy) (hlimit : 0 < limit)
    (hreadable : ∃ result, findAllByDiscussion w (Db.after calls) d { limit, sort } user = .ok result) :
    (∀ parentCommentId,
      (∃ result, findAllByDiscussion w (Db.after calls) d { limit, sort, parentCommentId } user = .ok result) →
      (levelIds w (Db.after calls) d user limit sort parentCommentId).Nodup
        ∧ ∀ k, k ∈ levelIds w (Db.after calls) d user limit sort parentCommentId
          ↔ ∃ m ∈ (Db.after calls).comments, m.id = k ∧ m.discussionId = d.id
            ∧ m.parentCommentId = parentCommentId.map (·.id)
            ∧ (m.deletedAt = none ∨ ∃ reply ∈ (Db.after calls).comments, reply.parentCommentId = some m.id))
      ∧ ∀ m ∈ (Db.after calls).comments, m.discussionId = d.id → m.deletedAt = none →
        Reached w (Db.after calls) d user limit sort m.id := by
  constructor
  · rintro parentCommentId ⟨result, hresult⟩
    obtain ⟨p, hopens, -⟩ := findAllByDiscussion_eq_ok.mp hresult
    -- the pages together are the sorted level
    rw [levelIds_eq hlimit hopens]
    refine ⟨level_ids_nodup _ _ _, fun k => ?_⟩
    simp only [List.mem_map, mem_level, CommentsService.listed_iff]
    constructor
    · rintro ⟨m, ⟨hm, hlisted⟩, hk⟩
      exact ⟨m, hm, hk, hlisted⟩
    · rintro ⟨m, hm, hk, hlisted⟩
      exact ⟨m, ⟨hm, hlisted⟩, hk⟩
  -- a live comment is listed, and so is every ancestor of it
  · intro m hm hd hlive
    obtain ⟨result, hresult⟩ := hreadable
    obtain ⟨p, hopens, -⟩ := findAllByDiscussion_eq_ok.mp hresult
    exact reached_of_listed hlimit (rooted_after calls) hopens m.id m hm rfl hd (.inl hlive)

namespace Sample

/-- Students `2` and `3` comment on the question `0`, the second under the first, which is then deleted. -/
def tombstone : List Call := [
  openForum, join 2, join 3, ask,
  call 2 (student 2) (.comments (.create (Id.text 0) { content := "Which graph do you mean?" })),
  call 3 (student 3) (.comments (.create (Id.text 0)
    { content := "The one of the lecture.", parentCommentId := some (Id.text 0) })),
  call 4 (student 2) (.comments (.remove (Id.text 0)))]

end Sample

theorem comments_reachable_tombstone :
    (Db.after Sample.tombstone).comments.rows.map (fun m => (m.id, m.parentCommentId, m.deletedAt))
        = [(0, none, some 4), (1, some 0, none)]
      ∧ ∀ m ∈ (Db.after Sample.tombstone).comments, m.discussionId = 0 → m.deletedAt = none →
        Reached (World.quiet 5) (Db.after Sample.tombstone) (Id.text 0) (Sample.student 1) 1 .oldest m.id := by
  have hreadable : ∃ result, findAllByDiscussion (World.quiet 5) (Db.after Sample.tombstone) (Id.text 0)
      { limit := 1, sort := .oldest } (Sample.student 1) = .ok result := isOk_iff.mp (by decide +kernel)
  exact ⟨by decide +kernel, (comments_reachable Sample.tombstone (World.quiet 5) (Id.text 0) (Sample.student 1) 1
    .oldest (by decide) hreadable).2⟩

end AcaSocial
