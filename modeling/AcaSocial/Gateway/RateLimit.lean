import Mathlib.Data.List.TakeWhile
import AcaSocial.Base.SlidingWindow
import Mathlib.Algebra.Order.Ring.Int

/-!
# The two rate limiters

The file `ratelimit.go` of the gateway: a window in memory, which a goroutine cleans up, and a script that Redis runs.

* **`localLimiter`** — the visitors of this process. Times are nanoseconds.
* **`redisLimiter`** — the sorted sets of Redis, with their deadlines. Times are milliseconds.
* **`rateLimiters_agree`** — both are one sliding window.
-/

namespace AcaSocial.Gateway

/-- Nanoseconds. -/
def second : Int := 10 ^ 9

def rateWindow : Int := 60 * second

/-- `int64((wait + time.Second - 1) / time.Second)`, the value of `Retry-After`. -/
def retryAfter (wait : Int) : Int := (wait + second - 1) / second

/-! ## The window in memory

The limiter of one gateway, with a list of times for each key. -/

/-- `copy(dst, src)`. -/
def copySlice {α : Type} (dst src : List α) : List α := src.take dst.length ++ dst.drop src.length

/-- The requests of a client that were admitted, oldest first, and when it was last seen. -/
structure Visitor where
  requests : List Int := []
  lastSeen : Option Int := none

namespace Visitor

/-- What `localRateLimitWait` does with the visitor while it holds its mutex. -/
def wait (v : Visitor) (limit : Nat) (now : Int) : Int × Visitor :=
  let expired := (v.requests.takeWhile fun r => decide (¬ now - rateWindow < r)).length
  let requests :=
    if expired > 0 then (copySlice v.requests (v.requests.drop expired)).take (v.requests.length - expired)
    else v.requests
  if requests.length ≥ limit then (requests.headD 0 + rateWindow - now, ⟨requests, some now⟩)
  else (0, ⟨requests ++ [now], some now⟩)

/-- `time.Since(v.lastSeen) > 10*time.Minute`. A visitor that has not been seen yet has the zero time. -/
def idle (v : Visitor) (now : Int) : Bool :=
  match v.lastSeen with
  | none => true
  | some seen => decide (now - seen > 600 * second)

end Visitor

/-- `visitors`. -/
abbrev Visitors := String → Option Visitor

/-- `localRateLimitWait` and the ticks of `cleanupVisitors`. -/
def localLimiter (limit : String → Nat) : Limiter Visitors String where
  init _ := none
  call visitors key now :=
    let v := ((visitors key).getD {}).wait (limit key) now
    (v.1, Function.update visitors key (some v.2))
  tick visitors now := fun key => (visitors key).filter fun v => !v.idle now

/-! ## The script

The limiter of all gateways, a script in Redis on a sorted set. -/

/-- Milliseconds. -/
def rateWindowMs : Int := 60000

/-- A member of a sorted set. -/
structure Member where
  member : Nat
  score : Int

/-- A sorted set and its deadline. Members with one score are in the order in which they came: nothing depends on it. -/
structure SortedSet where
  members : List Member
  deadline : Int

/-- The sorted sets, and the counter that the members come from. -/
structure RedisWindows where
  sets : String → Option SortedSet := fun _ => none
  memberCounter : Nat := 0

namespace SortedSet

/-- `ZADD`. -/
def zadd (members : List Member) (score : Int) (member : Nat) : List Member :=
  let others := members.filter fun m => decide (m.member ≠ member)
  others.takeWhile (fun m => decide (m.score ≤ score)) ++ ⟨member, score⟩
    :: others.dropWhile fun m => decide (m.score ≤ score)

end SortedSet

/-- The members of a key whose deadline has not passed. -/
def RedisWindows.members (s : RedisWindows) (key : String) (now : Int) : List Member :=
  match s.sets key with
  | some set => if now < set.deadline then set.members else []
  | none => []

/-- `slidingWindowScript`, for a member that no other call has. -/
def slidingWindowScript (s : RedisWindows) (key : String) (maxReq : Nat) (now : Int) : Int × RedisWindows :=
  let member := s.memberCounter + 1
  let members := (s.members key now).filter fun m => decide (now - rateWindowMs < m.score)
  if members.length ≥ maxReq then
    (max 1 ((members.head?.elim 0 Member.score) + rateWindowMs - now),
      { sets := Function.update s.sets key ((s.sets key).map fun set => { set with members }), memberCounter := member })
  else
    (0, {
      sets := Function.update s.sets key (some ⟨SortedSet.zadd members now member, now + (rateWindowMs + 1000)⟩)
      memberCounter := member })

/-- The script, and what Redis removes by itself. -/
def redisLimiter (limit : String → Nat) : Limiter RedisWindows String where
  init := {}
  call s key now := slidingWindowScript s key (limit key) now
  tick s now := { s with sets := fun key => (s.sets key).filter fun set => decide (now < set.deadline) }

/-! ## What the limiters keep

The times that are kept are those of the window, in order. -/

section

variable {now : Int} {limit : String → Nat} {visitors : Visitors} {log : String → List Int}

/-- The slice without its first elements. -/
theorem take_copySlice {α : Type} (l : List α) (n : Nat) :
    (copySlice l (l.drop n)).take (l.length - n) = l.drop n := by
  have hlength : (l.drop n).length ≤ l.length := by
    rw [List.length_drop]
    exact Nat.sub_le _ _
  rw [copySlice, List.take_of_length_le hlength]
  exact List.take_left' List.length_drop

/-- Of times in order, the ones behind the first old ones are the ones that are not old. -/
theorem drop_takeWhile {l : List Int} (h : l.Pairwise (· ≤ ·)) (b : Int) :
    l.drop (l.takeWhile fun r => decide (¬ b < r)).length = l.filter fun r => decide (b < r) := by
  induction l with
  | nil => rfl
  | cons r l ih =>
    obtain ⟨hfirst, hrest⟩ := List.pairwise_cons.mp h
    by_cases hr : b < r
    · have hall : (r :: l).filter (fun r => decide (b < r)) = r :: l := by
        refine List.filter_eq_self.mpr fun a ha => decide_eq_true ?_
        rcases List.mem_cons.mp ha with rfl | ha
        · exact hr
        · exact Int.lt_of_lt_of_le hr (hfirst a ha)
      rw [hall, List.takeWhile_cons_of_neg (by simpa using hr)]
      rfl
    · rw [List.takeWhile_cons_of_pos (by simpa using hr), List.filter_cons_of_neg (by simpa using hr)]
      exact ih hrest

/-- The section under the mutex, for a visitor whose requests are in order. -/
theorem Visitor.wait_eq {v : Visitor} (h : v.requests.Pairwise (· ≤ ·)) (limit : Nat) (now : Int) :
    v.wait limit now =
      (let recent := v.requests.filter fun r => decide (now - rateWindow < r)
      if recent.length ≥ limit then (recent.headD 0 + rateWindow - now, ⟨recent, some now⟩)
      else (0, ⟨recent ++ [now], some now⟩)) := by
  have hrecent : (if (v.requests.takeWhile fun r => decide (¬ now - rateWindow < r)).length > 0 then
      (copySlice v.requests (v.requests.drop (v.requests.takeWhile fun r => decide (¬ now - rateWindow < r)).length)).take
        (v.requests.length - (v.requests.takeWhile fun r => decide (¬ now - rateWindow < r)).length)
      else v.requests) = v.requests.filter fun r => decide (now - rateWindow < r) := by
    rw [take_copySlice, ← drop_takeWhile h]
    split
    · rfl
    · next hnone => rw [Nat.eq_zero_of_not_pos hnone, List.drop_zero]
  unfold Visitor.wait
  dsimp only
  rw [hrecent]

/-- A call notes when the visitor was seen. -/
@[simp] theorem Visitor.lastSeen_wait (v : Visitor) (limit : Nat) (now : Int) :
    (v.wait limit now).2.lastSeen = some now := by
  have heither : ∀ requests : List Int,
      (if requests.length ≥ limit then (requests.headD 0 + rateWindow - now, Visitor.mk requests (some now))
        else (0, Visitor.mk (requests ++ [now]) (some now))).2.lastSeen = some now := by
    intro requests
    split <;> rfl
  exact heither _

/-- **The section** does with the requests that a visitor remembers what the sliding window does with all. -/
theorem Visitor.wait_recalls {v : Visitor} {key : String} (h : Recalls rateWindow now v.requests (log key))
    (hlimit : 1 ≤ limit key) :
    (v.wait (limit key) now).1 = ((slidingWindow limit rateWindow).call log key now).1
      ∧ Recalls rateWindow now (v.wait (limit key) now).2.requests
        (((slidingWindow limit rateWindow).call log key now).2 key) := by
  rw [Visitor.wait_eq h.sorted]
  unfold slidingWindow
  dsimp only
  rw [← h.recent now (Int.le_refl now)]
  by_cases hroom : (v.requests.filter fun a => decide (now - rateWindow < a)).length < limit key
  · rw [if_neg (Nat.not_le_of_lt hroom), if_pos hroom]
    refine ⟨rfl, ?_⟩
    show Recalls _ _ _ (Function.update log key (log key ++ [now]) key)
    rw [Function.update_self]
    exact h.expire.add
  · rw [if_pos (Nat.le_of_not_lt hroom), if_neg hroom]
    refine ⟨?_, h.expire⟩
    cases hcases : v.requests.filter fun a => decide (now - rateWindow < a) with
    | nil =>
      rw [hcases] at hroom
      exact absurd hlimit hroom
    | cons oldest rest => rfl

/-- A visitor keeps the recent admissions, and none is younger than it was last seen. -/
structure VisitorRecalls (now : Int) (v : Option Visitor) (log : List Int) : Prop where
  recalls : Recalls rateWindow now (v.getD {}).requests log
  seen : ∀ v' ∈ v, ∃ seen, v'.lastSeen = some seen ∧ ∀ a ∈ v'.requests, a ≤ seen

/-- A visitor that has just been seen. -/
theorem VisitorRecalls.fresh {v : Visitor} {log : List Int} (h : Recalls rateWindow now v.requests log)
    (hseen : v.lastSeen = some now) : VisitorRecalls now (some v) log :=
  ⟨h, fun _ hv => ⟨now, Option.some.inj hv ▸ ⟨hseen, h.le⟩⟩⟩

/-- A visitor that has not been seen for ten minutes has nothing recent. -/
theorem VisitorRecalls.tick {v : Option Visitor} {log : List Int} (h : VisitorRecalls now v log) :
    VisitorRecalls now (v.filter fun v => !v.idle now) log := by
  cases v with
  | none => exact h
  | some v =>
    obtain ⟨seen, hlast, hle⟩ := h.seen v rfl
    rw [Option.filter_some]
    cases hidle : v.idle now with
    | false => exact h
    | true =>
      have hlong : now - seen > 600 * second := by
        unfold Visitor.idle at hidle
        rw [hlast] at hidle
        exact of_decide_eq_true hidle
      refine ⟨h.recalls.forget fun a ha => ?_, fun _ hv => (by cases hv)⟩
      have ha := hle a ha
      unfold rateWindow second at *
      omega

/-- All visitors do. -/
def LocalRecalls (now : Int) (visitors : Visitors) (log : String → List Int) : Prop :=
  ∀ key, VisitorRecalls now (visitors key) (log key)

/-- A call writes the visitor of its key. -/
theorem LocalRecalls.update {v : Visitor} {log' : String → List Int} {key : String} (h : LocalRecalls now visitors log)
    (hlog : ∀ j, j ≠ key → log' j = log j) (hv : Recalls rateWindow now v.requests (log' key))
    (hseen : v.lastSeen = some now) : LocalRecalls now (Function.update visitors key (some v)) log' := by
  intro j
  by_cases hj : j = key
  · subst hj
    rw [Function.update_self]
    exact .fresh hv hseen
  · rw [Function.update_of_ne hj, hlog j hj]
    exact h j

/-- A call is answered as the window does. -/
theorem LocalRecalls.call (hlimit : ∀ key, 1 ≤ limit key) (h : LocalRecalls now visitors log) (key : String) :
    ((localLimiter limit).call visitors key now).1 = ((slidingWindow limit rateWindow).call log key now).1
      ∧ LocalRecalls now ((localLimiter limit).call visitors key now).2
        ((slidingWindow limit rateWindow).call log key now).2 := by
  obtain ⟨hwait, hrecalls⟩ := Visitor.wait_recalls (h key).recalls (hlimit key)
  exact ⟨hwait, h.update (fun j hj => slidingWindow_call_of_ne limit rateWindow log now hj) hrecalls
    (Visitor.lastSeen_wait _ _ _)⟩

/-- **The window in memory** answers as the limiter that keeps everything. -/
theorem localLimiter_simulation (hlimit : ∀ key, 1 ≤ limit key) :
    (localLimiter limit).Simulation (slidingWindow limit rateWindow) LocalRecalls where
  init _ _ := ⟨.nil _ _, fun _ hv => (by cases hv)⟩
  later _ _ _ _ hle h key := ⟨(h key).recalls.later hle, (h key).seen⟩
  call _ _ _ key h := h.call hlimit key
  tick _ _ _ h key := (h key).tick

end

/-! ## What the script keeps

The members of the set are those of the window, as long as the key lives. -/

section

variable {now : Int} {limit : String → Nat} {s : RedisWindows} {log : String → List Int}

/-- A sorted set keeps the recent admissions, and lives until all of them are old. Its members have been handed out. -/
structure SetRecalls (now : Int) (counter : Nat) (set : Option SortedSet) (log : List Int) : Prop where
  recalls : Recalls rateWindowMs now ((set.elim [] SortedSet.members).map Member.score) log
  deadline : ∀ set' ∈ set, ∀ m ∈ set'.members, m.score + rateWindowMs ≤ set'.deadline
  handedOut : ∀ set' ∈ set, ∀ m ∈ set'.members, m.member ≤ counter

def RedisRecalls (now : Int) (s : RedisWindows) (log : String → List Int) : Prop :=
  ∀ key, SetRecalls now s.memberCounter (s.sets key) (log key)

/-- What Redis removes is old. -/
theorem SetRecalls.live {counter : Nat} {set : Option SortedSet} {log : List Int} (h : SetRecalls now counter set log) :
    SetRecalls now counter (set.filter fun set => decide (now < set.deadline)) log := by
  cases set with
  | none => exact h
  | some set =>
    rw [Option.filter_some]
    by_cases hlive : now < set.deadline
    · rw [if_pos (decide_eq_true hlive)]
      exact h
    · rw [if_neg (by simpa using hlive)]
      refine ⟨h.recalls.forget fun a ha => ?_, fun _ hset => (by cases hset), fun _ hset => (by cases hset)⟩
      obtain ⟨m, hm, rfl⟩ := List.mem_map.mp ha
      have hm := h.deadline set rfl m hm
      omega

/-- A new member goes behind all that are not younger. -/
theorem zadd_eq {members : List Member} {score : Int} {member : Nat} (hscore : ∀ m ∈ members, m.score ≤ score)
    (hmember : ∀ m ∈ members, m.member < member) :
    SortedSet.zadd members score member = members ++ [⟨member, score⟩] := by
  have hothers : members.filter (fun m => decide (m.member ≠ member)) = members :=
    List.filter_eq_self.mpr fun m hm => decide_eq_true (Nat.ne_of_lt (hmember m hm))
  unfold SortedSet.zadd
  dsimp only
  rw [hothers, List.takeWhile_eq_self_iff.mpr fun m hm => decide_eq_true (hscore m hm),
    List.dropWhile_eq_nil_iff.mpr fun m hm => decide_eq_true (hscore m hm)]

/-- The members of a key are those of its set while it lives. -/
theorem members_eq (s : RedisWindows) (key : String) (now : Int) :
    s.members key now = ((s.sets key).filter fun set => decide (now < set.deadline)).elim [] SortedSet.members := by
  unfold RedisWindows.members
  cases s.sets key with
  | none => rfl
  | some set =>
    rw [Option.filter_some]
    by_cases hlive : now < set.deadline
    · rw [if_pos (decide_eq_true hlive)]
      exact if_pos hlive
    · rw [if_neg (by simpa using hlive)]
      exact if_neg hlive

/-- More members may have been handed out. -/
theorem SetRecalls.mono {counter counter' : Nat} {set : Option SortedSet} {log : List Int}
    (h : SetRecalls now counter set log) (hle : counter ≤ counter') : SetRecalls now counter' set log :=
  ⟨h.recalls, h.deadline, fun set' hset m hm => Nat.le_trans (h.handedOut set' hset m hm) hle⟩

/-- A call writes the set of its key. -/
theorem RedisRecalls.update {set : Option SortedSet} {log' : String → List Int} {key : String}
    (h : RedisRecalls now s log) (hlog : ∀ j, j ≠ key → log' j = log j)
    (hset : SetRecalls now (s.memberCounter + 1) set (log' key)) :
    RedisRecalls now { sets := Function.update s.sets key set, memberCounter := s.memberCounter + 1 } log' := by
  intro j
  show SetRecalls now (s.memberCounter + 1) (Function.update s.sets key set j) (log' j)
  by_cases hj : j = key
  · subst hj
    rw [Function.update_self]
    exact hset
  · rw [Function.update_of_ne hj, hlog j hj]
    exact (h j).mono (Nat.le_succ _)

/-- The recent members of a set are the recent admissions. -/
theorem RedisRecalls.recent (h : RedisRecalls now s log) (key : String) :
    ((s.members key now).filter fun m => decide (now - rateWindowMs < m.score)).map Member.score
      = (log key).filter fun a => decide (now - rateWindowMs < a) := by
  rw [members_eq, ← (h key).live.recalls.recent now (Int.le_refl now), List.filter_map]
  rfl

/-- Without room the script keeps the recent members, and with them the set and its deadline. -/
theorem RedisRecalls.expire (h : RedisRecalls now s log) (key : String) :
    SetRecalls now (s.memberCounter + 1) ((s.sets key).map fun set =>
      { set with members := (s.members key now).filter fun m => decide (now - rateWindowMs < m.score) }) (log key) := by
  have hlive := (h key).live
  have hmembers := members_eq s key now
  cases hset : s.sets key with
  | none =>
    rw [hset] at hlive
    exact hlive.mono (Nat.le_succ _)
  | some set =>
    rw [hset, Option.filter_some] at hlive hmembers
    have hrecalls := hlive.recalls.expire
    rw [← hmembers, List.filter_map] at hrecalls
    -- a member that is kept was in the set
    have hin : ∀ m ∈ (s.members key now).filter fun m => decide (now - rateWindowMs < m.score), m ∈ set.members := by
      intro m hm
      have hm := (List.mem_filter.mp hm).1
      rw [hmembers] at hm
      split at hm
      · exact hm
      · exact absurd hm List.not_mem_nil
    have hold := h key
    rw [hset] at hold
    refine ⟨hrecalls, ?_, ?_⟩
    · intro set' hset' m hm
      rw [← Option.some.inj hset'] at hm ⊢
      exact hold.deadline set rfl m (hin m hm)
    · intro set' hset' m hm
      rw [← Option.some.inj hset'] at hm
      exact Nat.le_succ_of_le (hold.handedOut set rfl m (hin m hm))

/-- With room it adds a member, and the set lives until that one is old. -/
theorem RedisRecalls.add (h : RedisRecalls now s log) (key : String) :
    SetRecalls now (s.memberCounter + 1)
      (some ⟨SortedSet.zadd ((s.members key now).filter fun m => decide (now - rateWindowMs < m.score)) now
        (s.memberCounter + 1), now + (rateWindowMs + 1000)⟩) (log key ++ [now]) := by
  have hlive := (h key).live
  have hscore : ∀ m ∈ (s.members key now).filter fun m => decide (now - rateWindowMs < m.score), m.score ≤ now := by
    intro m hm
    have hm := (List.mem_filter.mp hm).1
    rw [members_eq] at hm
    exact hlive.recalls.le m.score (List.mem_map_of_mem hm)
  -- the member is a new one
  have hmember : ∀ m ∈ (s.members key now).filter fun m => decide (now - rateWindowMs < m.score),
      m.member < s.memberCounter + 1 := by
    intro m hm
    have hm := (List.mem_filter.mp hm).1
    rw [members_eq] at hm
    cases hset : (s.sets key).filter fun set => decide (now < set.deadline) with
    | none =>
      rw [hset] at hm
      exact absurd hm List.not_mem_nil
    | some set =>
      rw [hset] at hm hlive
      exact Nat.lt_succ_of_le (hlive.handedOut set rfl m hm)
  rw [zadd_eq hscore hmember]
  have hrecalls := hlive.recalls.expire.add
  rw [← members_eq, List.filter_map] at hrecalls
  refine ⟨?_, ?_, ?_⟩
  · show Recalls _ _ (List.map Member.score (_ ++ [_])) _
    rw [List.map_append]
    exact hrecalls
  · intro set' hset' m hm
    rw [← Option.some.inj hset'] at hm ⊢
    show m.score + rateWindowMs ≤ now + (rateWindowMs + 1000)
    rcases List.mem_append.mp hm with hm | hm
    · have hm := hscore m hm
      omega
    · rw [List.mem_singleton.mp hm]
      show now + rateWindowMs ≤ now + (rateWindowMs + 1000)
      omega
  · intro set' hset' m hm
    rw [← Option.some.inj hset'] at hm
    rcases List.mem_append.mp hm with hm | hm
    · exact Nat.le_of_lt (hmember m hm)
    · rw [List.mem_singleton.mp hm]

/-- A call is answered as the window does. -/
theorem RedisRecalls.call (hlimit : ∀ key, 1 ≤ limit key) (h : RedisRecalls now s log) (key : String) :
    ((redisLimiter limit).call s key now).1 = ((slidingWindow limit rateWindowMs).call log key now).1
      ∧ RedisRecalls now ((redisLimiter limit).call s key now).2
        ((slidingWindow limit rateWindowMs).call log key now).2 := by
  have hrecent := h.recent key
  have hlength := congrArg List.length hrecent
  rw [List.length_map] at hlength
  unfold redisLimiter slidingWindow slidingWindowScript
  dsimp only
  rw [← hlength]
  by_cases hroom : ((s.members key now).filter fun m => decide (now - rateWindowMs < m.score)).length < limit key
  · rw [if_neg (Nat.not_le_of_lt hroom), if_pos hroom]
    refine ⟨rfl, h.update (fun j hj => Function.update_of_ne hj _ _) ?_⟩
    show SetRecalls _ _ _ (Function.update log key (log key ++ [now]) key)
    rw [Function.update_self]
    exact h.add key
  · rw [if_pos (Nat.le_of_not_lt hroom), if_neg hroom]
    refine ⟨?_, h.update (fun _ _ => rfl) (h.expire key)⟩
    rw [← hrecent]
    cases hcases : (s.members key now).filter fun m => decide (now - rateWindowMs < m.score) with
    | nil =>
      rw [hcases] at hroom
      exact absurd (hlimit key) hroom
    | cons oldest rest =>
      -- the oldest member is recent, so that there is something to wait for
      have hmem : oldest ∈ (s.members key now).filter fun m => decide (now - rateWindowMs < m.score) :=
        hcases ▸ List.mem_cons_self
      have hin : now - rateWindowMs < oldest.score := of_decide_eq_true (List.mem_filter.mp hmem).2
      show max 1 (oldest.score + rateWindowMs - now) = oldest.score + rateWindowMs - now
      have hpos : 1 ≤ oldest.score + rateWindowMs - now := by omega
      exact Int.max_eq_right hpos

/-- **The script** answers as the limiter that keeps everything. -/
theorem redisLimiter_simulation (hlimit : ∀ key, 1 ≤ limit key) :
    (redisLimiter limit).Simulation (slidingWindow limit rateWindowMs) RedisRecalls where
  init _ _ := ⟨.nil _ _, fun _ hset => (by cases hset), fun _ hset => (by cases hset)⟩
  later _ _ _ _ hle h key := ⟨(h key).recalls.later hle, (h key).deadline, (h key).handedOut⟩
  call _ _ _ key h := h.call hlimit key
  tick _ _ _ h key := (h key).live

end

/-! ## Both of them

Both answer as the sliding window does. -/

/-- A client that is told to wait comes back no earlier than that. -/
theorem le_retryAfter (wait : Int) : wait ≤ second * retryAfter wait := by
  unfold retryAfter second
  omega

/-- **The two rate limiters are one sliding window.** -/
theorem rateLimiters_agree (limit : String → Nat) (hlimit : ∀ key, 1 ≤ limit key) :
    (localLimiter limit).IsSlidingWindow limit rateWindow
      ∧ (redisLimiter limit).IsSlidingWindow limit rateWindowMs
      ∧ (∀ es key t es' t', Timely (es ++ .call key t :: es' ++ [.call key t']) →
        (localLimiter limit).wait es key t ≠ 0 → (∀ e ∈ es', e.Spares key) →
        t + second * retryAfter ((localLimiter limit).wait es key t) ≤ t' →
        (localLimiter limit).wait (es ++ .call key t :: es') key t' = 0)
      ∧ (∀ es key t es' t', Timely (es ++ .call key t :: es' ++ [.call key t']) →
        (redisLimiter limit).wait es key t ≠ 0 → (∀ e ∈ es', e.Spares key) →
        t + 1000 * retryAfter (10 ^ 6 * (redisLimiter limit).wait es key t) ≤ t' →
        (redisLimiter limit).wait (es ++ .call key t :: es') key t' = 0)
      ∧ ∀ es es', Timely es → Timely es' → es.filter LimiterEvent.isCall = es'.filter LimiterEvent.isCall →
        (localLimiter limit).answersFrom (localLimiter limit).init (es.map (.scale (10 ^ 6)))
          = ((redisLimiter limit).answersFrom (redisLimiter limit).init es').map (.scale (10 ^ 6)) := by
  have hlocal : (localLimiter limit).IsSlidingWindow limit rateWindow :=
    (localLimiter_simulation hlimit).isSlidingWindow (isSlidingWindow_slidingWindow (by decide) hlimit)
  have hredis : (redisLimiter limit).IsSlidingWindow limit rateWindowMs :=
    (redisLimiter_simulation hlimit).isSlidingWindow (isSlidingWindow_slidingWindow (by decide) hlimit)
  refine ⟨hlocal, hredis, ?_, ?_, ?_⟩
  · intro es key t es' t' hes hwait hspares hretry
    have hle := le_retryAfter ((localLimiter limit).wait es key t)
    exact (hlocal.waits es key t es' t' hes hwait hspares).mpr (by omega)
  · intro es key t es' t' hes hwait hspares hretry
    have hle := le_retryAfter (10 ^ 6 * (redisLimiter limit).wait es key t)
    refine (hredis.waits es key t es' t' hes hwait hspares).mpr ?_
    unfold second at hle
    omega
  -- both simulate the window, one in nanoseconds and one in milliseconds
  · intro es es' hes hes' hcalls
    have hunit : (10 : Int) ^ 6 * rateWindowMs = rateWindow := by decide
    have hpos : (0 : Int) < 10 ^ 6 := by decide
    rw [(localLimiter_simulation hlimit).answers_eq (hes.scale hpos),
      (redisLimiter_simulation hlimit).answers_eq hes', ← hunit, answersFrom_calls limit rateWindowMs _ es',
      ← hcalls, ← answersFrom_calls limit rateWindowMs _ es]
    exact answersFrom_scale hpos limit rateWindowMs (fun _ => []) es

theorem rateLimiters_agree_five :
    ((localLimiter fun _ => 5).IsSlidingWindow (fun _ => 5) rateWindow
      ∧ (redisLimiter fun _ => 5).IsSlidingWindow (fun _ => 5) rateWindowMs) :=
  ⟨(rateLimiters_agree (fun _ => 5) fun _ => by decide).1, (rateLimiters_agree (fun _ => 5) fun _ => by decide).2.1⟩

end AcaSocial.Gateway
