import AcaSocial.Gateway.CacheLayer
import AcaSocial.Base.Fields
import AcaSocial.Base.Run
import Mathlib.Data.Set.Operations

/-!
# The response cache

All routes that cache keep their responses in one Redis, under a digest of the URI and the user.

* **`CacheState`** — what Redis holds, the `SET`s that are on their way to it, and the requests served so far.
* **`CacheEvent`** — a request is served; Redis executes a `SET`, loses one, or loses an entry; time passes.
  Requests overlap: a `SET` of one request may come after others are served.
* **`Replay`** — the response to one request is the backend's response to another one, replayed.

`cache_isolated` says that a response that is not what the gateway gives without any entry is a replay of a
response to the same `GET` of the same user.
-/

namespace AcaSocial.Gateway

variable {env : Env} {app : App} {route : Route}

/-! ## Replays

A cached response is replayed for the same user and the same URI. -/

/-- A request with what the outside answers while it is served. -/
structure Served where
  world : World
  request : Request

def Served.exchange (p : Served) (env : Env) (app : App) : Exchange := app.serve env p.world p.request

/-- The user of an admitted request, empty for an anonymous client. -/
def Served.user (p : Served) (env : Env) (app : App) : Option String :=
  (routeOf env app.routes p.request).bind fun route =>
    (route.endpoint.identity env p.world p.request).map userIdOf

/-- A backend has given `answer` for the request. -/
def Served.Answered (p : Served) (env : Env) (app : App) (answer : Response) : Prop :=
  ∃ o ∈ (p.exchange env app).wire, ∃ timeoutSec, p.world.transport timeoutSec o = some answer

/-- The backend's answer to `p` is replayed for `q`: both are a `GET` of one URI by one user, and the answer is one of
success. -/
structure Replay (env : Env) (app : App) (p q : Served) (answer : Response) : Prop where
  method : p.request.method = "GET" ∧ q.request.method = "GET"
  uri : env.requestURI p.request.url = env.requestURI q.request.url
  user : ∃ user, p.user env app = some user ∧ q.user env app = some user
  answered : p.Answered env app answer
  success : 200 ≤ answer.statusCode ∧ answer.statusCode < 300
  response : (q.exchange env app).w = ⟨some answer.statusCode,
    ((ownHeaders env q.world q.request).append (passedOn answer.header)).set "X-Cache" "HIT", answer.body, true⟩
  wire : (q.exchange env app).wire = []

/-- The user of a request is that of its token. -/
theorem Reaches.user_eq {p : Served} {identity : Option Identity} {y : Exchange}
    (h : Reaches env p.world app p.request route identity y) : p.user env app = some (userIdOf identity) := by
  rw [Served.user, h.routed, Option.bind_some, h.admitted, Option.map_some]

/-- What a served request stores, and under which key. -/
theorem Served.stores {p : Served} {cw : CacheWrite} (h : cw ∈ (p.exchange env app).cacheWrites) :
    ∃ route user answer, routeOf env app.routes p.request = some route ∧ p.user env app = some user
      ∧ p.request.method = "GET" ∧ p.Answered env app answer ∧ 200 ≤ answer.statusCode ∧ answer.statusCode < 300
      ∧ cw = ⟨cacheKey env p.request user, ⟨answer.statusCode, passedOn answer.header, answer.body⟩,
        route.endpoint.cacheTTLSeconds⟩ := by
  rcases serve_cases (w := p.world) app p.request with ⟨z, hz, hserved⟩ | ⟨route, identity, y, hreach⟩
  -- the request stops before the cache
  · have hsame : p.exchange env app = z := hserved p.world.cache
    rw [hsame, hz] at h
    exact absurd h List.not_mem_nil
  · have hsame : p.exchange env app = noted env p.world p.request (route.cached env p.world y) :=
      hreach.served p.world.cache
    have hmem : cw ∈ (route.cached env p.world y).cacheWrites := by
      rw [hsame] at h
      exact h
    unfold Route.cached at hmem
    split at hmem
    · next httl =>
      obtain ⟨hget, z, rfl, hlow, hhigh, rfl, hwire⟩ := cacheWrites_cases cacheWrites_forwarder hreach.cacheWrites hmem
      -- a status of success comes from an answer of the backend
      obtain ⟨o, ho, timeoutSec, answer, htransport, hw⟩ := forwarder_answer hhigh
      have hstatus : (route.forwarder env p.world { y with w := responseRecorder }).statusCode = answer.statusCode := by
        rw [Exchange.statusCode, hw]
        rfl
      refine ⟨route, userIdOf identity, answer, hreach.routed, hreach.user_eq, hreach.method ▸ hget,
        ⟨o, ?_, timeoutSec, htransport⟩, hstatus ▸ hlow, hstatus ▸ hhigh, ?_⟩
      · rw [hsame]
        show o ∈ (route.cached env p.world y).wire
        rw [Route.cached, if_pos httl, hwire]
        exact ho
      · rw [hstatus, hw, hreach.user, cacheKey, hreach.url]
        rfl
    · rw [cacheWrites_forwarder, hreach.cacheWrites] at hmem
      exact absurd hmem List.not_mem_nil

/-- A request is served as if the cache were empty, or what the cache has under its key is replayed. -/
theorem Served.replays (q : Served) :
    q.exchange env app = app.serve env q.world.uncached q.request
      ∨ ∃ user res, q.user env app = some user ∧ q.request.method = "GET"
        ∧ q.world.cache (cacheKey env q.request user) = .value res
        ∧ (q.exchange env app).wire = []
        ∧ (q.exchange env app).w = ⟨some res.status,
          ((ownHeaders env q.world q.request).append res.header).set "X-Cache" "HIT", res.body, true⟩ := by
  rcases serve_cases (w := q.world) app q.request with ⟨z, -, hserved⟩ | ⟨route, identity, y, hreach⟩
  -- the request stops before the cache, whatever is in it
  · exact .inl ((hserved q.world.cache).trans (hserved fun _ => .absent).symm)
  · have hsame : q.exchange env app = noted env q.world q.request (route.cached env q.world y) :=
      hreach.served q.world.cache
    have huncached : app.serve env q.world.uncached q.request
        = noted env q.world q.request (route.cached env q.world.uncached y) := hreach.served fun _ => .absent
    rw [hsame, huncached]
    unfold Route.cached
    split
    · rcases @cache_cases env q.world route.endpoint.cacheTTLSeconds (route.forwarder env q.world) y with
        ⟨res, hget, hcache, hreplay⟩ | hmiss
      -- an entry under the key is written to the client as it is
      · refine .inr ⟨userIdOf identity, res, hreach.user_eq, hreach.method ▸ hget, ?_, ?_, ?_⟩
        · rw [← hcache, hreach.user, cacheKey, cacheKey, hreach.url]
        · rw [hreplay]
          exact hreach.wire
        · rw [hreplay]
          show (replayed y res).w = _
          unfold replayed Exchange.setHeader Exchange.writeHeader Exchange.write
          dsimp only
          rw [hreach.fresh]
          show (⟨some res.status, _, "" ++ res.body, true⟩ : ResponseWriter) = _
          rw [String.empty_append]
      · exact .inl (congrArg _ hmiss)
    · exact .inl rfl

/-! ## Keys

A key has the user and the URI with a colon between them. No user id has a colon, as it is a UUID. -/

def isHexDigit (c : Char) : Bool :=
  decide ('0' ≤ c ∧ c ≤ '9') || decide ('a' ≤ c ∧ c ≤ 'f') || decide ('A' ≤ c ∧ c ≤ 'F')

/-- Hexadecimal digits in groups of 8, 4, 4, 4 and 12, with hyphens between them. -/
def isUuid (s : String) : Bool :=
  let groups := Text.splitOn '-' [] s.toList
  groups.map List.length == [8, 4, 4, 4, 12] && groups.all fun group => group.all isHexDigit

/-- A UUID has no colon. -/
theorem not_mem_of_isUuid {s : String} (h : isUuid s = true) : ':' ∉ s.toList := by
  intro hmem
  obtain ⟨-, hgroups⟩ := Bool.and_eq_true_iff.mp h
  rw [Text.splitOn_eq] at hgroups
  rcases @Text.mem_splitOn _ _ '-' _ _ hmem with hsep | ⟨group, hgroup, hc⟩
  · exact absurd hsep (by decide)
  · have hdigit := List.all_eq_true.mp (List.all_eq_true.mp hgroups group hgroup) ':' hc
    exact absurd hdigit (by decide)

/-- The text before and after the last separator. -/
theorem append_sep_inj {sep : Char} {xs xs' ys ys' : List Char} (hys : sep ∉ ys) (hys' : sep ∉ ys')
    (h : xs ++ sep :: ys = xs' ++ sep :: ys') : xs = xs' ∧ ys = ys' := by
  rcases List.append_eq_append_iff.mp h with ⟨as, hxs, htail⟩ | ⟨as, hxs, htail⟩
  · cases as with
    | nil => exact ⟨by rw [hxs, List.append_nil], (List.cons.inj htail).2⟩
    | cons a as =>
      -- the second separator would be in the first text
      have hmem : sep ∈ ys := by
        rw [(List.cons.inj htail).2]
        exact List.mem_append_right _ List.mem_cons_self
      exact absurd hmem hys
  · cases as with
    | nil => exact ⟨by rw [hxs, List.append_nil], (List.cons.inj htail).2.symm⟩
    | cons a as =>
      have hmem : sep ∈ ys' := by
        rw [(List.cons.inj htail).2]
        exact List.mem_append_right _ List.mem_cons_self
      exact absurd hmem hys'

/-- The digest tells any two of the texts apart that it is taken of. -/
def DigestsDiffer (env : Env) : Prop :=
  Set.InjOn env.sha256 {text | ∃ url user, text = env.requestURI url ++ ":" ++ user}

/-- The user of a signed token is a UUID, or there is none. -/
def UserIdsAreUuids (env : Env) : Prop :=
  ∀ token jwt, env.decode token = some jwt → jwt.signed = true →
    claimUserId jwt.claims = "" ∨ isUuid (claimUserId jwt.claims) = true

/-- The user of a key has no colon. -/
theorem Served.not_mem_user {p : Served} {user : String} (huuid : UserIdsAreUuids env)
    (h : p.user env app = some user) : ':' ∉ user.toList := by
  obtain ⟨route, -, hroute⟩ := Option.bind_eq_some_iff.mp h
  obtain ⟨identity, hidentity, rfl⟩ := Option.map_eq_some_iff.mp hroute
  cases identity with
  | none => exact List.not_mem_nil
  | some identity =>
    obtain ⟨requiredRoles, hadmits, -⟩ := admits_of_identity hidentity
    obtain ⟨hpresents, -⟩ := presents_of_admits hadmits
    cases hpresents with
    | token _ hdecode hsigned =>
      rcases huuid _ _ hdecode hsigned.2 with hnone | huser
      · show ':' ∉ (claimUserId _).toList
        rw [hnone]
        exact List.not_mem_nil
      · exact not_mem_of_isUuid huser

/-- **One key, one URI and one user.** -/
theorem cacheKey_inj (hdigest : DigestsDiffer env) {r r' : Request} {user user' : String} (huser : ':' ∉ user.toList)
    (huser' : ':' ∉ user'.toList) (h : cacheKey env r user = cacheKey env r' user') :
    env.requestURI r.url = env.requestURI r'.url ∧ user = user' := by
  have hdigests : env.sha256 (env.requestURI r.url ++ ":" ++ user) = env.sha256 (env.requestURI r'.url ++ ":" ++ user') := by
    have hlists := congrArg String.toList h
    rw [cacheKey, cacheKey, String.toList_append, String.toList_append] at hlists
    exact String.toList_injective (List.append_cancel_left hlists)
  have htexts := congrArg String.toList (hdigest ⟨r.url, user, rfl⟩ ⟨r'.url, user', rfl⟩ hdigests)
  simp only [String.toList_append, List.append_assoc] at htexts
  obtain ⟨huri, hsame⟩ := append_sep_inj huser huser' htexts
  exact ⟨String.toList_injective huri, String.toList_injective hsame⟩

/-! ## Redis

The cache keeps what was stored under a key until it expires. -/

/-- An entry, with the time after which Redis does not give it out any more. -/
structure Entry where
  value : CacheRes
  expiresAt : Nat

/-- What Redis holds, the `SET`s on their way to it, and the requests served so far. -/
structure CacheState where
  clock : Nat
  entries : String → Option Entry
  sets : List CacheWrite
  served : List Served

/-- The cache before the first request. -/
def CacheState.start (clock : Nat) : CacheState := ⟨clock, fun _ => none, [], []⟩

/-- `GET key`, if Redis is up. -/
def CacheState.get (s : CacheState) (up : Bool) (key : String) : Reply CacheRes :=
  if up then
    match s.entries key with
    | some e => if s.clock ≤ e.expiresAt then .value e.value else .absent
    | none => .absent
  else .failed

/-- A request that is served now, with what Redis answers. -/
def CacheState.serving (s : CacheState) (w : World) (up : Bool) (r : Request) : Served :=
  ⟨{ w with now := s.clock, cache := s.get up }, r⟩

inductive CacheEvent where
  | serve (w : World) (up : Bool) (r : Request)
  | set (i : Nat)
  | lose (i : Nat)
  | evict (key : String)
  | wait (ms : Nat)

/-- What one event makes of the cache. -/
def CacheState.step (env : Env) (app : App) (s : CacheState) : CacheEvent → CacheState
  | .serve w up r =>
    let p := s.serving w up r
    { s with sets := s.sets ++ (p.exchange env app).cacheWrites, served := s.served ++ [p] }
  | .set i =>
    match s.sets[i]? with
    | none => s
    | some cw =>
      let e : Entry := ⟨cw.value, s.clock + 1000 * cw.ttlSeconds.toNat⟩
      { s with entries := Function.update s.entries cw.key (some e), sets := s.sets.eraseIdx i }
  | .lose i => { s with sets := s.sets.eraseIdx i }
  | .evict key => { s with entries := Function.update s.entries key none }
  | .wait ms => { s with clock := s.clock + ms }

/-- The entry is what a served request stores under the key, put there after the request came in. -/
structure Origin (env : Env) (app : App) (s : CacheState) (key : String) (e : Entry) (p : Served) (cw : CacheWrite)
    (storedAt : Nat) : Prop where
  served : p ∈ s.served
  stored : cw ∈ (p.exchange env app).cacheWrites
  key : cw.key = key
  value : cw.value = e.value
  after : p.world.now ≤ storedAt
  before : storedAt ≤ s.clock
  expiry : e.expiresAt = storedAt + 1000 * cw.ttlSeconds.toNat

/-- **The invariant**: whatever is in Redis or on its way has its origin in a served request. -/
structure Kept (env : Env) (app : App) (s : CacheState) : Prop where
  served : ∀ p ∈ s.served, p.world.now ≤ s.clock
  sets : ∀ cw ∈ s.sets, ∃ p ∈ s.served, cw ∈ (p.exchange env app).cacheWrites
  entries : ∀ key e, s.entries key = some e → ∃ p cw storedAt, Origin env app s key e p cw storedAt

theorem kept_start (clock : Nat) : Kept env app (.start clock) := by
  constructor
  · intro p hp
    exact absurd hp List.not_mem_nil
  · intro cw hcw
    exact absurd hcw List.not_mem_nil
  · intro key e he
    cases he

/-- **One event** keeps it. -/
theorem kept_step (s : CacheState) (event : CacheEvent) (h : Kept env app s) : Kept env app (s.step env app event) := by
  -- a state with more requests, and a later clock, keeps the origins of its entries
  have horigin : ∀ (t : CacheState) {key e}, s.served ⊆ t.served → s.clock ≤ t.clock → s.entries key = some e →
      ∃ p cw storedAt, Origin env app t key e p cw storedAt := by
    intro t key e hserved hclock he
    obtain ⟨p, cw, storedAt, ho⟩ := h.entries key e he
    exact ⟨p, cw, storedAt, hserved ho.served, ho.stored, ho.key, ho.value, ho.after, Nat.le_trans ho.before hclock, ho.expiry⟩
  cases event with
  | serve w up r =>
    refine ⟨fun p hp => ?_, fun cw hcw => ?_, fun key e he => horigin _ (List.subset_append_left _ _) (Nat.le_refl _) he⟩
    · rcases List.mem_append.mp hp with hold | hnew
      · exact h.served p hold
      · rw [List.mem_singleton.mp hnew]
        exact Nat.le_refl _
    · rcases List.mem_append.mp hcw with hold | hnew
      · obtain ⟨p, hp, hstored⟩ := h.sets cw hold
        exact ⟨p, List.mem_append_left _ hp, hstored⟩
      · exact ⟨s.serving w up r, List.mem_append_right _ (List.mem_singleton_self _), hnew⟩
  | set i =>
    cases hi : s.sets[i]? with
    | none =>
      have hsame : s.step env app (.set i) = s := by rw [CacheState.step, hi]
      rw [hsame]
      exact h
    | some cw =>
      have hset : s.step env app (.set i) = { s with
          entries := Function.update s.entries cw.key (some ⟨cw.value, s.clock + 1000 * cw.ttlSeconds.toNat⟩)
          sets := s.sets.eraseIdx i } := by rw [CacheState.step, hi]
      rw [hset]
      refine ⟨h.served, fun cw' hcw' => h.sets cw' (List.mem_of_mem_eraseIdx hcw'), fun key e he => ?_⟩
      replace he : Function.update s.entries cw.key _ key = some e := he
      by_cases hkey : key = cw.key
      · subst hkey
        rw [Function.update_self] at he
        obtain rfl := Option.some.inj he
        obtain ⟨p, hp, hstored⟩ := h.sets cw (List.mem_of_getElem? hi)
        exact ⟨p, cw, s.clock, hp, hstored, rfl, rfl, h.served p hp, (Nat.le_refl _), rfl⟩
      · rw [Function.update_of_ne hkey] at he
        exact horigin _ (List.Subset.refl _) (Nat.le_refl _) he
  | lose i =>
    exact ⟨h.served, fun cw hcw => h.sets cw (List.mem_of_mem_eraseIdx hcw),
      fun key e he => horigin _ (List.Subset.refl _) (Nat.le_refl _) he⟩
  | evict key =>
    refine ⟨h.served, h.sets, fun key' e he => ?_⟩
    replace he : Function.update s.entries key none key' = some e := he
    by_cases hkey : key' = key
    · subst hkey
      rw [Function.update_self] at he
      cases he
    · rw [Function.update_of_ne hkey] at he
      exact horigin _ (List.Subset.refl _) (Nat.le_refl _) he
  | wait ms =>
    have hlater : s.clock ≤ s.clock + ms := Nat.le_add_right _ _
    exact ⟨fun p hp => Nat.le_trans (h.served p hp) hlater, h.sets, fun key e he => horigin _ (List.Subset.refl _) hlater he⟩

/-- What Redis gives out has its origin, and is not older than its TTL. -/
theorem Kept.of_get {s : CacheState} {up : Bool} {key : String} {res : CacheRes} (h : Kept env app s)
    (hget : s.get up key = .value res) : ∃ e p cw storedAt, Origin env app s key e p cw storedAt ∧ e.value = res
      ∧ s.clock ≤ e.expiresAt := by
  unfold CacheState.get at hget
  split at hget
  · split at hget
    · next e he =>
      split at hget
      · next hlive =>
        obtain ⟨p, cw, storedAt, ho⟩ := h.entries key e he
        exact ⟨e, p, cw, storedAt, ho, Reply.value.inj hget, hlive⟩
      · cases hget
    · cases hget
  · cases hget

/-- **The response cache is isolated.** After any history, a request is served as if the cache were empty, or it gets the
backend's answer to a request served before: a `GET` of the same URI by the same user, with a status of success, stored
within the TTL of its route. -/
theorem cache_isolated (hdigest : DigestsDiffer env) (huuid : UserIdsAreUuids env) (clock : Nat)
    (events : List CacheEvent) (w : World) (up : Bool) (r : Request) :
    let s := run (CacheState.step env app) (.start clock) events
    let q := s.serving w up r
    q.exchange env app = app.serve env q.world.uncached r
      ∨ ∃ p ∈ s.served, ∃ answer, Replay env app p q answer
        ∧ ∃ route storedAt, routeOf env app.routes p.request = some route ∧ p.world.now ≤ storedAt
          ∧ storedAt ≤ s.clock ∧ s.clock ≤ storedAt + 1000 * route.endpoint.cacheTTLSeconds.toNat := by
  intro s q
  have hkept : Kept env app s := run_invariant kept_step (kept_start clock) events
  rcases @Served.replays env app q with hmiss | ⟨user, res, huser, hget, hcache, hwire, hw⟩
  · exact .inl hmiss
  obtain ⟨e, p, cw, storedAt, ho, rfl, hlive⟩ := hkept.of_get hcache
  obtain ⟨route, user', answer, hroute, huser', hget', hanswered, hlow, hhigh, rfl⟩ := Served.stores ho.stored
  obtain ⟨huri, rfl⟩ := cacheKey_inj hdigest (Served.not_mem_user huuid huser') (Served.not_mem_user huuid huser) ho.key
  refine .inr ⟨p, ho.served, answer, ⟨⟨hget', hget⟩, huri, ⟨user', huser', huser⟩, hanswered, ⟨hlow, hhigh⟩, ?_, hwire⟩,
    route, storedAt, hroute, ho.after, ho.before, ?_⟩
  · rw [hw, ← ho.value]
  · rw [ho.expiry] at hlive
    exact hlive

namespace Sample

/-- A route whose responses are kept for a minute. -/
def cachedListing : EndpointConfig := { listing with cacheTTLSeconds := 60 }

def uuidClaims : MapClaims := fun name =>
  if name = "id" then some (.str "3f2504e0-4f89-41d3-9a0c-0305e82c3301") else claims name

/-- A gateway that caches, and one student with a token. -/
def cachingGateway : Env :=
  { gateway with decode := fun token => if token = "student" then some ⟨"HS256", uuidClaims, true⟩ else none }

def cachingApp : App where
  routes := [⟨cachedListing, [{
    director := director cachingGateway ⟨"http", "discussion:3003", "", "", ""⟩ "/api/discussions" "/discussions"
    backend := ⟨"http", "discussion:3003", "", "", ""⟩
    timeoutSec := 15 }]⟩]

/-- The backend answers. -/
def answering : World := { world with transport := fun _ _ => some ⟨200, .empty, "the list"⟩ }

/-- The student has read the list, and the response is in Redis. -/
def listed : List CacheEvent := [.serve answering true (listDiscussions signedIn 0), .set 0, .wait 30000]

end Sample

/-- The second time the student gets the first response, and no backend is asked. -/
theorem cache_isolated_hit :
    let s := run (CacheState.step Sample.cachingGateway Sample.cachingApp) (.start 0) Sample.listed
    ∃ p ∈ s.served, ∃ answer, Replay Sample.cachingGateway Sample.cachingApp p
      (s.serving Sample.answering true (Sample.listDiscussions Sample.signedIn 0)) answer := by
  intro s
  have hdigest : DigestsDiffer Sample.cachingGateway := fun _ _ _ _ h => h
  have huuid : UserIdsAreUuids Sample.cachingGateway := by
    intro token jwt hdecode _
    have hclaims : jwt.claims = Sample.uuidClaims := by
      simp only [Sample.cachingGateway] at hdecode
      split at hdecode
      · rw [← Option.some.inj hdecode]
      · cases hdecode
    rw [hclaims]
    exact .inr (by decide +kernel)
  have hserved := @cache_isolated Sample.cachingGateway Sample.cachingApp hdigest huuid 0 Sample.listed Sample.answering true
    (Sample.listDiscussions Sample.signedIn 0)
  rcases hserved with huncached | ⟨p, hp, answer, hreplay, -⟩
  · -- without the entry a backend would be asked
    have hlength := congrArg (fun x => x.wire.length) huncached
    exact absurd hlength (by decide +kernel)
  · exact ⟨p, hp, answer, hreplay⟩

end AcaSocial.Gateway
