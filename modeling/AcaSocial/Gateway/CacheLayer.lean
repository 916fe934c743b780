import AcaSocial.Gateway.IdentityHeaders

/-!
# The cache among the layers

Where the response cache of a route stands, and what comes to it.

* **`Route.cached`** — the handler of a route inside its authentication; **`Route.forwarder`** is the one inside the
  cache too.
* **`Reaches`** — a request has come to the cache of its route, with the identity that the authentication admits.

`serve_cases` says that a request reaches the cache, or the cache has no part in what is done for it. `cache_cases` and
`cacheWrites_cases` say what the cache does there, and `forwarder_answer` what a stored response is made of.
-/

namespace AcaSocial.Gateway

variable {env : Env} {w : World} {app : App} {r : Request} {route : Route}

/-! ## What the cache takes part in

The events of the cache come from `RouteCache.Handle` alone: every other layer passes on what the layers within it
have done. -/

/-- The same world with other entries in Redis. -/
def World.holding (w : World) (cache : String → Reply CacheRes) : World := { w with cache }

/-- The world without an entry. -/
def World.uncached (w : World) : World := w.holding fun _ => .absent

/-- The handler of a route inside its cache. -/
def Route.forwarder (route : Route) (env : Env) (w : World) : Handler Exchange :=
  sanitizeBackendResponseHeaders (if route.endpoint.endpoint = "/api/notifications/stream" then
    streamHandler (roundRobin env w route.proxies) else roundRobin env w route.proxies)

/-- The handler of a route inside its authentication. -/
def Route.cached (route : Route) (env : Env) (w : World) : Handler Exchange :=
  if route.endpoint.cacheTTLSeconds > 0 then
    cacheMiddleware env w route.endpoint.cacheTTLSeconds (route.forwarder env w)
  else route.forwarder env w

/-- The authentication of a route. -/
def Route.guard (route : Route) (env : Env) (w : World) : Middleware Exchange := fun handler =>
  if route.endpoint.authRequired then authMiddlewareProvider env w route.endpoint.requiredRoles handler
  else if route.endpoint.authOptional then optionalAuth env w handler
  else handler

/-- The handler of a route, written out in the order of the decorators. -/
theorem handler_eq (route : Route) : route.handler env w =
    rateLimitMiddlewareProvider env w (if route.endpoint.maxRequestsPerMinute > 0 then
      route.endpoint.maxRequestsPerMinute else env.cfg.maxRequestsPerMinute) route.endpoint.pattern
      (route.guard env w (route.cached env w)) := rfl

/-- The request under an identity, or as it is. -/
def Request.under (r : Request) (identity : Option Identity) : Request := identity.elim r r.identified

/-- **The authentication by its decision.** -/
theorem guard_cases (route : Route) (x : Exchange) :
    (∃ z, z.cacheWrites = x.cacheWrites ∧ ∀ next, route.guard env w next x = z)
      ∨ ∃ identity authInfo, route.endpoint.identity env w x.request = some identity
        ∧ ∀ next, route.guard env w next x = next { x with request := x.request.under identity, authInfo } := by
  unfold Route.guard EndpointConfig.identity
  by_cases hrequired : route.endpoint.authRequired = true
  · simp only [if_pos hrequired]
    rcases auth_cases (w := w) route.endpoint.requiredRoles x with ⟨-, z, -, hwrites, hstop⟩ | ⟨identity, info, hadmits, hserved⟩
    · exact .inl ⟨z, hwrites, hstop⟩
    · exact .inr ⟨some identity, info, by rw [hadmits]; rfl, hserved⟩
  · simp only [if_neg hrequired]
    by_cases hoptional : route.endpoint.authOptional = true
    · simp only [if_pos hoptional]
      by_cases hguest : x.request.header.get "Authorization" = ""
      · refine .inr ⟨none, x.authInfo, if_neg fun h => h.2 hguest, fun next => ?_⟩
        rw [optionalAuth, if_pos hguest]
        rfl
      · rw [if_pos ⟨hoptional, hguest⟩]
        rcases auth_cases (w := w) [] x with ⟨-, z, -, hwrites, hstop⟩ | ⟨identity, info, hadmits, hserved⟩
        · exact .inl ⟨z, hwrites, fun next => by rw [optionalAuth, if_neg hguest, hstop]⟩
        · refine .inr ⟨some identity, info, by rw [hadmits]; rfl, fun next => ?_⟩
          rw [optionalAuth, if_neg hguest, hserved]
          rfl
    · refine .inr ⟨none, x.authInfo, if_neg fun h => hoptional h.1, fun next => ?_⟩
      rw [if_neg hoptional]
      rfl

/-- The id that an identity is known by, empty for an anonymous client. -/
def userIdOf (identity : Option Identity) : String := (identity.map (·.userId)).getD ""

/-- What the cache takes for the user is the authenticated one. -/
theorem get_under (hclean : r.Clean) (identity : Option Identity) :
    (r.under identity).header.get "X-User-ID" = userIdOf identity := by
  cases identity with
  | none =>
    show (r.header.values "X-User-ID").headD "" = ""
    rw [hclean _ (by decide)]
    rfl
  | some identity =>
    have hdiffer : headerKey "X-User-ID" ≠ headerKey "X-User-Role" := by decide +kernel
    show ((r.identified identity).header.values "X-User-ID").headD "" = identity.userId
    rw [values_identified, if_neg fun h => hdiffer h.1, if_pos rfl]
    rfl

/-- The identity of a request changes neither its method nor its address. -/
theorem under_fields (r : Request) (identity : Option Identity) :
    (r.under identity).method = r.method ∧ (r.under identity).url = r.url := by
  cases identity <;> exact ⟨rfl, rfl⟩

/-! ## From the connection to the cache

A request meets the middlewares in the order in which `SetupRoutes` names them, and the identity set by
`AuthMiddleware` is the one under which the cache is asked. -/

/-- The request with the limit for its body. -/
def Request.limited (r : Request) : Request :=
  { r with bodyLimit := if r.hasBody then some maxBodyBytes else r.bodyLimit }

/-- The exchange that comes to the router. -/
def entered (env : Env) (w : World) (r : Request) : Exchange :=
  requestIDMiddleware w (securityHeadersMiddleware id) { opened env r with
    request := r.limited.strip
    authInfo := some ⟨"", "", "", ""⟩ }

/-- The headers that the gateway gives a response by itself. -/
def ownHeaders (env : Env) (w : World) (r : Request) : Header := (entered env w r).w.header

/-- The exchange at the router is fresh, and its request is the client's without internal headers. -/
theorem entered_spec (r : Request) : Passes r (entered env w r).request ∧ (entered env w r).request.Clean
    ∧ (entered env w r).w = ⟨none, ownHeaders env w r, "", true⟩ ∧ (entered env w r).cacheWrites = []
    ∧ (entered env w r).wire = [] := by
  -- the limit of the body is no header
  have hpasses : Passes r r.limited.strip := ⟨rfl, rfl, rfl, (passes_strip r.limited).header⟩
  have hclean : r.limited.strip.Clean := clean_strip r.limited
  unfold ownHeaders entered requestIDMiddleware
  dsimp only
  split
  · refine ⟨⟨rfl, rfl, rfl, fun name hname => ?_⟩, fun name hname => ?_, rfl, rfl, rfl⟩
    · exact (Header.values_set_of_ne _ _ (hname _ List.mem_cons_self)).trans (hpasses.header name hname)
    · exact (Header.values_set_of_ne _ _ (internal_ne name hname _ (by decide))).trans (hclean name hname)
  · exact ⟨hpasses, hclean, rfl, rfl, rfl⟩

/-- The layers next to the router hand on what they make of an exchange. -/
theorem inside_eq (x : Exchange) : inside app env w x =
    newRouter env w app.routes (requestIDMiddleware w (securityHeadersMiddleware id) x) := by
  unfold inside requestIDMiddleware
  dsimp only
  split <;> rfl

/-- What the two logs note of a request changes nothing else. -/
def noted (env : Env) (w : World) (r : Request) (y : Exchange) : Exchange := logged env (audited env w r y)

/-- A served request has come to the cache of its route, with its identity. -/
structure Reaches (env : Env) (w : World) (app : App) (r : Request) (route : Route) (identity : Option Identity)
    (y : Exchange) : Prop where
  routed : routeOf env app.routes r = some route
  admitted : route.endpoint.identity env w r = some identity
  method : y.request.method = r.method
  url : y.request.url = r.url
  user : y.request.header.get "X-User-ID" = userIdOf identity
  fresh : y.w = ⟨none, ownHeaders env w r, "", true⟩
  cacheWrites : y.cacheWrites = []
  wire : y.wire = []
  served : ∀ cache, app.serve env (w.holding cache) r = noted env w r (route.cached env (w.holding cache) y)

/-- The rate limit answers by itself, or hands the exchange on. -/
theorem rateLimit_cases (maxReqPerMin : Int) (routeScope : String) (x : Exchange) :
    (∃ z, z.cacheWrites = x.cacheWrites ∧ ∀ next, rateLimitMiddlewareProvider env w maxReqPerMin routeScope next x = z)
      ∨ ∀ next, rateLimitMiddlewareProvider env w maxReqPerMin routeScope next x = next x := by
  unfold rateLimitMiddlewareProvider
  generalize (if maxReqPerMin ≤ 0 then 100 else maxReqPerMin) = limit
  dsimp only
  by_cases hpreflight : x.request.method = "OPTIONS"
  · exact .inr fun next => if_pos hpreflight
  · simp only [if_neg hpreflight]
    by_cases hwait : w.rateLimitWait (rateLimitKey env routeScope x.request) limit > 0
    · refine .inl ⟨_, ?_, fun next => if_pos hwait⟩
      rfl
    · exact .inr fun next => if_neg hwait

/-- **A request comes to the cache of its route, or the cache has no part in it.** -/
theorem serve_cases (app : App) (r : Request) :
    (∃ z, z.cacheWrites = [] ∧ ∀ cache, app.serve env (w.holding cache) r = z)
      ∨ ∃ route identity y, Reaches env w app r route identity y := by
  -- from the outside in: each layer answers, or hands the request on
  by_cases hpreflight : r.method = "OPTIONS"
  · refine .inl ⟨(opened env r).writeHeader 204, rfl, fun cache => ?_⟩
    rw [serve_eq, if_pos hpreflight]
  cases hvalid : mediaTypeError env r with
  | some errCode =>
    refine .inl ⟨noted env w r (writeJSONError { opened env r with authInfo := some ⟨"", "", "", ""⟩ } 415 errCode), rfl,
      fun cache => ?_⟩
    rw [serve_eq, if_neg hpreflight, validation_some hvalid]
    rfl
  | none =>
    have hserve : ∀ cache, app.serve env (w.holding cache) r
        = noted env w r (newRouter env (w.holding cache) app.routes (entered env w r)) := by
      intro cache
      rw [serve_eq, if_neg hpreflight, validation_none (x := { opened env r with authInfo := _ }) hvalid]
      show noted env w r (inside app env (w.holding cache) _) = _
      rw [inside_eq]
      rfl
    -- what has reached the router
    obtain ⟨hpasses, hclean, hw, hwrites, hwire⟩ := @entered_spec env w r
    cases hroute : routeOf env app.routes r with
    | none =>
      refine .inl ⟨noted env w r (newRouter env w app.routes (entered env w r)), ?_, fun cache => ?_⟩
      · show (newRouter env w app.routes (entered env w r)).cacheWrites = []
        unfold newRouter
        rw [hpasses.routeOf, hroute]
        dsimp only
        split <;> exact hwrites
      · rw [hserve]
        unfold newRouter
        rw [hpasses.routeOf, hroute]
        rfl
    | some route =>
      have hrouted : ∀ cache, newRouter env (w.holding cache) app.routes (entered env w r)
          = route.handler env (w.holding cache) (entered env w r) := by
        intro cache
        rw [newRouter, hpasses.routeOf, hroute]
      rcases @rateLimit_cases env w (if route.endpoint.maxRequestsPerMinute > 0 then
          route.endpoint.maxRequestsPerMinute else env.cfg.maxRequestsPerMinute) route.endpoint.pattern
          (entered env w r) with ⟨z, hz, hstop⟩ | hpass
      · refine .inl ⟨noted env w r z, hz.trans hwrites, fun cache => ?_⟩
        rw [hserve, hrouted, handler_eq]
        exact congrArg _ (hstop _)
      · rcases guard_cases (w := w) route (entered env w r) with ⟨z, hz, hstop⟩ | ⟨identity, authInfo, hidentity, hguard⟩
        · refine .inl ⟨noted env w r z, hz.trans hwrites, fun cache => ?_⟩
          rw [hserve, hrouted, handler_eq]
          exact congrArg _ ((hpass _).trans (hstop _))
        · obtain ⟨hmethod, hurl⟩ := under_fields (entered env w r).request identity
          refine .inr ⟨route, identity, { entered env w r with
            request := (entered env w r).request.under identity
            authInfo }, hroute, hpasses.identity route.endpoint ▸ hidentity, hmethod.trans hpasses.method,
            hurl.trans hpasses.url, get_under hclean identity, hw, hwrites, hwire, fun cache => ?_⟩
          rw [hserve, hrouted, handler_eq]
          exact congrArg _ ((hpass _).trans (hguard _))

/-! ## Hits and writes

A hit answers with an earlier write under the same key; a key names the method, the path, the query and the user. -/

/-- What the gateway passes on of the headers of a backend. -/
def passedOn (h : Header) : Header := (removeHopByHopHeaders h).delAll sensitiveBackendHeaders

/-- The response when an entry is replayed. -/
def replayed (x : Exchange) (res : CacheRes) : Exchange :=
  ((Exchange.setHeader { x with w := { x.w with header := x.w.header.append res.header } } "X-Cache" "HIT").writeHeader
    res.status).write res.body

/-- The cache replays what it finds, or serves as if there were nothing. -/
theorem cache_cases (ttlSeconds : Int) (next : Handler Exchange) (x : Exchange) :
    (∃ res, x.request.method = "GET"
        ∧ w.cache (cacheKey env x.request (x.request.header.get "X-User-ID")) = .value res
        ∧ cacheMiddleware env w ttlSeconds next x = replayed x res)
      ∨ cacheMiddleware env w ttlSeconds next x = cacheMiddleware env w.uncached ttlSeconds next x := by
  unfold cacheMiddleware
  dsimp only
  by_cases hskip : x.request.method ≠ "GET" ∨ w.redisClient = false
  · refine .inr ?_
    rw [if_pos hskip]
    exact (if_pos hskip).symm
  obtain ⟨hget, hclient⟩ := not_or.mp hskip
  by_cases hunknown : x.request.header.get "Authorization" ≠ "" ∧ x.request.header.get "X-User-ID" = ""
  · refine .inr ?_
    rw [if_neg hskip, if_pos hunknown]
    exact ((if_neg hskip).trans (if_pos hunknown)).symm
  rw [if_neg hskip, if_neg hunknown]
  cases hcache : w.cache (cacheKey env x.request (x.request.header.get "X-User-ID")) with
  | value res => exact .inl ⟨res, not_not.mp hget, rfl, rfl⟩
  | absent => exact .inr ((if_neg hskip).trans (if_neg hunknown)).symm
  | failed => exact .inr ((if_neg hskip).trans (if_neg hunknown)).symm

/-- What the cache stores is what the handler inside has written, for a `GET` with a status of success. -/
theorem cacheWrites_cases {ttlSeconds : Int} {next : Handler Exchange} {x : Exchange} {cw : CacheWrite}
    (hnext : ∀ x, (next x).cacheWrites = x.cacheWrites) (hx : x.cacheWrites = [])
    (h : cw ∈ (cacheMiddleware env w ttlSeconds next x).cacheWrites) :
    x.request.method = "GET" ∧ ∃ y, y = next { x with w := responseRecorder } ∧ 200 ≤ y.statusCode ∧ y.statusCode < 300
      ∧ cw = ⟨cacheKey env x.request (x.request.header.get "X-User-ID"), ⟨y.statusCode, y.w.header, y.w.body⟩, ttlSeconds⟩
      ∧ (cacheMiddleware env w ttlSeconds next x).wire = y.wire := by
  -- an exchange that stores no more than came in does not store `cw`
  have hnone : ∀ z : Exchange, z.cacheWrites = x.cacheWrites → cw ∉ z.cacheWrites := by
    intro z hz hmem
    rw [hz, hx] at hmem
    exact List.not_mem_nil hmem
  unfold cacheMiddleware at h ⊢
  dsimp only at h ⊢
  by_cases hskip : x.request.method ≠ "GET" ∨ w.redisClient = false
  · rw [if_pos hskip] at h
    -- no `GET`, or no store to write to: the cache is passed over
    exact absurd h (hnone _ (hnext x))
  by_cases hunknown : x.request.header.get "Authorization" ≠ "" ∧ x.request.header.get "X-User-ID" = ""
  · rw [if_neg hskip, if_pos hunknown] at h
    exact absurd h (hnone _ (hnext x))
  simp only [if_neg hskip, if_neg hunknown] at h ⊢
  refine ⟨not_not.mp (not_or.mp hskip).1, next { x with w := responseRecorder }, rfl, ?_⟩
  split at h
  · exact absurd h (hnone _ rfl)
  · -- the response is stored, or its status is not one of success
    by_cases hsuccess : 200 ≤ (next { x with w := responseRecorder }).statusCode
        ∧ (next { x with w := responseRecorder }).statusCode < 300
    · rw [if_pos hsuccess] at h ⊢
      rcases List.mem_append.mp h with hold | hnew
      · exact absurd hold (hnone _ (hnext _))
      · exact ⟨hsuccess.1, hsuccess.2, List.mem_singleton.mp hnew, rfl⟩
    · rw [if_neg hsuccess] at h
      exact absurd h (hnone _ (hnext _))

/-- The proxies behind the cache write nothing into it. -/
theorem cacheWrites_roundRobin (proxies : List ReverseProxy) (x : Exchange) :
    (roundRobin env w proxies x).cacheWrites = x.cacheWrites := by
  unfold roundRobin
  split
  · rfl
  · unfold ReverseProxy.serveHTTP
    split
    · rfl
    · split
      · rfl
      · dsimp only
        split <;> rfl

/-- Inside the cache nothing is stored. -/
theorem cacheWrites_forwarder (x : Exchange) : (route.forwarder env w x).cacheWrites = x.cacheWrites := by
  have hsanitized : ∀ next : Handler Exchange, (sanitizeBackendResponseHeaders next x).cacheWrites = (next x).cacheWrites := by
    intro next
    unfold sanitizeBackendResponseHeaders
    dsimp only
    split <;> rfl
  rw [Route.forwarder, hsanitized]
  split
  · rw [streamHandler]
    split
    · rfl
    · exact cacheWrites_roundRobin _ x
  · exact cacheWrites_roundRobin _ x

/-- A proxy that writes a status of success has it from a backend. -/
theorem roundRobin_answer {proxies : List ReverseProxy} {x : Exchange}
    (hsuccess : (roundRobin env w proxies { x with w := responseRecorder }).statusCode < 300) :
    ∃ o ∈ (roundRobin env w proxies { x with w := responseRecorder }).wire, ∃ timeoutSec answer,
      w.transport timeoutSec o = some answer
      ∧ (roundRobin env w proxies { x with w := responseRecorder }).w
        = ⟨some answer.statusCode, removeHopByHopHeaders answer.header, answer.body, false⟩ := by
  -- the errors of the proxy itself are no successes
  have hbad : ¬ 502 < 300 := by decide
  unfold roundRobin at hsuccess ⊢
  cases hp : proxies[(w.current + 1) % 2 ^ 32 % proxies.length]? with
  | none =>
    rw [hp] at hsuccess
    exact absurd hsuccess hbad
  | some p =>
    rw [hp] at hsuccess
    dsimp only at hsuccess ⊢
    unfold ReverseProxy.serveHTTP at hsuccess ⊢
    dsimp only at hsuccess ⊢
    cases hout : p.outgoing env x.request with
    | none =>
      rw [hout] at hsuccess
      exact absurd hsuccess hbad
    | some outreq =>
      rw [hout] at hsuccess
      dsimp only at hsuccess ⊢
      by_cases hopen : w.breakerOpen p.backend.host = true
      · rw [if_pos hopen] at hsuccess
        exact absurd hsuccess hbad
      rw [if_neg hopen] at hsuccess ⊢
      cases hanswer : roundTrip w p outreq with
      | none =>
        rw [hanswer] at hsuccess
        exact absurd hsuccess hbad
      | some answer =>
        have htransport : w.transport p.timeoutSec outreq = some answer := by
          unfold roundTrip at hanswer
          split at hanswer
          · next res hres =>
            split at hanswer
            · cases hanswer
            · rw [hres, ← Option.some.inj hanswer]
          · cases hanswer
        refine ⟨outreq, List.mem_append_right _ List.mem_cons_self, p.timeoutSec, answer, htransport, ?_⟩
        show (⟨some answer.statusCode, _, "" ++ answer.body, false⟩ : ResponseWriter) = _
        rw [String.empty_append]
        rfl

/-- The same of the whole handler inside the cache, which hides the sensitive headers. -/
theorem forwarder_answer {x : Exchange}
    (hsuccess : (route.forwarder env w { x with w := responseRecorder }).statusCode < 300) :
    ∃ o ∈ (route.forwarder env w { x with w := responseRecorder }).wire, ∃ timeoutSec answer,
      w.transport timeoutSec o = some answer
      ∧ (route.forwarder env w { x with w := responseRecorder }).w
        = ⟨some answer.statusCode, passedOn answer.header, answer.body, false⟩ := by
  have hstream : ¬ 500 < 300 := by decide
  -- taking headers out does not change the status
  have hstatus : ∀ (next : Handler Exchange) (x : Exchange),
      (sanitizeBackendResponseHeaders next x).statusCode = (next x).statusCode := by
    intro next x
    unfold sanitizeBackendResponseHeaders
    dsimp only
    split <;> rfl
  unfold Route.forwarder at hsuccess ⊢
  rw [hstatus] at hsuccess
  by_cases hendpoint : route.endpoint.endpoint = "/api/notifications/stream"
  · -- the recorder has no deadline to lift
    rw [if_pos hendpoint] at hsuccess
    exact absurd hsuccess hstream
  · rw [if_neg hendpoint] at hsuccess ⊢
    obtain ⟨o, ho, timeoutSec, answer, htransport, hw⟩ := roundRobin_answer hsuccess
    refine ⟨o, ?_, timeoutSec, answer, htransport, ?_⟩
    · unfold sanitizeBackendResponseHeaders
      dsimp only
      rw [hw]
      exact ho
    · unfold sanitizeBackendResponseHeaders
      dsimp only
      rw [hw]
      rfl

end AcaSocial.Gateway
