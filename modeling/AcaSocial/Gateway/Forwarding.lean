import AcaSocial.Base.Guard
import AcaSocial.Gateway.Router

/-!
# What the gateway forwards

The requests on the wire, seen from the request of the client.

* **`admits`** — the identity for which `authMiddlewareProvider` lets a request through.
* **`EndpointConfig.identity`** — the identity under which a route forwards a request, if it does.
* **`Request.drops`** — the header is named in `Connection`, so the proxy removes it after the director.
* **`Forwards`** — a request on the wire carries the headers of that identity and nothing of the client's own.

`serve_forwards` carries this from the proxy outwards through all layers: what a layer does to the request it
hands on is said once for each (`Layer`), and the layers compose by `Layer.sends`.
-/

namespace AcaSocial.Gateway

variable {env : Env} {w : World} {r r' o : Request} {next : Handler Exchange}

/-! ## Authentication by its decision

`admits` is what a request asks for and its token proves. The middleware is read back as this decision, in both
directions: it answers by itself without an identity, and with one it hands on the request under it. -/

/-- The user and the role of a token; the role is empty when the token has none. -/
structure Identity where
  userId : String
  role : String
deriving DecidableEq

/-- The token of an `Authorization` header. -/
def bearer (r : Request) : Option String :=
  let authHeader := r.header.get "Authorization"
  if hasPrefix authHeader "Bearer " then some (trimPrefix authHeader "Bearer ") else none

/-- The claims of a token that is signed, in force and not revoked. -/
def accepts (env : Env) (w : World) (token : String) : Option MapClaims :=
  (parse env w token).filter fun claims =>
    let jti := (claimString claims "jti").getD ""
    decide (jti ≠ "") && !isBlacklisted w jti

/-- The identity for which `authMiddlewareProvider` lets the request through. -/
def admits (env : Env) (w : World) (requiredRoles : List String) (r : Request) : Option Identity :=
  ((bearer r).bind (accepts env w)).bind fun claims =>
    let userId := claimUserId claims
    let role := (claimString claims "role").getD ""
    if trimSpace userId = "" ∨ (requiredRoles ≠ [] ∧ (role = "" ∨ role ∉ requiredRoles)) then none
    else some ⟨userId, role⟩

/-- The request with the headers of the identity. -/
def Request.identified (r : Request) (identity : Identity) : Request :=
  let header := r.header.set "X-User-ID" identity.userId
  { r with header := if identity.role ≠ "" then header.set "X-User-Role" identity.role else header }

@[simp] theorem wire_httpError (x : Exchange) (message : String) (status : Nat) :
    (x.httpError message status).wire = x.wire := rfl

/-- What the middleware does with an exchange once it has decided: without an identity it answers by itself, whatever is
inside, and with one it hands the identified request on. -/
def AuthDecides (env : Env) (w : World) (requiredRoles : List String) (x : Exchange) : Option Identity → Prop
  | none => ∃ z, z.wire = x.wire ∧ z.cacheWrites = x.cacheWrites
      ∧ ∀ next, authMiddlewareProvider env w requiredRoles next x = z
  | some identity => ∃ authInfo, ∀ next, authMiddlewareProvider env w requiredRoles next x
      = next { x with request := x.request.identified identity, authInfo }

/-- **`authMiddlewareProvider` by its decision**: it hands on exactly the requests that `admits` has an identity for. The
handler inside has no part in the decision. -/
theorem auth_decides (requiredRoles : List String) (x : Exchange) :
    AuthDecides env w requiredRoles x (admits env w requiredRoles x.request) := by
  -- an answer of its own
  have hstop : ∀ {z : Exchange}, (∀ next, authMiddlewareProvider env w requiredRoles next x = z) →
      admits env w requiredRoles x.request = none → z.wire = x.wire → z.cacheWrites = x.cacheWrites →
      AuthDecides env w requiredRoles x (admits env w requiredRoles x.request) := by
    intro z hz hnone hwire hwrites
    rw [hnone]
    exact ⟨z, hwire, hwrites, hz⟩
  have hgo : ∀ identity authInfo, admits env w requiredRoles x.request = some identity →
      (∀ next, authMiddlewareProvider env w requiredRoles next x
        = next { x with request := x.request.identified identity, authInfo }) →
      AuthDecides env w requiredRoles x (admits env w requiredRoles x.request) := by
    intro identity authInfo hsome hnext
    rw [hsome]
    exact ⟨authInfo, hnext⟩
  generalize AuthDecides env w requiredRoles x (admits env w requiredRoles x.request) = decides at hstop hgo ⊢
  unfold authMiddlewareProvider admits bearer at hstop hgo
  generalize x.request.header.get "Authorization" = authHeader at hstop hgo
  dsimp only at hstop hgo
  by_cases hbearer : authHeader = "" ∨ hasPrefix authHeader "Bearer " = false
  · have hnone : hasPrefix authHeader "Bearer " = false := by
      rcases hbearer with rfl | hnone
      · decide
      · exact hnone
    refine hstop (fun next => if_pos hbearer) ?_ rfl rfl
    rw [hnone]
    rfl
  have hbegins : hasPrefix authHeader "Bearer " = true := by
    rw [← Bool.not_eq_false]
    exact (not_or.mp hbearer).2
  simp only [if_neg hbearer, if_pos hbegins, Option.bind_some, accepts] at hstop hgo
  cases hparse : parse env w (trimPrefix authHeader "Bearer ") with
  | none =>
    rw [hparse] at hstop
    exact hstop (fun next => rfl) rfl rfl rfl
  | some claims =>
    rw [hparse] at hstop hgo
    dsimp only [Option.filter] at hstop hgo
    by_cases hjti : (claimString claims "jti").getD "" = ""
    · exact hstop (fun next => if_pos hjti) (by simp [hjti]) rfl rfl
    by_cases hrevoked : isBlacklisted w ((claimString claims "jti").getD "") = true
    · exact hstop (fun next => (if_neg hjti).trans (if_pos hrevoked)) (by simp [hrevoked]) rfl rfl
    have haccepted : (decide ((claimString claims "jti").getD "" ≠ "")
        && !isBlacklisted w ((claimString claims "jti").getD "")) = true := by simp [hjti, hrevoked]
    rw [if_pos haccepted, Option.bind_some] at hstop hgo
    by_cases huser : trimSpace (claimUserId claims) = ""
    · exact hstop (fun next => (if_neg hjti).trans ((if_neg hrevoked).trans (if_pos huser))) (if_pos (.inl huser)) rfl rfl
    simp only [if_neg hjti, if_neg hrevoked, if_neg huser] at hstop hgo
    by_cases hmissing : requiredRoles ≠ [] ∧ (claimString claims "role").getD "" = ""
    · exact hstop (fun next => if_pos hmissing) (if_pos (.inr ⟨hmissing.1, .inl hmissing.2⟩)) rfl rfl
    by_cases hforbidden : requiredRoles ≠ [] ∧ (claimString claims "role").getD "" ∉ requiredRoles
    · exact hstop (fun next => (if_neg hmissing).trans (if_pos hforbidden))
        (if_pos (.inr ⟨hforbidden.1, .inr hforbidden.2⟩)) rfl rfl
    simp only [if_neg hmissing, if_neg hforbidden] at hgo
    have hroles : ¬ (trimSpace (claimUserId claims) = "" ∨ (requiredRoles ≠ []
        ∧ ((claimString claims "role").getD "" = "" ∨ (claimString claims "role").getD "" ∉ requiredRoles))) := by
      rintro (hempty | ⟨hsome, hrole | hrole⟩)
      · exact huser hempty
      · exact hmissing ⟨hsome, hrole⟩
      · exact hforbidden ⟨hsome, hrole⟩
    refine hgo ⟨claimUserId claims, (claimString claims "role").getD ""⟩ (x.authInfo.map fun _ =>
      ⟨claimUserId claims, (claimString claims "role").getD "", (claimString claims "jti").getD "", reasonAuthOK⟩)
      (if_neg hroles) fun next => ?_
    unfold Request.identified
    dsimp only
    by_cases hrole : (claimString claims "role").getD "" ≠ ""
    · rw [if_pos hrole, if_pos hrole]
      rfl
    · rw [if_neg hrole, if_neg hrole]
      rfl

/-- The two cases of the decision. -/
theorem auth_cases (requiredRoles : List String) (x : Exchange) :
    (admits env w requiredRoles x.request = none ∧ ∃ z, z.wire = x.wire ∧ z.cacheWrites = x.cacheWrites
        ∧ ∀ next, authMiddlewareProvider env w requiredRoles next x = z)
      ∨ ∃ identity authInfo, admits env w requiredRoles x.request = some identity
        ∧ ∀ next, authMiddlewareProvider env w requiredRoles next x
          = next { x with request := x.request.identified identity, authInfo } := by
  have hdecides : AuthDecides env w requiredRoles x (admits env w requiredRoles x.request) := auth_decides requiredRoles x
  cases hadmits : admits env w requiredRoles x.request with
  | none =>
    rw [hadmits] at hdecides
    exact .inl ⟨rfl, hdecides⟩
  | some identity =>
    rw [hadmits] at hdecides
    obtain ⟨authInfo, hserved⟩ := hdecides
    exact .inr ⟨identity, authInfo, rfl, hserved⟩

/-! ## The proxy

The director writes a new request, and the transport then drops the hop-by-hop headers. What is left of a header is
what the director set, unless the `Connection` header of the client names it. -/

/-- The header is named in `Connection`. -/
def Request.drops (r : Request) (name : String) : Bool :=
  (r.header.tokens "Connection").any fun token => decide (headerKey name = headerKey token)

/-- The other headers that the gateway writes or removes on the way to a backend. -/
def transportHeaders : List String := ["X-Request-ID", "X-Forwarded-For", "User-Agent"] ++ hopHeaders

/-- None of them is an internal header. -/
theorem internal_ne : ∀ name ∈ internalHeaders, ∀ other ∈ transportHeaders, headerKey name ≠ headerKey other := by
  decide +kernel

/-- The proxy runs the director of the gateway. -/
def ReverseProxy.Directed (p : ReverseProxy) (env : Env) : Prop :=
  ∃ url endpointPattern backendPattern, p.director = Gateway.director env url endpointPattern backendPattern

/-- Everything that the headers of the director hold besides the request's own. -/
theorem values_director (url : URL) (endpointPattern backendPattern : String) (r : Request) {name : String}
    (hname : headerKey name ≠ headerKey "X-Request-ID") :
    (director env url endpointPattern backendPattern r).header.values name
      = if headerKey name = headerKey "X-Internal-Token" then [env.internalToken] else r.header.values name := by
  unfold director
  dsimp only
  rw [Header.values_set]
  split
  · rfl
  · split
    · exact Header.values_set_of_ne _ _ hname
    · rfl

/-- What is added after the hop-by-hop headers are gone leaves the internal headers alone. -/
theorem values_addForwarding {upgrade name : String}
    (hname : ∀ other ∈ transportHeaders, headerKey name ≠ headerKey other) :
    (addForwarding env r upgrade o).header.values name = o.header.values name := by
  -- a header that is set on a condition is one of the transport
  have hset : ∀ (c : Prop) [Decidable c] {other : String} (value : String) (h : Header),
      other ∈ transportHeaders → (if c then h.set other value else h).values name = h.values name := by
    intro c _ other value h hother
    split
    · exact Header.values_set_of_ne h value (hname other hother)
    · rfl
  have hte : "Te" ∈ transportHeaders := by decide
  have hconnection : "Connection" ∈ transportHeaders := by decide
  have hupgrade : "Upgrade" ∈ transportHeaders := by decide
  have hforwarded : "X-Forwarded-For" ∈ transportHeaders := by decide
  have hagent : "User-Agent" ∈ transportHeaders := by decide
  unfold addForwarding
  dsimp only
  rw [hset _ _ _ hagent]
  have hupgraded : ∀ h : Header, h.values name = o.header.values name →
      (if upgrade ≠ "" then (h.set "Connection" "Upgrade").set "Upgrade" upgrade else h).values name
        = o.header.values name := by
    intro h hh
    split
    · rw [Header.values_set_of_ne _ _ (hname _ hupgrade), Header.values_set_of_ne _ _ (hname _ hconnection), hh]
    · exact hh
  cases env.splitHostPort r.remoteAddr with
  | none => exact hupgraded _ (hset _ _ _ hte)
  | some clientIP =>
    dsimp only
    rw [Header.values_set_of_ne _ _ (hname _ hforwarded)]
    exact hupgraded _ (hset _ _ _ hte)

/-- What the hop-by-hop removal leaves of an internal header. -/
theorem values_removeHopByHopHeaders {h : Header} {name : String}
    (hname : ∀ other ∈ transportHeaders, headerKey name ≠ headerKey other) :
    (removeHopByHopHeaders h).values name
      = if (h.tokens "Connection").any fun token => decide (headerKey name = headerKey token) then []
        else h.values name := by
  have hhop : ¬ ∃ other ∈ hopHeaders, headerKey name = headerKey other := by
    rintro ⟨other, hother, hkey⟩
    exact hname other (List.mem_append_right _ hother) hkey
  rw [removeHopByHopHeaders, Header.values_delAll, if_neg hhop, Header.values_delAll]
  simp only [List.any_eq_true, decide_eq_true_eq]

/-- **An internal header on the wire** is the gateway's own, as long as `Connection` does not name it. -/
theorem values_outgoing {p : ReverseProxy} (hp : p.Directed env) (ho : p.outgoing env r = some o) {name : String}
    (hname : name ∈ internalHeaders) :
    o.header.values name = if r.drops name then []
      else if headerKey name = headerKey "X-Internal-Token" then [env.internalToken] else r.header.values name := by
  obtain ⟨url, endpointPattern, backendPattern, hdirector⟩ := hp
  have hother := internal_ne name hname
  have hconnection : (p.director r).header.tokens "Connection" = r.header.tokens "Connection" := by
    rw [Header.tokens, hdirector, values_director]
    · rw [if_neg (by decide +kernel)]
      rfl
    · decide +kernel
  unfold ReverseProxy.outgoing at ho
  dsimp only at ho
  split at ho
  · obtain rfl := Option.some.inj ho
    rw [values_addForwarding hother, values_removeHopByHopHeaders hother, hconnection, hdirector,
      values_director _ _ _ _ (hother _ (by decide))]
    rfl
  · cases ho

/-! ## The layers

A middleware is a layer: what it hands on is related to what it was given. Most of them hand on the request as it is.
-/

/-- The layer sends what the handler inside sends for the same request. -/
abbrev Plain (m : Middleware Exchange) : Prop := Layer Exchange.request Exchange.wire m (· = ·)

/-- A middleware is plain if it answers by itself or calls the next one with the same request. -/
theorem plain_of_wire {m : Middleware Exchange}
    (h : ∀ next x, (m next x).wire = x.wire
      ∨ ∃ y, y.wire = x.wire ∧ y.request = x.request ∧ (m next x).wire = (next y).wire) : Plain m := by
  intro next x
  rcases h next x with hstop | ⟨y, hy, hrequest, hsent⟩
  · exact .inl hstop
  · exact .inr ⟨y, hy, hrequest.symm, hsent⟩

/-- The writer around the response does not touch the request. -/
theorem plain_sanitize : Plain sanitizeBackendResponseHeaders := by
  refine plain_of_wire fun next x => .inr ⟨x, rfl, rfl, ?_⟩
  unfold sanitizeBackendResponseHeaders
  dsimp only
  split <;> rfl

theorem plain_stream : Plain streamHandler := by
  refine plain_of_wire fun next x => ?_
  unfold streamHandler
  split
  · exact .inl (wire_httpError ..)
  · exact .inr ⟨x, rfl, rfl, rfl⟩

/-- A cached response is answered without the backend, and another request goes on as it is. -/
theorem plain_cache (ttlSeconds : Int) : Plain (cacheMiddleware env w ttlSeconds) := by
  refine plain_of_wire fun next x => ?_
  unfold cacheMiddleware
  dsimp only
  split
  · exact .inr ⟨x, rfl, rfl, rfl⟩
  · split
    · exact .inr ⟨x, rfl, rfl, rfl⟩
    · split
      · -- a cached response
        exact .inl rfl
      · refine .inr ⟨{ x with w := responseRecorder }, rfl, rfl, ?_⟩
        split <;> rfl

/-- A request over the limit is refused, and another one goes on as it is. -/
theorem plain_rateLimit (maxReqPerMin : Int) (routeScope : String) :
    Plain (rateLimitMiddlewareProvider env w maxReqPerMin routeScope) := by
  refine plain_of_wire fun next x => ?_
  unfold rateLimitMiddlewareProvider
  generalize (if maxReqPerMin ≤ 0 then 100 else maxReqPerMin) = limit
  dsimp only
  split
  · exact .inr ⟨x, rfl, rfl, rfl⟩
  · split
    · exact .inl rfl
    · exact .inr ⟨x, rfl, rfl, rfl⟩

/-- What goes on behind the authentication is the request with the identity of its token. -/
theorem layer_auth (requiredRoles : List String) :
    Layer Exchange.request Exchange.wire (authMiddlewareProvider env w requiredRoles) fun r r' =>
      ∃ identity, admits env w requiredRoles r = some identity ∧ r' = r.identified identity := by
  intro next x
  rcases auth_cases requiredRoles x with ⟨-, z, hwire, -, hstop⟩ | ⟨identity, authInfo, hadmits, hserved⟩
  · exact .inl (by rw [hstop, hwire])
  · exact .inr ⟨{ x with request := x.request.identified identity, authInfo }, rfl, ⟨identity, hadmits, rfl⟩,
      congrArg Exchange.wire (hserved next)⟩

/-- Without an `Authorization` header the optional authentication hands the request on as it is. -/
theorem layer_optionalAuth :
    Layer Exchange.request Exchange.wire (optionalAuth env w) fun r r' =>
      (r.header.get "Authorization" = "" ∧ r' = r)
        ∨ (r.header.get "Authorization" ≠ "" ∧ ∃ identity, admits env w [] r = some identity
          ∧ r' = r.identified identity) := by
  intro next x
  by_cases hguest : x.request.header.get "Authorization" = ""
  · right
    exact ⟨x, rfl, .inl ⟨hguest, rfl⟩, by rw [optionalAuth, if_pos hguest]⟩
  · rw [optionalAuth, if_neg hguest]
    rcases layer_auth [] next x with hstop | ⟨y, hy, hidentified, hsent⟩
    · exact .inl hstop
    · exact .inr ⟨y, hy, .inr ⟨hguest, hidentified⟩, hsent⟩

/-! ## A route

A route authenticates and then forwards to one of its proxies, so that a forwarded request has the identity of the
token or none. -/

/-- The internal headers of the request, as the proxy sends them on. -/
def Relays (env : Env) (r o : Request) : Prop :=
  ∀ name ∈ internalHeaders, o.header.values name = if r.drops name then []
    else if headerKey name = headerKey "X-Internal-Token" then [env.internalToken] else r.header.values name

/-- Whichever proxy is next, the backend gets a relay of the request. -/
theorem roundRobin_sends {proxies : List ReverseProxy} (hproxies : ∀ p ∈ proxies, p.Directed env) :
    Sends Exchange.request Exchange.wire (roundRobin env w proxies) (Relays env) := by
  intro x o ho
  unfold roundRobin at ho
  split at ho
  · exact .inl ho
  · next p hp =>
    have hdirected := hproxies p (List.mem_of_getElem? hp)
    unfold ReverseProxy.serveHTTP at ho
    split at ho
    · exact .inl ho
    · next outreq hout =>
      split at ho
      · exact .inl ho
      · -- whatever the transport answers, one request is sent
        have hwire : o ∈ x.wire ++ [outreq] := by
          dsimp only at ho
          split at ho <;> exact ho
        rcases List.mem_append.mp hwire with hold | hnew
        · exact .inl hold
        · obtain rfl := List.mem_singleton.mp hnew
          exact .inr fun name hname => values_outgoing hdirected hout hname

/-- The identity under which a route forwards a request, if it does; there is none on a public route. -/
def EndpointConfig.identity (endpoint : EndpointConfig) (env : Env) (w : World) (r : Request) :
    Option (Option Identity) :=
  if endpoint.authRequired then (admits env w endpoint.requiredRoles r).map some
  else if endpoint.authOptional ∧ r.header.get "Authorization" ≠ "" then (admits env w [] r).map some
  else some none

/-- The request carries no internal header. -/
def Request.Clean (r : Request) : Prop := ∀ name ∈ internalHeaders, r.header.values name = []

/-- The request on the wire carries the headers of the identity, save those that `Connection` names. -/
structure Carries (env : Env) (r : Request) (identity : Option Identity) (o : Request) : Prop where
  userId : o.header.values "X-User-ID" = if r.drops "X-User-ID" then [] else (identity.map (·.userId)).toList
  role : o.header.values "X-User-Role"
    = if r.drops "X-User-Role" then [] else ((identity.map (·.role)).filter (· ≠ "")).toList
  token : o.header.values "X-Internal-Token" = if r.drops "X-Internal-Token" then [] else [env.internalToken]

/-- A clean request is relayed without an identity. -/
theorem Relays.carries_none (h : Relays env r o) (hclean : r.Clean) : Carries env r none o := by
  refine ⟨?_, ?_, ?_⟩
  · rw [h _ (by decide), hclean _ (by decide), if_neg (show headerKey "X-User-ID" ≠ _ by decide +kernel)]
    rfl
  · rw [h _ (by decide), hclean _ (by decide), if_neg (show headerKey "X-User-Role" ≠ _ by decide +kernel)]
    rfl
  · rw [h _ (by decide), if_pos rfl]

/-- The headers of an identity. -/
theorem values_identified (identity : Identity) (name : String) :
    (r.identified identity).header.values name
      = if headerKey name = headerKey "X-User-Role" ∧ identity.role ≠ "" then [identity.role]
        else if headerKey name = headerKey "X-User-ID" then [identity.userId] else r.header.values name := by
  unfold Request.identified
  dsimp only
  by_cases hrole : identity.role = ""
  · have hnone : ¬ (headerKey name = headerKey "X-User-Role" ∧ identity.role ≠ "") := fun h => h.2 hrole
    rw [if_neg (not_not.mpr hrole), if_neg hnone, Header.values_set]
  · rw [if_pos hrole, Header.values_set, Header.values_set]
    by_cases hname : headerKey name = headerKey "X-User-Role"
    · rw [if_pos hname, if_pos ⟨hname, hrole⟩]
    · have hother : ¬ (headerKey name = headerKey "X-User-Role" ∧ identity.role ≠ "") := fun h => hname h.1
      rw [if_neg hname, if_neg hother]

/-- `Connection` is not touched by the authentication. -/
theorem drops_identified (identity : Identity) (name : String) :
    (r.identified identity).drops name = r.drops name := by
  have hrole : headerKey "Connection" ≠ headerKey "X-User-Role" :=
    (internal_ne _ (by decide) _ (by decide)).symm
  have huser : headerKey "Connection" ≠ headerKey "X-User-ID" := (internal_ne _ (by decide) _ (by decide)).symm
  unfold Request.drops Header.tokens
  have hother : ¬ (headerKey "Connection" = headerKey "X-User-Role" ∧ identity.role ≠ "") := fun h => hrole h.1
  rw [values_identified, if_neg hother, if_neg huser]

/-- An identified request is relayed with the headers of its identity. -/
theorem Relays.carries_some {identity : Identity} (h : Relays env (r.identified identity) o) (hclean : r.Clean) :
    Carries env r (some identity) o := by
  have huser : headerKey "X-User-ID" ≠ headerKey "X-Internal-Token" := by decide +kernel
  have hrole : headerKey "X-User-Role" ≠ headerKey "X-Internal-Token" := by decide +kernel
  have hdiffer : headerKey "X-User-ID" ≠ headerKey "X-User-Role" := by decide +kernel
  have hid : (r.identified identity).header.values "X-User-ID" = [identity.userId] := by
    have hother : ¬ (headerKey "X-User-ID" = headerKey "X-User-Role" ∧ identity.role ≠ "") := fun h => hdiffer h.1
    rw [values_identified, if_neg hother, if_pos rfl]
  refine ⟨?_, ?_, ?_⟩
  · rw [h _ (by decide), drops_identified, if_neg huser, hid]
    rfl
  · rw [h _ (by decide), drops_identified, if_neg hrole, values_identified]
    by_cases hnone : identity.role = ""
    · -- a token without a role leaves the header out
      rw [if_neg fun h' : _ ∧ identity.role ≠ "" => h'.2 hnone, if_neg hdiffer.symm, hclean _ (by decide)]
      simp [hnone, Option.filter]
    · rw [if_pos (show _ ∧ identity.role ≠ "" from ⟨rfl, hnone⟩)]
      simp [hnone, Option.filter]
  · rw [h _ (by decide), drops_identified, if_pos rfl]

/-- **What a route sends** for a clean request carries the identity under which the route forwards it. -/
def RouteSends (env : Env) (w : World) (endpoint : EndpointConfig) (r o : Request) : Prop :=
  r.Clean → ∃ identity, endpoint.identity env w r = some identity ∧ Carries env r identity o

/-- A route sends what its endpoint allows. -/
theorem handler_sends (route : Route) (hproxies : ∀ p ∈ route.proxies, p.Directed env) :
    Sends Exchange.request Exchange.wire (route.handler env w) (RouteSends env w route.endpoint) := by
  have hsame : ∀ {S : Request → Request → Prop} (r r' o : Request), r = r' → S r' o → S r o := by
    rintro S r _ o rfl h
    exact h
  have hproxy := roundRobin_sends (w := w) hproxies
  unfold Route.handler
  dsimp only
  -- the handlers inside the authentication relay the request as it is
  have hinner : ∀ (handler : Handler Exchange), Sends Exchange.request Exchange.wire handler (Relays env) →
      Sends Exchange.request Exchange.wire (if route.endpoint.cacheTTLSeconds > 0 then
        cacheMiddleware env w route.endpoint.cacheTTLSeconds (sanitizeBackendResponseHeaders handler)
        else sanitizeBackendResponseHeaders handler) (Relays env) := by
    intro handler hhandler
    have hsanitized := plain_sanitize.sends hhandler hsame
    split
    · exact (plain_cache _).sends hsanitized hsame
    · exact hsanitized
  have hstream : Sends Exchange.request Exchange.wire
      (if route.endpoint.endpoint = "/api/notifications/stream" then streamHandler (roundRobin env w route.proxies)
        else roundRobin env w route.proxies) (Relays env) := by
    split
    · exact plain_stream.sends hproxy hsame
    · exact hproxy
  have hcached := hinner _ hstream
  refine (plain_rateLimit _ _).sends ?_ hsame
  split
  · next hrequired =>
    refine (layer_auth _).sends hcached ?_
    rintro r _ o ⟨identity, hadmits, rfl⟩ hrelays hclean
    refine ⟨some identity, ?_, hrelays.carries_some hclean⟩
    rw [EndpointConfig.identity, if_pos hrequired, hadmits]
    rfl
  · next hrequired =>
    split
    · next hoptional =>
      refine layer_optionalAuth.sends hcached ?_
      rintro r r' o (⟨hguest, rfl⟩ | ⟨hbearer, identity, hadmits, rfl⟩) hrelays hclean
      · refine ⟨none, ?_, hrelays.carries_none hclean⟩
        rw [EndpointConfig.identity, if_neg hrequired, if_neg fun h => h.2 hguest]
      · refine ⟨some identity, ?_, hrelays.carries_some hclean⟩
        rw [EndpointConfig.identity, if_neg hrequired, if_pos ⟨hoptional, hbearer⟩, hadmits]
        rfl
    · next hoptional =>
      refine hcached.mono fun r o hrelays hclean => ⟨none, ?_, hrelays.carries_none hclean⟩
      rw [EndpointConfig.identity, if_neg hrequired, if_neg fun h => hoptional h.1]

/-! ## The gateway

The outer middlewares come before the routes. They delete the internal headers and set the request id, and leave the
method, the path, the body and the other headers. -/

/-- What goes out for a request: a route serves it, and the request on the wire carries the identity under
which this route forwards it. -/
def Forwards (env : Env) (w : World) (routes : List Route) (r o : Request) : Prop :=
  ∃ route identity, routeOf env routes r = some route ∧ route.endpoint.identity env w r = some identity
    ∧ Carries env r identity o

/-- A route that is found is one of the gateway's. -/
theorem mem_of_routeOf {routes : List Route} {route : Route} (h : routeOf env routes r = some route) :
    route ∈ routes := by
  unfold routeOf at h
  split at h
  · exact List.mem_of_getElem? h
  · cases h

/-- What the routes send of a request without internal headers is sent for one of them. -/
theorem router_sends {routes : List Route} (hroutes : ∀ route ∈ routes, ∀ p ∈ route.proxies, p.Directed env) :
    Sends Exchange.request Exchange.wire (newRouter env w routes) fun r o => r.Clean → Forwards env w routes r o := by
  intro x o ho
  unfold newRouter at ho
  split at ho
  · next route hroute =>
    rcases handler_sends route (hroutes route (mem_of_routeOf hroute)) x o ho with hold | hsent
    · exact .inl hold
    · refine .inr fun hclean => ?_
      obtain ⟨identity, hidentity, hcarries⟩ := hsent hclean
      exact ⟨route, identity, hroute, hidentity, hcarries⟩
  · left
    split at ho <;> exact ho

/-- What the global layers leave of a request: where it goes, and the headers that are neither internal nor
the request id. -/
structure Passes (r r' : Request) : Prop where
  method : r'.method = r.method
  host : r'.host = r.host
  url : r'.url = r.url
  header : ∀ name, (∀ other ∈ "X-Request-ID" :: internalHeaders, headerKey name ≠ headerKey other) →
    r'.header.values name = r.header.values name

theorem Passes.refl (r : Request) : Passes r r := ⟨rfl, rfl, rfl, fun _ _ => rfl⟩

/-- The layers do not change who serves the request. -/
theorem Passes.routeOf {routes : List Route} (h : Passes r r') : routeOf env routes r' = routeOf env routes r := by
  rw [Gateway.routeOf, Gateway.routeOf, h.method, h.host, h.url]

/-- They do not change under which identity either. -/
theorem Passes.identity (h : Passes r r') (endpoint : EndpointConfig) :
    endpoint.identity env w r' = endpoint.identity env w r := by
  have hauth : r'.header.get "Authorization" = r.header.get "Authorization" := by
    rw [Header.get, h.header _ (by decide +kernel)]
    rfl
  unfold EndpointConfig.identity admits bearer
  rw [hauth]

/-- The gateway forwards a request that its layers have passed as it forwards the request itself. -/
theorem Passes.forwards {routes : List Route} (h : Passes r r') (ho : Forwards env w routes r' o) :
    Forwards env w routes r o := by
  have hdrops : ∀ name, r'.drops name = r.drops name := by
    intro name
    unfold Request.drops Header.tokens
    rw [h.header "Connection" (by decide +kernel)]
  obtain ⟨route, identity, hroute, hidentity, hcarries⟩ := ho
  refine ⟨route, identity, h.routeOf ▸ hroute, h.identity route.endpoint ▸ hidentity, ?_⟩
  exact ⟨by rw [hcarries.userId, hdrops], by rw [hcarries.role, hdrops], by rw [hcarries.token, hdrops]⟩

/-- The middleware deletes the internal headers under every spelling, and no others. -/
theorem values_strip (r : Request) (name : String) :
    r.strip.header.values name
      = if ∃ other ∈ internalHeaders, headerKey name = headerKey other then [] else r.header.values name :=
  Header.values_delAll ..

/-- What is handed on has no internal headers. -/
theorem clean_strip (r : Request) : r.strip.Clean := by
  intro name hname
  rw [values_strip, if_pos ⟨name, hname, rfl⟩]

/-- The rest of the request is handed on as it is. -/
theorem passes_strip (r : Request) : Passes r r.strip := by
  refine ⟨rfl, rfl, rfl, fun name hname => ?_⟩
  rw [values_strip, if_neg]
  rintro ⟨other, hother, hkey⟩
  exact hname other (List.mem_cons_of_mem _ hother) hkey

/-- The layer passes the request on, or answers by itself. -/
abbrev Outer (m : Middleware Exchange) : Prop := Layer Exchange.request Exchange.wire m Passes

theorem Plain.outer {m : Middleware Exchange} (h : Plain m) : Outer m := by
  intro next x
  rcases h next x with hstop | ⟨y, hy, hrequest, hsent⟩
  · exact .inl hstop
  · exact .inr ⟨y, hy, hrequest ▸ Passes.refl _, hsent⟩

/-- The headers that `corsProvider` gives a response. -/
def corsHeaders (cfg : CORSConfig) (origin : String) (h : Header) : Header :=
  let allowOrigin :=
    if cfg.allowedOrigins = [] then "*"
    else if cfg.allowedOrigins.any fun o => o == "*" || o == origin then origin
    else ""
  let h := if allowOrigin ≠ "" then h.set "Access-Control-Allow-Origin" allowOrigin else h
  let h := h.set "Access-Control-Allow-Methods"
    (if cfg.allowedMethods = [] then "GET,POST,PUT,PATCH,DELETE,OPTIONS" else join cfg.allowedMethods ",")
  let h := h.set "Access-Control-Allow-Headers"
    (if cfg.allowedHeaders = [] then "Content-Type,Authorization" else join cfg.allowedHeaders ",")
  if allowOrigin ≠ "" ∧ allowOrigin ≠ "*" then h.set "Access-Control-Allow-Credentials" "true" else h

/-- **`corsProvider` by what it does**: headers of the response, and an end for a preflight. -/
theorem corsProvider_eq (cfg : CORSConfig) (x : Exchange) :
    corsProvider cfg next x =
      let y := { x with w := { x.w with header := corsHeaders cfg (x.request.header.get "Origin") x.w.header } }
      if x.request.method = "OPTIONS" then y.writeHeader 204 else next y := by
  unfold corsProvider corsHeaders Exchange.setHeader
  dsimp only
  generalize (if cfg.allowedOrigins = [] then "*"
    else if (cfg.allowedOrigins.any fun o => o == "*" || o == x.request.header.get "Origin") = true then
      x.request.header.get "Origin" else "") = allowOrigin
  by_cases hnone : allowOrigin = ""
  · simp only [hnone, ne_eq, not_true_eq_false, if_false, false_and]
  · by_cases hany : allowOrigin = "*"
    · simp only [hany, ne_eq, not_true_eq_false, if_false, and_false]
      rfl
    · simp only [hnone, hany, ne_eq, not_false_eq_true, if_true, and_self]

/-- CORS writes to the response, or answers a preflight. -/
theorem plain_cors (cfg : CORSConfig) : Plain (corsProvider cfg) := by
  refine plain_of_wire fun next x => ?_
  rw [corsProvider_eq]
  dsimp only
  split
  · exact .inl rfl
  · refine .inr ⟨_, ?_, ?_, rfl⟩
    · rfl
    · rfl

theorem plain_requestLogger : Plain (requestLogger env) :=
  plain_of_wire fun _ x => .inr ⟨x, rfl, rfl, rfl⟩

theorem plain_recoverer : Plain recoverer := plain_of_wire fun _ x => .inr ⟨x, rfl, rfl, rfl⟩

theorem plain_auditLogger : Plain (auditLoggerMiddleware env w) :=
  plain_of_wire fun _ x => .inr ⟨{ x with authInfo := some ⟨"", "", "", ""⟩ }, rfl, rfl, rfl⟩

theorem plain_securityHeaders : Plain securityHeadersMiddleware := by
  refine plain_of_wire fun next x => ?_
  unfold securityHeadersMiddleware
  refine .inr ⟨_, ?_, ?_, rfl⟩
  · rfl
  · rfl

/-- The validation refuses a request or hands it on. -/
theorem outer_requestValidation : Outer (requestValidationMiddleware env) := by
  intro next x
  unfold requestValidationMiddleware
  split
  · exact .inl rfl
  · split
    · exact .inr ⟨{ x with request := { x.request with bodyLimit := some maxBodyBytes } }, rfl,
        ⟨rfl, rfl, rfl, fun _ _ => rfl⟩, rfl⟩
    · exact .inr ⟨x, rfl, .refl _, rfl⟩

theorem layer_strip :
    Layer Exchange.request Exchange.wire stripInternalHeaders fun r r' => r' = r.strip :=
  fun _ x => .inr ⟨{ x with request := x.request.strip }, rfl, rfl, rfl⟩

/-- The middleware sets the header of the request id and no other one. -/
theorem layer_requestID :
    Layer Exchange.request Exchange.wire (requestIDMiddleware w) fun r r' => Passes r r' ∧ (r.Clean → r'.Clean) := by
  intro next x
  right
  unfold requestIDMiddleware
  dsimp only
  split
  · refine ⟨(x.setRequestHeader "X-Request-ID" w.requestId).setHeader "X-Request-ID" w.requestId, rfl,
      ⟨⟨rfl, rfl, rfl, fun name hname => ?_⟩, fun hclean name hname => ?_⟩, rfl⟩
    · exact Header.values_set_of_ne _ _ (hname _ List.mem_cons_self)
    · exact (Header.values_set_of_ne _ _ (internal_ne name hname _ (by decide))).trans (hclean name hname)
  · exact ⟨x.setHeader "X-Request-ID" (x.request.header.get "X-Request-ID"), rfl, ⟨.refl _, id⟩, rfl⟩

/-- The proxies of the configured routes run the director of the gateway. -/
theorem directed_of_newApp {app : App} (happ : newApp env = .ok app) :
    ∀ route ∈ app.routes, ∀ p ∈ route.proxies, p.Directed env := by
  intro route hroute p hp
  obtain ⟨routes, hroutes, rfl⟩ := map_eq_ok.mp happ
  obtain ⟨made, hmade, rfl⟩ := map_eq_ok.mp hroutes
  obtain ⟨made', hsome, hid⟩ := List.mem_filterMap.mp hroute
  obtain ⟨endpoint, -, hendpoint⟩ := mem_of_mapM_eq_ok hmade hsome
  obtain rfl : made' = some route := hid
  -- the route of an endpoint with backends
  obtain ⟨timeoutSec, hproxies⟩ : ∃ timeoutSec, newLoadBalancedProxy env (backendTargets endpoint) endpoint.endpoint
      timeoutSec = .ok route.proxies := by
    unfold newRoute at hendpoint
    dsimp only at hendpoint
    split at hendpoint
    · cases hendpoint
    · split at hendpoint
      · cases hendpoint
      · next proxies hproxies =>
        obtain rfl := Option.some.inj (Except.ok.inj hendpoint)
        exact ⟨_, hproxies⟩
  unfold newLoadBalancedProxy at hproxies
  split at hproxies
  · cases hproxies
  · obtain ⟨target, -, htarget⟩ := mem_of_mapM_eq_ok hproxies hp
    unfold newProxy at htarget
    split at htarget
    · cases htarget
    · next url hurl =>
      obtain rfl := Except.ok.inj htarget
      exact ⟨url, _, _, rfl⟩

/-- **Everything that the gateway sends for a request.** -/
theorem serve_forwards {app : App} (happ : newApp env = .ok app) (ho : o ∈ (app.serve env w r).wire) :
    Forwards env w app.routes r o := by
  have hrouter := router_sends (w := w) (directed_of_newApp happ)
  have hsecure := plain_securityHeaders.sends (T := fun r o => r.Clean → Forwards env w app.routes r o) hrouter
    fun r r' o hsame h => hsame ▸ h
  have hid := (layer_requestID (w := w)).sends (T := fun r o => r.Clean → Forwards env w app.routes r o) hsecure
    fun r r' o hpasses h hclean => hpasses.1.forwards (h (hpasses.2 hclean))
  have hstrip := layer_strip.sends (T := Forwards env w app.routes) hid
    fun r r' o hr h => by
      subst hr
      exact (passes_strip r).forwards (h (clean_strip r))
  have hserve : Sends Exchange.request Exchange.wire (app.handler env w) (Forwards env w app.routes) := by
    have houter : ∀ m ∈ [corsProvider env.cfg.cors, requestLogger env, recoverer, auditLoggerMiddleware env w,
        requestValidationMiddleware env], Outer m := by
      intro m hm
      simp only [List.mem_cons, List.not_mem_nil, or_false] at hm
      rcases hm with rfl | rfl | rfl | rfl | rfl
      · exact (plain_cors _).outer
      · exact plain_requestLogger.outer
      · exact plain_recoverer.outer
      · exact plain_auditLogger.outer
      · exact outer_requestValidation
    have hchain := chain_sends houter hstrip fun r r' o hpasses h => Passes.forwards hpasses h
    exact hchain
  exact (hserve (.incoming r) o ho).resolve_left List.not_mem_nil

end AcaSocial.Gateway
