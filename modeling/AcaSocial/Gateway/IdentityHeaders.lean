import AcaSocial.Gateway.Forwarding

/-!
# Identity headers

Every backend trusts `X-User-ID`, `X-User-Role` and `X-Internal-Token`. The gateway strips them from what a
client sends and writes its own.

* **`Presents`** — a request comes with a token that passes every check.
* **`Vouched`** — what a request on the wire carries of these headers is the gateway's.
* **`Exchange.effects`** — everything that is done for a request.

`serve_vouched` holds of every request. That two requests which differ in these headers alone are treated alike
(`treated_alike_iff`) fails where the media type is refused: the validation runs before the headers are stripped,
and the security log falls back on the client's `X-User-ID`.
-/

namespace AcaSocial.Gateway

variable {env : Env} {w : World} {app : App} {r r' o : Request}

/-! ## What a request on the wire carries

The headers `X-User-ID` and `X-User-Role` of what the backends get. -/

/-- The request comes with a token that is signed, in force, for this audience and not revoked; the identity is
the user and the role of the token. -/
inductive Presents (env : Env) (w : World) (r : Request) : Identity → Prop where
  | token {token jti : String} {jwt : Jwt}
      (hauthorization : r.header.get "Authorization" = "Bearer " ++ token)
      (hdecode : env.decode token = some jwt) (hsigned : jwt.alg = "HS256" ∧ jwt.signed = true)
      (hexpiry : verifyExpiresAt w jwt.claims = true ∧ verifyNotBefore w jwt.claims = true)
      (hissuer : verifyIssuer env jwt.claims = true) (haudience : verifyAudience env jwt.claims = true)
      (hjti : claimString jwt.claims "jti" = some jti ∧ jti ≠ "") (hlive : isBlacklisted w jti = false) :
      Presents env w r ⟨claimUserId jwt.claims, (claimString jwt.claims "role").getD ""⟩

/-- What the request on the wire carries of the internal headers is the gateway's. A header that the client names
in `Connection` is removed again. -/
structure Vouched (env : Env) (w : World) (app : App) (r o : Request) : Prop where
  identity : o.header.values "X-User-ID" ≠ [] ∨ o.header.values "X-User-Role" ≠ [] →
    ∃ route identity, routeOf env app.routes r = some route ∧ Presents env w r identity
      ∧ o.header.values "X-User-ID" = (if r.drops "X-User-ID" then [] else [identity.userId])
      ∧ o.header.values "X-User-Role"
        = (if r.drops "X-User-Role" ∨ identity.role = "" then [] else [identity.role])
      ∧ (route.endpoint.authRequired → route.endpoint.requiredRoles ≠ [] →
        identity.role ∈ route.endpoint.requiredRoles)
  token : ∀ value ∈ o.header.values "X-Internal-Token", value = env.internalToken

/-- A prefix and what is behind it. -/
theorem append_trimPrefix {s start : String} (h : hasPrefix s start = true) : start ++ trimPrefix s start = s := by
  obtain ⟨rest, hrest⟩ := List.isPrefixOf_iff_prefix.mp h
  rw [trimPrefix, if_pos h, ← hrest, List.drop_left]
  apply String.toList_injective
  simp [hrest]

/-- The middleware admits only a request with such a token, and on a restricted route with one of the roles. -/
theorem presents_of_admits {requiredRoles : List String} {identity : Identity}
    (h : admits env w requiredRoles r = some identity) :
    Presents env w r identity ∧ (requiredRoles ≠ [] → identity.role ∈ requiredRoles) := by
  obtain ⟨claims, hclaims, hidentity⟩ := Option.bind_eq_some_iff.mp h
  obtain ⟨token, htoken, haccepts⟩ := Option.bind_eq_some_iff.mp hclaims
  obtain ⟨hparse, hlive⟩ := Option.filter_eq_some_iff.mp haccepts
  -- the token is what follows the prefix
  have hauthorization : r.header.get "Authorization" = "Bearer " ++ token := by
    unfold bearer at htoken
    dsimp only at htoken
    split at htoken
    · next hprefix => rw [← Option.some.inj htoken, append_trimPrefix hprefix]
    · cases htoken
  obtain ⟨jwt, hdecode, hchecks, rfl⟩ : ∃ jwt, env.decode token = some jwt
      ∧ (jwt.alg = "HS256" ∧ jwt.signed = true ∧ verifyExpiresAt w jwt.claims = true
        ∧ verifyNotBefore w jwt.claims = true ∧ verifyIssuer env jwt.claims = true
        ∧ verifyAudience env jwt.claims = true) ∧ jwt.claims = claims := by
    unfold parse at hparse
    split at hparse
    · cases hparse
    · next jwt hdecode =>
      split at hparse
      · next hchecks => exact ⟨jwt, hdecode, hchecks, Option.some.inj hparse⟩
      · cases hparse
  obtain ⟨halg, hsigned, hexpires, hbefore, hissuer, haudience⟩ := hchecks
  dsimp only at hidentity hlive
  split at hidentity
  · cases hidentity
  · next hroles =>
    obtain rfl := Option.some.inj hidentity
    -- a token without a `jti` cannot be looked up in the blacklist
    cases hjti : claimString jwt.claims "jti" with
    | none => simp [hjti] at hlive
    | some jti =>
      have hlive : jti ≠ "" ∧ isBlacklisted w jti = false := by simpa [hjti] using hlive
      refine ⟨.token hauthorization hdecode ⟨halg, hsigned⟩ ⟨hexpires, hbefore⟩ hissuer haudience ⟨hjti, hlive.1⟩
        hlive.2, fun hsome => ?_⟩
      by_contra hrole
      exact hroles (.inr ⟨hsome, .inr hrole⟩)

/-- A route forwards under an identity only what its authentication admits. -/
theorem admits_of_identity {endpoint : EndpointConfig} {identity : Identity}
    (h : endpoint.identity env w r = some (some identity)) : ∃ requiredRoles,
    admits env w requiredRoles r = some identity ∧ (endpoint.authRequired → requiredRoles = endpoint.requiredRoles) := by
  unfold EndpointConfig.identity at h
  split at h
  · obtain ⟨_, hadmits, hsome⟩ := Option.map_eq_some_iff.mp h
    obtain rfl := Option.some.inj hsome
    exact ⟨_, hadmits, fun _ => rfl⟩
  · next hrequired =>
    split at h
    · obtain ⟨_, hadmits, hsome⟩ := Option.map_eq_some_iff.mp h
      obtain rfl := Option.some.inj hsome
      exact ⟨_, hadmits, fun hauth => absurd hauth hrequired⟩
    · cases Option.some.inj h

/-- **No client chooses an internal header**: every request on the wire is vouched for. -/
theorem serve_vouched (happ : newApp env = .ok app) (ho : o ∈ (app.serve env w r).wire) :
    Vouched env w app r o := by
  obtain ⟨route, identity?, hroute, hidentity, hcarries⟩ := serve_forwards happ ho
  constructor
  · intro hsome
    cases identity? with
    | none =>
      -- nothing is carried without an identity
      have huser : o.header.values "X-User-ID" = [] := by
        rw [hcarries.userId]
        split <;> rfl
      have hrole : o.header.values "X-User-Role" = [] := by
        rw [hcarries.role]
        split <;> rfl
      exact absurd hsome (by simp [huser, hrole])
    | some identity =>
      obtain ⟨requiredRoles, hadmits, hrequired⟩ := admits_of_identity hidentity
      obtain ⟨hpresents, hrole⟩ := presents_of_admits hadmits
      refine ⟨route, identity, hroute, hpresents, hcarries.userId, ?_, fun hauth => hrequired hauth ▸ hrole⟩
      rw [hcarries.role]
      by_cases hdrops : r.drops "X-User-Role" = true
      · rw [if_pos hdrops, if_pos (.inl hdrops)]
      · by_cases hnone : identity.role = ""
        · rw [if_neg hdrops, if_pos (.inr hnone)]
          simp [Option.filter, hnone]
        · rw [if_neg hdrops, if_neg (not_or.mpr ⟨hdrops, hnone⟩)]
          simp [Option.filter, hnone]
  · intro value hvalue
    rw [hcarries.token] at hvalue
    split at hvalue
    · exact absurd hvalue List.not_mem_nil
    · exact List.mem_singleton.mp hvalue

/-! ## Requests that differ in these headers alone

The client may send them, and the answer may not depend on it. -/

/-- Everything that is done for a request: the response, what goes on the wire and into the cache, and the lines
of both logs. -/
structure Effects where
  response : ResponseWriter
  wire : List Request
  cacheWrites : List CacheWrite
  securityEvents : List SecurityEvent
  accessLog : List LogLine

def Exchange.effects (x : Exchange) : Effects := ⟨x.w, x.wire, x.cacheWrites, x.securityEvents, x.accessLog⟩

/-- The other headers of two such requests agree. -/
theorem get_of_strip (h : r.strip = r'.strip) (name : String)
    (hname : ¬ ∃ other ∈ internalHeaders, headerKey name = headerKey other) : r.header.get name = r'.header.get name := by
  have hvalues : r.strip.header.values name = r'.strip.header.values name := by rw [h]
  rw [values_strip, values_strip, if_neg hname, if_neg hname] at hvalues
  rw [Header.get, hvalues]
  rfl

/-- The rest of two such requests is the same. -/
theorem strip_fields (h : r.strip = r'.strip) : r.method = r'.method ∧ r.url = r'.url
    ∧ r.remoteAddr = r'.remoteAddr ∧ r.contentLength = r'.contentLength := by
  have hmethod : r.strip.method = r'.strip.method := by rw [h]
  have hurl : r.strip.url = r'.strip.url := by rw [h]
  have haddr : r.strip.remoteAddr = r'.strip.remoteAddr := by rw [h]
  have hlength : r.strip.contentLength = r'.strip.contentLength := by rw [h]
  exact ⟨hmethod, hurl, haddr, hlength⟩

/-- The address of the client does not depend on these headers. -/
theorem realIP_of_strip (h : r.strip = r'.strip) : realIP env r = realIP env r' := by
  have hforwarded := get_of_strip h "X-Forwarded-For" (by decide +kernel)
  have hreal := get_of_strip h "X-Real-IP" (by decide +kernel)
  unfold realIP remoteAddrIP
  rw [hforwarded, hreal, (strip_fields h).2.2.1]

/-- The check of the content type does not depend on these headers. -/
theorem mediaTypeError_of_strip (h : r.strip = r'.strip) : mediaTypeError env r = mediaTypeError env r' := by
  have hct := get_of_strip h "Content-Type" (by decide +kernel)
  unfold mediaTypeError Request.hasBody
  rw [hct, (strip_fields h).2.2.2]

/-- What `corsProvider` hands on, unless the request is a preflight. -/
def opened (env : Env) (r : Request) : Exchange :=
  { Exchange.incoming r with w :=
    { ResponseWriter.fresh with header := corsHeaders env.cfg.cors (r.header.get "Origin") .empty } }

/-- What the audit log notes of a request. -/
def audited (env : Env) (w : World) (r : Request) (y : Exchange) : Exchange :=
  { y with securityEvents := y.securityEvents ++ (securityEvent w (realIP env r) y).toList }

/-- What the access log notes of a request. -/
def logged (env : Env) (y : Exchange) : Exchange :=
  { y with accessLog := y.accessLog ++ [{
      statusCode := y.statusCode
      method := y.request.method
      path := y.request.url.path
      ip := realIP env y.request
      requestId := y.request.header.get "X-Request-ID" }] }

/-- The layers inside the one that strips the internal headers. -/
def inside (app : App) (env : Env) (w : World) : Handler Exchange :=
  requestIDMiddleware w (securityHeadersMiddleware (newRouter env w app.routes))

/-- **The gateway by its outer layers.** -/
theorem serve_eq (app : App) (r : Request) : app.serve env w r =
    if r.method = "OPTIONS" then (opened env r).writeHeader 204
    else logged env (audited env w r (requestValidationMiddleware env (stripInternalHeaders (inside app env w))
      { opened env r with authInfo := some ⟨"", "", "", ""⟩ })) := by
  show corsProvider env.cfg.cors _ (.incoming r) = _
  rw [corsProvider_eq]
  rfl

/-- A request of an accepted media type goes on, with the limit for its body. -/
theorem validation_none {x : Exchange} (hvalid : mediaTypeError env x.request = none) (next : Handler Exchange) :
    requestValidationMiddleware env next x = next { x with request := { x.request with
      bodyLimit := if x.request.hasBody then some maxBodyBytes else x.request.bodyLimit } } := by
  unfold requestValidationMiddleware
  rw [hvalid]
  dsimp only
  split <;> rfl

/-- A request that is refused here goes no further. -/
theorem validation_some {x : Exchange} {errCode : String} (herr : mediaTypeError env x.request = some errCode)
    (next : Handler Exchange) : requestValidationMiddleware env next x = writeJSONError x 415 errCode := by
  unfold requestValidationMiddleware
  rw [herr]

/-- Two such requests are handed on as one. -/
theorem validated_alike (h : r.strip = r'.strip) (hvalid : mediaTypeError env r = none) (next : Handler Exchange) :
    requestValidationMiddleware env (stripInternalHeaders next) { opened env r with authInfo := some ⟨"", "", "", ""⟩ }
      = requestValidationMiddleware env (stripInternalHeaders next)
        { opened env r' with authInfo := some ⟨"", "", "", ""⟩ } := by
  have hvalid' : mediaTypeError env r' = none := by rw [← mediaTypeError_of_strip h, hvalid]
  have hbody : r.hasBody = r'.hasBody := by
    unfold Request.hasBody
    rw [(strip_fields h).2.2.2]
  -- the limit of the body depends on what is kept
  have hlimit : (if r.hasBody then some maxBodyBytes else r.bodyLimit)
      = if r'.hasBody then some maxBodyBytes else r'.bodyLimit := by
    have hkept : r.strip.bodyLimit = r'.strip.bodyLimit := by rw [h]
    rw [hbody, show r.bodyLimit = r'.bodyLimit from hkept]
  have hstripped : ∀ limit, Request.strip { r with bodyLimit := limit } = Request.strip { r' with bodyLimit := limit } := by
    intro limit
    have hr : { r.strip with bodyLimit := limit } = { r'.strip with bodyLimit := limit } := by rw [h]
    exact hr
  -- of the headers, the answer so far reads `Origin` alone
  have hopened : ∀ q : Request, ({ opened env r with request := q, authInfo := some ⟨"", "", "", ""⟩ } : Exchange)
      = { opened env r' with request := q, authInfo := some ⟨"", "", "", ""⟩ } := by
    intro q
    unfold opened
    rw [get_of_strip h "Origin" (by decide +kernel)]
    rfl
  rw [validation_none hvalid, validation_none hvalid']
  show next { opened env r with
      request := Request.strip { r with bodyLimit := if r.hasBody then some maxBodyBytes else r.bodyLimit }
      authInfo := some ⟨"", "", "", ""⟩ } = next { opened env r' with
      request := Request.strip { r' with bodyLimit := if r'.hasBody then some maxBodyBytes else r'.bodyLimit }
      authInfo := some ⟨"", "", "", ""⟩ }
  rw [hlimit, hstripped, hopened]

/-- **When two requests that differ in the internal headers alone are treated alike.** -/
theorem treated_alike_iff (h : r.strip = r'.strip) :
    (app.serve env w r).effects = (app.serve env w r').effects
      ↔ (r.method = "OPTIONS" ∨ mediaTypeError env r = none
        ∨ r.header.get "X-User-ID" = r'.header.get "X-User-ID") := by
  obtain ⟨hmethod, hurl, -, -⟩ := strip_fields h
  have horigin : (opened env r).w = (opened env r').w := by
    unfold opened
    rw [get_of_strip h "Origin" (by decide +kernel)]
  rw [serve_eq, serve_eq, ← hmethod]
  by_cases hpreflight : r.method = "OPTIONS"
  · rw [if_pos hpreflight, if_pos hpreflight]
    have hserved : ∀ r, ((opened env r).writeHeader 204).effects
        = ⟨{ (opened env r).w with status := some 204 }, [], [], [], []⟩ := fun r => rfl
    refine iff_of_true ?_ (.inl hpreflight)
    rw [hserved, hserved, horigin]
  · rw [if_neg hpreflight, if_neg hpreflight]
    -- past the validation the headers are stripped; before it the logger reads one of them
    cases herr : mediaTypeError env r with
    | none =>
      refine iff_of_true ?_ (.inr (.inl rfl))
      rw [validated_alike h herr]
      unfold audited
      rw [realIP_of_strip h]
    | some errCode =>
      have herr' : mediaTypeError env r' = some errCode := by rw [← mediaTypeError_of_strip h, herr]
      rw [validation_some herr, validation_some herr']
      have hserved : ∀ r, (logged env (audited env w r
          (writeJSONError { opened env r with authInfo := some ⟨"", "", "", ""⟩ } 415 errCode))).effects
            = ⟨(writeJSONError { Exchange.incoming r' with w := (opened env r).w } 415 errCode).w, [], [],
              [⟨w.now, realIP env r, r.method, r.url.path, 415, reasonUnsupportedMediaType, "",
                r.header.get "X-User-ID", ""⟩],
              [⟨415, r.method, r.url.path, realIP env r, r.header.get "X-Request-ID"⟩]⟩ := fun r => rfl
      rw [hserved, hserved, horigin, ← hmethod, ← hurl, ← realIP_of_strip h,
        ← get_of_strip h "X-Request-ID" (by decide +kernel)]
      constructor
      · intro heffects
        have hevent := congrArg Effects.securityEvents heffects
        exact .inr (.inr (congrArg SecurityEvent.userId (List.cons.inj hevent).1))
      · rintro (hcase | hcase | hcase)
        · exact absurd hcase hpreflight
        · cases hcase
        · rw [hcase]

/-! ## The two guarantees

A header on the wire is vouched for by the token, and what the client sent does not show. -/

/-- No request of a client gets an internal header of its own through, nor a treatment by one. -/
structure Unforgeable (env : Env) (w : World) (app : App) (r r' : Request) : Prop where
  vouched : ∀ o ∈ (app.serve env w r).wire, Vouched env w app r o
  alike : r.strip = r'.strip → (app.serve env w r).effects = (app.serve env w r').effects

/-- **Identity headers cannot be forged**, exactly when the media type of a request that differs from another in
`X-User-ID` is not refused. -/
theorem unforgeable_iff (happ : newApp env = .ok app) : Unforgeable env w app r r' ↔
    (r.strip = r'.strip → r.method = "OPTIONS" ∨ mediaTypeError env r = none
      ∨ r.header.get "X-User-ID" = r'.header.get "X-User-ID") := by
  constructor
  · intro hunforgeable h
    exact (treated_alike_iff h).mp (hunforgeable.alike h)
  · intro hcase
    exact ⟨fun _ => serve_vouched happ, fun h => (treated_alike_iff h).mpr (hcase h)⟩

/-- The identity reaches the backend, with the secret of the gateway. -/
structure Delivered (env : Env) (identity : Identity) (o : Request) : Prop where
  userId : o.header.values "X-User-ID" = [identity.userId]
  role : identity.role ≠ "" → o.header.values "X-User-Role" = [identity.role]
  token : o.header.values "X-Internal-Token" = [env.internalToken]

/-- **An authenticated identity reaches the backend** exactly when the `Connection` header of the client names
none of the headers that carry it. -/
theorem delivered_iff {route : Route} {identity : Identity} (happ : newApp env = .ok app)
    (hroute : routeOf env app.routes r = some route)
    (hidentity : route.endpoint.identity env w r = some (some identity)) (ho : o ∈ (app.serve env w r).wire) :
    Delivered env identity o ↔ ¬ r.drops "X-User-ID" ∧ (identity.role ≠ "" → ¬ r.drops "X-User-Role")
      ∧ ¬ r.drops "X-Internal-Token" := by
  obtain ⟨route', identity', hroute', hidentity', hcarries⟩ := serve_forwards happ ho
  obtain rfl := Option.some.inj (hroute.symm.trans hroute')
  obtain rfl := Option.some.inj (hidentity.symm.trans hidentity')
  have hrole : ((some identity).map (·.role)).filter (· ≠ "") = if identity.role = "" then none else some identity.role := by
    by_cases hnone : identity.role = "" <;> simp [Option.filter, hnone]
  have hcarried := hcarries.role
  rw [hrole] at hcarried
  constructor
  -- what is named by `Connection` does not arrive, so nothing that arrives was named
  · intro hdelivered
    refine ⟨fun hdrops => ?_, fun hsome hdrops => ?_, fun hdrops => ?_⟩
    · have hnone := hcarries.userId
      rw [if_pos hdrops, hdelivered.userId] at hnone
      cases hnone
    · rw [if_pos hdrops, hdelivered.role hsome] at hcarried
      cases hcarried
    · have hnone := hcarries.token
      rw [if_pos hdrops, hdelivered.token] at hnone
      cases hnone
  · rintro ⟨huser, hrole, htoken⟩
    refine ⟨?_, fun hsome => ?_, ?_⟩
    · rw [hcarries.userId, if_neg huser]
      rfl
    · rw [hcarried, if_neg (hrole hsome), if_neg hsome]
      rfl
    · rw [hcarries.token, if_neg htoken]

/-! ## Samples

A gateway with one route, and requests with forged headers. -/

namespace Sample

def listing : EndpointConfig where
  timeoutSeconds := 0
  endpoint := "/api/discussions"
  method := "GET"
  authRequired := false
  authOptional := true
  requiredRoles := []
  cacheTTLSeconds := 0
  maxRequestsPerMinute := 0
  backend := [⟨["http://discussion:3003"], "/discussions"⟩]

def claims : MapClaims := fun name =>
  ([("id", .str "7"), ("role", .str "student"), ("jti", .str "j"), ("exp", .num "900" 900),
    ("iss", .str "ptit-backend"), ("aud", .str "ptit-gateway")] : List (String × Json)).lookup name

/-- A gateway with one route, where the text `student` is the token of user `7`. -/
def gateway : Env where
  cfg := ⟨15, 100, ⟨"ptit-backend", "ptit-gateway"⟩, ⟨["http://localhost:3000"], [], []⟩, [listing]⟩
  trustedProxies := ⟨[], []⟩
  internalToken := "secret"
  decode := fun token => if token = "student" then some ⟨"HS256", claims, true⟩ else none
  splitHostPort := fun addr => some addr
  parseIP := some
  parseCIDR := some
  inNetwork := fun _ _ => false
  sha256 := id
  toLower := id
  parseURL := fun _ => some ⟨"http", "discussion:3003", "", "", ""⟩
  escapedPath := URL.path
  requestURI := URL.path
  serveMux := fun _ _ _ _ => .handler 2

def world : World where
  now := 0
  redisClient := true
  blacklist := fun _ => .absent
  cache := fun _ => .absent
  rateLimitWait := fun _ _ => 0
  current := 0
  requestId := "r"
  breakerOpen := fun _ => false
  transport := fun _ _ => none
  health := (200, "")

/-- A request with the headers at hand and a body of some bytes. -/
def listDiscussions (header : Header) (contentLength : Int) : Request where
  method := "GET"
  url := ⟨"", "", "/api/discussions", "", ""⟩
  host := "gateway"
  remoteAddr := "10.0.0.1"
  header := header
  contentLength := contentLength
  body := ""
  bodyLimit := none

/-- The gateway after its start. -/
def started : App where
  routes := [⟨listing, [{
    director := director gateway ⟨"http", "discussion:3003", "", "", ""⟩ "/api/discussions" "/discussions"
    backend := ⟨"http", "discussion:3003", "", "", ""⟩
    timeoutSec := 15 }]⟩]

theorem newApp_gateway : newApp gateway = .ok started := rfl

/-- The headers of a request with a token. -/
def signedIn : Header := Header.empty.set "Authorization" "Bearer student"

end Sample

/-- What a client sends as `X-User-ID` is stripped. -/
theorem strip_set (r : Request) (value : String) :
    Request.strip { r with header := r.header.set "X-User-ID" value } = r.strip := by
  have hdel : (r.header.set "X-User-ID" value).del "X-User-ID" = r.header.del "X-User-ID" :=
    Function.update_idem ..
  have hheader : (r.header.set "X-User-ID" value).delAll internalHeaders = r.header.delAll internalHeaders := by
    rw [internalHeaders, Header.delAll_cons, Header.delAll_cons _ "X-User-ID", hdel]
  unfold Request.strip
  dsimp only
  rw [hheader]

/-- A forged `X-User-ID` beside a token changes nothing. -/
theorem unforgeable_signedIn : Unforgeable Sample.gateway Sample.world Sample.started
    (Sample.listDiscussions (Sample.signedIn.set "X-User-ID" "1") 0) (Sample.listDiscussions Sample.signedIn 0) :=
  (unforgeable_iff Sample.newApp_gateway).mpr fun _ => .inr (.inl rfl)

/-- A body without a media type is refused before the forged header is stripped, and the security log names it. -/
theorem not_unforgeable : newApp Sample.gateway = .ok Sample.started
    ∧ ¬ Unforgeable Sample.gateway Sample.world Sample.started
      (Sample.listDiscussions (Header.empty.set "X-User-ID" "1") 5) (Sample.listDiscussions .empty 5) := by
  refine ⟨Sample.newApp_gateway, fun hunforgeable => ?_⟩
  have hstrip := strip_set (Sample.listDiscussions .empty 5) "1"
  have hcase := (treated_alike_iff hstrip).mp (hunforgeable.alike hstrip)
  exact absurd hcase (by decide +kernel)

theorem delivered_signedIn : ∃ o ∈ (Sample.started.serve Sample.gateway Sample.world
    (Sample.listDiscussions Sample.signedIn 0)).wire, Delivered Sample.gateway ⟨"7", "student"⟩ o := by
  obtain ⟨o, ho⟩ := List.exists_mem_of_length_pos (show 0 < (Sample.started.serve Sample.gateway Sample.world
    (Sample.listDiscussions Sample.signedIn 0)).wire.length by decide +kernel)
  exact ⟨o, ho, (delivered_iff Sample.newApp_gateway (by rfl) (by decide +kernel) ho).mpr (by decide +kernel)⟩

/-- A client that names `X-User-ID` in `Connection` is admitted, and its own identity is removed. -/
theorem not_delivered : newApp Sample.gateway = .ok Sample.started
    ∧ Sample.listing.identity Sample.gateway Sample.world
      (Sample.listDiscussions (Sample.signedIn.set "Connection" "X-User-ID") 0) = some (some ⟨"7", "student"⟩)
    ∧ ∃ o ∈ (Sample.started.serve Sample.gateway Sample.world
      (Sample.listDiscussions (Sample.signedIn.set "Connection" "X-User-ID") 0)).wire,
        o.header.values "X-User-ID" = [] ∧ ¬ Delivered Sample.gateway ⟨"7", "student"⟩ o := by
  obtain ⟨o, ho⟩ := List.exists_mem_of_length_pos (show 0 < (Sample.started.serve Sample.gateway Sample.world
    (Sample.listDiscussions (Sample.signedIn.set "Connection" "X-User-ID") 0)).wire.length by decide +kernel)
  obtain ⟨route, identity, -, -, hcarries⟩ := serve_forwards Sample.newApp_gateway ho
  have hnone : o.header.values "X-User-ID" = [] := by
    rw [hcarries.userId, if_pos (by decide +kernel)]
  refine ⟨Sample.newApp_gateway, by decide +kernel, o, ho, hnone, fun hdelivered => ?_⟩
  cases hnone.symm.trans hdelivered.userId

end AcaSocial.Gateway
