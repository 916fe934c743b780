import AcaSocial.Gateway.Middleware

/-!
# The middlewares of a route

The rate limit, the authentication and the response cache of one route, in the files `ratelimit.go`,
`blacklist.go`, `auth.go` and `cache.go` of the gateway. Authentication has two parts: **`parse`** is what
golang-jwt checks under the options it is given, and **`authMiddlewareProvider`** is the handler.
-/

namespace AcaSocial.Gateway

/-! ## ratelimit.go

One window for each route and address. A request that has to wait is told for how many seconds. -/

/-- The key of a window: the route template and the address of the client, never the concrete path. -/
def rateLimitKey (env : Env) (routeScope : String) (r : Request) : String :=
  "ratelimit:v2:" ++ env.sha256 (routeScope ++ "\x00" ++ realIP env r)

def rateLimitMiddlewareProvider (env : Env) (w : World) (maxReqPerMin : Int) (routeScope : String) :
    Middleware Exchange := fun next x =>
  let limit := if maxReqPerMin ≤ 0 then 100 else maxReqPerMin
  if x.request.method = "OPTIONS" then next x
  else
    let wait := w.rateLimitWait (rateLimitKey env routeScope x.request) limit
    if wait > 0 then
      let seconds := toString ((wait + 10 ^ 9 - 1) / 10 ^ 9)
      let x := x.setHeader "Retry-After" seconds
      let x := x.setHeader "Cache-Control" "no-store"
      let x := x.setHeader "Content-Type" "application/json; charset=utf-8"
      (x.writeHeader 429).write
        ("\x7b\"error\":\"Too Many Requests\",\"message\":\"Bạn gửi yêu cầu quá nhanh. Vui lòng thử lại sau "
          ++ seconds ++ " giây.\",\"retryAfter\":" ++ seconds ++ ",\"statusCode\":429\x7d\n")
    else next x

/-! ## blacklist.go

A gateway without a client of Redis refuses no token; one whose Redis fails refuses every token. -/

/-- A `jti` is revoked when its key is there with a value, and when Redis does not answer. -/
def isBlacklisted (w : World) (jti : String) : Bool :=
  if w.redisClient = false ∨ jti = "" then false
  else
    match w.blacklist jti with
    | .absent => false
    | .failed => true
    | .value val => decide (val ≠ "")

/-! ## auth.go

The signature, the dates, the issuer and the audience of a token, and then its claims as headers of the request. -/

/-- `claims[name].(string)`. -/
def claimString (claims : MapClaims) (name : String) : Option String :=
  match claims name with
  | some (.str value) => some value
  | _ => none

/-- The audiences of a token, one or many. -/
def claimAudience (claims : MapClaims) : List String :=
  match claims "aud" with
  | some (.str value) => [value]
  | some (.strs values) => values
  | _ => []

/-- `WithExpirationRequired`: the claim is there and lies ahead. -/
def verifyExpiresAt (w : World) (claims : MapClaims) : Bool :=
  match claims "exp" with
  | some (.num _ seconds) => decide ((w.now : Int) < 1000 * seconds)
  | _ => false

/-- `nbf` counts when it is there. -/
def verifyNotBefore (w : World) (claims : MapClaims) : Bool :=
  match claims "nbf" with
  | none => true
  | some (.num _ seconds) => decide (1000 * seconds ≤ (w.now : Int))
  | some _ => false

/-- `WithIssuer`, when an issuer is configured. -/
def verifyIssuer (env : Env) (claims : MapClaims) : Bool :=
  decide (env.cfg.jwt.issuer = "") || decide (claims "iss" = some (.str env.cfg.jwt.issuer))

/-- `WithAudience`, when an audience is configured. -/
def verifyAudience (env : Env) (claims : MapClaims) : Bool :=
  decide (env.cfg.jwt.audience = "") || (claimAudience claims).contains env.cfg.jwt.audience

/-- `parser.Parse`: the claims of a token with the right algorithm and signature whose registered claims
hold. -/
def parse (env : Env) (w : World) (token : String) : Option MapClaims :=
  match env.decode token with
  | none => none
  | some jwt =>
    if jwt.alg = "HS256" ∧ jwt.signed = true ∧ verifyExpiresAt w jwt.claims = true
        ∧ verifyNotBefore w jwt.claims = true ∧ verifyIssuer env jwt.claims = true
        ∧ verifyAudience env jwt.claims = true then some jwt.claims
    else none

/-- The user of a token: the claim `id` or `sub`, or `id` as a number. -/
def claimUserId (claims : MapClaims) : String :=
  match claims "id", claims "sub" with
  | some (.str userId), _ => userId
  | _, some (.str subId) => subId
  | some (.num numId _), _ => numId
  | _, _ => ""

def authMiddlewareProvider (env : Env) (w : World) (requiredRoles : List String) :
    Middleware Exchange := fun next x =>
  let invalid := fun info : AuthInfo => { info with reason := reasonInvalidJWT }
  let authHeader := x.request.header.get "Authorization"
  if authHeader = "" ∨ hasPrefix authHeader "Bearer " = false then
    (x.noteAuth invalid).httpError "Unauthorized - Thiếu hoặc sai định dạng Authorization header" 401
  else
    match parse env w (trimPrefix authHeader "Bearer ") with
    | none => (x.noteAuth invalid).httpError "Unauthorized - Token không hợp lệ hoặc đã hết hạn" 401
    | some claims =>
      let jti := (claimString claims "jti").getD ""
      if jti = "" then (x.noteAuth invalid).httpError "Unauthorized - Token thiếu claim jti" 401
      else if isBlacklisted w jti then
        (x.noteAuth fun info => { info with jti, reason := reasonBlacklistedToken }).httpError
          "Unauthorized - Token đã bị thu hồi" 401
      else
        let userId := claimUserId claims
        if trimSpace userId = "" then
          x.httpError "Unauthorized - Invalid or Empty User ID in Token" 401
        else
          let x := x.setRequestHeader "X-User-ID" userId
          let role := (claimString claims "role").getD ""
          let forbidden := fun info : AuthInfo => { info with jti, reason := reasonForbidden }
          if requiredRoles ≠ [] ∧ role = "" then
            (x.noteAuth forbidden).httpError "Forbidden - Missing Role Claim" 403
          else if requiredRoles ≠ [] ∧ role ∉ requiredRoles then
            (x.noteAuth forbidden).httpError "Forbidden - Insufficient Permissions" 403
          else
            let x := if role ≠ "" then x.setRequestHeader "X-User-Role" role else x
            next (x.noteAuth fun _ => { userId, role, jti, reason := reasonAuthOK })

def optionalAuth (env : Env) (w : World) : Middleware Exchange := fun next x =>
  if x.request.header.get "Authorization" = "" then next x
  else authMiddlewareProvider env w [] next x

/-! ## cache.go

Answers to `GET` are kept under the key of the address and the user. -/

/-- The writer that keeps the response back. It does not pass on a deadline. -/
def responseRecorder : ResponseWriter := ⟨none, .empty, "", false⟩

def cacheKey (env : Env) (r : Request) (userId : String) : String :=
  "cache:GET:" ++ env.sha256 (env.requestURI r.url ++ ":" ++ userId)

def cacheMiddleware (env : Env) (w : World) (ttlSeconds : Int) : Middleware Exchange := fun next x =>
  if x.request.method ≠ "GET" ∨ w.redisClient = false then next x
  else
    let userId := x.request.header.get "X-User-ID"
    if x.request.header.get "Authorization" ≠ "" ∧ userId = "" then next x
    else
      let key := cacheKey env x.request userId
      match w.cache key with
      | .value res =>
        let x := { x with w := { x.w with header := x.w.header.append res.header } }
        ((x.setHeader "X-Cache" "HIT").writeHeader res.status).write res.body
      | _ =>
        let y := next { x with w := responseRecorder }
        let status := y.statusCode
        let z := { y with w := { x.w with header := x.w.header.append y.w.header } }
        let z := ((z.setHeader "X-Cache" "MISS").writeHeader status).write y.w.body
        if 200 ≤ status ∧ status < 300 then
          { z with cacheWrites := z.cacheWrites ++ [⟨key, ⟨status, y.w.header, y.w.body⟩, ttlSeconds⟩] }
        else z

end AcaSocial.Gateway
