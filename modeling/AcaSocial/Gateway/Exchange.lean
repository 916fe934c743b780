import AcaSocial.Base.Header
import AcaSocial.Base.Layers

/-!
# The data of the API gateway

* **`GatewayConfig`** — what `gateway.json` configures.
* **`Request`**, **`ResponseWriter`**, **`Exchange`** — one request on its way through the handlers,
  with all that is done for it: the response, the requests sent to a backend, the cache entries, the
  security events and the lines of the access log.
* **`Env`** — what the process has from its start: the configuration, the secrets, and the functions
  of the Go libraries that the gateway rests on.
* **`World`** — what clock, Redis, rate limiter and backends answer while the request is served. The
  gateway asks each of them at most once for a request.

Times are milliseconds since the epoch.
-/

namespace AcaSocial.Gateway

/-! ## Configuration

The configuration, as `config.go` reads it. -/

structure JWTConfig where
  issuer : String
  audience : String

structure CORSConfig where
  allowedOrigins : List String
  allowedMethods : List String
  allowedHeaders : List String

structure BackendConfig where
  host : List String
  urlPattern : String

/-- One route that the gateway opens. -/
structure EndpointConfig where
  timeoutSeconds : Int
  endpoint : String
  method : String
  authRequired : Bool
  authOptional : Bool
  requiredRoles : List String
  cacheTTLSeconds : Int
  maxRequestsPerMinute : Int
  backend : List BackendConfig

structure GatewayConfig where
  timeoutSeconds : Int
  maxRequestsPerMinute : Int
  jwt : JWTConfig
  cors : CORSConfig
  endpoints : List EndpointConfig

/-! ## Messages

A request, the answer as far as it has been written, and the two of them on their way through the middlewares. -/

structure URL where
  scheme : String
  host : String
  path : String
  rawPath : String
  rawQuery : String
deriving DecidableEq

/-- A request. `contentLength` is -1 for a body of unknown length, and `bodyLimit` is the number of
bytes after which reading the body fails. -/
structure Request where
  method : String
  url : URL
  host : String
  remoteAddr : String
  header : Header
  contentLength : Int
  body : String
  bodyLimit : Option Nat

structure Response where
  statusCode : Nat
  header : Header
  body : String

/-- `http.ResponseWriter`. `deadline` says whether `SetWriteDeadline` reaches the connection. -/
structure ResponseWriter where
  status : Option Nat
  header : Header
  body : String
  deadline : Bool

/-- The writer of a connection before anything is written. -/
def ResponseWriter.fresh : ResponseWriter := ⟨none, .empty, "", true⟩

/-- What is known of the authentication of a request. -/
structure AuthInfo where
  userId : String
  role : String
  jti : String
  reason : String

structure SecurityEvent where
  timestamp : Nat
  ip : String
  method : String
  path : String
  statusCode : Nat
  reason : String
  jti : String
  userId : String
  userRole : String
deriving DecidableEq

/-- A line of the access log, without the latency. -/
structure LogLine where
  statusCode : Nat
  method : String
  path : String
  ip : String
  requestId : String
deriving DecidableEq

/-- A cached response. -/
structure CacheRes where
  status : Nat
  header : Header
  body : String

/-- `SET key value EX ttlSeconds` of the response cache. -/
structure CacheWrite where
  key : String
  value : CacheRes
  ttlSeconds : Int

/-- One request on its way through the handlers. -/
structure Exchange where
  request : Request
  w : ResponseWriter
  authInfo : Option AuthInfo
  wire : List Request
  cacheWrites : List CacheWrite
  securityEvents : List SecurityEvent
  accessLog : List LogLine

/-- A request as it comes in. -/
def Exchange.incoming (r : Request) : Exchange := ⟨r, .fresh, none, [], [], [], []⟩

namespace Exchange

def setHeader (x : Exchange) (name value : String) : Exchange :=
  { x with w := { x.w with header := x.w.header.set name value } }

/-- `WriteHeader`: the first status counts. -/
def writeHeader (x : Exchange) (status : Nat) : Exchange :=
  { x with w := { x.w with status := some (x.w.status.getD status) } }

/-- `Write`, with the status 200 when none is written yet. -/
def write (x : Exchange) (text : String) : Exchange :=
  { x with w := { x.w with status := some (x.w.status.getD 200), body := x.w.body ++ text } }

/-- `http.Error`. -/
def httpError (x : Exchange) (message : String) (status : Nat) : Exchange :=
  let x := { x with w := { x.w with header := x.w.header.del "Content-Length" } }
  let x := x.setHeader "Content-Type" "text/plain; charset=utf-8"
  let x := x.setHeader "X-Content-Type-Options" "nosniff"
  (x.writeHeader status).write (message ++ "\n")

/-- The status that a writer wrapped around `w` has seen. -/
def statusCode (x : Exchange) : Nat := x.w.status.getD 200

/-- `r.Header.Set` on the request at hand. -/
def setRequestHeader (x : Exchange) (name value : String) : Exchange :=
  { x with request := { x.request with header := x.request.header.set name value } }

/-- `if info := GetAuthInfo(r); info != nil { … }`. -/
def noteAuth (x : Exchange) (note : AuthInfo → AuthInfo) : Exchange :=
  { x with authInfo := x.authInfo.map note }

end Exchange

/-! ## The outside

What the gateway asks others for: the parser of tokens, the backends, Redis, the proxies that it trusts. -/

/-- A value of a JSON object. A number comes with its text and with what it is as whole seconds. -/
inductive Json where
  | str (value : String)
  | num (literal : String) (seconds : Int)
  | strs (values : List String)
  | other
deriving DecidableEq

/-- `jwt.MapClaims`. -/
abbrev MapClaims := String → Option Json

/-- A decoded token: the algorithm of its header, its claims, and whether its signature is the HMAC of the
token under `JWT_SECRET`. -/
structure Jwt where
  alg : String
  claims : MapClaims
  signed : Bool

/-- The answer of a Redis command. -/
inductive Reply (α : Type) where
  | value (v : α)
  | absent
  | failed

/-- The proxies whose forwarding headers count: networks in CIDR form and single addresses. -/
structure TrustedProxies where
  nets : List String
  ips : List String

/-- What `http.ServeMux` makes of a request: the handler of a pattern, or an answer of its own
(a redirect, 404, 405). -/
inductive Matched where
  | handler (index : Nat)
  | reply (response : Response)

/-- What the process has from its start. The functions are those of the Go libraries: `ParseUnverified`
of golang-jwt together with its signature check, `net.SplitHostPort`, `net.ParseIP` and `net.ParseCIDR` (with
the text of what they read), membership of an address in a network, `hex(sha256(…))`, `strings.ToLower`,
`url.Parse`, `URL.EscapedPath`, `URL.RequestURI`, and the matching of `http.ServeMux`. -/
structure Env where
  cfg : GatewayConfig
  trustedProxies : TrustedProxies
  internalToken : String
  decode : String → Option Jwt
  splitHostPort : String → Option String
  parseIP : String → Option String
  parseCIDR : String → Option String
  inNetwork : String → String → Bool
  sha256 : String → String
  toLower : String → String
  parseURL : String → Option URL
  escapedPath : URL → String
  requestURI : URL → String
  serveMux : List String → String → String → URL → Matched

/-- What the outside answers while one request is served: the clock, whether there is a Redis client, the
blacklist entry of a `jti`, the cache entry of a key, the wait of the rate limiter in nanoseconds for a
key and a limit, the counter of the load balancer, a new request id, whether the circuit breaker
of a backend lets nothing through, what a backend answers, and what `/health` finds. -/
structure World where
  now : Nat
  redisClient : Bool
  blacklist : String → Reply String
  cache : String → Reply CacheRes
  rateLimitWait : String → Int → Nat
  current : Nat
  requestId : String
  breakerOpen : String → Bool
  transport : Int → Request → Option Response
  health : Nat × String

end AcaSocial.Gateway
