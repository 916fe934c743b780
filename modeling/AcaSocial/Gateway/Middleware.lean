import AcaSocial.Gateway.RealIP
import Mathlib.Algebra.Order.Ring.Int

/-!
# The global middlewares

Everything that every request passes, in the files `middleware.go`, `securityheaders.go`, `requestid.go`,
`validation.go` and `auditlog.go` of the gateway. No handler of the model panics, so the recovery from a
panic hands the request on.
-/

namespace AcaSocial.Gateway

/-! ## middleware.go

The layers that strip the internal headers, log, recover and answer for other origins. -/

/-- The headers that only the gateway itself may set. -/
def internalHeaders : List String := ["X-User-ID", "X-User-Role", "X-Internal-Token"]

/-- The request without the headers that a client must not choose. -/
def Request.strip (r : Request) : Request := { r with header := r.header.delAll internalHeaders }

def stripInternalHeaders : Middleware Exchange := fun next x =>
  next { x with request := x.request.strip }

/-- The line is written when the request is served. -/
def requestLogger (env : Env) : Middleware Exchange := fun next x =>
  let y := next x
  { y with accessLog := y.accessLog ++ [{
      statusCode := y.statusCode
      method := y.request.method
      path := y.request.url.path
      ip := realIP env y.request
      requestId := y.request.header.get "X-Request-ID" }] }

def recoverer : Middleware Exchange := fun next x => next x

def corsProvider (cfg : CORSConfig) : Middleware Exchange := fun next x =>
  let allowedMethods :=
    if cfg.allowedMethods = [] then "GET,POST,PUT,PATCH,DELETE,OPTIONS" else join cfg.allowedMethods ","
  let allowedHeaders :=
    if cfg.allowedHeaders = [] then "Content-Type,Authorization" else join cfg.allowedHeaders ","
  let origin := x.request.header.get "Origin"
  let allowOrigin :=
    if cfg.allowedOrigins = [] then "*"
    else if cfg.allowedOrigins.any fun o => o == "*" || o == origin then origin
    else ""
  let x := if allowOrigin ≠ "" then x.setHeader "Access-Control-Allow-Origin" allowOrigin else x
  let x := x.setHeader "Access-Control-Allow-Methods" allowedMethods
  let x := x.setHeader "Access-Control-Allow-Headers" allowedHeaders
  let x :=
    if allowOrigin ≠ "" ∧ allowOrigin ≠ "*" then x.setHeader "Access-Control-Allow-Credentials" "true"
    else x
  -- the preflight of a browser ends here
  if x.request.method = "OPTIONS" then x.writeHeader 204 else next x

/-! ## securityheaders.go

The headers are set before the inner handler runs. -/

def securityHeadersMiddleware : Middleware Exchange := fun next x =>
  let x := x.setHeader "X-Content-Type-Options" "nosniff"
  let x := x.setHeader "X-Frame-Options" "DENY"
  let x := x.setHeader "Referrer-Policy" "strict-origin-when-cross-origin"
  let x := x.setHeader "X-XSS-Protection" "0"
  let x := x.setHeader "Permissions-Policy" "camera=(), microphone=(), geolocation=()"
  next x

/-! ## requestid.go

An identifier of the client is kept when its form is right, and made up otherwise. -/

def isValidRequestID (id : String) : Bool :=
  decide (id.utf8ByteSize ≤ 64) && id.toList.all fun c =>
    decide ('a' ≤ c ∧ c ≤ 'z') || decide ('A' ≤ c ∧ c ≤ 'Z') || decide ('0' ≤ c ∧ c ≤ '9')
      || c == '-' || c == '_'

def requestIDMiddleware (w : World) : Middleware Exchange := fun next x =>
  let sentID := x.request.header.get "X-Request-ID"
  if sentID = "" ∨ isValidRequestID sentID = false then
    next ((x.setRequestHeader "X-Request-ID" w.requestId).setHeader "X-Request-ID" w.requestId)
  else next (x.setHeader "X-Request-ID" sentID)

/-! ## validation.go

A body of a type that is not allowed is turned away, and any other is read up to the limit only. -/

def maxBodyBytes : Nat := 10 * 2 ^ 20

def allowedContentTypes : List String :=
  ["application/json", "application/x-www-form-urlencoded", "multipart/form-data"]

def writeJSONError (x : Exchange) (status : Nat) (errCode : String) : Exchange :=
  ((x.setHeader "Content-Type" "application/json").writeHeader status).write
    ("\x7b\"error\":\"" ++ errCode ++ "\"\x7d\n")

def isAllowedContentType (mediaType : String) : Bool := allowedContentTypes.contains mediaType

/-- The request carries a payload; -1 is a body in chunks. -/
def Request.hasBody (r : Request) : Bool := decide (r.contentLength > 0) || decide (r.contentLength = -1)

/-- The error that a request is turned away with for its media type. -/
def mediaTypeError (env : Env) (r : Request) : Option String :=
  let ct := r.header.get "Content-Type"
  if r.hasBody = false then none
  else if ct = "" then some "missing_content_type"
  else
    let mediaType := env.toLower (trimSpace ((split ct ';').headD ""))
    if isAllowedContentType mediaType then none else some "unsupported_media_type"

def requestValidationMiddleware (env : Env) : Middleware Exchange := fun next x =>
  match mediaTypeError env x.request with
  | some errCode => writeJSONError x 415 errCode
  | none =>
    if x.request.hasBody then next { x with request := { x.request with bodyLimit := some maxBodyBytes } }
    else next x

/-! ## auditlog.go

One line for each request that is turned away, and for each that is authenticated. -/

def reasonRateLimited : String := "rate_limited"
def reasonInvalidJWT : String := "invalid_jwt"
def reasonBlacklistedToken : String := "blacklisted_token"
def reasonForbidden : String := "forbidden"
def reasonPayloadTooLarge : String := "payload_too_large"
def reasonUnsupportedMediaType : String := "unsupported_media_type"
def reasonAuthOK : String := "auth_ok"

/-- The reason that a status tells when the authentication has left none. -/
def inferReason (statusCode : Nat) (isAuthSuccess : Bool) : String :=
  if isAuthSuccess then reasonAuthOK
  else if statusCode = 429 then reasonRateLimited
  else if statusCode = 401 then reasonInvalidJWT
  else if statusCode = 403 then reasonForbidden
  else if statusCode = 413 then reasonPayloadTooLarge
  else if statusCode = 415 then reasonUnsupportedMediaType
  else "unknown"

/-- The event that is logged for a served request, if one is. -/
def securityEvent (w : World) (ip : String) (y : Exchange) : Option SecurityEvent :=
  let authInfo := y.authInfo.getD ⟨"", "", "", ""⟩
  -- a route without authentication leaves no user, and the header of the request stands in
  let userId := if authInfo.userId = "" then y.request.header.get "X-User-ID" else authInfo.userId
  let isSecurityError := [401, 403, 429, 413, 415].contains y.statusCode
  let isAuthSuccess := decide (y.statusCode < 400) && decide (userId ≠ "")
  let reason := if authInfo.reason = "" then inferReason y.statusCode isAuthSuccess else authInfo.reason
  if isSecurityError || isAuthSuccess then
    some {
      timestamp := w.now
      ip
      method := y.request.method
      path := y.request.url.path
      statusCode := y.statusCode
      reason
      jti := authInfo.jti
      userId
      userRole := authInfo.role }
  else none

def auditLoggerMiddleware (env : Env) (w : World) : Middleware Exchange := fun next x =>
  let ip := realIP env x.request
  let y := next { x with authInfo := some ⟨"", "", "", ""⟩ }
  { y with securityEvents := y.securityEvents ++ (securityEvent w ip y).toList }

end AcaSocial.Gateway
