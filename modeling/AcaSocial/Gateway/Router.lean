import AcaSocial.Gateway.ReverseProxy
import AcaSocial.Gateway.RouteMiddleware

/-!
# The gateway

`sanitize.go`, `router.go` and `app.go`: the handler of each configured route, the router that picks
one, and the global middlewares around it.

* **`Route.handler`** — from the outside in: rate limit, authentication, cache, sanitizer, proxy.
* **`App.serve`** — everything that is done for one request.

The first middleware of a chain is the outermost one, so that a request meets the global middlewares in
the order of the list.
-/

namespace AcaSocial.Gateway

/-! ## sanitize.go

The headers of a backend that the client is not to see. -/

/-- The headers of a backend that do not go to a client. -/
def sensitiveBackendHeaders : List String :=
  ["Server", "X-Powered-By", "X-AspNet-Version", "X-AspNetMvc-Version"]

/-- The headers are removed when the handler inside writes its status or its body. -/
def sanitizeBackendResponseHeaders : Middleware Exchange := fun next x =>
  let y := next x
  match y.w.status with
  | none => y
  | some _ => { y with w := { y.w with header := y.w.header.delAll sensitiveBackendHeaders } }

/-! ## router.go

A route for every configured endpoint that has backends, with the layers that its configuration asks for. -/

/-- An endpoint that has backends, with their proxies. -/
structure Route where
  endpoint : EndpointConfig
  proxies : List ReverseProxy

def backendTargets (endpoint : EndpointConfig) : List BackendTarget :=
  endpoint.backend.flatMap fun backend => backend.host.map fun host => ⟨host, backend.urlPattern⟩

def newRoute (env : Env) (endpoint : EndpointConfig) : Except String (Option Route) :=
  let targets := backendTargets endpoint
  if targets = [] then .ok none
  else
    let timeoutSeconds :=
      if endpoint.timeoutSeconds > 0 then endpoint.timeoutSeconds else env.cfg.timeoutSeconds
    match newLoadBalancedProxy env targets endpoint.endpoint timeoutSeconds with
    | .error err =>
      .error ("URL backend không hợp lệ cho endpoint " ++ endpoint.endpoint ++ ": " ++ err)
    | .ok proxies => .ok (some ⟨endpoint, proxies⟩)

/-- The routes in the order of the configuration. One bad URL stops the start. -/
def newRoutes (env : Env) : Except String (List Route) :=
  (env.cfg.endpoints.mapM (newRoute env)).map fun routes => routes.filterMap id

def EndpointConfig.pattern (endpoint : EndpointConfig) : String :=
  if endpoint.method ≠ "" ∧ endpoint.method ≠ "ANY" then
    String.ofList (endpoint.method.toList.map upperChar) ++ " " ++ endpoint.endpoint
  else endpoint.endpoint

/-- A stream lives beyond the write deadline of the server, which has to be lifted first. -/
def streamHandler (reverseProxy : Handler Exchange) : Handler Exchange := fun x =>
  if x.w.deadline = false then x.httpError "Streaming unavailable" 500 else reverseProxy x

def Route.handler (route : Route) (env : Env) (w : World) : Handler Exchange :=
  let endpoint := route.endpoint
  let handler := roundRobin env w route.proxies
  let handler := if endpoint.endpoint = "/api/notifications/stream" then streamHandler handler else handler
  let handler := sanitizeBackendResponseHeaders handler
  let handler :=
    if endpoint.cacheTTLSeconds > 0 then cacheMiddleware env w endpoint.cacheTTLSeconds handler else handler
  let handler :=
    if endpoint.authRequired then authMiddlewareProvider env w endpoint.requiredRoles handler
    else if endpoint.authOptional then optionalAuth env w handler
    else handler
  let routeLimit :=
    if endpoint.maxRequestsPerMinute > 0 then endpoint.maxRequestsPerMinute
    else env.cfg.maxRequestsPerMinute
  rateLimitMiddlewareProvider env w routeLimit endpoint.pattern handler

/-- The patterns that are registered: the preflight, the health check and the routes. -/
def patterns (routes : List Route) : List String :=
  ["OPTIONS /", "GET /health"] ++ routes.map fun route => route.endpoint.pattern

/-- The route that serves a request, if one does. -/
def routeOf (env : Env) (routes : List Route) (r : Request) : Option Route :=
  match env.serveMux (patterns routes) r.method r.host r.url with
  | .handler (i + 2) => routes[i]?
  | _ => none

def newRouter (env : Env) (w : World) (routes : List Route) : Handler Exchange := fun x =>
  match routeOf env routes x.request with
  | some route => route.handler env w x
  | none =>
    match env.serveMux (patterns routes) x.request.method x.request.host x.request.url with
    | .handler 0 => x.writeHeader 204
    | .handler 1 =>
      ((x.setHeader "Content-Type" "application/json").writeHeader w.health.1).write w.health.2
    | .reply res =>
      ({ x with w := { x.w with header := x.w.header.append res.header } }.writeHeader res.statusCode).write
        res.body
    | .handler _ => x.httpError "404 page not found" 404

/-! ## app.go

The middlewares of the whole gateway around its router. -/

structure App where
  routes : List Route

def newApp (env : Env) : Except String App := (newRoutes env).map App.mk

def App.handler (app : App) (env : Env) (w : World) : Handler Exchange :=
  chain (newRouter env w app.routes)
    [corsProvider env.cfg.cors, requestLogger env, recoverer, auditLoggerMiddleware env w,
      requestValidationMiddleware env, stripInternalHeaders, requestIDMiddleware w,
      securityHeadersMiddleware]

/-- Everything that is done for a request. -/
def App.serve (app : App) (env : Env) (w : World) (r : Request) : Exchange :=
  app.handler env w (.incoming r)

end AcaSocial.Gateway
