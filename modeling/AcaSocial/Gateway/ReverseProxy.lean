import AcaSocial.Gateway.Exchange
import AcaSocial.Gateway.Strings
import Mathlib.Algebra.Order.Ring.Int

/-!
# The reverse proxy

`reverse_proxy.go` of the gateway, with what it takes from `net/http/httputil`.

* **`ReverseProxy.serveHTTP`** — the handler of the library: it runs the director on a copy of the request,
  removes the hop-by-hop headers, and only then hands the copy to the transport.
* **`newLoadBalancedProxy`** — the proxies of a route, each with the gateway's director.
* **`rewritePath`** — from the path of the route to the path of the backend.
-/

namespace AcaSocial.Gateway

/-! ## net/http/httputil

What `ReverseProxy.ServeHTTP` does to a request before it leaves the gateway: headers that belong to one hop, and the
address. -/

/-- The headers of RFC 7230 that end at the next hop. -/
def hopHeaders : List String :=
  ["Connection", "Proxy-Connection", "Keep-Alive", "Proxy-Authenticate", "Proxy-Authorization", "Te",
    "Trailer", "Transfer-Encoding", "Upgrade"]

/-- Without the headers that `Connection` names, and without the hop-by-hop headers. -/
def removeHopByHopHeaders (h : Header) : Header := (h.delAll (h.tokens "Connection")).delAll hopHeaders

/-- Equality of ASCII texts without regard to case. -/
def equalFold (s t : String) : Bool := s.toList.map lowerChar == t.toList.map lowerChar

/-- The protocol that the request asks to switch to. -/
def upgradeType (h : Header) : String :=
  if (h.tokens "Connection").any fun token => equalFold token "Upgrade" then h.get "Upgrade" else ""

def isPrint (s : String) : Bool := s.toList.all fun c => decide (' ' ≤ c ∧ c ≤ '~')

def singleJoiningSlash (a b : String) : String :=
  match hasSuffix a "/", hasPrefix b "/" with
  | true, true => a ++ trimPrefix b "/"
  | false, false => a ++ "/" ++ b
  | _, _ => a ++ b

def joinURLPath (env : Env) (a b : URL) : String × String :=
  if a.rawPath = "" ∧ b.rawPath = "" then (singleJoiningSlash a.path b.path, "")
  else
    let apath := env.escapedPath a
    let bpath := env.escapedPath b
    match hasSuffix apath "/", hasPrefix bpath "/" with
    | true, true => (a.path ++ String.ofList (b.path.toList.drop 1), apath ++ trimPrefix bpath "/")
    | false, false => (a.path ++ "/" ++ b.path, apath ++ "/" ++ bpath)
    | _, _ => (a.path ++ b.path, apath ++ bpath)

/-- The director of `NewSingleHostReverseProxy`. -/
def rewriteRequestURL (env : Env) (target : URL) (r : Request) : Request :=
  let (path, rawPath) := joinURLPath env target r.url
  let rawQuery :=
    if target.rawQuery = "" ∨ r.url.rawQuery = "" then target.rawQuery ++ r.url.rawQuery
    else target.rawQuery ++ "&" ++ r.url.rawQuery
  { r with url := ⟨target.scheme, target.host, path, rawPath, rawQuery⟩ }

/-- A proxy to one backend: its director, and the backend with the timeout of the transport. -/
structure ReverseProxy where
  director : Request → Request
  backend : URL
  timeoutSec : Int

/-- What is added to a request after its hop-by-hop headers are gone. -/
def addForwarding (env : Env) (original : Request) (upgrade : String) (r : Request) : Request :=
  let h := r.header
  let h :=
    if (original.header.tokens "Te").any fun token => equalFold token "trailers" then h.set "Te" "trailers"
    else h
  let h := if upgrade ≠ "" then (h.set "Connection" "Upgrade").set "Upgrade" upgrade else h
  let h :=
    match env.splitHostPort original.remoteAddr with
    | none => h
    | some clientIP =>
      let prior := h.values "X-Forwarded-For"
      h.set "X-Forwarded-For" (if prior = [] then clientIP else join prior ", " ++ ", " ++ clientIP)
  let h := if h.values "User-Agent" = [] then h.set "User-Agent" "" else h
  { r with header := h }

/-- The error handler of the gateway's proxies. -/
def proxyError (x : Exchange) : Exchange :=
  x.httpError "Dịch vụ backend hiện không khả dụng do lỗi kết nối" 502

/-- The request that goes to the transport, unless the protocol it asks to switch to is not printable. -/
def ReverseProxy.outgoing (p : ReverseProxy) (env : Env) (r : Request) : Option Request :=
  let outreq := p.director r
  let upgrade := upgradeType outreq.header
  if isPrint upgrade then
    some (addForwarding env r upgrade { outreq with header := removeHopByHopHeaders outreq.header })
  else none

/-- `breakerTransport.RoundTrip`: an answer from 500 on counts as a failure. -/
def roundTrip (w : World) (p : ReverseProxy) (outreq : Request) : Option Response :=
  match w.transport p.timeoutSec outreq with
  | some res => if res.statusCode ≥ 500 then none else some res
  | none => none

def ReverseProxy.serveHTTP (p : ReverseProxy) (env : Env) (w : World) : Handler Exchange := fun x =>
  match p.outgoing env x.request with
  | none => proxyError x
  | some outreq =>
    -- an open circuit breaker keeps the request from the transport
    if w.breakerOpen p.backend.host then proxyError x
    else
      let x := { x with wire := x.wire ++ [outreq] }
      match roundTrip w p outreq with
      | none => proxyError x
      | some res =>
        let header := removeHopByHopHeaders res.header
        let x := { x with w := { x.w with header := x.w.header.append header } }
        (x.writeHeader res.statusCode).write res.body

/-! ## reverse_proxy.go

The director that fills the pattern of the backend, and the choice of a backend in turn. -/

structure BackendTarget where
  host : String
  urlPattern : String

def splitPath (path : String) : List String :=
  let trimmed := String.ofList (trimBoth (· == '/') path.toList)
  if trimmed = "" then [] else split trimmed '/'

/-- The name in a segment such as `{id}`. -/
def placeholder (segment : String) : Option String :=
  if hasPrefix segment "\x7b" && hasSuffix segment "\x7d" then
    some (trimSuffix (trimPrefix segment "\x7b") "\x7d")
  else none

/-- The bindings of the placeholders of a pattern, and none when a literal segment differs. -/
def bindSegments : List String → List String → Option (List (String × String))
  | ep :: endpointSegments, rp :: requestSegments =>
    match placeholder ep with
    | some name => (bindSegments endpointSegments requestSegments).map fun params => (name, rp) :: params
    | none => if ep ≠ rp then none else bindSegments endpointSegments requestSegments
  | _, _ => some []

/-- A segment of the backend pattern with its placeholder filled in. A name that occurs twice stands for its
last value. -/
def fillSegment (params : List (String × String)) (segment : String) : String :=
  match placeholder segment with
  | some name => (params.reverse.lookup name).getD segment
  | none => segment

def rewritePath (requestPath endpointPattern backendPattern : String) : String :=
  if backendPattern = "" ∨ backendPattern = endpointPattern then requestPath
  else
    let requestSegments := splitPath requestPath
    let endpointSegments := splitPath endpointPattern
    if requestSegments.length ≠ endpointSegments.length then backendPattern
    else
      match bindSegments endpointSegments requestSegments with
      | none => backendPattern
      | some params => "/" ++ join ((splitPath backendPattern).map (fillSegment params)) "/"

/-- The director of a backend. -/
def director (env : Env) (targetURL : URL) (endpointPattern backendPattern : String) (r : Request) :
    Request :=
  let r := rewriteRequestURL env targetURL r
  let r := { r with host := targetURL.host }
  let r := { r with url := { r.url with path := rewritePath r.url.path endpointPattern backendPattern } }
  let r := { r with url := { r.url with rawPath := env.escapedPath r.url } }
  let reqID := r.header.get "X-Request-ID"
  let r := if reqID ≠ "" then { r with header := r.header.set "X-Request-ID" reqID } else r
  { r with header := r.header.set "X-Internal-Token" env.internalToken }

/-- The proxy to one target. There is none when its host is no URL. -/
def newProxy (env : Env) (endpointPattern : String) (timeoutSec : Int) (target : BackendTarget) :
    Except String ReverseProxy :=
  match env.parseURL target.host with
  | none => .error target.host
  | some targetURL =>
    let backendPattern := if target.urlPattern = "" then endpointPattern else target.urlPattern
    .ok {
      director := director env targetURL endpointPattern backendPattern
      backend := targetURL
      timeoutSec := if timeoutSec ≤ 0 then 15 else timeoutSec }

def newLoadBalancedProxy (env : Env) (targets : List BackendTarget) (endpointPattern : String)
    (timeoutSec : Int) : Except String (List ReverseProxy) :=
  if targets = [] then .error "không có backend nào được cấp"
  else targets.mapM (newProxy env endpointPattern timeoutSec)

/-- `RoundRobinProxy.ServeHTTP`. A single proxy serves directly, which comes to the same. -/
def roundRobin (env : Env) (w : World) (proxies : List ReverseProxy) : Handler Exchange := fun x =>
  match proxies[(w.current + 1) % 2 ^ 32 % proxies.length]? with
  | none => x.httpError "No backends available" 502
  | some p => p.serveHTTP env w x

example : rewritePath "/api/media/123" "/api/media/\x7bid\x7d" "/media/\x7bid\x7d" = "/media/123" := by
  decide +kernel

end AcaSocial.Gateway
