import AcaSocial.Base.Run
import Mathlib.Logic.Function.Basic

/-!
# The API client of the frontend

`lib/api/client.ts`: `apiFetch` with the refresh of the tokens.

* **`Phase`** — what a call of `apiFetch` waits for.
* **`Client`** — the variables of the module, and the phases of the calls.
* **`Event`** — what a call is answered, or goes on with. Between two awaits a call runs alone.
* **`Client.step`** — what the code does then.

A JSON body is the text of it. Other code may store tokens at any time. The storage does not fail.
-/

namespace AcaSocial.Frontend

/-- The options that decide what `apiFetch` does. -/
structure RequestOptions where
  auth : Bool := false
  isRetry : Bool := false
deriving DecidableEq

/-- How a call is rejected. -/
inductive Failure where
  | network
  /-- `response.json()` has thrown. -/
  | malformed
  | apiRequestError (status : Nat) (body : String)
deriving DecidableEq

/-- What a callback rejects its call with. -/
def Failure.loginRequired : Failure := .apiRequestError 401 "Vui lòng đăng nhập để tiếp tục."

/-- What a call is rejected with that has got no new token. -/
def Failure.sessionExpired : Failure :=
  .apiRequestError 401 "Phiên đăng nhập đã hết hạn. Vui lòng đăng nhập lại."

/-- What a call of `apiFetch` waits for. -/
inductive Phase where
  /-- It is not called yet. -/
  | idle
  | fetching (options : RequestOptions) (authorization : Option String)
  | readingBody (status : Nat) (statusText : String)
  /-- The request for new tokens is on its way. -/
  | refreshing (options : RequestOptions)
  | readingTokens (options : RequestOptions)
  /-- `refreshAccessToken` has returned, and the call goes on next. -/
  | refreshed (options : RequestOptions) (newToken : Option String)
  /-- Its callback is in the queue. -/
  | pending
  | settled (result : Except Failure (Option String))

/-- A text that is there and not empty. -/
def truthy (t : Option String) : Bool := decide (t ≠ none ∧ t ≠ some "")

/-- `response.ok`. -/
def ok (status : Nat) : Bool := decide (200 ≤ status ∧ status < 300)

/-- The module, with its calls. The fields from `refresher` on are not in the code. They note which call refreshes and
during whose refresh other code has stored tokens, what each refresh came to, which calls were queued behind whose
refresh, what their callbacks were handed, and with which token calls were made once more. -/
structure Client (ι : Type) where
  accessToken : Option String
  refreshToken : Option String
  isRefreshing : Bool
  pendingQueue : List (ι × RequestOptions)
  phase : ι → Phase
  refresher : Option ι
  replaced : List ι
  issued : List (ι × Option String)
  queued : List (ι × Option ι)
  resumed : List (ι × Option String)
  retried : List (ι × Option String)

/-- Before the first call. -/
def Client.init (ι : Type) (accessToken refreshToken : Option String) : Client ι where
  accessToken
  refreshToken
  isRefreshing := false
  pendingQueue := []
  phase := fun _ => .idle
  refresher := none
  replaced := []
  issued := []
  queued := []
  resumed := []
  retried := []

inductive Event (ι : Type) where
  /-- `apiFetch` is called. -/
  | called (i : ι) (options : RequestOptions)
  /-- The response to the request of a call: its status and its text, or a network error. -/
  | responded (i : ι) (response : Option (Nat × String))
  | bodyRead (i : ι) (body : Option String)
  /-- The status of the response to a refresh, or a network error. -/
  | refreshResponded (i : ι) (response : Option Nat)
  /-- The fields `accessToken` and `refreshToken` of its body, or an error. -/
  | tokensRead (i : ι) (data : Option (Option String × Option String))
  /-- The call goes on after `await refreshAccessToken()`. -/
  | continued (i : ι)
  /-- Other code stores or clears tokens. -/
  | stored (accessToken refreshToken : Option String)

namespace Client

variable {ι : Type} [DecidableEq ι] (s : Client ι)

def setPhase (i : ι) (p : Phase) : Client ι := { s with phase := Function.update s.phase i p }

def settle (i : ι) (result : Except Failure (Option String)) : Client ι := s.setPhase i (.settled result)

def setAccessToken (token : Option String) : Client ι :=
  { s with accessToken := if truthy token then token else none }

def setRefreshToken (token : Option String) : Client ι :=
  { s with refreshToken := if truthy token then token else none }

def clearTokens : Client ι := (s.setAccessToken none).setRefreshToken none

/-- The token of the `Authorization` header. -/
def authorization (options : RequestOptions) : Option String :=
  if options.auth || truthy s.accessToken then s.accessToken else none

/-- `apiFetch` up to its request. -/
def apiFetch (i : ι) (options : RequestOptions) : Client ι :=
  s.setPhase i (.fetching options (s.authorization options))

/-- The call is made once more, as a retry, with the token that is stored now. -/
def retry (i : ι) (options : RequestOptions) : Client ι :=
  { s.apiFetch i { options with isRetry := true } with
    retried := s.retried ++ [(i, s.authorization { options with isRetry := true })] }

/-- `refreshAccessToken` returns, with a new access token or without one. -/
def returnToken (i : ι) (options : RequestOptions) (newToken : Option String) : Client ι :=
  { s.setPhase i (.refreshed options newToken) with issued := s.issued ++ [(i, newToken)] }

/-- `refreshAccessToken` up to its request, which it does not make without a refresh token. -/
def refreshAccessToken (i : ι) (options : RequestOptions) : Client ι :=
  if truthy s.refreshToken then s.setPhase i (.refreshing options) else s.returnToken i options none

/-- The call waits for the refresh of another one. -/
def enqueue (i : ι) (options : RequestOptions) : Client ι :=
  { s.setPhase i .pending with
    pendingQueue := s.pendingQueue ++ [(i, options)]
    queued := s.queued ++ [(i, s.refresher)] }

/-- What is queued of a call. -/
def callback (newToken : Option String) (s : Client ι) (entry : ι × RequestOptions) : Client ι :=
  let s := { s with resumed := s.resumed ++ [(entry.1, newToken)] }
  if truthy newToken then s.retry entry.1 entry.2
  else s.settle entry.1 (.error .loginRequired)

/-- The queue is emptied, and its callbacks are called. -/
def drain (newToken : Option String) : Client ι :=
  s.pendingQueue.foldl (callback newToken) { s with isRefreshing := false, pendingQueue := [] }

/-- The response to the request of a call. -/
def respond (i : ι) (options : RequestOptions) : Option (Nat × String) → Client ι
  | none => s.settle i (.error .network)
  | some (status, statusText) =>
    if status = 401 ∧ !options.isRetry then
      if s.isRefreshing then s.enqueue i options
      else { s with isRefreshing := true, refresher := some i }.refreshAccessToken i options
    else if status = 204 then s.settle i (.ok none)
    else s.setPhase i (.readingBody status statusText)

/-- The body of a response that is not about a refresh. -/
def readBody (i : ι) (status : Nat) (statusText : String) (body : Option String) : Client ι :=
  if ok status then
    match body with
    | none => s.settle i (.error .malformed)
    | some body => s.settle i (.ok (some body))
  else s.settle i (.error (.apiRequestError status (body.getD statusText)))

/-- The response to a refresh. A network error is thrown out of `apiFetch`. -/
def respondRefresh (i : ι) (options : RequestOptions) : Option Nat → Client ι
  | none => s.settle i (.error .network)
  | some status =>
    if ok status then s.setPhase i (.readingTokens options)
    else s.clearTokens.returnToken i options none

/-- The body of a refresh. An error is thrown out of `apiFetch`. -/
def readTokens (i : ι) (options : RequestOptions) : Option (Option String × Option String) → Client ι
  | none => s.settle i (.error .malformed)
  | some (accessToken, refreshToken) =>
    ((s.setAccessToken accessToken).setRefreshToken refreshToken).returnToken i options accessToken

/-- The rest of a call that has refreshed the tokens. -/
def resume (i : ι) (options : RequestOptions) (newToken : Option String) : Client ι :=
  let s := s.drain newToken
  let s := if truthy newToken then s.retry i options else s.settle i (.error .sessionExpired)
  { s with refresher := none }

/-- Other code stores tokens, or clears them. -/
def store (accessToken refreshToken : Option String) : Client ι :=
  { (s.setAccessToken accessToken).setRefreshToken refreshToken with
    replaced := s.replaced ++ s.refresher.toList }

/-- What an event makes of the module. An event that a call does not wait for changes nothing. -/
def step (s : Client ι) : Event ι → Client ι
  | .called i options =>
    match s.phase i with
    | .idle => s.apiFetch i options
    | _ => s
  | .responded i response =>
    match s.phase i with
    | .fetching options _ => s.respond i options response
    | _ => s
  | .bodyRead i body =>
    match s.phase i with
    | .readingBody status statusText => s.readBody i status statusText body
    | _ => s
  | .refreshResponded i response =>
    match s.phase i with
    | .refreshing options => s.respondRefresh i options response
    | _ => s
  | .tokensRead i data =>
    match s.phase i with
    | .readingTokens options => s.readTokens i options data
    | _ => s
  | .continued i =>
    match s.phase i with
    | .refreshed options newToken => s.resume i options newToken
    | _ => s
  | .stored accessToken refreshToken => s.store accessToken refreshToken

end Client

end AcaSocial.Frontend
