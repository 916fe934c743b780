import AcaSocial.Gateway.IdentityHeaders
import AcaSocial.Identity.TokenLiveness
import Mathlib.Data.List.TakeWhile

/-!
# Access tokens at the gateway

The identity service signs access tokens and keeps the blacklist. The gateway reads both, and knows no users.

* **`Signing`** — how the identity service writes the claims of a token; `Signing.claims` are those of `generateTokens`.
* **`Sees`**, **`Bears`** — the gateway shares the Redis of the identity service, and a request carries a token.
* **`Agrees`** — the gateway lets a token through unless its own session was ended, hands its user and its role on and
  sends them to the backend; the guard of the identity service asks for more.
* **`tokens_agree`** — that holds in every run of the identity service.

A change of a user is what the two know differently. `ledger_unchanged` leaves these changes out of the ledger, and what is
left holds in every run.
-/

namespace AcaSocial.Gateway

open AcaSocial.Identity (AccessToken Occasion Evidence Ledger Marks)

/-! ## The claims

The claims of a token of the identity service, as the gateway reads them. -/

/-- How the identity service writes ids and UUIDs, and the issuer and the audience that it signs with. -/
structure Signing where
  user : Nat → String
  uuid : Identity.Uuid → String
  issuer : String
  audience : String
  user_filled : ∀ id, trimSpace (user id) ≠ ""
  uuid_filled : ∀ jti, uuid jti ≠ ""

/-- The values of the enumeration `Role`. -/
def roleText : Identity.Role → String
  | .student => "student"
  | .teacher => "teacher"
  | .moderator => "moderator"
  | .admin => "admin"

theorem roleText_ne (role : Identity.Role) : roleText role ≠ "" := by
  cases role <;> decide

/-- The payload of `generateTokens`, with the registered claims that `sign` adds. -/
def Signing.claims (sg : Signing) (token : AccessToken) : MapClaims
  | "sub" => some (.str (sg.user token.sub))
  | "username" => some (match token.username with
    | some username => .str username
    | none => .other)
  | "email" => some (.str token.email)
  | "role" => some (.str (roleText token.role))
  | "jti" => some (.str (sg.uuid token.jti))
  | "iat" => some (.num (toString token.iat) token.iat)
  | "exp" => some (.num (toString token.exp) token.exp)
  | "iss" => some (.str sg.issuer)
  | "aud" => some (.str sg.audience)
  | _ => none

/-- No claim says from when on the token counts. -/
theorem claims_nbf (sg : Signing) (token : AccessToken) : sg.claims token "nbf" = none := rfl

theorem claims_exp (sg : Signing) (token : AccessToken) :
    sg.claims token "exp" = some (.num (toString token.exp) token.exp) := rfl

/-- The user of a token is its subject. -/
theorem claimUserId_claims (sg : Signing) (token : AccessToken) : claimUserId (sg.claims token) = sg.user token.sub := rfl

/-- The role of a token is the one that was signed. -/
theorem claimString_role (sg : Signing) (token : AccessToken) :
    claimString (sg.claims token) "role" = some (roleText token.role) := rfl

variable {sg : Signing} {env : Env} {w : World} {r : Request} {s : Identity.Store} {token : AccessToken}

/-- The gateway is configured for the tokens of the identity service. -/
structure Trusts (sg : Signing) (env : Env) : Prop where
  issuer : env.cfg.jwt.issuer = sg.issuer
  audience : env.cfg.jwt.audience = sg.audience

/-- The gateway looks at the clock and at the Redis of the identity service, which answers. -/
structure Sees (sg : Signing) (w : World) (s : Identity.Store) : Prop where
  now : w.now = s.now
  client : w.redisClient = true
  blacklist : ∀ jti, w.blacklist (sg.uuid jti)
    = if (s.redis.blacklist.get? s.now jti).isSome then .value "1" else .absent

/-- The request carries the token, signed with the secret of both. -/
def Bears (sg : Signing) (env : Env) (r : Request) (token : AccessToken) : Prop :=
  ∃ raw, bearer r = some raw ∧ env.decode raw = some ⟨"HS256", sg.claims token, true⟩

/-! ## One request

The gateway looks at the signature, the time and the blacklist. -/

/-- A token is on the blacklist in both services or in neither. -/
theorem isBlacklisted_iff (h : Sees sg w s) (jti : Identity.Uuid) :
    isBlacklisted w (sg.uuid jti) = (s.redis.blacklist.get? s.now jti).isSome := by
  have hclient : ¬ (w.redisClient = false ∨ sg.uuid jti = "") := by
    rw [h.client]
    exact fun hor => hor.elim (fun hf => by cases hf) (sg.uuid_filled jti)
  unfold isBlacklisted
  rw [if_neg hclient, h.blacklist jti]
  cases (s.redis.blacklist.get? s.now jti).isSome <;> rfl

/-- golang-jwt takes the token until it expires. -/
theorem parse_borne (htrusts : Trusts sg env) (hnow : w.now = s.now) {raw : String}
    (hdecode : env.decode raw = some ⟨"HS256", sg.claims token, true⟩) (hexp : s.now / 1000 < token.exp) :
    parse env w raw = some (sg.claims token) := by
  have hexpires : verifyExpiresAt w (sg.claims token) = true := by
    have hlt : s.now < 1000 * token.exp := Identity.lt_of_seconds hexp
    rw [verifyExpiresAt, claims_exp]
    refine decide_eq_true ?_
    rw [hnow]
    exact_mod_cast hlt
  have hbefore : verifyNotBefore w (sg.claims token) = true := by
    rw [verifyNotBefore, claims_nbf]
  have hissuer : verifyIssuer env (sg.claims token) = true := by
    refine Bool.or_eq_true_iff.mpr (.inr (decide_eq_true ?_))
    rw [htrusts.issuer]
    rfl
  have haudience : verifyAudience env (sg.claims token) = true := by
    refine Bool.or_eq_true_iff.mpr (.inr ?_)
    rw [htrusts.audience]
    exact List.contains_iff_mem.mpr List.mem_cons_self
  unfold parse
  rw [hdecode]
  exact if_pos ⟨rfl, rfl, hexpires, hbefore, hissuer, haudience⟩

/-- **One request.** The gateway lets the token through if its `jti` is not on the blacklist and the route takes its role. -/
theorem admits_borne (htrusts : Trusts sg env) (hsees : Sees sg w s) (hbears : Bears sg env r token)
    (hexp : s.now / 1000 < token.exp) (requiredRoles : List String) :
    admits env w requiredRoles r = if (s.redis.blacklist.get? s.now token.jti).isSome
        ∨ (requiredRoles ≠ [] ∧ roleText token.role ∉ requiredRoles) then none
      else some ⟨sg.user token.sub, roleText token.role⟩ := by
  obtain ⟨raw, hbearer, hdecode⟩ := hbears
  have hparse := parse_borne htrusts hsees.now hdecode hexp
  have haccepts : accepts env w raw
      = if (s.redis.blacklist.get? s.now token.jti).isSome then none else some (sg.claims token) := by
    unfold accepts
    rw [hparse]
    show (some (sg.claims token)).filter (fun _ => decide (sg.uuid token.jti ≠ "")
      && !isBlacklisted w (sg.uuid token.jti)) = _
    rw [isBlacklisted_iff hsees, decide_eq_true (sg.uuid_filled token.jti)]
    cases (s.redis.blacklist.get? s.now token.jti).isSome <;> rfl
  unfold admits
  rw [hbearer, Option.bind_some, haccepts]
  cases (s.redis.blacklist.get? s.now token.jti).isSome with
  | true => exact (if_pos (.inl rfl)).symm
  | false =>
    have hfilled := sg.user_filled token.sub
    have hrole := roleText_ne token.role
    rw [if_neg Bool.false_ne_true, Option.bind_some]
    simp only [claimUserId_claims, claimString_role, Option.getD_some, hfilled, hrole, false_or, Bool.false_eq_true]

/-! ## The blacklist over a run

The keys of the blacklist are those of the tokens whose sessions have ended. -/

/-- The evidence without the changes of users. -/
def unchanged (e : Evidence) : Evidence := { e with changedAt := fun _ => none }

/-- What happened to tokens, without the changes of users. -/
def tokenLog (log : List Occasion) : List Occasion := log.filter fun o => decide (o.user? = none)

/-- The log of tokens leaves out the changes of users. -/
theorem mem_tokenLog {log : List Occasion} {o : Occasion} (ho : o.user? = none) : o ∈ tokenLog log ↔ o ∈ log := by
  rw [tokenLog, List.mem_filter]
  exact and_iff_left (decide_eq_true ho)

/-- What happened in a request goes into the ledger, but for the change of a user. No condition on the time of a change is
left. -/
theorem ledger_unchanged {e e' : Evidence} {log before : List Occasion} (h : Marks e log e')
    (hledger : Ledger (unchanged e) (tokenLog before)) : Ledger (unchanged e') (tokenLog (log ++ before)) := by
  induction h with
  | nil => exact hledger
  | unsent ho => exact hledger.unsent ho
  | @cons log e' o h ho hlast ih =>
    cases o with
    | issued token => exact ih.issue ho
    | ended token => exact ih.finish ho
    | changed userId => exact ih

/-- The ledger of tokens holds along every run. -/
theorem unchanged_always (ienv : Identity.Env) {calls : List (Identity.Input × Identity.Request)}
    (h : s.evidence.Sound) : Always (Identity.request ienv)
      (fun q => Ledger (unchanged q.1.evidence) (tokenLog q.2)) (s, []) calls := by
  have hsound : (unchanged s.evidence).Sound := ⟨h.drawn, h.apart, h.clear, fun _ _ hc => by cases hc⟩
  refine always_of_meets (c := fun _ _ => True) (fun call _ q hq _ => ?_) (Ledger.start hsound) (.of_forall (fun _ _ => trivial) _ _)
  have hmarks := Identity.marks_request (Identity.lone_serve ienv call.1 q.1 call.2)
  exact ledger_unchanged hmarks (hq.wait call.1.elapsed)

/-- An entry of the blacklist is there exactly for a token whose session was ended. -/
theorem blacklisted_iff {log : List Occasion} (h : Ledger (unchanged s.evidence) (tokenLog log))
    (hissued : .issued token ∈ log) (hexp : s.now / 1000 < token.exp) :
    (s.redis.blacklist.get? s.now token.jti).isSome ↔ .ended token ∈ log := by
  have hissued' : .issued token ∈ tokenLog log := (mem_tokenLog rfl).mpr hissued
  rw [← mem_tokenLog (show (Occasion.ended token).user? = none from rfl)]
  constructor
  · intro hsome
    by_contra hopen
    have hnone : s.redis.blacklist token.jti = none := h.open_ token hissued' hopen
    rw [Keyspace.get?, hnone] at hsome
    cases hsome
  · -- the entry outlives the token
    intro hended
    obtain ⟨-, deadline, hentry, hle⟩ := h.kept token hended
    refine Option.isSome_iff_exists.mpr ⟨(), Keyspace.get?_eq_some.mpr ⟨_, hentry, fun d hd => ?_, rfl⟩⟩
    exact Option.some.inj hd ▸ Nat.lt_of_lt_of_le (Identity.lt_of_seconds hexp) hle

/-! ## The two services

The gateway accepts what the identity service has issued and not taken back, as far as it looks. -/

/-- The identity that the gateway takes from a token: none if the session of the token was ended or the route does not
take its role. -/
def Signing.identity (sg : Signing) (log : List Occasion) (token : AccessToken) (requiredRoles : List String) :
    Option Identity :=
  if .ended token ∈ log ∨ (requiredRoles ≠ [] ∧ roleText token.role ∉ requiredRoles) then none
  else some ⟨sg.user token.sub, roleText token.role⟩

/-- What is asked about a token: it was issued and has not expired, some time before the next request, and a request to the
gateway bears it. -/
structure Asked (sg : Signing) (env : Env) (q : Identity.Store × List Occasion) (token : AccessToken) (elapsed : Nat)
    (w : World) (r : Request) : Prop where
  issued : .issued token ∈ q.2
  unexpired : (q.1.now + elapsed) / 1000 < token.exp
  sees : Sees sg w (q.1.wait elapsed)
  bears : Bears sg env r token

/-- What the two services make of such a token. -/
structure Agrees (sg : Signing) (env : Env) (q : Identity.Store × List Occasion) : Prop where
  /-- The middleware hands the request on under the identity of the token, or answers by itself if there is none. -/
  handed : ∀ token elapsed w x requiredRoles, Asked sg env q token elapsed w x.request →
    AuthDecides env w requiredRoles x (sg.identity q.2 token requiredRoles)
  /-- What a route with authentication puts on the wire carries the user and the role of the token, save what the client's
  `Connection` names. -/
  sent : ∀ token elapsed w r app route o, Asked sg env q token elapsed w r → newApp env = .ok app →
    routeOf env app.routes r = some route → route.endpoint.authRequired = true → o ∈ (app.serve env w r).wire →
      (sg.identity q.2 token route.endpoint.requiredRoles).isSome
        ∧ o.header.values "X-User-ID" = (if r.drops "X-User-ID" then [] else [sg.user token.sub])
        ∧ o.header.values "X-User-Role" = (if r.drops "X-User-Role" then [] else [roleText token.role])
  /-- The guard of the identity service asks that the session was not ended, and beside that for a user that is live and was
  not changed in a later second. -/
  accepted : ∀ token elapsed w r, Asked sg env q token elapsed w r →
    ((Identity.JwtStrategy.accepted (q.1.wait elapsed) token).isSome ↔ (sg.identity q.2 token []).isSome
      ∧ ∃ user ∈ q.1.users, user.id = token.sub ∧ user.deletedAt = none ∧ ¬ Identity.JwtStrategy.Outdated user token)

/-- What the gateway lets through, by the log of the identity service. -/
theorem admits_eq_identity (htrusts : Trusts sg env) {q : Identity.Store × List Occasion}
    (h : Ledger (unchanged q.1.evidence) (tokenLog q.2)) {elapsed : Nat} (hasked : Asked sg env q token elapsed w r)
    (requiredRoles : List String) : admits env w requiredRoles r = sg.identity q.2 token requiredRoles := by
  rw [admits_borne htrusts hasked.sees hasked.bears hasked.unexpired requiredRoles, Signing.identity]
  have hlisted := blacklisted_iff (s := q.1.wait elapsed) (h.wait elapsed) hasked.issued hasked.unexpired
  exact if_congr (or_congr hlisted Iff.rfl) rfl rfl

/-- What is on the wire of a route with authentication. -/
theorem sent_borne {app : App} (happ : newApp env = .ok app) {route : Route} {o : Request}
    (hroute : routeOf env app.routes r = some route) (hrequired : route.endpoint.authRequired = true)
    (ho : o ∈ (app.serve env w r).wire) :
    ∃ identity, admits env w route.endpoint.requiredRoles r = some identity ∧ Carries env r (some identity) o := by
  obtain ⟨route', identity, hroute', hidentity, hcarries⟩ := serve_forwards happ ho
  obtain rfl := Option.some.inj (hroute.symm.trans hroute')
  rw [EndpointConfig.identity, if_pos hrequired] at hidentity
  obtain ⟨identity', hadmits, rfl⟩ := Option.map_eq_some_iff.mp hidentity
  exact ⟨identity', hadmits, hcarries⟩

/-- The ledger decides what the gateway admits. -/
theorem agrees_of_ledger (htrusts : Trusts sg env) {q : Identity.Store × List Occasion}
    (h : Ledger (unchanged q.1.evidence) (tokenLog q.2)) : Agrees sg env q := by
  refine ⟨fun token elapsed w x requiredRoles hasked => ?_,
    fun token elapsed w r app route o hasked happ hroute hrequired ho => ?_, fun token elapsed w r hasked => ?_⟩
  · rw [← admits_eq_identity htrusts h hasked requiredRoles]
    exact auth_decides requiredRoles x
  · obtain ⟨identity, hadmits, hcarries⟩ := sent_borne happ hroute hrequired ho
    rw [admits_eq_identity htrusts h hasked] at hadmits
    refine ⟨Option.isSome_iff_exists.mpr ⟨identity, hadmits⟩, ?_⟩
    rw [Signing.identity] at hadmits
    split at hadmits
    · cases hadmits
    · obtain rfl := Option.some.inj hadmits
      refine ⟨hcarries.userId, ?_⟩
      rw [hcarries.role]
      simp [Option.filter, roleText_ne token.role]
  · have hopen : (sg.identity q.2 token []).isSome ↔ .ended token ∉ q.2 := by
      rw [Signing.identity]
      by_cases hended : .ended token ∈ q.2
      · rw [if_pos (.inl hended)]
        exact iff_of_false (fun hs => by cases hs) (fun hn => hn hended)
      · rw [if_neg (fun hor => hor.elim hended fun hroles => hroles.1 rfl)]
        exact iff_of_true rfl hended
    have hlisted := blacklisted_iff (s := q.1.wait elapsed) (h.wait elapsed) hasked.issued hasked.unexpired
    have hverified : Identity.JwtStrategy.Verified (q.1.wait elapsed) token :=
      ⟨(h.known token ((mem_tokenLog rfl).mpr hasked.issued)).1, hasked.unexpired⟩
    rw [hopen, ← hlisted, Option.not_isSome_iff_eq_none]
    constructor
    · intro hsome
      obtain ⟨user, huser⟩ := Option.isSome_iff_exists.mp hsome
      obtain ⟨-, hnone, hfind, hnew⟩ := Identity.accepted_eq_some.mp huser
      obtain ⟨hmem, hlive, hid⟩ := Identity.findUser_eq_some hfind
      exact ⟨hnone, user, hmem, of_decide_eq_true hid, hlive, hnew⟩
    · rintro ⟨hnone, user, hmem, hid, hlive, hnew⟩
      -- ids are unique, so the user that the guard finds is this one
      have hfind : (q.1.wait elapsed).findUser (·.id = token.sub) = some user := by
        have hsome : ((q.1.wait elapsed).findUser (·.id = token.sub)).isSome := by
          refine List.find?_isSome.mpr ⟨user, hmem, ?_⟩
          simp [hid, hlive]
        obtain ⟨user', hfind⟩ := Option.isSome_iff_exists.mp hsome
        have hget := Identity.get?_of_findUser hfind
        have hget' : q.1.users.get? user.id = some user := Table.get?_eq_some.mpr ⟨hmem, rfl⟩
        have hid' : user'.id = token.sub := of_decide_eq_true (Identity.findUser_eq_some hfind).2.2
        rw [hid', ← hid] at hget
        rw [hfind, ← hget]
        exact hget'
      exact Option.isSome_iff_exists.mpr ⟨user, Identity.accepted_eq_some.mpr ⟨hverified, hnone, hfind, hnew⟩⟩

/-- **Every run.** Of the tokens that were issued and have not expired, the gateway refuses those whose own session was
ended and those whose role the route does not take, and no others. It hands the user and the role of the others on, and
sends them to the backend unless the client's `Connection` names their headers. The guard of the identity service refuses
the tokens with an ended session too, and in addition those of users that are gone or were changed in a later second. -/
theorem tokens_agree (ienv : Identity.Env) {calls : List (Identity.Input × Identity.Request)} (htrusts : Trusts sg env)
    (h : s.evidence.Sound) : Always (Identity.request ienv) (Agrees sg env) (s, []) calls :=
  (unchanged_always ienv h).imp fun _ hq => agrees_of_ledger htrusts hq

/-! ### A run

A login, and a request with its token. -/

theorem trimSpace_ne_empty {text : String} {c : Char} (hc : c ∈ text.toList) (hspace : isSpace c = false) :
    trimSpace text ≠ "" := by
  intro hempty
  have hnil : trimBoth isSpace text.toList = [] := String.ofList_injective hempty
  have hall := List.dropWhile_eq_nil_iff.mp (List.reverse_eq_nil_iff.mp hnil)
  have hdrop : c ∈ text.toList.dropWhile isSpace := by
    have hsplit := List.takeWhile_append_dropWhile (p := isSpace) (l := text.toList)
    rw [← hsplit] at hc
    refine (List.mem_append.mp hc).resolve_left fun htake => ?_
    rw [List.mem_takeWhile_imp htake] at hspace
    cases hspace
  rw [hall c (List.mem_reverse.mpr hdrop)] at hspace
  cases hspace

namespace Sample

/-- Ids with their decimal digits at the end. -/
def signing : Signing where
  user id := "user-" ++ toString id
  uuid jti := "token-" ++ toString jti
  issuer := "ptit-backend"
  audience := "ptit-gateway"
  user_filled id := trimSpace_ne_empty (c := 'u') (by simp) (by decide)
  uuid_filled jti := fun h => by simpa using congrArg String.toList h

/-- The token of the student's first login. -/
def studentToken : AccessToken := Identity.Sample.access Identity.Sample.student 0 1000

/-- The gateway, where the text `student` is that token. -/
def issued : Env :=
  { gateway with decode := fun raw => if raw = "student" then some ⟨"HS256", signing.claims studentToken, true⟩ else none }

/-- Two logins, and a change of the student's role by the administrator in a later second. -/
def promotion : List (Identity.Input × Identity.Request) :=
  [(Identity.Sample.after 10, .login ⟨Identity.Sample.student.email, "Password123"⟩),
    (Identity.Sample.after 10, .login ⟨Identity.Sample.administrator.email, "Password123"⟩),
    (Identity.Sample.after 2000, .guarded (Identity.Sample.access Identity.Sample.administrator 2 1000)
      (.changeRole 0 ⟨.teacher, "Teaches algorithms"⟩))]

end Sample

/-- After the change the gateway still hands the old token on, with the old role, and the identity service refuses it. -/
theorem tokens_agree_promotion :
    (∃ authInfo, ∀ next, authMiddlewareProvider Sample.issued { Sample.world with now := 1002020 } ["student"] next
      (.incoming (Sample.listDiscussions Sample.signedIn 0)) = next { Exchange.incoming (Sample.listDiscussions Sample.signedIn 0)
        with request := (Sample.listDiscussions Sample.signedIn 0).identified ⟨"user-0", "student"⟩, authInfo })
    ∧ (Identity.JwtStrategy.accepted (run (Identity.request Identity.Sample.env) (Identity.Sample.store, [])
        Sample.promotion).1 Sample.studentToken).isSome = false := by
  have hagrees : Agrees Sample.signing Sample.issued
      (run (Identity.request Identity.Sample.env) (Identity.Sample.store, []) Sample.promotion) :=
    (tokens_agree Identity.Sample.env ⟨rfl, rfl⟩ Identity.sound_store).last
  have hsees : Sees Sample.signing { Sample.world with now := 1002020 }
      ((run (Identity.request Identity.Sample.env) (Identity.Sample.store, []) Sample.promotion).1.wait 0) := by
    refine ⟨by decide, rfl, fun jti => rfl⟩
  have hhanded := hagrees.handed Sample.studentToken 0 _ (.incoming (Sample.listDiscussions Sample.signedIn 0)) ["student"]
    ⟨by decide, by decide, hsees, "student", by decide, rfl⟩
  have hidentity : Sample.signing.identity (run (Identity.request Identity.Sample.env) (Identity.Sample.store, [])
      Sample.promotion).2 Sample.studentToken ["student"] = some ⟨"user-0", "student"⟩ := by
    rw [Signing.identity, if_neg (by decide)]
    rfl
  rw [hidentity] at hhanded
  exact ⟨hhanded, by decide⟩

end AcaSocial.Gateway
