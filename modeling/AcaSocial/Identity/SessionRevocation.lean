import AcaSocial.Identity.TokenChains

/-!
# What a revocation leaves behind

A revocation is one `UPDATE` of the rows that are there. A request that has passed its check and has
not inserted its token yet is not seen by it.

* **`Overtaken`** — sessions of a user are ended while another request is about to issue a token for
  the user.
* **`checkedSince`** — the requests whose password check passed since the last revocation, and
  **`issuer`** — the login that a token goes back to.
* **`SessionsEnded`** — the unrevoked tokens of a user go back to logins since the last revocation.

`revocation_complete` is about all interleavings in which no revocation is overtaken, and
`not_sessionsEnded_overtaken` is one in which one is.
-/

namespace AcaSocial.Identity

/-- The user for whom the task is about to issue a refresh token. -/
def Task.issuesFor : Task → Option Nat
  | .refreshSave _ user => user.map User.id
  | .generateSave _ userId _ _ _ => some userId
  | _ => none

/-- The statement ends the sessions of a user for whom the other task is about to issue a token. -/
def Overtaken (x : Input) (s : Store) (t o : Task) : Prop :=
  (endsSessions (s.wait x.elapsed) t).isSome ∧ endsSessions (s.wait x.elapsed) t = o.issuesFor

instance (x : Input) (s : Store) (t o : Task) : Decidable (Overtaken x s t o) :=
  inferInstanceAs (Decidable (_ ∧ _))

/-- The requests whose password check for the user passed since the last revocation, if there was
one. -/
def checkedSince (userId : Nat) : List Moment → Option (List Nat)
  | [] => none
  | .revoked u :: log => if u = userId then some [] else checkedSince userId log
  | .checked request u :: log =>
    if u = userId then (checkedSince userId log).map (request :: ·) else checkedSince userId log
  | .issued _ _ _ :: log => checkedSince userId log

/-- The login request that started the chain of a token. -/
def issuer : List Moment → Nat → Option Nat
  | [], _ => none
  | .issued new parent request :: log, token =>
    if token = new then
      match parent with
      | none => some request
      | some stored => issuer log stored
    else issuer log token
  | _ :: log, token => issuer log token

/-- The password check of the request was after the last revocation. -/
def Checked (log : List Moment) (userId request : Nat) : Prop :=
  ∀ requests, checkedSince userId log = some requests → request ∈ requests

/-- The token goes back to a login after the last revocation. -/
def Fresh (log : List Moment) (userId token : Nat) : Prop :=
  ∀ requests, checkedSince userId log = some requests → ∃ n ∈ requests, issuer log token = some n

/-- Every unrevoked token of a user goes back to a login whose password check was after the last
revocation of the user's sessions. -/
def SessionsEnded (s : Store) (log : List Moment) : Prop :=
  ∀ t ∈ s.refreshTokens, t.revoked = false → Fresh log t.userId t.id

/-- What a request in flight issues will go back to a login after the last revocation. -/
def Entitled (log : List Moment) (n : Nat) : Task → Prop
  | .refreshSave stored (some user) => Fresh log user.id stored.id
  | .generateSave .login userId _ _ _ => Checked log userId n
  | .generateSave (.refreshToken stored) userId _ _ _ => Fresh log userId stored.id
  | _ => True

variable {env : Env} {s : Store} {t o : Task} {e : Step} {log : List Moment}
  {userId token m n : Nat}

theorem Entitled.of_not_issuing (ht : ¬ t.Issuing) : Entitled log n t := by
  cases t with
  | refreshSave => exact absurd trivial ht
  | generateSave => exact absurd trivial ht
  | _ => trivial

/-! ## What a moment changes

What a check, an insertion and an end of sessions add to the log. -/

/-- Only a statement that ends sessions is noted as a revocation. -/
theorem moment_cases (env : Env) (s : Store) (n : Nat) (t : Task) : moment env s n t = none
    ∨ (∃ u, moment env s n t = some (.checked n u))
    ∨ (∃ u, moment env s n t = some (.revoked u) ∧ endsSessions s t = some u)
    ∨ ∃ parent, moment env s n t = some (.issued s.refreshTokens.next parent n) := by
  cases t with
  | loginCompare dto user =>
    simp only [moment]
    split
    · exact .inr (.inl ⟨user.id, rfl⟩)
    · exact .inl rfl
  | generateSave caller userId access raw expiresAt =>
    simp only [moment]
    split
    · exact .inl rfl
    · exact .inr (.inr (.inr ⟨caller.parent, rfl⟩))
  | _ =>
    simp only [moment]
    generalize endsSessions s _ = ended
    cases ended with
    | none => exact .inl rfl
    | some u => exact .inr (.inr (.inl ⟨u, rfl, rfl⟩))

/-- A statement that does not end the sessions of a user forgets no password check of the user. -/
theorem checkedSince_moment (hother : endsSessions s t ≠ some userId) {requests : List Nat}
    (h : checkedSince userId ((moment env s n t).toList ++ log) = some requests) :
    ∃ before, checkedSince userId log = some before ∧ before ⊆ requests := by
  rcases moment_cases env s n t with hm | ⟨u, hm⟩ | ⟨u, hm, hends⟩ | ⟨parent, hm⟩ <;> rw [hm] at h
  · exact ⟨requests, h, List.Subset.refl _⟩
  · simp only [Option.toList_some, List.cons_append, List.nil_append, checkedSince] at h
    split at h
    · obtain ⟨before, hbefore, rfl⟩ := Option.map_eq_some_iff.mp h
      exact ⟨before, hbefore, List.subset_cons_self _ _⟩
    · exact ⟨requests, h, List.Subset.refl _⟩
  · have hne : u ≠ userId := fun he => hother (he ▸ hends)
    simp only [Option.toList_some, List.cons_append, List.nil_append, checkedSince, if_neg hne] at h
    exact ⟨requests, h, List.Subset.refl _⟩
  · exact ⟨requests, h, List.Subset.refl _⟩

/-- A statement inserts no token that is there, so it keeps where the token comes from. -/
theorem issuer_moment (htoken : token < s.refreshTokens.next) :
    issuer ((moment env s n t).toList ++ log) token = issuer log token := by
  rcases moment_cases env s n t with hm | ⟨u, hm⟩ | ⟨u, hm, -⟩ | ⟨parent, hm⟩ <;> rw [hm]
  · rfl
  · rfl
  · rfl
  · exact if_neg (Nat.ne_of_lt htoken)

/-- A password check stays after the last revocation until the next one. -/
theorem Checked.moment (h : Checked log userId m) (hother : endsSessions s t ≠ some userId) :
    Checked ((moment env s n t).toList ++ log) userId m := by
  intro requests hsince
  obtain ⟨before, hbefore, hsub⟩ := checkedSince_moment hother hsince
  exact hsub (h before hbefore)

/-- A token that is there keeps its login, and that stays after the last revocation until the next
one. -/
theorem Fresh.moment (h : Fresh log userId token) (hother : endsSessions s t ≠ some userId)
    (htoken : token < s.refreshTokens.next) :
    Fresh ((moment env s n t).toList ++ log) userId token := by
  intro requests hsince
  obtain ⟨before, hbefore, hsub⟩ := checkedSince_moment hother hsince
  obtain ⟨m, hm, hissuer⟩ := h before hbefore
  exact ⟨m, hsub hm, (issuer_moment htoken).trans hissuer⟩

/-- An operation that ends sessions revokes the tokens. -/
theorem revokes_of_endsSessions (h : endsSessions s t = some userId) :
    revokes s t = some userId := by
  unfold endsSessions at h
  split at h
  · cases h
  · exact h

/-! ## What a statement keeps

The tokens that are unrevoked afterwards go back to logins that are entitled to them. -/

/-- The unrevoked tokens after a statement: old ones, of users whose tokens it does not revoke, and
the one that it inserts. -/
theorem SessionStep.unrevoked (h : SessionStep env s t e) {row : RefreshToken}
    (hrow : row ∈ e.store.refreshTokens) (hlive : row.revoked = false) :
    (row ∈ s.refreshTokens ∧ revokes s t ≠ some row.userId)
      ∨ ∃ caller access raw expiresAt, t = .generateSave caller row.userId access raw expiresAt
        ∧ (∀ r ∈ s.refreshTokens, r.tokenHash ≠ env.sha256 raw)
        ∧ row.id = s.refreshTokens.next := by
  cases h with
  | aside _ hrevokes he => exact .inl ⟨he.tokens ▸ hrow, by rw [hrevokes]; simp⟩
  | found => exact .inl ⟨hrow, by simp [revokes]⟩
  | checked _ htokens => exact .inl ⟨htokens ▸ hrow, by simp [revokes]⟩
  | refused _ htokens => exact .inl ⟨htokens ▸ hrow, by simp [revokes]⟩
  | gone htokens => exact .inl ⟨htokens ▸ hrow, by simp [revokes]⟩
  | saved htokens _ =>
    rw [htokens] at hrow
    rcases Serial.mem_save.mp hrow with ⟨rfl, -⟩ | ⟨hrow, -⟩
    · cases hlive
    · exact .inl ⟨hrow, by simp [revokes]⟩
  | @inserted caller userId access raw expiresAt e hhash htokens _ =>
    rw [htokens] at hrow
    rcases Serial.mem_insert.mp hrow with hrow | rfl
    · exact .inl ⟨hrow, by simp [revokes]⟩
    · exact .inr ⟨caller, access, raw, expiresAt, rfl, hhash, rfl⟩
  -- a row that was not revoked is of another user
  | revoked _ hrevokes htokens _ =>
    obtain ⟨p, htokens, -, hall⟩ := htokens.tokens
    rw [htokens] at hrow
    obtain ⟨r, hr, he⟩ := mem_revokeTokens.mp hrow
    subst he
    cases hp : p r with
    | true =>
      rw [hp, if_pos rfl] at hlive
      cases hlive
    | false =>
      simp only [hp, Bool.false_eq_true, if_false] at hlive ⊢
      refine .inl ⟨hr, fun huser => ?_⟩
      have huser : r.userId = _ := Option.some.inj (huser.symm.trans hrevokes)
      rw [hall r huser hlive] at hp
      cases hp

/-- A statement keeps the sessions ended. -/
theorem sessionsEnded_statement (h : SessionStep env s t e) (hended : SessionsEnded s log)
    (ht : Entitled log n t) : SessionsEnded e.store ((moment env s n t).toList ++ log) := by
  intro row hrow hlive
  rcases h.unrevoked hrow hlive with ⟨hold, hrevokes⟩ | ⟨caller, access, raw, expiresAt, rfl, hhash, hid⟩
  · exact (hended row hold hlive).moment (fun hends => hrevokes (revokes_of_endsSessions hends))
      (s.refreshTokens.fresh row hold)
  · have hmoment : moment env s n (.generateSave caller row.userId access raw expiresAt)
        = some (.issued s.refreshTokens.next caller.parent n) :=
      if_neg (by rintro ⟨r, hr, he⟩; exact hhash r hr he)
    rw [hmoment, hid]
    intro requests hsince
    -- the new token goes back to the login of the request, or of the token it is exchanged for
    cases caller with
    | login => exact ⟨n, ht requests hsince, if_pos rfl⟩
    | refreshToken stored =>
      obtain ⟨m, hm, hissuer⟩ := ht requests hsince
      exact ⟨m, hm, (if_pos rfl).trans hissuer⟩

/-- What a statement goes on with is entitled to its token. -/
theorem entitled_next (h : SessionStep env s t e) (hended : SessionsEnded s log)
    (ht : Entitled log n t) :
    ∀ t' ∈ e.next, Entitled ((moment env s n t).toList ++ log) n t' := by
  cases h with
  | aside _ _ he => exact fun t' ht' => .of_not_issuing (he.next t' ht')
  | revoked _ _ _ hnext => exact fun t' ht' => .of_not_issuing (hnext t' ht')
  | inserted _ _ hnext => exact fun t' ht' => absurd ht' (hnext ▸ List.not_mem_nil)
  | refused _ _ hnext => exact fun t' ht' => absurd ht' (hnext ▸ List.not_mem_nil)
  | @found dto stored hmem hrevoked _ =>
    intro t' ht'
    rw [List.mem_singleton.mp ht']
    show Entitled log n _
    cases hfind : s.findUser (·.id = stored.userId) with
    | none => trivial
    | some user =>
      have huser : user.id = stored.userId := by simpa using (findUser_eq_some hfind).2.2
      show Fresh log user.id stored.id
      rw [huser]
      exact hended stored hmem hrevoked
  | gone _ hnext => exact fun t' ht' => absurd ht' (hnext ▸ List.not_mem_nil)
  | saved _ hnext =>
    intro t' ht'
    rw [hnext] at ht'
    rw [List.mem_singleton.mp ht']
    exact ht
  -- the password has just been found right
  | @checked dto user e hmatch _ hnext =>
    intro t' ht'
    by_cases hissuing : t'.Issuing
    · obtain ⟨access, raw, expiresAt, rfl⟩ := hnext t' ht' hissuing
      have hmoment : moment env s n (.loginCompare dto user) = some (.checked n user.id) :=
        if_pos hmatch
      rw [hmoment]
      intro requests hsince
      have hsince : (checkedSince user.id log).map (n :: ·) = some requests :=
        (if_pos rfl).symm.trans hsince
      obtain ⟨before, -, rfl⟩ := Option.map_eq_some_iff.mp hsince
      exact List.mem_cons_self
    · exact .of_not_issuing hissuing

/-- What another task is entitled to stays so, unless its user's sessions are ended. -/
theorem entitled_other (hhand : InHand s o) (ho : Entitled log m o)
    (hother : ∀ u, o.issuesFor = some u → endsSessions s t ≠ some u) :
    Entitled ((moment env s n t).toList ++ log) m o := by
  cases o with
  | refreshSave stored user =>
    cases user with
    | none => trivial
    | some user =>
      obtain ⟨⟨row, hrow, hid, -, -⟩, -⟩ := hhand
      exact Fresh.moment ho (hother user.id rfl) (hid ▸ s.refreshTokens.fresh row hrow)
  | generateSave caller userId access raw expiresAt =>
    cases caller with
    | login => exact Checked.moment ho (hother userId rfl)
    | refreshToken stored =>
      obtain ⟨⟨row, hrow, ⟨hid, -, -⟩, -⟩, -⟩ := hhand
      exact Fresh.moment ho (hother userId rfl) (hid ▸ s.refreshTokens.fresh row hrow)
  | _ => trivial

/-! ## Interleavings

The invariant along every interleaving without the condition's window. -/

theorem entitled_enter (log : List Moment) (n : Nat) (r : Request) : Entitled log n (enter r) := by
  cases r <;> trivial

/-- **Complete revocation.** In every interleaving of requests in which no operation ends the sessions
of a user for whom another request is about to issue a token, every unrevoked refresh token of a user
whose sessions were ended goes back to a login whose password check was after that. -/
theorem revocation_complete (env : Env) {s : Store} {acts : List (Act Request Input)}
    (hapart : Meets (Pool.observe (service env) (noteMoment env))
      (fun q act => q.1.Apart Overtaken act) (.idle s, []) acts) :
    Always (Pool.observe (service env) (noteMoment env)) (fun q => SessionsEnded q.1.store q.2)
      (.idle s, []) acts := by
  have hall := Pool.always_of_apart (I := SessionsEnded)
    (J := fun s log n t => InHand s t ∧ Entitled log n t)
    (fun s log n r _ => ⟨inHand_enter s r, entitled_enter log n r⟩) ?_ ?_ ?_ hapart
  · exact hall.imp fun q hq => hq.1
  · intro x s log n t hended ht
    have hstep := session_step env x (s.wait x.elapsed) t
    have hhand : InHand (s.wait x.elapsed) t := ht.1.kept (.of_eq rfl)
    have hended : SessionsEnded (s.wait x.elapsed) log := hended
    exact ⟨sessionsEnded_statement hstep hended ht.2, fun t' ht' =>
      ⟨session_inHand hstep hhand t' ht', entitled_next hstep hended ht.2 t' ht'⟩⟩
  · intro x s log n t m o _ ht ho hclash
    have hwait : Kept s (s.wait x.elapsed) := .of_eq rfl
    have hkept : Kept (s.wait x.elapsed) (statement env x (s.wait x.elapsed) t).store :=
      session_kept (session_step env x _ t) (ht.1.kept hwait)
    refine ⟨(ho.1.kept hwait).kept hkept, entitled_other (ho.1.kept hwait) ho.2 fun u hu hends => ?_⟩
    exact hclash ⟨by rw [hends]; rfl, hends.trans hu.symm⟩
  · -- no token has been revoked yet
    exact fun t _ _ requests hsince => (by cases hsince)

/-- A login, an exchange, a logout, and another login. -/
theorem revocation_complete_loggedOut :
    Always (Pool.observe (service Sample.env) (noteMoment Sample.env))
      (fun q => SessionsEnded q.1.store q.2) (.idle Sample.store, [])
      (Sample.login Sample.student ++ Sample.refresh 1
        ++ Sample.logout (Sample.access Sample.student 0 1000) ++ Sample.login Sample.student) :=
  revocation_complete Sample.env (by decide)

/-- A logout in the middle of an exchange: the token that is inserted after it is unrevoked. -/
theorem not_sessionsEnded_overtaken :
    ¬ Always (Pool.observe (service Sample.env) (noteMoment Sample.env))
      (fun q => SessionsEnded q.1.store q.2) (.idle Sample.store, [])
      (Sample.login Sample.student
        ++ Sample.logoutAmidRefresh (Sample.access Sample.student 0 1000) 1) := by
  intro h
  obtain ⟨n, hn, -⟩ := h.last ⟨1, "sha256:3", 605800060, false, 1000110, 0⟩ (by decide) rfl []
    (by decide)
  exact absurd hn List.not_mem_nil

end AcaSocial.Identity
