import AcaSocial.Identity.Sessions

/-!
# Where refresh tokens come from

An observer notes three kinds of moments, the newest first.

* **`Moment`** — a passed password check, the revocation by an operation that ends sessions, and the
  insertion of a token with the token it was exchanged for.
* **`chain`** — the token that a login issued and that a token goes back to by exchanges. A token from
  before the run is its own chain.
* **`exchanged`** — the tokens for which another one was issued.

`InHand` is what holds of a token that a task has in hand, and `Kept` what no statement takes back
from a row. Both hold in every interleaving.
-/

namespace AcaSocial.Identity

inductive Moment where
  | checked (request userId : Nat)
  | revoked (userId : Nat)
  | issued (token : Nat) (parent : Option Nat) (request : Nat)

/-- The token that a new one is exchanged for. -/
def Caller.parent : Caller → Option Nat
  | .login => none
  | .refreshToken stored => some stored.id

/-- The user whose sessions the statement ends: `logout`, `resetPassword`, `changePassword`,
`changeRole` and `deleteAccount` do, the answer to a reuse is not among them. -/
def endsSessions (s : Store) : Task → Option Nat
  | .revokeTokens _ .reuse => none
  | t => revokes s t

variable (env : Env)

/-- What is noted of the next statement of a request's task. -/
def moment (s : Store) (request : Nat) : Task → Option Moment
  | .loginCompare dto user =>
    if env.bcryptCompare dto.password user.passwordHash then some (.checked request user.id) else none
  | .generateSave caller _ _ refreshTokenRaw _ =>
    if ∃ t ∈ s.refreshTokens.rows, t.tokenHash = env.sha256 refreshTokenRaw then none
    else some (.issued s.refreshTokens.next caller.parent request)
  | t => (endsSessions s t).map .revoked

def noteMoment (x : Input) (s : Store) (request : Nat) (t : Task) (log : List Moment) : List Moment :=
  (moment env (s.wait x.elapsed) request t).toList ++ log

def chain : List Moment → Nat → Nat
  | [], token => token
  | .issued new parent _ :: log, token =>
    if token = new then
      match parent with
      | none => new
      | some stored => chain log stored
    else chain log token
  | _ :: log, token => chain log token

def exchanged (log : List Moment) : List Nat :=
  log.filterMap fun
    | .issued _ parent _ => parent
    | _ => none

variable {env}

/-- A moment in which no token is issued leaves the chains alone. -/
theorem chain_of_not_issuing {s : Store} {n : Nat} {t : Task} (ht : ¬ t.Issuing) (log : List Moment) :
    chain ((moment env s n t).toList ++ log) = chain log
      ∧ exchanged ((moment env s n t).toList ++ log) = exchanged log := by
  cases hm : moment env s n t with
  | none => exact ⟨rfl, rfl⟩
  | some m =>
    cases m with
    | checked request userId => exact ⟨rfl, rfl⟩
    | revoked userId => exact ⟨rfl, rfl⟩
    | issued token parent request =>
      -- only an insertion is noted so
      cases t with
      | generateSave => exact absurd trivial ht
      | loginCompare dto user =>
        simp only [moment] at hm
        split at hm <;> cases hm
      | _ =>
        simp only [moment, Option.map_eq_some_iff] at hm
        obtain ⟨_, -, hm⟩ := hm
        cases hm

/-! ## What is never taken back

A token is never deleted, keeps its hash, and once revoked stays so. -/

/-- The row and the token are one, but for its revocation. -/
def SameToken (row stored : RefreshToken) : Prop :=
  row.id = stored.id ∧ row.tokenHash = stored.tokenHash ∧ row.userId = stored.userId

/-- No two rows have one hash: the constraint of the column. -/
def UniqueHashes (s : Store) : Prop :=
  ∀ t ∈ s.refreshTokens, ∀ t' ∈ s.refreshTokens, t.tokenHash = t'.tokenHash → t = t'

/-- The token that a task has in hand is one of the table, of the user that it goes on with. It is
revoked when the task goes on to insert its successor. -/
def InHand (s : Store) : Task → Prop
  | .refreshSave stored user =>
    (∃ row ∈ s.refreshTokens, SameToken row stored) ∧ ∀ u, user = some u → u.id = stored.userId
  | .generateSave (.refreshToken stored) userId _ _ _ =>
    (∃ row ∈ s.refreshTokens, SameToken row stored ∧ row.revoked = true) ∧ userId = stored.userId
  | _ => True

theorem InHand.of_not_issuing {s : Store} {t : Task} (ht : ¬ t.Issuing) : InHand s t := by
  cases t with
  | refreshSave => exact absurd trivial ht
  | generateSave => exact absurd trivial ht
  | _ => trivial

/-- Every row stays, and stays revoked. -/
def Kept (s s' : Store) : Prop :=
  ∀ row ∈ s.refreshTokens, ∃ row' ∈ s'.refreshTokens,
    SameToken row' row ∧ (row.revoked = true → row'.revoked = true)

theorem Kept.of_eq {s s' : Store} (h : s'.refreshTokens = s.refreshTokens) : Kept s s' :=
  fun row hrow => ⟨row, h ▸ hrow, ⟨rfl, rfl, rfl⟩, id⟩

/-- What is in hand stays in the table. -/
theorem InHand.kept {s s' : Store} {t : Task} (h : InHand s t) (hkept : Kept s s') : InHand s' t := by
  cases t with
  | refreshSave stored user =>
    obtain ⟨⟨row, hrow, hsame⟩, huser⟩ := h
    obtain ⟨row', hrow', hsame', -⟩ := hkept row hrow
    exact ⟨⟨row', hrow', hsame'.1.trans hsame.1, hsame'.2.1.trans hsame.2.1,
      hsame'.2.2.trans hsame.2.2⟩, huser⟩
  | generateSave caller userId access raw expiresAt =>
    cases caller with
    | login => trivial
    | refreshToken stored =>
      obtain ⟨⟨row, hrow, hsame, hrevoked⟩, huser⟩ := h
      obtain ⟨row', hrow', hsame', hstays⟩ := hkept row hrow
      exact ⟨⟨row', hrow', ⟨hsame'.1.trans hsame.1, hsame'.2.1.trans hsame.2.1,
        hsame'.2.2.trans hsame.2.2⟩, hstays hrevoked⟩, huser⟩
  | _ => trivial

variable {s : Store} {t : Task} {e : Step}

/-- The row that a task saves as revoked is the only one with its key. -/
theorem InHand.eq_of_id {stored row : RefreshToken} {user : Option User}
    (h : InHand s (.refreshSave stored user)) (hrow : row ∈ s.refreshTokens)
    (hid : row.id = stored.id) : SameToken row stored := by
  obtain ⟨⟨row₀, hrow₀, hsame⟩, -⟩ := h
  rw [Table.eq_of_key_eq hrow hrow₀ (hid.trans hsame.1.symm)]
  exact hsame

/-- The rows after a bulk revocation. -/
theorem mem_revokeTokens {p : RefreshToken → Bool} {row : RefreshToken} :
    row ∈ (s.revokeTokens p).refreshTokens ↔
      ∃ r ∈ s.refreshTokens, (if p r then { r with revoked := true } else r) = row :=
  Serial.mem_modify _

/-- A row of the table after a bulk revocation is an old one, as revoked as before or more. -/
theorem Revoked.mem {s' : Store} {userId : Nat} (h : Revoked s s' userId) {row : RefreshToken}
    (hrow : row ∈ s'.refreshTokens) : ∃ r ∈ s.refreshTokens, SameToken row r
      ∧ (r.revoked = true → row.revoked = true) ∧ (row.userId = userId → row.revoked = true) := by
  obtain ⟨p, htokens, -, hall⟩ := h.tokens
  rw [htokens] at hrow
  obtain ⟨r, hr, hrow⟩ := mem_revokeTokens.mp hrow
  cases hp : p r with
  | true =>
    rw [hp, if_pos rfl] at hrow
    subst hrow
    exact ⟨r, hr, ⟨rfl, rfl, rfl⟩, fun _ => rfl, fun _ => rfl⟩
  | false =>
    rw [hp, if_neg Bool.false_ne_true] at hrow
    subst hrow
    refine ⟨r, hr, ⟨rfl, rfl, rfl⟩, id, fun huser => ?_⟩
    cases hrevoked : r.revoked with
    | true => rfl
    | false => exact absurd (hall r huser hrevoked) (by simp [hp])

/-- **A statement keeps every token.** -/
theorem session_kept (h : SessionStep env s t e) (ht : InHand s t) : Kept s e.store := by
  cases h with
  | aside _ _ he => exact .of_eq he.tokens
  | found => exact .of_eq rfl
  | checked _ htokens => exact .of_eq htokens
  | refused _ htokens => exact .of_eq htokens
  | gone htokens => exact .of_eq htokens
  | @saved stored user access raw expiresAt e htokens _ =>
    intro row hrow
    -- the row that is saved is the one in hand, revoked
    by_cases hid : row.id = stored.id
    · obtain ⟨hid, hhash, huser⟩ := ht.eq_of_id hrow hid
      refine ⟨{ stored with revoked := true }, ?_, ⟨hid.symm, hhash.symm, huser.symm⟩, fun _ => rfl⟩
      rw [htokens]
      exact Serial.mem_save.mpr (.inl ⟨rfl, row, hrow, hid⟩)
    · refine ⟨row, ?_, ⟨rfl, rfl, rfl⟩, id⟩
      rw [htokens]
      exact Serial.mem_save.mpr (.inr ⟨hrow, hid⟩)
  | inserted _ htokens _ =>
    intro row hrow
    refine ⟨row, ?_, ⟨rfl, rfl, rfl⟩, id⟩
    rw [htokens]
    exact Serial.mem_insert.mpr (.inl hrow)
  | revoked _ _ htokens _ =>
    intro row hrow
    obtain ⟨p, htokens, -, -⟩ := htokens.tokens
    refine ⟨if p row then { row with revoked := true } else row, ?_, ?_, ?_⟩
    · rw [htokens]
      exact mem_revokeTokens.mpr ⟨row, hrow, rfl⟩
    · split <;> exact ⟨rfl, rfl, rfl⟩
    · intro hrevoked
      split
      · rfl
      · exact hrevoked

/-- A statement keeps the hashes unique. -/
theorem session_unique (h : SessionStep env s t e) (ht : InHand s t) (hunique : UniqueHashes s) :
    UniqueHashes e.store := by
  cases h with
  | aside _ _ he =>
    rw [UniqueHashes, he.tokens]
    exact hunique
  | found => exact hunique
  | checked _ htokens =>
    rw [UniqueHashes, htokens]
    exact hunique
  | refused _ htokens =>
    rw [UniqueHashes, htokens]
    exact hunique
  | gone htokens =>
    rw [UniqueHashes, htokens]
    exact hunique
  | @saved stored user access raw expiresAt e htokens _ =>
    rw [UniqueHashes, htokens]
    -- the saved row has the hash that it had before
    have hback : ∀ row ∈ s.refreshTokens.save { stored with revoked := true },
        ∃ r ∈ s.refreshTokens, r.id = row.id ∧ r.tokenHash = row.tokenHash := by
      intro row hrow
      rcases Serial.mem_save.mp hrow with ⟨rfl, r, hr, hid⟩ | ⟨hrow, -⟩
      · exact ⟨r, hr, hid, (ht.eq_of_id hr hid).2.1⟩
      · exact ⟨row, hrow, rfl, rfl⟩
    intro row hrow row' hrow' hhash
    obtain ⟨r, hr, hid, hr'⟩ := hback row hrow
    obtain ⟨r', hr₁, hid', hr₁'⟩ := hback row' hrow'
    obtain rfl := hunique r hr r' hr₁ (hr'.trans (hhash.trans hr₁'.symm))
    exact Table.eq_of_key_eq hrow hrow' (hid.symm.trans hid')
  | inserted hhash htokens _ =>
    rw [UniqueHashes, htokens]
    intro row hrow row' hrow' he
    rcases Serial.mem_insert.mp hrow with hrow | rfl <;>
      rcases Serial.mem_insert.mp hrow' with hrow' | rfl
    · exact hunique row hrow row' hrow' he
    · exact absurd he (hhash row hrow)
    · exact absurd he.symm (hhash row' hrow')
    · rfl
  | revoked _ _ htokens _ =>
    intro row hrow row' hrow' hhash
    obtain ⟨r, hr, hsame, -⟩ := htokens.mem hrow
    obtain ⟨r', hr', hsame', -⟩ := htokens.mem hrow'
    obtain rfl := hunique r hr r' hr' (hsame.2.1.symm.trans (hhash.trans hsame'.2.1))
    exact Table.eq_of_key_eq hrow hrow' (hsame.1.trans hsame'.1.symm)

/-- What the task goes on with is in its hand. -/
theorem session_inHand (h : SessionStep env s t e) (ht : InHand s t) :
    ∀ t' ∈ e.next, InHand e.store t' := by
  cases h with
  | aside _ _ he => exact fun t' ht' => .of_not_issuing (he.next t' ht')
  | @found dto stored hmem _ _ =>
    intro t' ht'
    rw [List.mem_singleton.mp ht']
    refine ⟨⟨stored, hmem, rfl, rfl, rfl⟩, fun u hu => ?_⟩
    simpa using (findUser_eq_some hu).2.2
  | checked _ _ hnext =>
    intro t' ht'
    by_cases hissuing : t'.Issuing
    · obtain ⟨access, raw, expiresAt, rfl⟩ := hnext t' ht' hissuing
      trivial
    · exact .of_not_issuing hissuing
  | refused _ _ hnext => exact fun t' ht' => absurd ht' (hnext ▸ List.not_mem_nil)
  | inserted _ _ hnext => exact fun t' ht' => absurd ht' (hnext ▸ List.not_mem_nil)
  | gone _ hnext => exact fun t' ht' => absurd ht' (hnext ▸ List.not_mem_nil)
  -- the token that is spent goes on as the one before the new one
  | @saved stored user access raw expiresAt e htokens hnext =>
    intro t' ht'
    obtain ⟨⟨row, hrow, hid, -, -⟩, huser⟩ := ht
    rw [hnext] at ht'
    rw [List.mem_singleton.mp ht']
    refine ⟨⟨{ stored with revoked := true }, ?_, ⟨rfl, rfl, rfl⟩, rfl⟩, huser user rfl⟩
    rw [htokens]
    exact Serial.mem_save.mpr (.inl ⟨rfl, row, hrow, hid⟩)
  | revoked _ _ _ hnext => exact fun t' ht' => .of_not_issuing (hnext t' ht')

/-! ## Along a run

The hashes stay unique, and what tasks have in hand is in the table. -/

/-- Every interleaving keeps the hashes of the rows apart and the tokens in hand in the table. -/
abbrev SessionsHold : Pool Store Task × List Moment → Prop :=
  Pool.Holds (fun s _ => UniqueHashes s) fun s _ _ t => InHand s t

theorem inHand_enter (s : Store) (r : Request) : InHand s (enter r) := by
  cases r <;> trivial

/-- One statement of one request keeps both. -/
theorem sessions_hold (env : Env) {q : Pool Store Task × List Moment} (h : SessionsHold q)
    (act : Act Request Input) : SessionsHold (Pool.observe (service env) (noteMoment env) q act) := by
  refine h.observe_any act (fun s _ _ r _ => inHand_enter s r) ?_ ?_
  · intro x s _ _ t hunique ht
    have hstep := session_step env x (s.wait x.elapsed) t
    have ht : InHand (s.wait x.elapsed) t := ht.kept (.of_eq rfl)
    exact ⟨session_unique hstep ht hunique, session_inHand hstep ht⟩
  · intro x s _ _ t _ o _ ht ho
    have hwait : Kept s (s.wait x.elapsed) := .of_eq rfl
    have hkept : Kept (s.wait x.elapsed) (statement env x (s.wait x.elapsed) t).store :=
      session_kept (session_step env x _ t) (ht.kept hwait)
    exact (ho.kept hwait).kept hkept

end AcaSocial.Identity
