import AcaSocial.Identity.TokenChains

/-!
# Refresh tokens are exchanged once

`refreshToken` looks a token up in one statement and saves it as revoked in another. Two requests that
present one token may both find it before either saves it.

* **`SamePresented`** — a request finds a token that another one has found and not yet saved.
* **`Rotation`** — the invariant. The tokens in the hands of the tasks and the exchanged ones are all
  different, and no chain has two tokens that are unrevoked or in a hand.
* **`SingleUse`** — what it gives: each token is exchanged once, each chain has one unrevoked token, and
  presenting an exchanged token revokes the sessions of its user.

`rotation_single_use` is about all interleavings in which no request meets another one so, and
`exchanged_twice` is one in which two do.
-/

namespace AcaSocial.Identity

/-- The token that the task is exchanging. -/
def Task.hand : Task → Option Nat
  | .refreshSave stored _ => some stored.id
  | .generateSave (.refreshToken stored) _ _ _ _ => some stored.id
  | _ => none

theorem Task.hand_of_not_issuing {t : Task} (ht : ¬ t.Issuing) : t.hand = none := by
  cases t with
  | refreshSave => exact absurd trivial ht
  | generateSave => exact absurd trivial ht
  | _ => rfl

/-- The request finds a token that the other one has found and has not saved yet. -/
def SamePresented (env : Env) (x : Input) (s : Store) : Task → Task → Prop
  | .refreshFind dto, .refreshSave stored _ =>
    (exchangeable env (s.wait x.elapsed) dto).map RefreshToken.id = some stored.id
  | _, _ => False

instance (env : Env) (x : Input) (s : Store) : ∀ t o, Decidable (SamePresented env x s t o)
  | .refreshFind dto, o =>
    match o with
    | .refreshSave stored _ => inferInstanceAs (Decidable (_ = _))
    | _ => by unfold SamePresented; split <;> infer_instance
  | t, o => by unfold SamePresented; split <;> infer_instance

def Unrevoked (s : Store) (id : Nat) : Prop := ∃ t ∈ s.refreshTokens, t.id = id ∧ t.revoked = false

/-- The token can be exchanged, or is being exchanged. -/
def Live (s : Store) (hand : List Nat) (id : Nat) : Prop := Unrevoked s id ∨ id ∈ hand

structure Rotation (s : Store) (hand : List Nat) (log : List Moment) : Prop where
  once : (hand ++ exchanged log).Nodup
  spent : ∀ id ∈ exchanged log, id < s.refreshTokens.next ∧ ¬ Unrevoked s id
  held : ∀ id ∈ hand, id < s.refreshTokens.next
  chains : ∀ a b, Live s hand a → Live s hand b → chain log a = chain log b → a = b
  chain_lt : ∀ id < s.refreshTokens.next, chain log id < s.refreshTokens.next

/-- A token that is there has an id below the next one. -/
theorem Unrevoked.lt {s : Store} {id : Nat} (h : Unrevoked s id) : id < s.refreshTokens.next := by
  obtain ⟨t, ht, rfl, -⟩ := h
  exact s.refreshTokens.fresh t ht

/-- A token whose row is revoked is not unrevoked. -/
theorem not_unrevoked {s : Store} {t : RefreshToken} (ht : t ∈ s.refreshTokens)
    (hrevoked : t.revoked = true) : ¬ Unrevoked s t.id := by
  rintro ⟨t', ht', hid, hfalse⟩
  rw [Table.eq_of_key_eq ht' ht hid, hrevoked] at hfalse
  cases hfalse

namespace Rotation

variable {s s' : Store} {hand hand' : List Nat} {log log' : List Moment} {id stored n : Nat}

theorem init (s : Store) : Rotation s [] [] where
  once := List.nodup_nil
  spent := fun _ h => absurd h List.not_mem_nil
  held := fun _ h => absurd h List.not_mem_nil
  chains := fun _ _ _ _ h => h
  chain_lt := fun _ h => h

/-- The order of the tokens in hand does not matter. -/
theorem perm (h : Rotation s hand log) (hperm : hand.Perm hand') : Rotation s hand' log where
  once := (hperm.append_right _).nodup_iff.mp h.once
  spent := h.spent
  held := fun id hid => h.held id (hperm.mem_iff.mpr hid)
  chains := fun a b ha hb =>
    h.chains a b (ha.imp_right hperm.mem_iff.mpr) (hb.imp_right hperm.mem_iff.mpr)
  chain_lt := h.chain_lt

/-- A task that ends drops what it has in hand. -/
theorem drop {l : List Nat} (h : Rotation s (l ++ hand) log) : Rotation s hand log where
  once := by
    have hall := h.once
    rw [List.append_assoc] at hall
    exact hall.of_append_right
  spent := h.spent
  held := fun id hid => h.held id (List.mem_append_right _ hid)
  chains := fun a b ha hb =>
    h.chains a b (ha.imp_right (List.mem_append_right _)) (hb.imp_right (List.mem_append_right _))
  chain_lt := h.chain_lt

/-- Revocations take tokens away from the live ones. -/
theorem store (h : Rotation s hand log) (hnext : s'.refreshTokens.next = s.refreshTokens.next)
    (hsub : ∀ id, Unrevoked s' id → Unrevoked s id) : Rotation s' hand log where
  once := h.once
  spent := fun id hid => ⟨hnext ▸ (h.spent id hid).1, fun hlive => (h.spent id hid).2 (hsub id hlive)⟩
  held := fun id hid => hnext ▸ h.held id hid
  chains := fun a b ha hb => h.chains a b (ha.imp_left (hsub a)) (hb.imp_left (hsub b))
  chain_lt := hnext ▸ h.chain_lt

/-- The invariant depends on the chains and the exchanged tokens of the log. -/
theorem log_congr (h : Rotation s hand log) (hchain : chain log' = chain log)
    (hexchanged : exchanged log' = exchanged log) : Rotation s hand log' where
  once := hexchanged ▸ h.once
  spent := hexchanged ▸ h.spent
  held := h.held
  chains := hchain ▸ h.chains
  chain_lt := hchain ▸ h.chain_lt

/-- A request takes an unrevoked token in hand that no other one has. -/
theorem find (h : Rotation s hand log) (hlive : Unrevoked s id) (hid : id ∉ hand) :
    Rotation s (id :: hand) log where
  once := by
    rw [List.cons_append, List.nodup_cons, List.mem_append]
    exact ⟨fun hmem => hmem.elim hid fun hmem => (h.spent id hmem).2 hlive, h.once⟩
  spent := h.spent
  held := fun a ha => (List.mem_cons.mp ha).elim (fun he => he ▸ hlive.lt) (h.held a)
  chains := by
    have hback : ∀ a, Live s (id :: hand) a → Live s hand a := by
      rintro a (ha | ha)
      · exact .inl ha
      · rcases List.mem_cons.mp ha with rfl | ha
        · exact .inl hlive
        · exact .inr ha
    exact fun a b ha hb => h.chains a b (hback a ha) (hback b hb)
  chain_lt := h.chain_lt

/-- What an insertion leaves unrevoked. -/
def Inserted (s s' : Store) : Prop :=
  s'.refreshTokens.next = s.refreshTokens.next + 1
    ∧ ∀ id, Unrevoked s' id → Unrevoked s id ∨ id = s.refreshTokens.next

/-- A login starts a chain. -/
theorem login (h : Rotation s hand log) (hs : Inserted s s') :
    Rotation s' hand (.issued s.refreshTokens.next none n :: log) where
  once := h.once
  spent := by
    intro id hid
    obtain ⟨hlt, hdead⟩ := h.spent id hid
    refine ⟨by rw [hs.1]; omega, fun hlive => ?_⟩
    rcases hs.2 id hlive with hlive | rfl
    · exact hdead hlive
    · omega
  held := fun id hid => hs.1 ▸ Nat.lt_succ_of_lt (h.held id hid)
  chains := by
    -- the chain of the new token is new
    have hold : ∀ a, Live s' hand a → a = s.refreshTokens.next ∨ a ≠ s.refreshTokens.next
        ∧ Live s hand a ∧ a < s.refreshTokens.next := by
      rintro a (ha | ha)
      · rcases hs.2 a ha with ha | rfl
        · exact .inr ⟨Nat.ne_of_lt ha.lt, .inl ha, ha.lt⟩
        · exact .inl rfl
      · exact .inr ⟨Nat.ne_of_lt (h.held a ha), .inr ha, h.held a ha⟩
    intro a b ha hb hab
    rcases hold a ha with rfl | ⟨hane, ha, halt⟩ <;> rcases hold b hb with rfl | ⟨hbne, hb, hblt⟩
    · rfl
    · rw [chain, chain, if_pos rfl, if_neg hbne] at hab
      exact absurd hab.symm (Nat.ne_of_lt (h.chain_lt b hblt))
    · rw [chain, chain, if_neg hane, if_pos rfl] at hab
      exact absurd hab (Nat.ne_of_lt (h.chain_lt a halt))
    · rw [chain, chain, if_neg hane, if_neg hbne] at hab
      exact h.chains a b ha hb hab
  chain_lt := by
    intro id hid
    rw [hs.1] at hid ⊢
    rw [chain]
    split
    · omega
    · have := h.chain_lt id (by omega)
      omega

/-- An exchange goes on with the chain of the token in hand, which is live no more. -/
theorem exchange (h : Rotation s (stored :: hand) log) (hs : Inserted s s')
    (hrevoked : ¬ Unrevoked s stored) :
    Rotation s' hand (.issued s.refreshTokens.next (some stored) n :: log) where
  once := List.nodup_middle.mpr h.once
  spent := by
    intro id hid
    have hid : id < s.refreshTokens.next ∧ ¬ Unrevoked s id := by
      rcases List.mem_cons.mp hid with rfl | hid
      · exact ⟨h.held id List.mem_cons_self, hrevoked⟩
      · exact h.spent id hid
    refine ⟨by rw [hs.1]; omega, fun hlive => ?_⟩
    rcases hs.2 id hlive with hlive | rfl
    · exact hid.2 hlive
    · omega
  held := fun id hid => hs.1 ▸ Nat.lt_succ_of_lt (h.held id (List.mem_cons_of_mem _ hid))
  chains := by
    have hnot : stored ∉ hand := fun hmem =>
      (List.nodup_cons.mp h.once).1 (List.mem_append_left _ hmem)
    -- what is live is the new token, or was live and is not the one that was exchanged
    have hold : ∀ a, Live s' hand a → a = s.refreshTokens.next ∨ a ≠ s.refreshTokens.next
        ∧ Live s (stored :: hand) a ∧ a ≠ stored := by
      rintro a (ha | ha)
      · rcases hs.2 a ha with ha | rfl
        · exact .inr ⟨Nat.ne_of_lt ha.lt, .inl ha, fun he => hrevoked (he ▸ ha)⟩
        · exact .inl rfl
      · have hlt := h.held a (List.mem_cons_of_mem _ ha)
        exact .inr ⟨Nat.ne_of_lt hlt, .inr (List.mem_cons_of_mem _ ha), fun he => hnot (he ▸ ha)⟩
    have hlive : Live s (stored :: hand) stored := .inr List.mem_cons_self
    intro a b ha hb hab
    -- the new token has the chain of the old one
    rcases hold a ha with rfl | ⟨hane, ha, hanot⟩ <;> rcases hold b hb with rfl | ⟨hbne, hb, hbnot⟩
    · rfl
    · rw [chain, chain, if_pos rfl, if_neg hbne] at hab
      exact absurd (h.chains stored b hlive hb hab).symm hbnot
    · rw [chain, chain, if_neg hane, if_pos rfl] at hab
      exact absurd (h.chains a stored ha hlive hab) hanot
    · rw [chain, chain, if_neg hane, if_neg hbne] at hab
      exact h.chains a b ha hb hab
  chain_lt := by
    intro id hid
    rw [hs.1] at hid ⊢
    rw [chain]
    split
    · exact Nat.lt_succ_of_lt (h.chain_lt stored (h.held stored List.mem_cons_self))
    · have := h.chain_lt id (by omega)
      omega

/-! ## One statement

What a statement does to the tokens in hand: it finds one, exchanges one, or drops one. -/

/-- An insertion leaves one more token unrevoked. -/
theorem inserted {env : Env} {userId : Nat} {raw : Uuid} {expiresAt : Int}
    (h : s'.refreshTokens = s.refreshTokens.insert
      (AuthService.newRefreshToken env s userId raw expiresAt) fun _ => rfl) : Inserted s s' := by
  refine ⟨by rw [h]; rfl, ?_⟩
  rintro id ⟨t, ht, rfl, hlive⟩
  rw [h] at ht
  rcases Serial.mem_insert.mp ht with ht | rfl
  · exact .inl ⟨t, ht, rfl, hlive⟩
  · exact .inr rfl

theorem filterMap_hand_of_not_issuing {ts : List Task} (h : ∀ t ∈ ts, ¬ t.Issuing) :
    ts.filterMap Task.hand = [] :=
  List.filterMap_eq_nil_iff.mpr fun t ht => Task.hand_of_not_issuing (h t ht)

/-- What a statement makes of the tokens in hand: those of the task that runs it come first. -/
theorem statement {env : Env} {t : Task} {e : Step} (hstep : SessionStep env s t e)
    (hhand : InHand s t) (h : Rotation s (t.hand.toList ++ hand) log)
    (hfresh : ∀ dto token, t = .refreshFind dto → exchangeable env s dto = some token →
      token.id ∉ hand) :
    Rotation e.store (e.next.filterMap Task.hand ++ hand) ((moment env s n t).toList ++ log) := by
  -- a statement that issues nothing writes no chain
  have hlog : ∀ {t : Task}, ¬ t.Issuing → Rotation e.store (e.next.filterMap Task.hand ++ hand) log →
      Rotation e.store (e.next.filterMap Task.hand ++ hand) ((moment env s n t).toList ++ log) := by
    intro t ht h
    exact h.log_congr (chain_of_not_issuing ht log).1 (chain_of_not_issuing ht log).2
  cases hstep with
  | aside ht _ he =>
    refine hlog ht ?_
    rw [filterMap_hand_of_not_issuing he.next]
    rw [Task.hand_of_not_issuing ht] at h
    exact h.store (by rw [he.tokens]) fun id hid => by rwa [Unrevoked, he.tokens] at hid
  | @found dto stored hmem hrevoked hfind =>
    exact hlog not_false (h.find ⟨stored, hmem, rfl, hrevoked⟩ (hfresh dto stored rfl hfind))
  | @checked dto user e _ htokens hnext =>
    refine hlog not_false ?_
    have hnone : e.next.filterMap Task.hand = [] := by
      refine List.filterMap_eq_nil_iff.mpr fun t ht => ?_
      by_cases hissuing : t.Issuing
      · obtain ⟨access, raw, expiresAt, rfl⟩ := hnext t ht hissuing
        rfl
      · exact Task.hand_of_not_issuing hissuing
    rw [hnone]
    exact h.store (by rw [htokens]) fun id hid => by rwa [Unrevoked, htokens] at hid
  | revoked ht _ htokens hnext =>
    refine hlog ht ?_
    rw [filterMap_hand_of_not_issuing hnext]
    rw [Task.hand_of_not_issuing ht] at h
    refine h.store ?_ ?_
    · obtain ⟨p, htokens, -⟩ := htokens.tokens
      rw [htokens]
      rfl
    · rintro id ⟨row, hrow, rfl, hfalse⟩
      obtain ⟨r, hr, hsame, hstays, -⟩ := htokens.mem hrow
      refine ⟨r, hr, hsame.1.symm, ?_⟩
      cases hrevoked : r.revoked with
      | false => rfl
      | true => rw [hstays hrevoked] at hfalse; cases hfalse
  | gone htokens hnext =>
    show Rotation _ _ log
    rw [hnext]
    exact h.drop.store (by rw [htokens]) fun id hid => by rwa [Unrevoked, htokens] at hid
  | @saved stored user access raw expiresAt e htokens hnext =>
    have hsaved : Rotation e.store (stored.id :: hand) log := by
      refine h.store (by rw [htokens]; rfl) ?_
      rintro id ⟨row, hrow, rfl, hlive⟩
      rw [htokens] at hrow
      rcases Serial.mem_save.mp hrow with ⟨rfl, -⟩ | ⟨hrow, -⟩
      · cases hlive
      · exact ⟨row, hrow, rfl, hlive⟩
    show Rotation e.store _ log
    rw [hnext]
    exact hsaved
  | @inserted caller userId access raw expiresAt e hhash htokens hnext =>
    have hs : Inserted s e.store := inserted htokens
    have hmoment : moment env s n (.generateSave caller userId access raw expiresAt)
        = some (.issued s.refreshTokens.next caller.parent n) :=
      if_neg (by rintro ⟨t, ht, he⟩; exact hhash t ht he)
    rw [hnext, hmoment]
    cases caller with
    | login => exact h.login hs
    -- the token that is exchanged has been revoked before
    | refreshToken stored =>
      obtain ⟨⟨row, hrow, hsame, hrevoked⟩, -⟩ := hhand
      exact h.exchange hs (hsame.1 ▸ not_unrevoked hrow hrevoked)
  | @refused caller userId access raw expiresAt e hhash htokens hnext =>
    have hmoment : moment env s n (.generateSave caller userId access raw expiresAt) = none :=
      if_pos hhash
    rw [hnext, hmoment]
    exact h.drop.store (by rw [htokens]) fun id hid => by rwa [Unrevoked, htokens] at hid

end Rotation

/-! ## Interleavings

The invariant along every interleaving without the condition's window. -/

/-- The tokens in the hands of the tasks. -/
def Pool.hand (p : Pool Store Task) : List Nat := p.tasks.filterMap fun a => a.2.hand

/-- **The step.** -/
theorem rotation_observe (env : Env) {q : Pool Store Task × List Moment} {act : Act Request Input}
    (hq : SessionsHold q) (h : Rotation q.1.store (Pool.hand q.1) q.2)
    (hapart : q.1.Apart (SamePresented env) act) :
    Rotation (Pool.observe (service env) (noteMoment env) q act).1.store
      (Pool.hand (Pool.observe (service env) (noteMoment env) q act).1)
      (Pool.observe (service env) (noteMoment env) q act).2 := by
  obtain ⟨p, log⟩ := q
  refine Pool.observe_cases (P := fun q => Rotation q.1.store (Pool.hand q.1) q.2) h
    (fun r _ => ?_) (fun i x n t he hi => ?_)
  -- a new request has no token yet
  · have hnone : (enter r).hand = none := by cases r <;> rfl
    have hsame : Pool.hand ⟨p.store, p.tasks ++ [(p.requests, enter r)], p.requests + 1⟩
        = Pool.hand p := by
      simp [Pool.hand, hnone]
    exact hsame ▸ h
  · subst he
    have hsplit := Pool.filterMap_run (fun a : Nat × Task => a.2.hand) hi
    -- one statement: the task is taken out, and put back with what it goes on with
    have hmem : ∀ o ∈ p.tasks.eraseIdx i, o ∈ p.tasks := fun o ho =>
      (Pool.perm_eraseIdx hi).mem_iff.mpr (List.mem_cons_of_mem _ ho)
    have ht : InHand p.store t := hq.2 (n, t) (List.mem_of_getElem? hi)
    have hwait : Rotation (p.store.wait x.elapsed) _ log :=
      (Rotation.perm h hsplit).store rfl fun _ hlive => hlive
    have hnext := hwait.statement (n := n) (session_step env x (p.store.wait x.elapsed) t)
      (ht.kept (.of_eq rfl)) ?_
    · refine hnext.perm ?_
      rw [Pool.hand, List.filterMap_append, List.filterMap_map]
      exact List.perm_append_comm
    · -- no other task has the token that is found: it is neither saved nor about to be
      rintro dto token rfl hfind hin
      obtain ⟨o, ho, hhand⟩ := List.mem_filterMap.mp hin
      have hrow : token ∈ p.store.refreshTokens ∧ token.revoked = false := by
        obtain ⟨hfind, hvalid⟩ := Option.filter_eq_some_iff.mp hfind
        exact ⟨List.mem_of_find?_eq_some hfind, by simpa using (Bool.and_eq_true_iff.mp hvalid).1⟩
      have ho' : InHand p.store o.2 := hq.2 o (hmem o ho)
      obtain ⟨o₁, o₂⟩ := o
      cases o₂ with
      | refreshSave stored user =>
        refine hapart n _ hi _ ho ?_
        show (exchangeable env _ dto).map RefreshToken.id = some stored.id
        rw [hfind, Option.map_some]
        exact hhand.symm
      | generateSave caller userId access raw expiresAt =>
        cases caller with
        | login => cases hhand
        | refreshToken stored =>
          obtain ⟨⟨row, hrow', hsame, hrevoked⟩, -⟩ := ho'
          have hid : row.id = token.id := hsame.1.trans (Option.some.inj hhand)
          rw [Table.eq_of_key_eq hrow' hrow.1 hid, hrow.2] at hrevoked
          cases hrevoked
      | _ => cases hhand

/-! ## Single use

What the invariant says of tokens and of their chains. -/

/-- The answer to the reuse of a token: all tokens of the user are revoked. -/
def ReuseResponse (env : Env) (userId : Nat) : Prop :=
  ∀ x s, (exec env x s (.revokeTokens userId .reuse)).reply = some (.error (.unauthorized
      "Security alert: refresh token reuse detected. All sessions have been revoked. Please login again."))
    ∧ ∀ t ∈ (exec env x s (.revokeTokens userId .reuse)).store.refreshTokens,
      t.userId = userId → t.revoked = true

structure SingleUse (env : Env) (s : Store) (log : List Moment) : Prop where
  /-- No token is exchanged twice. -/
  exchanged_once : (exchanged log).Nodup
  /-- A chain has one unrevoked token at most. -/
  one_unrevoked : ∀ t ∈ s.refreshTokens, ∀ t' ∈ s.refreshTokens, t.revoked = false →
    t'.revoked = false → chain log t.id = chain log t'.id → t = t'
  /-- Who presents an exchanged token next gets the answer to a reuse. -/
  reuse : ∀ t ∈ s.refreshTokens, t.id ∈ exchanged log → ∀ dto : RefreshTokenDto,
    env.sha256 dto.refreshToken = t.tokenHash →
      (∀ x, (exec env x s (.refreshFind dto)).next = [.revokeTokens t.userId .reuse])
        ∧ ReuseResponse env t.userId

/-- A token that is used again ends all sessions of its user. -/
theorem reuseResponse (env : Env) (userId : Nat) : ReuseResponse env userId := by
  refine fun x s => ⟨rfl, fun t ht huser => ?_⟩
  obtain ⟨r, -, hrow⟩ := mem_revokeTokens.mp ht
  subst hrow
  split
  · rfl
  · next hnot =>
    rw [if_neg hnot] at huser
    simpa [huser] using hnot

/-- A revoked token that is presented is taken for a reused one. -/
theorem refreshFind_revoked (env : Env) (x : Input) {s : Store} (hunique : UniqueHashes s)
    {t : RefreshToken} (ht : t ∈ s.refreshTokens) (hrevoked : t.revoked = true)
    {dto : RefreshTokenDto} (hhash : env.sha256 dto.refreshToken = t.tokenHash) :
    (exec env x s (.refreshFind dto)).next = [.revokeTokens t.userId .reuse] := by
  have hfind : (s.wait x.elapsed).refreshTokens.rows.find?
      (·.tokenHash = env.sha256 dto.refreshToken) = some t := by
    cases hfind : s.refreshTokens.rows.find? (·.tokenHash = env.sha256 dto.refreshToken) with
    | none => exact absurd (List.find?_eq_none.mp hfind t ht) (by simp [hhash])
    | some t' =>
      have hsame := List.find?_some hfind
      rw [decide_eq_true_eq] at hsame
      rw [hunique t' (List.mem_of_find?_eq_some hfind) t ht (hsame.trans hhash)] at hfind
      exact hfind
  simp only [exec, statement, AuthService.refreshToken, hfind, hrevoked, if_true]
  rfl

/-- The invariant gives single use. -/
theorem Rotation.singleUse {env : Env} {s : Store} {hand : List Nat} {log : List Moment}
    (h : Rotation s hand log) (hunique : UniqueHashes s) : SingleUse env s log where
  exchanged_once := h.once.of_append_right
  one_unrevoked := fun t ht t' ht' hlive hlive' hchain =>
    Table.eq_of_key_eq ht ht'
      (h.chains t.id t'.id (.inl ⟨t, ht, rfl, hlive⟩) (.inl ⟨t', ht', rfl, hlive'⟩) hchain)
  reuse := by
    intro t ht hexchanged dto hhash
    have hrevoked : t.revoked = true := by
      cases hlive : t.revoked with
      | true => rfl
      | false => exact absurd ⟨t, ht, rfl, hlive⟩ (h.spent t.id hexchanged).2
    exact ⟨fun x => refreshFind_revoked env x hunique ht hrevoked hhash, reuseResponse env t.userId⟩

/-- **Single use of refresh tokens.** In every interleaving of requests in which no request finds a
token that another one has found and not yet saved, each token is exchanged once at most, each login
chain has at most one unrevoked token, and a further presentation of an exchanged token revokes the
sessions of its user. -/
theorem rotation_single_use (env : Env) {s : Store} {acts : List (Act Request Input)}
    (hunique : UniqueHashes s)
    (hapart : Meets (Pool.observe (service env) (noteMoment env))
      (fun q act => q.1.Apart (SamePresented env) act) (.idle s, []) acts) :
    Always (Pool.observe (service env) (noteMoment env)) (fun q => SingleUse env q.1.store q.2)
      (.idle s, []) acts := by
  have hstart : SessionsHold (Pool.idle s, []) := .idle hunique
  have hall := always_of_meets
    (P := fun q => SessionsHold q ∧ Rotation q.1.store (Pool.hand q.1) q.2)
    (fun act _ q hq hact => ⟨sessions_hold env hq.1 act, rotation_observe env hq.1 hq.2 hact⟩)
    ⟨hstart, Rotation.init s⟩ hapart
  exact hall.imp fun q hq => hq.2.singleUse hq.1.1

/-- A login, an exchange, and the presentation of the exchanged token. -/
theorem rotation_single_use_refreshed :
    Always (Pool.observe (service Sample.env) (noteMoment Sample.env))
      (fun q => SingleUse Sample.env q.1.store q.2) (.idle Sample.store, [])
      (Sample.login Sample.student ++ Sample.refresh 1 ++ Sample.refresh 1) :=
  rotation_single_use Sample.env (fun t ht => absurd ht List.not_mem_nil) (by decide)

/-- Two requests find one token before either saves it, and both get a new pair. -/
theorem exchanged_twice :
    ¬ Always (Pool.observe (service Sample.env) (noteMoment Sample.env))
      (fun q => SingleUse Sample.env q.1.store q.2) (.idle Sample.store, [])
      (Sample.login Sample.student ++ Sample.bothRefresh 1) := by
  intro h
  have htwice := h.last.exchanged_once
  revert htwice
  decide

end AcaSocial.Identity
