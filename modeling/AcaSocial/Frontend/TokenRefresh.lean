import AcaSocial.Frontend.TokenQueue

/-!
# The queue behind a refresh

* **`Drains`** — once no refresh is under way, the flag is down and the queue is empty. Every queued call is resumed
  once, with what the refresh that it has waited for came to: it is made once more with the new token, or it ends with
  an error. No call is retried twice.
* **`Tokens`** — the invariant behind the tokens: while a call refreshes, every queued call waits for it, and the token
  that its refresh came to is the one that is stored, unless other code has stored another one since.

`queue_drains_iff` says that a refresh which ends with an exception is all that breaks `Drains`.
-/

namespace AcaSocial.Frontend

variable {ι : Type} [DecidableEq ι] {s t : Client ι} {i j : ι}

/-- What the calls, the flag, the queue and the tokens are to each other. A call that is made once more, for its own
refresh or for the one that it has waited for, sends the new token. Other code that stores tokens during the refresh may
replace it. -/
structure Drains (s : Client ι) : Prop where
  drained : (∀ i, ¬ (s.phase i).Refreshes) → s.isRefreshing = false ∧ s.pendingQueue = []
  waiting : ∀ i, s.phase i = .pending → i ∈ s.pendingQueue.map Prod.fst
  resumedOnce : s.queuedCalls = s.resumed.map Prod.fst ++ s.pendingQueue.map Prod.fst ∧ s.queuedCalls.Nodup
  issuedOnce : (s.issued.map Prod.fst).Nodup
  handed : ∀ i newToken, (i, newToken) ∈ s.resumed → ∃ j, (i, some j) ∈ s.queued ∧ (j, newToken) ∈ s.issued
  answered : ∀ i newToken, (i, newToken) ∈ s.resumed → if truthy newToken then i ∈ s.retriedCalls
    else s.phase i = .settled (.error .loginRequired)
  sent : ∀ i token, (i, token) ∈ s.retried → ∃ j newToken, (i = j ∨ (i, some j) ∈ s.queued)
    ∧ (j, newToken) ∈ s.issued ∧ truthy newToken ∧ (j ∉ s.replaced → token = newToken)
  retriedOnce : s.retriedCalls.Nodup

/-! ## Tokens

A refresh is logged when `refreshAccessToken` returns, and its call goes on later. In between the queue may still grow,
and other code may store tokens, but no second refresh can begin. -/

/-- The call makes no refresh any more. -/
def Phase.Issued : Phase → Prop
  | .fetching options _ => options.isRetry = true
  | .refreshed _ _ | .readingBody _ _ | .settled _ => True
  | _ => False

/-- The tokens, where `rest` is what is left of the queue. -/
structure Tokens (s : Client ι) (rest : List (ι × RequestOptions)) : Prop where
  refresher : ∀ i, (s.phase i).Refreshes → s.refresher = some i
  up : s.isRefreshing = true → ∃ j, s.refresher = some j
  waits : ∀ entry ∈ rest, ∃ j, s.refresher = some j ∧ (entry.1, some j) ∈ s.queued
  stored : ∀ i options newToken, s.phase i = .refreshed options newToken →
    (i, newToken) ∈ s.issued ∧ (truthy newToken → i ∉ s.replaced → s.accessToken = newToken)
  issuedOnce : (s.issued.map Prod.fst).Nodup
  issuedStage : ∀ i ∈ s.issued.map Prod.fst, (s.phase i).Issued
  handed : ∀ i newToken, (i, newToken) ∈ s.resumed → ∃ j, (i, some j) ∈ s.queued ∧ (j, newToken) ∈ s.issued
  sent : ∀ i token, (i, token) ∈ s.retried → ∃ j newToken, (i = j ∨ (i, some j) ∈ s.queued)
    ∧ (j, newToken) ∈ s.issued ∧ truthy newToken ∧ (j ∉ s.replaced → token = newToken)

namespace Tokens

variable {rest : List (ι × RequestOptions)} {options : RequestOptions} {newToken : Option String} {p : Phase}

/-- A call goes on, and nothing is logged. -/
theorem setPhase (h : Tokens s rest) (hrefreshes : p.Refreshes → s.refresher = some i)
    (hissued : (s.phase i).Issued → p.Issued) (hnot : ∀ options newToken, p ≠ .refreshed options newToken) :
    Tokens (s.setPhase i p) rest where
  -- for the call itself by the hypotheses, for the others as before
  refresher := by
    intro j hj
    by_cases he : j = i
    · subst he
      rw [phase_setPhase_self] at hj
      exact hrefreshes hj
    · rw [phase_setPhase_of_ne s p he] at hj
      exact h.refresher j hj
  up := h.up
  waits := h.waits
  stored := by
    intro j options newToken hj
    by_cases he : j = i
    · subst he
      rw [phase_setPhase_self] at hj
      exact absurd hj (hnot options newToken)
    · rw [phase_setPhase_of_ne s p he] at hj
      exact h.stored j options newToken hj
  issuedOnce := h.issuedOnce
  issuedStage := by
    intro j hj
    by_cases he : j = i
    · subst he
      rw [phase_setPhase_self]
      exact hissued (h.issuedStage j hj)
    · rw [phase_setPhase_of_ne s p he]
      exact h.issuedStage j hj
  handed := h.handed
  sent := h.sent

/-- A call that waits for nothing but its own response goes on. -/
theorem quiet (h : Tokens s rest) (hp : ¬ p.Refreshes) (hissued : (s.phase i).Issued → p.Issued) :
    Tokens (s.setPhase i p) rest := by
  refine h.setPhase (fun hrefreshes => absurd hrefreshes hp) hissued fun options newToken he => hp ?_
  rw [he]
  trivial

omit [DecidableEq ι] in
/-- A refresh begins when there is none, and nothing is queued. -/
theorem start (h : Tokens s rest) (hnone : ∀ j, ¬ (s.phase j).Refreshes) (hempty : rest = []) (i : ι) :
    Tokens { s with isRefreshing := true, refresher := some i } rest :=
  ⟨fun j hj => absurd hj (hnone j), fun _ => ⟨i, rfl⟩, fun _ he => absurd (hempty ▸ he) List.not_mem_nil, h.stored,
    h.issuedOnce, h.issuedStage, h.handed, h.sent⟩

/-- `refreshAccessToken` returns: what it has come to is logged, and a new token is stored. -/
theorem returnToken (h : Tokens s rest) (hrefresher : s.refresher = some i) (hbefore : ¬ (s.phase i).Issued)
    (ht : t = { s.returnToken i options newToken with accessToken := t.accessToken, refreshToken := t.refreshToken })
    (hstored : truthy newToken → t.accessToken = newToken) : Tokens t rest := by
  have hphase : t.phase = (s.setPhase i (.refreshed options newToken)).phase := by rw [ht]; rfl
  have hissued : t.issued = s.issued ++ [(i, newToken)] := by rw [ht]; rfl
  -- a call refreshes once
  have hfirst : i ∉ s.issued.map Prod.fst := fun hi => hbefore (h.issuedStage i hi)
  have hcalls : t.issued.map Prod.fst = (s.issued.map Prod.fst).concat i := by
    rw [hissued, List.map_append, List.concat_eq_append]
    rfl
  have hkept : ∀ e ∈ s.issued, e ∈ t.issued := fun e he => hissued ▸ List.mem_append_left _ he
  have hqueued : t.queued = s.queued := by rw [ht]; rfl
  have hreplaced : t.replaced = s.replaced := by rw [ht]; rfl
  constructor
  · intro j hj
    have hsame : t.refresher = s.refresher := by rw [ht]; rfl
    rw [hsame]
    by_cases he : j = i
    · exact he ▸ hrefresher
    · rw [hphase, phase_setPhase_of_ne s _ he] at hj
      exact h.refresher j hj
  · rw [ht]
    exact h.up
  · rw [ht]
    exact h.waits
  · intro j options' newToken' hj
    rw [hphase] at hj
    by_cases he : j = i
    · subst he
      rw [phase_setPhase_self] at hj
      obtain ⟨rfl, rfl⟩ := Phase.refreshed.inj hj
      exact ⟨hissued ▸ List.mem_append_right _ (List.mem_singleton_self _), fun htoken _ => hstored htoken⟩
    · -- no other call refreshes
      rw [phase_setPhase_of_ne s _ he] at hj
      have hj' : (s.phase j).Refreshes := by
        rw [hj]
        trivial
      exact absurd (Option.some.inj ((h.refresher j hj').symm.trans hrefresher)) he
  · rw [hcalls]
    exact h.issuedOnce.concat hfirst
  · intro j hj
    rw [hphase]
    by_cases he : j = i
    · subst he
      rw [phase_setPhase_self]
      trivial
    · rw [phase_setPhase_of_ne s _ he]
      rw [hcalls, List.concat_eq_append] at hj
      exact h.issuedStage j ((List.mem_append.mp hj).resolve_right fun hj => he (List.mem_singleton.mp hj))
  · intro j newToken' hj
    have hresumed : t.resumed = s.resumed := by rw [ht]; rfl
    obtain ⟨k, hk, hin⟩ := h.handed j newToken' (hresumed ▸ hj)
    exact ⟨k, hqueued ▸ hk, hkept _ hin⟩
  · intro j token hj
    have hretried : t.retried = s.retried := by rw [ht]; rfl
    obtain ⟨k, newToken', hk, hin, htoken, hsent⟩ := h.sent j token (hretried ▸ hj)
    exact ⟨k, newToken', hqueued ▸ hk, hkept _ hin, htoken, hreplaced ▸ hsent⟩

/-- A call is queued behind the refresh that is under way. -/
theorem enqueue (h : Tokens s s.pendingQueue) (hflag : s.isRefreshing = true) (hbefore : ¬ (s.phase i).Issued)
    (options : RequestOptions) : Tokens (s.enqueue i options) (s.enqueue i options).pendingQueue := by
  have hmoved : Tokens (s.setPhase i .pending) s.pendingQueue := h.quiet id fun hi => absurd hi hbefore
  obtain ⟨j, hj⟩ := h.up hflag
  have hkept : ∀ e ∈ s.queued, e ∈ (s.enqueue i options).queued := fun e he => List.mem_append_left _ he
  refine ⟨hmoved.refresher, hmoved.up, fun entry he => ?_, hmoved.stored, hmoved.issuedOnce, hmoved.issuedStage, ?_, ?_⟩
  · refine ⟨j, hj, ?_⟩
    rcases List.mem_append.mp he with he | he
    · obtain ⟨k, hk, hin⟩ := h.waits entry he
      obtain rfl := Option.some.inj (hk.symm.trans hj)
      exact hkept _ hin
    · obtain rfl := List.mem_singleton.mp he
      show (i, some j) ∈ s.queued ++ [(i, s.refresher)]
      rw [hj]
      exact List.mem_append_right _ (List.mem_singleton_self _)
  · intro k newToken hk
    obtain ⟨l, hl, hin⟩ := h.handed k newToken hk
    exact ⟨l, hkept _ hl, hin⟩
  · intro k token hk
    obtain ⟨l, newToken, hl, hrest⟩ := h.sent k token hk
    exact ⟨l, newToken, hl.imp_right (hkept _), hrest⟩

/-- A call is made once more, after its own refresh or after the one that it has waited for. -/
theorem retry (h : Tokens s rest) (hcall : i = j ∨ (i, some j) ∈ s.queued) (hissued : (j, newToken) ∈ s.issued)
    (htoken : truthy newToken) (hstored : j ∉ s.replaced → s.accessToken = newToken) (options : RequestOptions) :
    Tokens (s.retry i options) rest := by
  have hmoved : Tokens (s.apiFetch i { options with isRetry := true }) rest := h.quiet id fun _ => rfl
  refine ⟨hmoved.refresher, hmoved.up, hmoved.waits, hmoved.stored, hmoved.issuedOnce, hmoved.issuedStage,
    hmoved.handed, fun k token hk => ?_⟩
  rcases List.mem_append.mp hk with hk | hk
  · exact h.sent k token hk
  · obtain ⟨rfl, rfl⟩ := Prod.mk.inj (List.mem_singleton.mp hk)
    refine ⟨j, newToken, hcall, hissued, htoken, fun hj => ?_⟩
    -- the header has the stored token, which is the new one
    unfold Client.authorization
    rw [hstored hj, htoken, Bool.or_true]
    rfl

/-- One callback. -/
theorem callback {entry : ι × RequestOptions} (h : Tokens s (entry :: rest)) (hrefresher : s.refresher = some j)
    (hissued : (j, newToken) ∈ s.issued) (hstored : truthy newToken → j ∉ s.replaced → s.accessToken = newToken) :
    Tokens (s.callback newToken entry) rest := by
  obtain ⟨k, hk, hqueued⟩ := h.waits entry List.mem_cons_self
  obtain rfl := Option.some.inj (hk.symm.trans hrefresher)
  have hlogged : Tokens { s with resumed := s.resumed ++ [(entry.1, newToken)] } rest := by
    refine ⟨h.refresher, h.up, fun e he => h.waits e (List.mem_cons_of_mem _ he), h.stored, h.issuedOnce, h.issuedStage,
      fun i token hi => ?_, h.sent⟩
    rcases List.mem_append.mp hi with hi | hi
    · exact h.handed i token hi
    · obtain ⟨rfl, rfl⟩ := Prod.mk.inj (List.mem_singleton.mp hi)
      exact ⟨k, hqueued, hissued⟩
  unfold Client.callback
  dsimp only
  split
  · next htoken => exact hlogged.retry (.inr hqueued) hissued htoken (hstored htoken) entry.2
  · exact hlogged.quiet id fun _ => trivial

/-- All callbacks, one after the other. They leave the tokens and the log of the refreshes alone. -/
theorem foldl_callback (hstored : truthy newToken → j ∉ s.replaced → s.accessToken = newToken)
    (hissued : (j, newToken) ∈ s.issued) (hrefresher : s.refresher = some j) (h : Tokens s rest) :
    let t := rest.foldl (Client.callback newToken) s
    Tokens t [] ∧ t.issued = s.issued ∧ t.replaced = s.replaced ∧ t.accessToken = s.accessToken := by
  induction rest generalizing s with
  | nil => exact ⟨h, rfl, rfl, rfl⟩
  | cons entry rest ih =>
    have hsame : (s.callback newToken entry).issued = s.issued ∧ (s.callback newToken entry).replaced = s.replaced
        ∧ (s.callback newToken entry).accessToken = s.accessToken
        ∧ (s.callback newToken entry).refresher = s.refresher := by
      unfold Client.callback
      dsimp only
      split <;> exact ⟨rfl, rfl, rfl, rfl⟩
    obtain ⟨hlog, hreplaced, htoken, hcall⟩ := hsame
    obtain ⟨hrest, hlog', hreplaced', htoken'⟩ := ih (s := s.callback newToken entry) (by rw [hreplaced, htoken]; exact hstored)
      (by rw [hlog]; exact hissued) (hcall.trans hrefresher) (h.callback hrefresher hissued hstored)
    exact ⟨hrest, hlog'.trans hlog, hreplaced'.trans hreplaced, htoken'.trans htoken⟩

/-- The rest of a call that has refreshed: the callbacks are handed what its refresh came to. -/
theorem resume (h : Tokens s s.pendingQueue) (hkept : Kept s) (hphase : s.phase i = .refreshed options newToken) :
    Tokens (s.resume i options newToken) (s.resume i options newToken).pendingQueue := by
  have hrefreshes : (s.phase i).Refreshes := by
    rw [hphase]
    trivial
  obtain ⟨hissued, hstored⟩ := h.stored i options newToken hphase
  have hbegun : Tokens { s with isRefreshing := false, pendingQueue := [] } s.pendingQueue :=
    ⟨h.refresher, (fun hflag => by cases hflag), h.waits, h.stored, h.issuedOnce, h.issuedStage, h.handed, h.sent⟩
  -- the callbacks run one after the other, all with the token of this refresh
  obtain ⟨hdrained, hlog, hreplaced, htoken⟩ : Tokens (s.drain newToken) [] ∧ (s.drain newToken).issued = s.issued
      ∧ (s.drain newToken).replaced = s.replaced ∧ (s.drain newToken).accessToken = s.accessToken :=
    foldl_callback (s := { s with isRefreshing := false, pendingQueue := [] }) hstored hissued
      (h.refresher i hrefreshes) hbegun
  -- then the call itself retries with it, or ends
  have hgone : Tokens (if truthy newToken then (s.drain newToken).retry i options
      else (s.drain newToken).settle i (.error .sessionExpired)) [] := by
    split
    · next hnew =>
      refine hdrained.retry (.inl rfl) (hlog ▸ hissued) hnew (fun hi => ?_) options
      exact htoken.trans (hstored hnew (hreplaced ▸ hi))
    · exact hdrained.quiet id fun _ => trivial
  obtain ⟨hflag, hqueue, hnone⟩ : (s.resume i options newToken).isRefreshing = false
      ∧ (s.resume i options newToken).pendingQueue = [] ∧ ∀ j, ¬ ((s.resume i options newToken).phase j).Refreshes :=
    (resume_spec hkept hrefreshes).2
  rw [hqueue]
  refine ⟨fun j hj => absurd hj (hnone j), fun hup => ?_, fun _ he => absurd he List.not_mem_nil, hgone.stored,
    hgone.issuedOnce, hgone.issuedStage, hgone.handed, hgone.sent⟩
  rw [hflag] at hup
  cases hup

omit [DecidableEq ι] in
/-- Other code stores tokens. From then on nothing is said of the token that the call in flight will send. -/
theorem store (h : Tokens s rest) (accessToken refreshToken : Option String) :
    Tokens (s.store accessToken refreshToken) rest := by
  refine ⟨h.refresher, h.up, h.waits, fun i options newToken hi => ?_, h.issuedOnce, h.issuedStage, h.handed,
    fun i token hi => ?_⟩
  · refine ⟨(h.stored i options newToken hi).1, fun _ hnot => absurd (List.mem_append_right _ ?_) hnot⟩
    have hrefreshes : (s.phase i).Refreshes := by
      have hi : s.phase i = .refreshed options newToken := hi
      rw [hi]
      trivial
    rw [h.refresher i hrefreshes]
    exact List.mem_singleton_self i
  · obtain ⟨j, newToken, hj, hin, htoken, hsent⟩ := h.sent i token hi
    exact ⟨j, newToken, hj, hin, htoken, fun hnot => hsent fun hmem => hnot (List.mem_append_left _ hmem)⟩

end Tokens

/-- A response to a request: the call is settled, queued, or begins to refresh. -/
theorem respond_tokens (hkept : Kept s) (h : Tokens s s.pendingQueue) {options : RequestOptions}
    {authorization : Option String} (hphase : s.phase i = .fetching options authorization)
    (response : Option (Nat × String)) :
    Tokens (s.respond i options response) (s.respond i options response).pendingQueue := by
  have hquiet : ∀ p : Phase, ¬ p.Refreshes → p.Issued → Tokens (s.setPhase i p) s.pendingQueue :=
    fun p hp hissued => h.quiet hp fun _ => hissued
  cases response with
  | none => exact hquiet (.settled (.error .network)) id trivial
  | some response =>
    obtain ⟨status, statusText⟩ := response
    unfold Client.respond
    dsimp only
    split
    · next h401 =>
      have hbefore : ¬ (s.phase i).Issued := by
        rw [hphase]
        intro hretry
        have hretry : options.isRetry = true := hretry
        rw [hretry] at h401
        exact absurd h401.2 Bool.false_ne_true
      split
      · next hflag => exact h.enqueue hflag hbefore options
      · next hflag =>
        -- the flag is down: nothing is queued, and nobody refreshes
        have hempty : s.pendingQueue = [] := by
          by_contra hne
          exact hflag (hkept.flag.queue hne)
        have hnone : ∀ j, ¬ (s.phase j).Refreshes := fun j hj => hflag (hkept.flag.up j hj)
        have hstarted := h.start hnone hempty i
        unfold Client.refreshAccessToken
        split
        · exact hstarted.setPhase (p := .refreshing options) (fun _ => rfl) (fun hi => absurd hi hbefore) fun _ _ he => by cases he
        · exact hstarted.returnToken rfl hbefore rfl fun htoken => absurd htoken (by decide)
    · split
      · exact hquiet (.settled (.ok none)) id trivial
      · exact hquiet (.readingBody status statusText) id trivial

/-- **Every event** keeps the tokens in step with the calls. -/
theorem step_tokens (hkept : Kept s) (h : Tokens s s.pendingQueue) (e : Event ι) :
    Tokens (s.step e) (s.step e).pendingQueue := by
  have hsettle : ∀ i result, Tokens (s.settle i result) s.pendingQueue := fun i result => h.quiet id fun _ => trivial
  -- the refreshing call is the one that the flag stands for
  have hbefore : ∀ {i p}, s.phase i = p → p.Refreshes → ¬ p.Issued →
      s.refresher = some i ∧ ¬ (s.phase i).Issued := by
    intro i p hphase hrefreshes hissued
    subst hphase
    exact ⟨h.refresher i hrefreshes, hissued⟩
  cases e with
  | called i options =>
    unfold Client.step
    dsimp only
    split
    · next hphase => exact h.quiet id fun hi => by rw [hphase] at hi; exact hi.elim
    · exact h
  | responded i response =>
    unfold Client.step
    dsimp only
    split
    · next hphase => exact respond_tokens hkept h hphase response
    · exact h
  | bodyRead i body =>
    unfold Client.step
    dsimp only
    split
    · unfold Client.readBody
      split
      · cases body with
        | none => exact hsettle i _
        | some body => exact hsettle i _
      · exact hsettle i _
    · exact h
  | refreshResponded i response =>
    unfold Client.step
    dsimp only
    split
    · next options hphase =>
      obtain ⟨hrefresher, hissued⟩ := hbefore hphase trivial id
      cases response with
      | none => exact hsettle i _
      | some status =>
        unfold Client.respondRefresh
        dsimp only
        split
        · exact h.setPhase (p := .readingTokens options) (fun _ => hrefresher) (fun hi => absurd hi hissued)
            fun _ _ he => by cases he
        -- no token comes of a status that is not a success
        · exact h.returnToken hrefresher hissued rfl fun htoken => absurd htoken (by decide)
    · exact h
  | tokensRead i data =>
    unfold Client.step
    dsimp only
    split
    · next options hphase =>
      obtain ⟨hrefresher, hissued⟩ := hbefore hphase trivial id
      cases data with
      | none => exact hsettle i _
      | some data => exact h.returnToken hrefresher hissued rfl fun htoken => if_pos htoken
    · exact h
  | continued i =>
    unfold Client.step
    dsimp only
    split
    · next options newToken hphase => exact h.resume hkept hphase
    · exact h
  | stored accessToken refreshToken => exact h.store accessToken refreshToken

/-! ## Runs

What `Drains` says beside the flag and the queue holds in every run, so that an exception breaks only the rest of it. -/

/-- The invariant of a run. -/
structure InStep (s : Client ι) : Prop where
  kept : Kept s
  tokens : Tokens s s.pendingQueue

omit [DecidableEq ι] in
/-- What the queue is told is what happens to it. -/
theorem drains_iff (h : InStep s) : Drains s ↔ Drained s := by
  obtain ⟨⟨hbooks, -⟩, htokens⟩ := h
  constructor
  · exact fun hdrains => hdrains.drained
  · exact fun hdrained => ⟨hdrained, fun i => (hbooks.pending i).mp, ⟨hbooks.resumed, hbooks.once⟩,
      htokens.issuedOnce, htokens.handed, hbooks.answered, htokens.sent, hbooks.retriedOnce⟩

omit [DecidableEq ι] in
/-- No call has come in yet. -/
theorem inStep_init (accessToken refreshToken : Option String) :
    InStep (Client.init ι accessToken refreshToken) where
  kept := by
    constructor
    · constructor <;> simp [Client.init, Client.queuedCalls, Client.retriedCalls]
    · constructor <;> simp [Client.init, Phase.Refreshes]
  tokens := by
    constructor <;> simp [Client.init, Phase.Refreshes]

/-- Every event keeps the client in step. -/
theorem InStep.step (h : InStep s) (e : Event ι) : InStep (s.step e) :=
  ⟨(step_move s e).kept h.kept, step_tokens h.kept h.tokens e⟩

namespace Sample

/-- The first call is answered with a 401 while the refresh token is there, and then the network is gone. A second
call is answered with a 401 after that. -/
def offline : List (Event Nat) := [
  .called 0 {}, .called 1 {},
  .responded 0 (some (401, "Unauthorized")), .refreshResponded 0 none,
  .responded 1 (some (401, "Unauthorized"))]

end Sample

end AcaSocial.Frontend
