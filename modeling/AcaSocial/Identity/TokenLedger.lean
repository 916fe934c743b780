import AcaSocial.Identity.Entities

/-!
# What the guard knows of a token, and what happened to it

* **`Evidence`** — what `validate` decides from, beside the row of the user: the signed tokens, the
  blacklist, and for each user the time of the last change of its password or role.
* **`Occasion`** — what can happen to a token: it is issued, its session ends, its user is changed. A
  list of them, the latest first, is what happened.
* **`Evidence.after`** — what an occasion makes of the evidence.
* **`Ledger`** — how the evidence tells what happened. `Ledger.after` is its step.

The change of a user is known in milliseconds and compared in seconds, so the evidence tells it from an
issue only if it is in a later second: that is what `Ledger.after` asks of a change.
-/

namespace AcaSocial.Identity

structure Evidence where
  now : Time
  uuids : Uuid
  issued : List AccessToken
  blacklist : Keyspace Uuid Unit
  changedAt : Nat → Option Time

inductive Occasion where
  | issued (token : AccessToken)
  /-- A logout, a change of the password or a deletion of the account, with the token. -/
  | ended (token : AccessToken)
  /-- A change of the password or of the role. -/
  | changed (userId : Nat)
deriving DecidableEq

namespace Evidence

variable (e : Evidence)

def wait (elapsed : Nat) : Evidence := { e with now := e.now + elapsed }

/-- Two UUIDs are drawn for an access token, one of which is for the refresh token beside it. The key
of an ended token lives until the token expires, and for one second at least. -/
def after : Occasion → Evidence
  | .issued token => { e with issued := token :: e.issued, uuids := e.uuids + 2 }
  | .ended token =>
    { e with
      blacklist := e.blacklist.setEx token.jti () (e.now + 1000 * max 1 (token.exp - e.now / 1000)) }
  | .changed userId => { e with changedAt := Function.update e.changedAt userId (some e.now) }

/-- A new token has a new UUID and the second of its issue. An ended one was issued. -/
def Valid : Occasion → Prop
  | .issued token => token.jti = e.uuids ∧ token.iat = e.now / 1000
  | .ended token => token ∈ e.issued
  | .changed _ => True

/-- The user of the token was changed in a later second than the token was issued in. -/
def Outdated (token : AccessToken) : Prop :=
  ∃ changedAt, e.changedAt token.sub = some changedAt ∧ token.iat < changedAt / 1000

/-- The tokens that were signed have different UUIDs, those to come are not on the blacklist, and no
user is changed in the future. -/
structure Sound : Prop where
  drawn : ∀ token ∈ e.issued, token.jti < e.uuids
  apart : ∀ token ∈ e.issued, ∀ token' ∈ e.issued, token.jti = token'.jti → token = token'
  clear : ∀ jti, e.uuids ≤ jti → e.blacklist jti = none
  past : ∀ userId changedAt, e.changedAt userId = some changedAt → changedAt ≤ e.now

end Evidence

/-- What happened since the token was issued. -/
def since (token : AccessToken) (log : List Occasion) : List Occasion :=
  log.takeWhile (· ≠ .issued token)

/-- The evidence tells what happened. Of a token that has ended, it says so until it expires; of one that
has not, whether its user was changed since. -/
structure Ledger (e : Evidence) (log : List Occasion) : Prop where
  sound : e.Sound
  known : ∀ token, .issued token ∈ log → token ∈ e.issued ∧ token.iat ≤ e.now / 1000
  kept : ∀ token, .ended token ∈ log → token ∈ e.issued
    ∧ ∃ deadline, e.blacklist token.jti = some ⟨(), some deadline⟩ ∧ 1000 * token.exp ≤ deadline
  open_ : ∀ token, .issued token ∈ log → .ended token ∉ log → e.blacklist token.jti = none
  cut : ∀ token, .issued token ∈ log → .ended token ∉ log → e.now / 1000 < token.exp →
    (e.Outdated token ↔ .changed token.sub ∈ since token log)

/-- The token that was issued. -/
def Occasion.token? : Occasion → Option AccessToken
  | .issued token => some token
  | _ => none

/-- The user that was changed. -/
def Occasion.user? : Occasion → Option Nat
  | .changed userId => some userId
  | _ => none

/-- Of the tokens of the user that could still be used, none was issued in this second. -/
def Evidence.Timely (e : Evidence) (log : List Occasion) (userId : Nat) : Prop :=
  ∀ o ∈ log, ∀ token ∈ o.token?, token.sub = userId → .ended token ∉ log → e.now / 1000 < token.exp →
    token.iat ≠ e.now / 1000

instance (e : Evidence) (log : List Occasion) (userId : Nat) : Decidable (e.Timely log userId) :=
  inferInstanceAs (Decidable (∀ o ∈ log, ∀ token ∈ o.token?, token.sub = userId → .ended token ∉ log →
    e.now / 1000 < token.exp → token.iat ≠ e.now / 1000))

/-- A time in a second before `seconds`. -/
theorem lt_of_seconds {now seconds : Nat} (h : now / 1000 < seconds) : now < 1000 * seconds := by
  omega

variable {e : Evidence} {log : List Occasion} {token : AccessToken} {o : Occasion}

/-! ## What happened since

The occasions after the last time a token was issued. A token is alive when none of them is one of its own. -/

/-- A token that has just been issued has nothing after it. -/
theorem since_cons_self : since token (.issued token :: log) = [] := by
  simp [since]

/-- Another occasion is one more after it. -/
theorem since_cons (h : o ≠ .issued token) : since token (o :: log) = o :: since token log := by
  simp [since, h]

/-- Another occasion is no change of this user. -/
theorem changed_mem_since_cons {userId : Nat} (h : o ≠ .issued token) (ho : o ≠ .changed userId) :
    .changed userId ∈ since token (o :: log) ↔ .changed userId ∈ since token log := by
  rw [since_cons h, List.mem_cons]
  exact or_iff_right ho.symm

/-! ## The evidence alone

What the guard looks at, without the statements that write it. -/

/-- Time makes no evidence unsound. -/
theorem Evidence.Sound.wait (h : e.Sound) (elapsed : Nat) : (e.wait elapsed).Sound where
  drawn := h.drawn
  apart := h.apart
  clear := h.clear
  past := fun userId changedAt hc => Nat.le_trans (h.past userId changedAt hc) (Nat.le_add_right _ _)

/-- An occasion that may happen makes no evidence unsound. -/
theorem Evidence.Sound.after (h : e.Sound) (ho : e.Valid o) : (e.after o).Sound := by
  cases o with
  | issued token =>
    obtain ⟨hjti, -⟩ := ho
    -- the id of the new token has not been drawn before
    have hold : ∀ token' ∈ e.issued, token'.jti ≠ token.jti :=
      fun token' ht => hjti ▸ Nat.ne_of_lt (h.drawn token' ht)
    refine ⟨fun token' ht => ?_, fun token₁ h₁ token₂ h₂ he => ?_, fun jti hle => ?_, h.past⟩
    · have hle : token'.jti ≤ e.uuids := by
        rcases List.mem_cons.mp ht with rfl | ht
        · exact Nat.le_of_eq hjti
        · exact Nat.le_of_lt (h.drawn token' ht)
      exact Nat.lt_of_le_of_lt hle (Nat.lt_add_of_pos_right Nat.zero_lt_two)
    · rcases List.mem_cons.mp h₁ with hnew₁ | h₁ <;> rcases List.mem_cons.mp h₂ with hnew₂ | h₂
      · exact hnew₁.trans hnew₂.symm
      · exact absurd (he.symm.trans (congrArg _ hnew₁)) (hold token₂ h₂)
      · exact absurd (he.trans (congrArg _ hnew₂)) (hold token₁ h₁)
      · exact h.apart token₁ h₁ token₂ h₂ he
    · exact h.clear jti (Nat.le_trans (Nat.le_add_right _ 2) hle)
  | ended token =>
    refine ⟨h.drawn, h.apart, fun jti hle => ?_, h.past⟩
    -- an id that has not been drawn is not the one that ends
    have hne : jti ≠ token.jti := Nat.ne_of_gt (Nat.lt_of_lt_of_le (h.drawn token ho) hle)
    exact (Function.update_of_ne hne _ _).trans (h.clear jti hle)
  | changed userId =>
    refine ⟨h.drawn, h.apart, h.clear, fun userId' changedAt hc => ?_⟩
    have hc : Function.update e.changedAt userId (some e.now) userId' = some changedAt := hc
    by_cases hu : userId' = userId
    · rw [hu, Function.update_self] at hc
      exact Nat.le_of_eq (Option.some.inj hc).symm
    · rw [Function.update_of_ne hu] at hc
      exact h.past userId' changedAt hc

/-! ## The ledger

The evidence and the log say the same of every token. Each occasion keeps this. -/

theorem Ledger.start (h : e.Sound) : Ledger e [] where
  sound := h
  known := fun _ ht => absurd ht List.not_mem_nil
  kept := fun _ ht => absurd ht List.not_mem_nil
  open_ := fun _ ht => absurd ht List.not_mem_nil
  cut := fun _ ht => absurd ht List.not_mem_nil

/-- Time changes nothing in the ledger. -/
theorem Ledger.wait (h : Ledger e log) (elapsed : Nat) : Ledger (e.wait elapsed) log := by
  have hle : e.now / 1000 ≤ (e.now + elapsed) / 1000 :=
    Nat.div_le_div_right (Nat.le_add_right _ _)
  exact ⟨h.sound.wait elapsed, fun token ht => ⟨(h.known token ht).1, Nat.le_trans (h.known token ht).2 hle⟩,
    h.kept, h.open_, fun token ht hopen hexp => h.cut token ht hopen (Nat.lt_of_le_of_lt hle hexp)⟩

/-- A token that is signed and not returned is not seen. -/
theorem Ledger.unsent (h : Ledger e log) (ho : e.Valid (.issued token)) :
    Ledger (e.after (.issued token)) log where
  sound := h.sound.after ho
  known := fun token' ht => ⟨List.mem_cons_of_mem _ (h.known token' ht).1, (h.known token' ht).2⟩
  kept := fun token' ht => ⟨List.mem_cons_of_mem _ (h.kept token' ht).1, (h.kept token' ht).2⟩
  open_ := h.open_
  cut := h.cut

/-- A token that is issued is alive. -/
theorem Ledger.issue (h : Ledger e log) (ho : e.Valid (.issued token)) :
    Ledger (e.after (.issued token)) (.issued token :: log) := by
  -- an issue ends no token
  have hended : ∀ token', Occasion.ended token' ∈ .issued token :: log ↔ .ended token' ∈ log :=
    fun token' => List.mem_cons.trans (or_iff_right (fun h => by cases h))
  have hunsent := h.unsent ho
  obtain ⟨hjti, hiat⟩ := ho
  refine ⟨hunsent.sound, fun token' ht => ?_, fun token' ht => ?_, fun token' ht hopen => ?_,
    fun token' ht hopen hexp => ?_⟩
  · rcases List.mem_cons.mp ht with he | ht
    · obtain rfl := Occasion.issued.inj he
      exact ⟨List.mem_cons_self, Nat.le_of_eq hiat⟩
    · exact hunsent.known token' ht
  · exact hunsent.kept token' ((hended token').mp ht)
  · rw [hended] at hopen
    rcases List.mem_cons.mp ht with he | ht
    · obtain rfl := Occasion.issued.inj he
      exact h.sound.clear token'.jti (Nat.le_of_eq hjti.symm)
    · exact h.open_ token' ht hopen
  · rw [hended] at hopen
    by_cases he : token' = token
    · -- nothing has happened to the new token, and its user was changed by now
      subst he
      rw [since_cons_self]
      refine iff_of_false ?_ List.not_mem_nil
      rintro ⟨changedAt, hchanged, hlt⟩
      have hpast : changedAt / 1000 ≤ e.now / 1000 :=
        Nat.div_le_div_right (h.sound.past _ changedAt hchanged)
      exact absurd hlt (Nat.not_lt.mpr (hiat ▸ hpast))
    · have hne : Occasion.issued token ≠ .issued token' := fun hsame => he (Occasion.issued.inj hsame).symm
      have ht : Occasion.issued token' ∈ log := (List.mem_cons.mp ht).resolve_left hne.symm
      rw [changed_mem_since_cons hne (fun h => by cases h)]
      exact h.cut token' ht hopen hexp

/-- A session that ends takes its token with it. -/
theorem Ledger.finish (h : Ledger e log) (ho : token ∈ e.issued) :
    Ledger (e.after (.ended token)) (.ended token :: log) := by
  have hissued : ∀ token', Occasion.issued token' ∈ .ended token :: log ↔ .issued token' ∈ log :=
    fun token' => List.mem_cons.trans (or_iff_right (fun h => by cases h))
  have hopen : ∀ token', .ended token' ∉ Occasion.ended token :: log →
      token' ≠ token ∧ .ended token' ∉ log := by
    intro token' ht
    exact ⟨fun he => ht (he ▸ List.mem_cons_self), fun hmem => ht (List.mem_cons_of_mem _ hmem)⟩
  refine ⟨h.sound.after ho, fun token' ht => h.known token' ((hissued token').mp ht),
    fun token' ht => ?_, fun token' ht hnot => ?_, fun token' ht hnot hexp => ?_⟩
  · by_cases hjti : token'.jti = token.jti
    · have hmem : token' ∈ e.issued := by
        rcases List.mem_cons.mp ht with he | ht
        · obtain rfl := Occasion.ended.inj he
          exact ho
        · exact (h.kept token' ht).1
      obtain rfl : token' = token := h.sound.apart token' hmem token ho hjti
      refine ⟨ho, _, Function.update_self .., ?_⟩
      -- whole seconds are left until the token expires, counted from the second of now
      show 1000 * token'.exp ≤ e.now + 1000 * max 1 (token'.exp - e.now / 1000)
      omega
    · have hne : Occasion.ended token' ≠ .ended token := fun he => hjti (congrArg _ (Occasion.ended.inj he))
      obtain ⟨hmem, deadline, hentry, hle⟩ := h.kept token' ((List.mem_cons.mp ht).resolve_left hne)
      exact ⟨hmem, deadline, (Function.update_of_ne hjti _ _).trans hentry, hle⟩
  · obtain ⟨hne, hnot⟩ := hopen token' hnot
    have ht := (hissued token').mp ht
    have hjti : token'.jti ≠ token.jti :=
      fun hsame => hne (h.sound.apart token' (h.known token' ht).1 token ho hsame)
    exact (Function.update_of_ne hjti _ _).trans (h.open_ token' ht hnot)
  · obtain ⟨-, hnot⟩ := hopen token' hnot
    have hne : Occasion.ended token ≠ .issued token' := (fun h => by cases h)
    rw [changed_mem_since_cons hne (fun h => by cases h)]
    exact h.cut token' ((hissued token').mp ht) hnot hexp

/-- A change of a user ends all tokens that were issued before. -/
theorem Ledger.change {userId : Nat} (h : Ledger e log) (htimely : e.Timely log userId) :
    Ledger (e.after (.changed userId)) (.changed userId :: log) := by
  have hissued : ∀ token', Occasion.issued token' ∈ .changed userId :: log ↔ .issued token' ∈ log :=
    fun token' => List.mem_cons.trans (or_iff_right (fun h => by cases h))
  have hended : ∀ token', Occasion.ended token' ∈ .changed userId :: log ↔ .ended token' ∈ log :=
    fun token' => List.mem_cons.trans (or_iff_right (fun h => by cases h))
  refine ⟨h.sound.after trivial, fun token' ht => h.known token' ((hissued token').mp ht),
    fun token' ht => h.kept token' ((hended token').mp ht),
    fun token' ht hnot => h.open_ token' ((hissued token').mp ht) fun hmem => hnot ((hended token').mpr hmem),
    fun token' ht hnot hexp => ?_⟩
  rw [hissued] at ht
  rw [hended] at hnot
  have hother : Occasion.changed userId ≠ .issued token' := (fun h => by cases h)
  by_cases hu : token'.sub = userId
  · -- the change is now, in a later second than that of the issue
    have hiat : token'.iat ≤ e.now / 1000 := (h.known token' ht).2
    have hne : token'.iat ≠ e.now / 1000 := htimely _ ht token' rfl hu hnot hexp
    refine iff_of_true ⟨e.now, ?_, by omega⟩ ?_
    · show Function.update e.changedAt userId (some e.now) token'.sub = some e.now
      rw [hu, Function.update_self]
    · rw [since_cons hother, hu]
      exact List.mem_cons_self
  -- the tokens of the other users are as they were
  · have hout : (e.after (.changed userId)).Outdated token' ↔ e.Outdated token' := by
      show (∃ c, Function.update e.changedAt userId (some e.now) token'.sub = some c ∧ _) ↔ _
      rw [Function.update_of_ne hu]
      rfl
    have hdiffer : Occasion.changed userId ≠ .changed token'.sub :=
      fun he => hu (Occasion.changed.inj he).symm
    rw [hout, changed_mem_since_cons hother hdiffer]
    exact h.cut token' ht hnot hexp

end AcaSocial.Identity
