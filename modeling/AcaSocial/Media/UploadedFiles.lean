import AcaSocial.Media.MediaService

/-!
# Every file can be uploaded

* **`Kept`** — what holds in every store: the rows have different hashes and public ids, each hash is
  that of a user and a content, and the content of a live row is on the CDN.
* **`UploadsWork`** — an upload returns a live and clean asset of its user with its content, a user has
  one live asset of a content at most, and every object on the CDN has a live asset.
* **`Uploadable`** — the user has no deleted asset of the content, and the columns have room for a new
  one, if it takes one.

`uploads_work_iff` says that this is exactly when uploads work, in the runs in which the scanner and the
CDN succeed.
-/

namespace AcaSocial.Media

/-- What every store has. -/
structure Kept (env : Env) (s : Store) : Prop where
  hashed : ∀ a ∈ s.assets, ∃ buffer, a.sha256Hash = digest env a.uploadedBy buffer
  stored : ∀ a ∈ s.assets, a.deletedAt = none →
    ∃ o ∈ s.objects, o.publicId = a.publicId ∧ a.sha256Hash = digest env a.uploadedBy o.buffer
  hashes : ∀ a ∈ s.assets, ∀ b ∈ s.assets, a.sha256Hash = b.sha256Hash → a = b
  publicIds : ∀ a ∈ s.assets, ∀ b ∈ s.assets, a.publicId = b.publicId → a = b
  drawn : ∀ a ∈ s.assets, a.publicId < s.objects.next

/-- The asset of the answer is live and clean, and has the user and the content. -/
def Returned (s : Store) (userId : UserId) (buffer : Buffer) (result : Except HttpException Reply) : Prop :=
  ∃ a ∈ s.assets, result = .ok (.media (toDto a)) ∧ a.deletedAt = none ∧ a.scanStatus = .clean
    ∧ a.uploadedBy = userId ∧ ∃ o ∈ s.objects, o.publicId = a.publicId ∧ o.buffer = buffer

/-- Uploads do what they should. -/
structure UploadsWork (q : Answered) : Prop where
  returned : ∀ file category userId scan cdn now result,
    q.last = some (.upload file category userId scan cdn now, result) →
      Returned q.store userId file.buffer result
  once : ∀ a ∈ q.store.assets, ∀ b ∈ q.store.assets, a.deletedAt = none → b.deletedAt = none →
    a.uploadedBy = b.uploadedBy → ∀ o ∈ q.store.objects, ∀ o' ∈ q.store.objects,
      o.publicId = a.publicId → o'.publicId = b.publicId → o.buffer = o'.buffer → a = b
  referenced : ∀ o ∈ q.store.objects, ∃ a ∈ q.store.assets, a.deletedAt = none ∧ a.publicId = o.publicId

/-- The scanner and the CDN succeed. -/
def Call.Succeeds : Call → Prop
  | .upload _ _ _ scan cdn _ => scan = .ok () ∧ cdn.isSome
  | .delete _ _ _ _ destroyed _ => destroyed = true

/-- The user has no deleted asset of the content, and a new one fits into the table if there is none. -/
def Uploadable (env : Env) (s : Store) : Call → Prop
  | .upload file _ userId _ cdn _ =>
    match s.findAsset (digest env userId file.buffer) userId with
    | some existing => existing.deletedAt = none
    | none => ∀ response ∈ cdn, Fits file response
  | .delete .. => True

instance (env : Env) (s : Store) : ∀ call, Decidable (Uploadable env s call)
  | .upload file _ userId _ cdn _ =>
    match h : s.findAsset (digest env userId file.buffer) userId with
    | some existing => decidable_of_iff (existing.deletedAt = none) (by simp [Uploadable, h])
    | none => decidable_of_iff (∀ response ∈ cdn, Fits file response) (by simp [Uploadable, h])
  | .delete .. => .isTrue trivial

variable {env : Env} {s s' : Store} {file : File} {category : MediaCategory} {userId : UserId}
  {response : UploadApiResponse} {now : Time}

/-! ## Hashes

A file is known by the hash of its bytes, under the user who uploaded it. -/

/-- What comes before the first NUL is the user, and what comes after it is the content. -/
theorem digest_inj (hinj : Function.Injective env.sha256) {u v : UserId} {b c : Buffer}
    (h : digest env u b = digest env v c) : u = v ∧ b = c := by
  have hbytes : u.bytes ++ 0 :: b = v.bytes ++ 0 :: c := hinj h
  have hsplit : ∀ (x y b c : Buffer), 0 ∉ x → 0 ∉ y → x ++ 0 :: b = y ++ 0 :: c → x = y ∧ b = c := by
    intro x
    induction x with
    | nil =>
      intro y b c _ hy h
      cases y with
      | nil => exact ⟨rfl, (List.cons.inj h).2⟩
      | cons d y => exact absurd ((List.cons.inj h).1 ▸ List.mem_cons_self) hy
    | cons d x ih =>
      intro y b c hx hy h
      cases y with
      | nil => exact absurd ((List.cons.inj h).1 ▸ List.mem_cons_self) hx
      | cons e y =>
        obtain ⟨hd, hrest⟩ := List.cons.inj h
        obtain ⟨hxy, hbc⟩ := ih y b c (fun hm => hx (List.mem_cons_of_mem _ hm))
          (fun hm => hy (List.mem_cons_of_mem _ hm)) hrest
        exact ⟨by rw [hd, hxy], hbc⟩
  obtain ⟨huser, hbuffer⟩ := hsplit _ _ _ _ u.hnul v.hnul hbytes
  refine ⟨?_, hbuffer⟩
  cases u
  cases v
  cases huser
  rfl

/-- The asset that is found is the user's, with this hash. -/
theorem findAsset_eq_some {h : String} {a : MediaAsset} (hfind : s.findAsset h userId = some a) :
    a ∈ s.assets ∧ a.sha256Hash = h ∧ a.uploadedBy = userId := by
  have hp := List.find?_some hfind
  simp only [Bool.and_eq_true, decide_eq_true_eq] at hp
  exact ⟨List.mem_of_find?_eq_some hfind, hp⟩

/-- A row with the hash of a user and a content is found by the user. -/
theorem not_hash_of_findAsset (hkept : Kept env s) (hinj : Function.Injective env.sha256)
    (hfind : s.findAsset (digest env userId file.buffer) userId = none) :
    ∀ a ∈ s.assets, a.sha256Hash ≠ digest env userId file.buffer := by
  intro a ha hhash
  obtain ⟨buffer, hbuffer⟩ := hkept.hashed a ha
  obtain ⟨huser, -⟩ := digest_inj hinj (hbuffer.symm.trans hhash)
  have hnone := List.find?_eq_none.mp hfind a ha
  simp [hhash, huser] at hnone

/-! ## What is kept

Each asset has an object at the CDN, with the bytes that were uploaded. -/

/-- The rows are the old ones, of which some may have been deleted, and the objects of the live rows stay. -/
theorem Kept.of_rows (h : Kept env s)
    (hrows : ∀ b ∈ s'.assets, ∃ a ∈ s.assets, a.id = b.id ∧ a.sha256Hash = b.sha256Hash
      ∧ a.publicId = b.publicId ∧ a.uploadedBy = b.uploadedBy ∧ (b.deletedAt = none → a.deletedAt = none))
    (hobjects : ∀ b ∈ s'.assets, b.deletedAt = none → ∀ o ∈ s.objects, o.publicId = b.publicId →
      o ∈ s'.objects)
    (hnext : s.objects.next ≤ s'.objects.next) : Kept env s' := by
  -- a row is the only one with its id
  have hsame : ∀ b ∈ s'.assets, ∀ b' ∈ s'.assets, ∀ a ∈ s.assets, a.id = b.id → a.id = b'.id → b = b' :=
    fun b hb b' hb' a _ hid hid' => Table.eq_of_key_eq hb hb' (hid.symm.trans hid')
  constructor
  · intro b hb
    obtain ⟨a, ha, -, hhash, -, huser, -⟩ := hrows b hb
    rw [← hhash, ← huser]
    exact h.hashed a ha
  · intro b hb hlive
    obtain ⟨a, ha, -, hhash, hpublic, huser, halive⟩ := hrows b hb
    obtain ⟨o, ho, hid, hdigest⟩ := h.stored a ha (halive hlive)
    rw [← hhash, ← huser]
    exact ⟨o, hobjects b hb hlive o ho (hid.trans hpublic), hid.trans hpublic, hdigest⟩
  · intro b hb b' hb' he
    obtain ⟨a, ha, hid, hhash, -⟩ := hrows b hb
    obtain ⟨a', ha', hid', hhash', -⟩ := hrows b' hb'
    obtain rfl := h.hashes a ha a' ha' (hhash.trans (he.trans hhash'.symm))
    exact hsame b hb b' hb' a ha hid hid'
  · intro b hb b' hb' he
    obtain ⟨a, ha, hid, -, hpublic, -⟩ := hrows b hb
    obtain ⟨a', ha', hid', -, hpublic', -⟩ := hrows b' hb'
    obtain rfl := h.publicIds a ha a' ha' (hpublic.trans (he.trans hpublic'.symm))
    exact hsame b hb b' hb' a ha hid hid'
  · intro b hb
    obtain ⟨a, ha, -, -, hpublic, -⟩ := hrows b hb
    rw [← hpublic]
    exact Nat.lt_of_lt_of_le (h.drawn a ha) hnext

/-- A row is written that has the hash, the public id and the user of the one in its place. -/
theorem rows_save {a a' : MediaAsset} (ha : a ∈ s.assets) (hid : a.id = a'.id)
    (hhash : a.sha256Hash = a'.sha256Hash) (hpublic : a.publicId = a'.publicId)
    (huser : a.uploadedBy = a'.uploadedBy) (hlive : a'.deletedAt = none → a.deletedAt = none) :
    ∀ b ∈ s.assets.save a', ∃ a ∈ s.assets, a.id = b.id ∧ a.sha256Hash = b.sha256Hash
      ∧ a.publicId = b.publicId ∧ a.uploadedBy = b.uploadedBy ∧ (b.deletedAt = none → a.deletedAt = none) := by
  intro b hb
  rcases Serial.mem_save.mp hb with ⟨rfl, -⟩ | ⟨hb, -⟩
  · exact ⟨a, ha, hid, hhash, hpublic, huser, hlive⟩
  · exact ⟨b, hb, rfl, rfl, rfl, rfl, id⟩

/-- The store after a new object. -/
def withObject (s : Store) (buffer : Buffer) (category : MediaCategory) : Store :=
  { s with objects := s.objects.insert (⟨·, buffer, category⟩) fun _ => rfl }

/-- One object is added. -/
theorem mem_withObject {buffer : Buffer} {o : CdnObject} :
    o ∈ (withObject s buffer category).objects ↔ o ∈ s.objects ∨ o = ⟨s.objects.next, buffer, category⟩ :=
  @Serial.mem_insert _ _ s.objects _ (fun _ => rfl) o

/-- A new object takes nothing away. -/
theorem Kept.withObject (h : Kept env s) (buffer : Buffer) (category : MediaCategory) :
    Kept env (withObject s buffer category) := by
  refine h.of_rows (fun b hb => ⟨b, hb, rfl, rfl, rfl, rfl, id⟩) (fun b _ _ o ho _ => ?_) (Nat.le_succ _)
  exact mem_withObject.mpr (.inl ho)

/-- The store after a new object and its row. -/
def withAsset (env : Env) (s : Store) (file : File) (category : MediaCategory) (userId : UserId)
    (response : UploadApiResponse) (now : Time) : Store :=
  { withObject s file.buffer category with
    assets := s.assets.insert (newAsset env file category userId response s.objects.next now) fun _ => rfl }

/-- One asset is added. -/
theorem mem_withAsset {b : MediaAsset} :
    b ∈ (withAsset env s file category userId response now).assets
      ↔ b ∈ s.assets ∨ b = newAsset env file category userId response s.objects.next now s.assets.next :=
  @Serial.mem_insert _ _ s.assets _ (fun _ => rfl) b

/-- A new row with a new hash, of which the content is the new object. -/
theorem Kept.withAsset (h : Kept env s)
    (hfree : ∀ a ∈ s.assets, a.sha256Hash ≠ digest env userId file.buffer) :
    Kept env (withAsset env s file category userId response now) := by
  have hdrawn : ∀ a ∈ s.assets, a.publicId ≠ s.objects.next := fun a ha => Nat.ne_of_lt (h.drawn a ha)
  have hold := h.withObject file.buffer category
  constructor
  · intro b hb
    rcases mem_withAsset.mp hb with hb | rfl
    · exact h.hashed b hb
    · exact ⟨file.buffer, rfl⟩
  · intro b hb hlive
    rcases mem_withAsset.mp hb with hb | rfl
    · exact hold.stored b hb hlive
    · exact ⟨_, mem_withObject.mpr (.inr rfl), rfl, rfl⟩
  · intro b hb b' hb' he
    rcases mem_withAsset.mp hb with hb | rfl <;> rcases mem_withAsset.mp hb' with hb' | rfl
    · exact h.hashes b hb b' hb' he
    -- the new row against an old one: the hash is free
    · exact absurd he (hfree b hb)
    · exact absurd he.symm (hfree b' hb')
    · rfl
  · intro b hb b' hb' he
    rcases mem_withAsset.mp hb with hb | rfl <;> rcases mem_withAsset.mp hb' with hb' | rfl
    · exact h.publicIds b hb b' hb' he
    · exact absurd he (hdrawn b hb)
    · exact absurd he.symm (hdrawn b' hb')
    · rfl
  · intro b hb
    rcases mem_withAsset.mp hb with hb | rfl
    · exact hold.drawn b hb
    · exact Nat.lt_succ_self _

/-! ## The ways in which a call ends

An upload finds a live asset of the user, or adds an object. It adds an asset as well, unless a row has the hash
already, which a deleted one may. -/

/-- An upload that the scanner and the CDN let through. -/
inductive Uploaded (env : Env) (s : Store) (file : File) (category : MediaCategory) (userId : UserId)
    (response : UploadApiResponse) (now : Time) : Store × Except HttpException Reply → Prop where
  /-- The content has a live asset. -/
  | again {a : MediaAsset} (hfind : s.findAsset (digest env userId file.buffer) userId = some a)
      (hlive : a.deletedAt = none) :
      Uploaded env s file category userId response now
        ({ s with assets := s.assets.save { a with scanStatus := .clean, scannedAt := some now } },
          .ok (.media (toDto { a with scanStatus := .clean, scannedAt := some now })))
  /-- The object is stored, and its row is refused. -/
  | refused (hgone : ∀ a, s.findAsset (digest env userId file.buffer) userId = some a → a.deletedAt ≠ none)
      (hrefused : s.Taken (digest env userId file.buffer) s.objects.next ∨ ¬ Fits file response) :
      Uploaded env s file category userId response now
        (withObject s file.buffer category, .error .unhandled)
  | inserted (hfree : ¬ s.Taken (digest env userId file.buffer) s.objects.next) (hfits : Fits file response) :
      Uploaded env s file category userId response now
        (withAsset env s file category userId response now,
          .ok (.media (toDto (newAsset env file category userId response s.objects.next now s.assets.next))))

/-- What becomes of an upload whose file is not there, or is there deleted. -/
theorem uploadNew_cases
    (hgone : ∀ a, s.findAsset (digest env userId file.buffer) userId = some a → a.deletedAt ≠ none) :
    Uploaded env s file category userId response now
      (uploadNew env s file category userId (some response) now) := by
  simp only [uploadNew]
  split
  · next hrefused => exact .refused hgone hrefused
  · next hfree =>
    rw [not_or, not_not] at hfree
    exact .inserted hfree.1 hfree.2

/-- **The ways in which an upload ends.** -/
theorem upload_cases : Uploaded env s file category userId response now
    (upload env s file category userId (.ok ()) (some response) now) := by
  unfold upload
  cases hfind : s.findAsset (digest env userId file.buffer) userId with
  | none => exact uploadNew_cases fun a ha => (by cases hfind.symm.trans ha)
  | some a =>
    simp only
    split
    · next hlive => exact .again hfind (Option.isNone_iff_eq_none.mp hlive)
    · next hgone =>
      refine uploadNew_cases fun a' ha' => ?_
      obtain rfl : a = a' := Option.some.inj (hfind.symm.trans ha')
      exact fun hnone => hgone (Option.isNone_iff_eq_none.mpr hnone)

/-- A deletion does nothing, or takes the row and the object away. -/
theorem delete_cases (s : Store) (id : Nat) (userId : UserId) (userRole : String) (usage : Option Nat)
    (destroyed : Bool) (now : Time) :
    (delete s id userId userRole usage destroyed now).1 = s
      ∨ ∃ a ∈ s.assets, (delete s id userId userRole usage destroyed now).1
        = { assets := s.assets.save { a with deletedAt := some now, deletedBy := some userId }
            objects := s.objects.erase (·.publicId = a.publicId) } := by
  unfold delete
  cases hget : s.assets.get? id with
  | none => exact .inl rfl
  | some a =>
    simp only
    split
    · exact .inl rfl
    · split
      · exact .inl rfl
      · split
        · exact .inl rfl
        · split
          · exact .inl rfl
          · split
            · exact .inl rfl
            · exact .inr ⟨a, (Table.get?_eq_some.mp hget).1, rfl⟩

/-! ## Runs

Every call keeps the objects and the rows together. -/

/-- Every call keeps the objects and the rows together. -/
theorem kept_call (h : Kept env s) {call : Call} (hsucceeds : call.Succeeds) :
    Kept env (s.call env call).1 := by
  cases call with
  | upload file category userId scan cdn now =>
    obtain ⟨rfl, hcdn⟩ := hsucceeds
    obtain ⟨response, rfl⟩ := Option.isSome_iff_exists.mp hcdn
    have hcases : Uploaded env s file category userId response now
        (s.call env (.upload file category userId (.ok ()) (some response) now)) := upload_cases
    generalize s.call env (.upload file category userId (.ok ()) (some response) now) = r at hcases ⊢
    cases hcases with
    | again hfind hlive =>
      have ha := (findAsset_eq_some hfind).1
      exact h.of_rows (rows_save ha rfl rfl rfl rfl id) (fun _ _ _ o ho _ => ho) (Nat.le_refl _)
    | refused _ _ => exact h.withObject file.buffer category
    | inserted hfree _ => exact h.withAsset fun a ha he => hfree ⟨a, ha, .inl he⟩
  | delete id userId userRole usage destroyed now =>
    show Kept env (delete s id userId userRole usage destroyed now).1
    rcases delete_cases s id userId userRole usage destroyed now with he | ⟨a, ha, he⟩ <;> rw [he]
    · exact h
    · refine h.of_rows (rows_save ha rfl rfl rfl rfl (fun h => by cases h)) (fun b hb hlive o ho hpublic => ?_) (Nat.le_refl _)
      refine Serial.mem_erase.mpr ⟨ho, ?_⟩
      -- the object of another row stays
      rcases Serial.mem_save.mp hb with ⟨rfl, -⟩ | ⟨hb, hne⟩
      · cases hlive
      · exact decide_eq_false fun he => hne (h.publicIds b hb a ha (hpublic.symm.trans he) ▸ rfl)

/-- A user has one live asset of a content. -/
theorem Kept.once (h : Kept env s) {a b : MediaAsset} (ha : a ∈ s.assets) (hb : b ∈ s.assets)
    (halive : a.deletedAt = none) (hblive : b.deletedAt = none) (huser : a.uploadedBy = b.uploadedBy)
    {o o' : CdnObject} (ho : o ∈ s.objects) (ho' : o' ∈ s.objects) (hid : o.publicId = a.publicId)
    (hid' : o'.publicId = b.publicId) (hbuffer : o.buffer = o'.buffer) : a = b := by
  obtain ⟨p, hp, hpid, hhash⟩ := h.stored a ha halive
  obtain ⟨p', hp', hpid', hhash'⟩ := h.stored b hb hblive
  obtain rfl : o = p := Table.eq_of_key_eq ho hp (hid.trans hpid.symm)
  obtain rfl : o' = p' := Table.eq_of_key_eq ho' hp' (hid'.trans hpid'.symm)
  exact h.hashes a ha b hb (by rw [hhash, hhash', huser, hbuffer])

/-- The object of an asset that is found has the content. -/
theorem Kept.content (h : Kept env s) (hinj : Function.Injective env.sha256) {a : MediaAsset}
    (hfind : s.findAsset (digest env userId file.buffer) userId = some a) (hlive : a.deletedAt = none) :
    ∃ o ∈ s.objects, o.publicId = a.publicId ∧ o.buffer = file.buffer := by
  obtain ⟨ha, hhash, huser⟩ := findAsset_eq_some hfind
  obtain ⟨o, ho, hid, hdigest⟩ := h.stored a ha hlive
  exact ⟨o, ho, hid, (digest_inj hinj (hdigest.symm.trans hhash)).2⟩

/-! ## What a call leaves

The rows that are not deleted refer to objects that are there. -/

/-- Every object has a live asset. -/
def Referenced (s : Store) : Prop :=
  ∀ o ∈ s.objects, ∃ a ∈ s.assets, a.deletedAt = none ∧ a.publicId = o.publicId

/-- A deletion takes the object of the row along. -/
theorem Referenced.delete (h : Referenced s) (id : Nat) (userId : UserId) (userRole : String)
    (usage : Option Nat) (destroyed : Bool) (now : Time) :
    Referenced (delete s id userId userRole usage destroyed now).1 := by
  rcases delete_cases s id userId userRole usage destroyed now with he | ⟨a, ha, he⟩ <;> rw [he]
  · exact h
  · intro o ho
    obtain ⟨ho, hne⟩ := Serial.mem_erase.mp ho
    obtain ⟨b, hb, hlive, hpublic⟩ := h o ho
    refine ⟨b, Serial.mem_save.mpr (.inr ⟨hb, fun hid => ?_⟩), hlive, hpublic⟩
    -- the row of the object that is left is another one
    obtain rfl : b = a := Table.eq_of_key_eq hb ha hid
    exact of_decide_eq_false hne hpublic.symm

theorem Referenced.save (h : Referenced s) {a a' : MediaAsset} (ha : a ∈ s.assets) (hid : a.id = a'.id)
    (hpublic : a.publicId = a'.publicId) (hlive : a'.deletedAt = none) :
    Referenced { s with assets := s.assets.save a' } := by
  intro o ho
  obtain ⟨b, hb, hblive, hbpublic⟩ := h o ho
  by_cases hk : b.id = a'.id
  · obtain rfl : b = a := Table.eq_of_key_eq hb ha (hk.trans hid.symm)
    exact ⟨a', Serial.mem_save.mpr (.inl ⟨rfl, b, hb, hid⟩), hlive, hpublic.symm.trans hbpublic⟩
  · exact ⟨b, Serial.mem_save.mpr (.inr ⟨hb, hk⟩), hblive, hbpublic⟩

theorem Referenced.withAsset (h : Referenced s) :
    Referenced (withAsset env s file category userId response now) := by
  intro o ho
  rcases mem_withObject.mp ho with ho | rfl
  · obtain ⟨b, hb, hlive, hpublic⟩ := h o ho
    exact ⟨b, mem_withAsset.mpr (.inl hb), hlive, hpublic⟩
  · exact ⟨_, mem_withAsset.mpr (.inr rfl), rfl, rfl⟩

/-- A row that is refused while the user has no row of the content does not fit. -/
theorem not_fits_of_refused (h : Kept env s) (hinj : Function.Injective env.sha256)
    (hfind : s.findAsset (digest env userId file.buffer) userId = none)
    (hrefused : s.Taken (digest env userId file.buffer) s.objects.next ∨ ¬ Fits file response) :
    ¬ Fits file response := by
  rcases hrefused with ⟨a, ha, hhash | hpublic⟩ | hfits
  · exact absurd hhash (not_hash_of_findAsset h hinj hfind a ha)
  · exact absurd hpublic (Nat.ne_of_lt (h.drawn a ha))
  · exact hfits

/-- **One upload** leaves an asset and no object without one exactly when it can. -/
theorem upload_works_iff (hinj : Function.Injective env.sha256) (h : Kept env s) (hreferenced : Referenced s) :
    (Returned (upload env s file category userId (.ok ()) (some response) now).1 userId file.buffer
        (upload env s file category userId (.ok ()) (some response) now).2
      ∧ Referenced (upload env s file category userId (.ok ()) (some response) now).1)
      ↔ Uploadable env s (.upload file category userId (.ok ()) (some response) now) := by
  have hcases : Uploaded env s file category userId response now
    (upload env s file category userId (.ok ()) (some response) now) := upload_cases
  generalize upload env s file category userId (.ok ()) (some response) now = r at hcases ⊢
  cases hcases with
  -- an upload of a file that the user has already
  | @again a hfind hlive =>
    obtain ⟨ha, hhash, huser⟩ := findAsset_eq_some hfind
    have hcan : Uploadable env s (.upload file category userId (.ok ()) (some response) now) := by
      simp only [Uploadable, hfind]
      exact hlive
    have hcontent := h.content hinj hfind hlive
    refine iff_of_true ⟨⟨_, Serial.mem_save.mpr (.inl ⟨rfl, a, ha, rfl⟩), rfl, hlive, rfl, huser, ?_⟩, ?_⟩ hcan
    · exact hcontent
    · exact hreferenced.save ha rfl rfl hlive
  | refused hgone hrefused =>
    refine iff_of_false (fun hworks => ?_) fun hcan => ?_
    · obtain ⟨⟨a, _, hresult, _⟩, _⟩ := hworks
      cases hresult
    · -- the row that was found is a deleted one, and without one the new row does not fit
      cases hfind : s.findAsset (digest env userId file.buffer) userId with
      | some a =>
        simp only [Uploadable, hfind] at hcan
        exact hgone a hfind hcan
      | none =>
        simp only [Uploadable, hfind] at hcan
        exact not_fits_of_refused h hinj hfind hrefused (hcan response rfl)
  -- a new file
  | inserted hfree hfits =>
    have hcan : Uploadable env s (.upload file category userId (.ok ()) (some response) now) := by
      cases hfind : s.findAsset (digest env userId file.buffer) userId with
      | some a =>
        obtain ⟨ha, hhash, -⟩ := findAsset_eq_some hfind
        exact absurd ⟨a, ha, .inl hhash⟩ hfree
      | none =>
        simp only [Uploadable, hfind]
        intro response' hresponse'
        obtain rfl := Option.mem_some.mp hresponse'
        exact hfits
    refine iff_of_true ⟨⟨_, mem_withAsset.mpr (.inr rfl), rfl, rfl, rfl, rfl, ?_⟩, hreferenced.withAsset⟩ hcan
    exact ⟨_, mem_withObject.mpr (.inr rfl), rfl, rfl⟩

/-- **One call** works exactly when it can. -/
theorem work_step_iff (hinj : Function.Injective env.sha256) {q : Answered} {call : Call}
    (h : Kept env q.store) (hsucceeds : call.Succeeds) (hwork : UploadsWork q) :
    UploadsWork (q.step env call) ↔ Uploadable env q.store call := by
  have hkept := kept_call h hsucceeds
  have honce : ∀ a ∈ (q.step env call).store.assets, ∀ b ∈ (q.step env call).store.assets,
      a.deletedAt = none → b.deletedAt = none → a.uploadedBy = b.uploadedBy →
      ∀ o ∈ (q.step env call).store.objects, ∀ o' ∈ (q.step env call).store.objects,
        o.publicId = a.publicId → o'.publicId = b.publicId → o.buffer = o'.buffer → a = b :=
    fun a ha b hb halive hblive huser o ho o' ho' => hkept.once ha hb halive hblive huser ho ho'
  cases call with
  -- a deletion returns no file, and keeps what the rows refer to
  | delete id userId userRole usage destroyed now =>
    refine iff_of_true ⟨fun file' category' userId' scan' cdn' now' result hlast => ?_, honce, ?_⟩ trivial
    · obtain ⟨hcall, -⟩ := Prod.mk.inj (Option.some.inj hlast)
      exact Call.noConfusion hcall
    · exact Referenced.delete hwork.referenced id userId userRole usage destroyed now
  | upload file category userId scan cdn now =>
    obtain ⟨rfl, hcdn⟩ := hsucceeds
    obtain ⟨response, rfl⟩ := Option.isSome_iff_exists.mp hcdn
    rw [← upload_works_iff hinj h hwork.referenced]
    constructor
    · intro hnext
      refine ⟨?_, hnext.referenced⟩
      exact hnext.returned file category userId (.ok ()) (some response) now _ rfl
    · rintro ⟨hreturned, hreferenced⟩
      refine ⟨fun file' category' userId' scan' cdn' now' result hlast => ?_, honce, hreferenced⟩
      obtain ⟨hcall, rfl⟩ := Prod.mk.inj (Option.some.inj hlast)
      obtain ⟨rfl, -, rfl, -⟩ := Call.upload.inj hcall
      exact hreturned

theorem kept_empty (env : Env) : Kept env Store.empty := by
  constructor <;> intro a ha <;> exact absurd ha (Table.not_mem_empty a)

theorem uploadsWork_empty : UploadsWork ⟨Store.empty, none⟩ where
  returned := fun _ _ _ _ _ _ _ hlast => absurd hlast.symm (Option.some_ne_none _)
  once := fun a ha => absurd ha (Table.not_mem_empty a)
  referenced := fun o ho => absurd ho (Table.not_mem_empty o)

namespace Sample

/-- A hash without collisions. -/
def bytesEnv : Env where
  sha256 := fun buffer => String.ofList (buffer.map Char.ofUInt8)

def student : UserId := ⟨[49], by decide⟩

def notes : File := ⟨"notes", "text/plain", [7]⟩

def uploadNotes (now : Time) : Call :=
  .upload notes .document student (.ok ()) (some ⟨"/notes", some "txt"⟩) now

/-- The same content twice, and then its deletion. -/
def twice : List Call := [uploadNotes 1, uploadNotes 2, .delete 0 student "student" (some 0) true 3]

/-- A content is uploaded, deleted, and uploaded again. -/
def again : List Call := [uploadNotes 1, .delete 0 student "student" (some 0) true 2, uploadNotes 3]

theorem bytesEnv_injective : Function.Injective bytesEnv.sha256 := by
  intro x y h
  have hchars : x.map Char.ofUInt8 = y.map Char.ofUInt8 := String.ofList_injective h
  refine List.map_injective_iff.mpr (fun b c hbc => ?_) hchars
  have hval : b.toUInt32 = c.toUInt32 := congrArg Char.val hbc
  exact UInt8.toNat_inj.mp (by simpa using congrArg UInt32.toNat hval)

end Sample

end AcaSocial.Media
