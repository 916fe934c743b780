import AcaSocial.Base.Run
import AcaSocial.Base.Table

/-!
# The media service

`media.service.ts` with its entity and its CDN.

* **`MediaAsset`** — a row of `media_assets`. A deleted file keeps its row, with `deletedAt` set.
* **`CdnObject`** — what the CDN has stored, under a public id that is new each time.
* **`Store`** — both.
* **`upload`**, **`delete`** — the methods, each as one step. What the scanner, the CDN and the
  discussion service answer is part of the call.

Bytes are `UInt8`. A user id is the text of the header in bytes, and a header has no NUL.
-/

namespace AcaSocial.Media

abbrev Time := Nat

abbrev Buffer := List UInt8

inductive MediaCategory where
  | image
  | document
  | code
deriving DecidableEq

inductive ScanStatus where
  | clean
  | unverified
deriving DecidableEq

/-- The text of `X-User-ID`. -/
structure UserId where
  bytes : Buffer
  hnul : 0 ∉ bytes
deriving DecidableEq

/-- A row of `media_assets`. -/
structure MediaAsset where
  id : Nat
  scanStatus : ScanStatus
  scannedAt : Option Time
  originalName : String
  publicId : Nat
  secureUrl : String
  format : String
  mimeType : String
  category : MediaCategory
  sizeBytes : Nat
  sha256Hash : String
  uploadedBy : UserId
  createdAt : Time
  deletedAt : Option Time
  deletedBy : Option UserId
deriving DecidableEq

/-- An object that the CDN has stored and that was not destroyed. -/
structure CdnObject where
  publicId : Nat
  buffer : Buffer
  category : MediaCategory
deriving DecidableEq

structure Store where
  assets : Serial MediaAsset MediaAsset.id
  objects : Serial CdnObject CdnObject.publicId

def Store.empty : Store := ⟨∅, ∅⟩

/-- What is taken from outside: SHA-256 as hexadecimal digits. -/
structure Env where
  sha256 : Buffer → String

structure File where
  originalname : String
  mimetype : String
  buffer : Buffer

def File.size (file : File) : Nat := file.buffer.length

/-- What the CDN answers to an upload, beside the public id. Raw files have no format. -/
structure UploadApiResponse where
  secureUrl : String
  format : Option String

structure MediaResponseDto where
  scanStatus : ScanStatus
  scannedAt : Option Time
  id : Nat
  originalName : String
  secureUrl : String
  format : String
  mimeType : String
  category : MediaCategory
  sizeBytes : Nat
  uploadedBy : UserId
  createdAt : Time
deriving DecidableEq

inductive HttpException where
  | badRequest (message : String)
  | forbidden (message : String)
  | notFound (message : String)
  | internalServerError (message : String)
  | serviceUnavailable (message : String)
  /-- An error that nothing catches. -/
  | unhandled
deriving DecidableEq

inductive Reply where
  | media (dto : MediaResponseDto)
  | message (message : String)
deriving DecidableEq

/-! ## Names of files

The format of a file comes from the CDN, and from the name of the upload where the CDN gives none. -/

/-- `extname` of a path: the last segment from its last dot on, unless nothing is before the dot. -/
def extname (path : String) : List Char :=
  let base := ((path.toList.reverse.dropWhile (· = '/')).takeWhile (· ≠ '/')).reverse
  let stem := base.reverse.dropWhile (· ≠ '.')
  match stem with
  | [] | [_] => []
  | _ :: before =>
    if base = ['.', '.'] then [] else '.' :: base.drop (before.length + 1)

/-- The format of a file that the CDN gives none: the extension in lower case, or `bin`. -/
def fallbackFormat (file : File) : String :=
  match (((extname file.originalname).drop 1).take 20).map Char.toLower with
  | [] => "bin"
  | cs => String.ofList cs

/-- `format || extension || 'bin'`. -/
def formatOf (file : File) (response : UploadApiResponse) : String :=
  match response.format with
  | none | some "" => fallbackFormat file
  | some format => format

/-! ## The service

Uploads are recognised by their hash; a file seen before is answered from its row. -/

/-- Only what a client may see. -/
def toDto (asset : MediaAsset) : MediaResponseDto where
  id := asset.id
  originalName := asset.originalName
  secureUrl := if asset.scanStatus = .clean then asset.secureUrl else ""
  scanStatus := asset.scanStatus
  scannedAt := asset.scannedAt
  format := asset.format
  mimeType := asset.mimeType
  category := asset.category
  sizeBytes := asset.sizeBytes
  uploadedBy := asset.uploadedBy
  createdAt := asset.createdAt

section

variable (env : Env) (s : Store)

/-- `sha256(userId + '\0' + file.buffer)`. -/
def digest (userId : UserId) (buffer : Buffer) : String :=
  env.sha256 (userId.bytes ++ 0 :: buffer)

/-- The row that `upload` inserts. -/
def newAsset (file : File) (category : MediaCategory) (userId : UserId) (response : UploadApiResponse)
    (publicId : Nat) (now : Time) (id : Nat) : MediaAsset where
  id
  originalName := String.ofList (file.originalname.toList.take 255)
  publicId
  secureUrl := response.secureUrl
  format := formatOf file response
  mimeType := file.mimetype
  category
  sizeBytes := file.size
  sha256Hash := digest env userId file.buffer
  uploadedBy := userId
  scanStatus := .clean
  scannedAt := some now
  createdAt := now
  deletedAt := none
  deletedBy := none

/-- The text columns have room for the values. -/
def Fits (file : File) (response : UploadApiResponse) : Prop :=
  (formatOf file response).length ≤ 20 ∧ file.mimetype.length ≤ 100

instance (file : File) (response : UploadApiResponse) : Decidable (Fits file response) :=
  inferInstanceAs (Decidable (_ ∧ _))

/-- Another row has the hash or the public id. Rows of deleted files count. -/
def Store.Taken (sha256Hash : String) (publicId : Nat) : Prop :=
  ∃ a ∈ s.assets.rows, a.sha256Hash = sha256Hash ∨ a.publicId = publicId

instance (sha256Hash : String) (publicId : Nat) : Decidable (s.Taken sha256Hash publicId) :=
  inferInstanceAs (Decidable (∃ a ∈ s.assets.rows, _))

/-- `upload` of a file that has no asset: it is stored on the CDN, and then its row is inserted. -/
def uploadNew (file : File) (category : MediaCategory) (userId : UserId)
    (cdn : Option UploadApiResponse) (now : Time) : Store × Except HttpException Reply :=
  match cdn with
  | none => (s, .error (.internalServerError "Không thể upload file lên CDN. Vui lòng thử lại."))
  | some response =>
    let publicId := s.objects.next
    let s' := { s with objects := s.objects.insert (⟨·, file.buffer, category⟩) fun _ => rfl }
    if s'.Taken (digest env userId file.buffer) publicId ∨ ¬ Fits file response then
      (s', .error .unhandled)
    else
      ({ s' with
          assets := s'.assets.insert (newAsset env file category userId response publicId now)
            fun _ => rfl },
        .ok (.media (toDto (newAsset env file category userId response publicId now s'.assets.next))))

/-- The row of the user with the hash. `findOne` sees the rows of deleted files. -/
def Store.findAsset (sha256Hash : String) (userId : UserId) : Option MediaAsset :=
  s.assets.rows.find? fun a => a.sha256Hash = sha256Hash && a.uploadedBy = userId

def upload (file : File) (category : MediaCategory) (userId : UserId) (scan : Except HttpException Unit)
    (cdn : Option UploadApiResponse) (now : Time) : Store × Except HttpException Reply :=
  match scan with
  | .error e => (s, .error e)
  | .ok () =>
    match s.findAsset (digest env userId file.buffer) userId with
    | none => uploadNew env s file category userId cdn now
    | some existing =>
      if existing.deletedAt.isNone then
        let existing := { existing with scanStatus := .clean, scannedAt := some now }
        ({ s with assets := s.assets.save existing }, .ok (.media (toDto existing)))
      else uploadNew env s file category userId cdn now

/-- `delete`, where `usage` is the count that the discussion service answers, or nothing, and `destroyed`
says whether the CDN took the object away. -/
def delete (id : Nat) (userId : UserId) (userRole : String) (usage : Option Nat) (destroyed : Bool)
    (now : Time) : Store × Except HttpException Reply :=
  match s.assets.get? id with
  | none => (s, .error (.notFound ("Media với id \"" ++ toString id ++ "\" không tồn tại hoặc đã bị xóa")))
  | some asset =>
    if asset.deletedAt.isSome then
      (s, .error (.notFound ("Media với id \"" ++ toString id ++ "\" không tồn tại hoặc đã bị xóa")))
    else if asset.uploadedBy ≠ userId ∧ ¬ (userRole = "admin" ∨ userRole = "moderator") then
      (s, .error (.forbidden "Bạn không có quyền xóa file này"))
    else
      match usage with
      | none => (s, .error (.serviceUnavailable "Cannot verify attachment usage"))
      | some count =>
        if count > 0 then
          (s, .error (.badRequest "Remove this file from its posts before deleting it"))
        else if !destroyed then (s, .error .unhandled)
        else
          ({ assets := s.assets.save { asset with deletedAt := some now, deletedBy := some userId }
             objects := s.objects.erase (·.publicId = asset.publicId) },
            .ok (.message "Xóa file thành công"))

end

/-! ## The service as a transition system

One call after the other, with the answers that have been given. -/

/-- A call, with what it is answered from outside. -/
inductive Call where
  | upload (file : File) (category : MediaCategory) (userId : UserId) (scan : Except HttpException Unit)
      (cdn : Option UploadApiResponse) (now : Time)
  | delete (id : Nat) (userId : UserId) (userRole : String) (usage : Option Nat) (destroyed : Bool)
      (now : Time)

def Store.call (env : Env) (s : Store) : Call → Store × Except HttpException Reply
  | .upload file category userId scan cdn now => Media.upload env s file category userId scan cdn now
  | .delete id userId userRole usage destroyed now => Media.delete s id userId userRole usage destroyed now

/-- The store, and the last call with its answer. -/
structure Answered where
  store : Store
  last : Option (Call × Except HttpException Reply)

def Answered.step (env : Env) (q : Answered) (call : Call) : Answered :=
  let r := q.store.call env call
  ⟨r.1, some (call, r.2)⟩

example : extname "notes.v2.TXT" = ".TXT".toList ∧ extname ".bashrc" = [] ∧ extname "a.b/c" = [] := by
  decide

end AcaSocial.Media
