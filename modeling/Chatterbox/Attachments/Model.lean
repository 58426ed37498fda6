import Chatterbox.Conversations
import Chatterbox.Run
import Chatterbox.RowLock

/-!
# Attachments: reservation, completion, binding and cleanup

The four operations on an attachment and the two stores they share: the table
`attachments`, of which an operation sees what READ COMMITTED and the row locks
let it see, and the bucket, which clients write to directly through presigned
URLs.  Each operation is one transaction, cut into the steps at which others can
get in between:

| operation | steps |
|---|---|
| `AttachmentService.reserve` | `reserve`, `commit` |
| `AttachmentService.complete` | `complete`, `lockRow`, `stat`, `scan`, `copy`, `commit`, `removeSource` |
| `MessageService.create` | `create`, `lockNext` for every row, `flush`, `commit` |
| `AttachmentService.cleanup_abandoned` | `cleanup`, `pickNext` for every row, `selected`, `removeNext` for every row, `commit` |

A transaction may also `abort` between any two steps: an exception, a lost
connection, a deadlock victim.  Its row locks and uncommitted changes go, what it
did to the bucket stays.

## What is left to the environment

* The string functions of the Python library that are applied to file names,
  content types and message texts (`Text`) are parameters.
* So is the ETag that MinIO computes from the content of an object, and the reply
  of the malware scanner, which may be any text.
* A label names the order in which a statement that locks several rows gets them,
  and which of the qualifying rows `list_abandoned` takes: its `ORDER BY` is one
  choice among those the model allows.
* A client may `put` anything under any pending key at any time.
-/

namespace Chatterbox.Attachments

abbrev Bytes := List UInt8

abbrev ETag := List UInt8

/-- The two prefixes of the bucket. -/
inductive Area where
  | pending
  | objects
deriving DecidableEq, Repr

/-- A storage key: `{area}/{conversation_id}/{uploader_id}/{attachment_id}{suffix}`. -/
structure StorageKey where
  area : Area
  conversationId : UUID
  uploaderId : UUID
  attachmentId : UUID
  suffix : String
deriving DecidableEq, Repr

/-- A stored object, with the media type it was uploaded under. -/
structure Object where
  content : Bytes
  contentType : String
deriving DecidableEq, Repr

/-- What `ObjectStorage.stat` returns. -/
structure StoredObjectMetadata where
  size : Nat
  contentType : String
  etag : ETag
deriving DecidableEq, Repr

/-- `models.Attachment`: a row of `attachments`. -/
structure Attachment where
  conversationId : UUID
  uploaderId : UUID
  messageId : Option UUID
  filename : String
  mimeType : String
  fileSize : Nat
  storageKey : StorageKey
  createdAt : Instant
  uploadedAt : Option Instant
deriving DecidableEq, Repr

/-- `models.Message`: the columns that binding an attachment relies on. -/
structure Message where
  conversationId : UUID
  senderId : UUID
  content : String
deriving DecidableEq, Repr

/-- The library's string functions. -/
structure Text where
  /-- `Path(filename).suffix.lower()[:16]`. -/
  suffix : String → String
  /-- `content_type.split(";", 1)[0].strip().lower()`. -/
  mimeType : String → String
  /-- `content.strip()`. -/
  strip : String → String

/-- `attachment_scan_mode`. -/
inductive ScanMode where
  | disabled
  | clamav
deriving DecidableEq, Repr

/-- The settings, the object store's ETag and the conversations. -/
structure Config where
  text : Text
  etag : Bytes → ETag
  attachmentMaxBytes : Nat
  attachmentMaxPerMessage : Nat
  scanMode : ScanMode
  members : Members

/-! ## Errors and checks -/

def attachmentNotFound : AppError := ⟨404, "ATTACHMENT_NOT_FOUND", "Attachment was not found"⟩
def attachmentNotUploaded : AppError :=
  ⟨409, "ATTACHMENT_NOT_UPLOADED", "Upload has not completed"⟩
def attachmentSizeMismatch : AppError :=
  ⟨422, "ATTACHMENT_SIZE_MISMATCH", "Uploaded file size is invalid"⟩
def attachmentTypeMismatch : AppError :=
  ⟨422, "ATTACHMENT_TYPE_MISMATCH", "Uploaded file type is invalid"⟩
def attachmentChanged : AppError :=
  ⟨409, "ATTACHMENT_CHANGED",
    "The uploaded file changed during verification; upload it again"⟩
def attachmentTypeNotAllowed : AppError :=
  ⟨422, "ATTACHMENT_TYPE_NOT_ALLOWED", "File type is not allowed"⟩
def attachmentTooLarge : AppError :=
  ⟨422, "ATTACHMENT_TOO_LARGE", "File exceeds the upload limit"⟩
def attachmentInfected : AppError :=
  ⟨422, "ATTACHMENT_INFECTED", "The uploaded file did not pass the security scan"⟩
def scanUnavailable : AppError :=
  ⟨503, "ATTACHMENT_SCAN_UNAVAILABLE", "Attachment scanning is temporarily unavailable"⟩
def scanInvalid : AppError :=
  ⟨503, "ATTACHMENT_SCAN_UNAVAILABLE", "Attachment scanning returned an invalid result"⟩
def emptyMessage : AppError :=
  ⟨422, "EMPTY_MESSAGE", "Message must contain text or an attachment"⟩
def tooManyAttachments : AppError :=
  ⟨422, "TOO_MANY_ATTACHMENTS", "Message has too many attachments"⟩
def duplicateAttachments : AppError :=
  ⟨422, "DUPLICATE_ATTACHMENTS", "Attachment IDs must be unique"⟩
def invalidAttachments : AppError :=
  ⟨422, "INVALID_ATTACHMENTS", "One or more attachments are invalid"⟩

def allowedMimeTypes : List String :=
  ["application/pdf", "application/zip", "image/gif", "image/jpeg", "image/png", "image/webp",
    "text/plain"]

/-- `AttachmentService._validate_metadata`. -/
def validateMetadata (cfg : Config) (mimeType : String) (fileSize : Nat) : Except AppError Unit :=
  if mimeType ∉ allowedMimeTypes then .error attachmentTypeNotAllowed
  else if fileSize > cfg.attachmentMaxBytes then .error attachmentTooLarge
  else .ok ()

/-- What `_scan_response` comes back with: an `OSError` or a timeout, or the decoded reply. -/
inductive Reply where
  | unavailable
  | text (result : List Char)
deriving DecidableEq, Repr

/-- `ClamAVAttachmentScanner.scan`, once the object has been streamed to the daemon. -/
def scanResult : Reply → Except AppError Unit
  | .unavailable => .error scanUnavailable
  | .text result =>
      if ['F', 'O', 'U', 'N', 'D'].isSuffixOf result then .error attachmentInfected
      else if ¬ ['O', 'K'].isSuffixOf result then .error scanInvalid
      else .ok ()

/-- What the scanner read in one call of `scan` that returned normally. -/
structure CleanRead where
  content : Bytes
  reply : Reply
  clean : scanResult reply = .ok ()

/-- The key under which `reserve` lets the client upload. -/
def pendingKey (cfg : Config) (id conversationId uploaderId : UUID) (filename : String) :
    StorageKey :=
  ⟨.pending, conversationId, uploaderId, id, cfg.text.suffix filename⟩

/-- The key to which `complete` promotes the object. -/
def finalKey (cfg : Config) (id : UUID) (row : Attachment) : StorageKey :=
  ⟨.objects, row.conversationId, row.uploaderId, id, cfg.text.suffix row.filename⟩

/-- The row may not be bound to a message of `sender` in the conversation. -/
def unusable (conversationId senderId : UUID) (row : Attachment) : Prop :=
  row.conversationId ≠ conversationId ∨ row.uploaderId ≠ senderId ∨ row.uploadedAt = none ∨
    row.messageId ≠ none

instance (conversationId senderId : UUID) : DecidablePred (unusable conversationId senderId) :=
  fun _ ↦ inferInstanceAs (Decidable (_ ∨ _))

/-- The `WHERE` clause of `list_abandoned`. -/
def abandoned (cutoff : Instant) (row : Attachment) : Prop :=
  row.messageId = none ∧ row.createdAt < cutoff

instance (cutoff : Instant) : DecidablePred (abandoned cutoff) :=
  fun _ ↦ inferInstanceAs (Decidable (_ ∧ _))

/-! ## States -/

/-- An operation in flight, with its transaction. -/
abbrev Tx := Nat

/-- Rows a transaction has locked, in the version it read. -/
abbrev Locked := List (UUID × Attachment)

/-- How far an operation has got. -/
inductive Phase where
  | idle
  /-- `reserve` has added the row to its session. -/
  | reserved (id : UUID) (row : Attachment)
  /-- `complete` is about to select the row for update. -/
  | completing (id userId : UUID)
  /-- The row is locked and belongs to the caller. -/
  | checked (id : UUID) (row : Attachment)
  /-- `stat` has returned; size and type are as declared. -/
  | measured (id : UUID) (row : Attachment) (etag : ETag)
  /-- The scanner has returned normally. -/
  | scanned (id : UUID) (row : Attachment) (etag : ETag) (read : Option CleanRead)
  /-- `copy_if_unchanged` has returned. -/
  | copied (id : UUID) (row : Attachment) (read : Option CleanRead)
  /-- Committed; the staging object is still to be removed. -/
  | finalized (id : UUID) (source : StorageKey)
  /-- `create` is locking the rows it found. -/
  | creating (message : Message) (ids todo : List UUID) (locked : Locked)
  /-- `create` has flushed the message and the bindings. -/
  | bound (id : UUID) (message : Message) (locked : Locked)
  /-- `list_abandoned` is locking rows. -/
  | selecting (cutoff : Instant) (limit : Nat) (batch : Locked)
  /-- `cleanup_abandoned` is removing objects; the rows in `deleted` go at the commit. -/
  | removing (todo deleted : Locked)
  | done
  /-- Answered with an `AppError`, or ended by another exception. -/
  | failed (error : Option AppError)

/-- The database, the bucket, the clock and the operations in flight. -/
structure State where
  now : Instant
  attachments : Table UUID Tx Attachment
  messages : UUID → Option Message
  bucket : StorageKey → Option Object
  /-- The identifiers that `uuid4` has drawn so far. -/
  drawn : List UUID
  phase : Tx → Phase

namespace State

/-- Move one operation on. -/
def set (s : State) (tx : Tx) (ph : Phase) : State :=
  { s with phase := Function.update s.phase tx ph }

/-- The session of an operation is closed without a commit. -/
def close (s : State) (tx : Tx) (ph : Phase) : State :=
  { s.set tx ph with attachments := s.attachments.release tx }

/-- The operation raises an `AppError`. -/
def fail (s : State) (tx : Tx) (e : AppError) : State := s.close tx (.failed (some e))

end State

/-! ## The steps of the operations -/

/-- `AttachmentService.reserve`, up to the commit. -/
def reserve (cfg : Config) (s : State) (tx : Tx) (conversationId uploaderId : UUID)
    (filename mimeType : String) (fileSize : Nat) (id : UUID) : Option State :=
  match s.phase tx with
  | .idle =>
      match getAuthorized cfg.members conversationId uploaderId with
      | .error e => some (s.fail tx e)
      | .ok _ =>
          match validateMetadata cfg mimeType fileSize with
          | .error e => some (s.fail tx e)
          | .ok _ =>
              if id ∉ s.drawn then
                some { s.set tx (.reserved id
                  { conversationId, uploaderId, messageId := none, filename, mimeType, fileSize,
                    storageKey := pendingKey cfg id conversationId uploaderId filename,
                    createdAt := s.now, uploadedAt := none }) with drawn := id :: s.drawn }
              else none
  | _ => none

/-- The checks of `complete` on the row it has locked. -/
def checkRow (cfg : Config) (s : State) (tx : Tx) (id userId : UUID) (row : Attachment) : State :=
  if row.uploaderId ≠ userId then s.fail tx attachmentNotFound
  else
    match getAuthorized cfg.members row.conversationId userId with
    | .error e => s.fail tx e
    | .ok _ =>
        if row.uploadedAt ≠ none then s.close tx .done else s.set tx (.checked id row)

/-- `get_by_id_for_update`: a row that is gone is not found, one that another
transaction holds is waited for. -/
def lockRow (cfg : Config) (s : State) (tx : Tx) : Option State :=
  match s.phase tx with
  | .completing id userId =>
      match s.attachments.row id with
      | none => some (s.fail tx attachmentNotFound)
      | some row =>
          (s.attachments.lock tx id).map fun attachments ↦
            checkRow cfg { s with attachments } tx id userId row
  | _ => none

/-- `ObjectStorage.stat` of an object that is there. -/
def metadata (cfg : Config) (object : Object) : StoredObjectMetadata where
  size := object.content.length
  contentType :=
    if object.contentType = "" then "application/octet-stream" else object.contentType
  etag := cfg.etag object.content

/-- `storage.stat` and the checks on the metadata it returns. -/
def stat (cfg : Config) (s : State) (tx : Tx) : Option State :=
  match s.phase tx with
  | .checked id row =>
      match s.bucket row.storageKey with
      | none => some (s.fail tx attachmentNotUploaded)
      | some object =>
          let metadata := metadata cfg object
          if metadata.size ≠ row.fileSize then some (s.fail tx attachmentSizeMismatch)
          else if cfg.text.mimeType metadata.contentType ≠ row.mimeType then
            some (s.fail tx attachmentTypeMismatch)
          else some (s.set tx (.measured id row metadata.etag))
  | _ => none

/-- `scanner.scan`: the object is read again, whatever it holds by now. -/
def scan (cfg : Config) (s : State) (tx : Tx) (reply : Reply) : Option State :=
  match s.phase tx with
  | .measured id row etag =>
      match cfg.scanMode with
      | .disabled => some (s.set tx (.scanned id row etag none))
      | .clamav =>
          match s.bucket row.storageKey with
          | none => some (s.close tx (.failed none))
          | some object =>
              match h : scanResult reply with
              | .error e => some (s.fail tx e)
              | .ok () => some (s.set tx (.scanned id row etag (some ⟨object.content, reply, h⟩)))
  | _ => none

/-- `copy_if_unchanged`: the copy is made if the object still has the ETag. -/
def copy (cfg : Config) (s : State) (tx : Tx) : Option State :=
  match s.phase tx with
  | .scanned id row etag read =>
      match s.bucket row.storageKey with
      | none => some (s.close tx (.failed none))
      | some object =>
          if cfg.etag object.content ≠ etag then some (s.fail tx attachmentChanged)
          else some { s.set tx (.copied id row read) with
            bucket := Function.update s.bucket (finalKey cfg id row) (some object) }
  | _ => none

/-- `storage.remove(source_key)` after the commit; a failure is only logged. -/
def removeSource (s : State) (tx : Tx) (ok : Bool) : Option State :=
  match s.phase tx with
  | .finalized _ source =>
      some { s.set tx .done with
        bucket := if ok then Function.update s.bucket source none else s.bucket }
  | _ => none

/-- `MessageService.create`, up to `lock_for_message`.  The statement sees the
rows committed when it starts. -/
def create (cfg : Config) (s : State) (tx : Tx) (conversationId senderId : UUID)
    (content : String) (ids : List UUID) : Option State :=
  match s.phase tx with
  | .idle =>
      match getAuthorized cfg.members conversationId senderId with
      | .error e => some (s.fail tx e)
      | .ok _ =>
          if cfg.text.strip content = "" ∧ ids = [] then some (s.fail tx emptyMessage)
          else if ids.length > cfg.attachmentMaxPerMessage then
            some (s.fail tx tooManyAttachments)
          else if ¬ ids.Nodup then some (s.fail tx duplicateAttachments)
          else some (s.set tx (.creating ⟨conversationId, senderId, cfg.text.strip content⟩ ids
            (ids.filter fun id ↦ (s.attachments.row id).isSome) []))
  | _ => none

/-- `lock_for_message` gets one more row, or finds that it has been deleted. -/
def lockNext (s : State) (tx : Tx) (id : UUID) : Option State :=
  match s.phase tx with
  | .creating message ids todo locked =>
      if id ∈ todo then
        match s.attachments.row id with
        | none => some (s.set tx (.creating message ids (todo.erase id) locked))
        | some row =>
            (s.attachments.lock tx id).map fun attachments ↦
              { s.set tx (.creating message ids (todo.erase id) ((id, row) :: locked)) with
                attachments }
      else none
  | _ => none

/-- `create` checks the rows it has locked and flushes the message `id` and their
bindings to it.  The order of the attachments matters for the answer only. -/
def flush (s : State) (tx : Tx) (id : UUID) : Option State :=
  match s.phase tx with
  | .creating message ids [] locked =>
      if locked.length ≠ ids.length then some (s.fail tx invalidAttachments)
      else if ∃ p ∈ locked, unusable message.conversationId message.senderId p.2 then
        some (s.fail tx invalidAttachments)
      else if id ∉ s.drawn ∧ s.messages id = none then
        some { s.set tx (.bound id message locked) with drawn := id :: s.drawn }
      else none
  | _ => none

/-- `list_abandoned` takes one more row: not locked, and abandoned in its latest version. -/
def pickNext (s : State) (tx : Tx) (id : UUID) : Option State :=
  match s.phase tx with
  | .selecting cutoff limit batch =>
      match s.attachments.row id with
      | none => none
      | some row =>
          if batch.length < limit ∧ abandoned cutoff row ∧ s.attachments.owner id = none then
            (s.attachments.lock tx id).map fun attachments ↦
              { s.set tx (.selecting cutoff limit ((id, row) :: batch)) with attachments }
          else none
  | _ => none

/-- `cleanup_abandoned` removes one object; when that raises, the row stays. -/
def removeNext (s : State) (tx : Tx) (ok : Bool) : Option State :=
  match s.phase tx with
  | .removing (p :: todo) deleted =>
      if ok then
        some { s.set tx (.removing todo (p :: deleted)) with
          bucket := Function.update s.bucket p.2.storageKey none }
      else some (s.set tx (.removing todo deleted))
  | _ => none

/-- The row as `complete` commits it. -/
def promote (cfg : Config) (id : UUID) (now : Instant) (row : Attachment) : Attachment :=
  { row with storageKey := finalKey cfg id row, uploadedAt := some now }

/-- The row as `create` commits it. -/
def bindTo (message : UUID) (row : Attachment) : Attachment :=
  { row with messageId := some message }

/-- `session.commit()`. -/
def commit (cfg : Config) (s : State) (tx : Tx) : Option State :=
  match s.phase tx with
  | .reserved id row =>
      some { s.set tx .done with
        attachments := s.attachments.commit tx [(id, some { row with createdAt := s.now })] }
  | .copied id row _ =>
      some { s.set tx (.finalized id row.storageKey) with
        attachments := s.attachments.commit tx [(id, some (promote cfg id s.now row))] }
  | .bound id message locked =>
      some { s.set tx .done with
        messages := Function.update s.messages id (some message)
        attachments := s.attachments.commit tx
          (locked.map fun p ↦ (p.1, some (bindTo id p.2))) }
  | .removing [] deleted =>
      some { s.set tx .done with
        attachments := s.attachments.commit tx (deleted.map fun p ↦ (p.1, none)) }
  | _ => none

/-- A move of the clock, of a client or of an operation. -/
inductive Action where
  | tick (d : Nat)
  | put (key : StorageKey) (object : Object)
  | reserve (tx : Tx) (conversationId uploaderId : UUID) (filename mimeType : String)
      (fileSize : Nat) (id : UUID)
  | complete (tx : Tx) (id userId : UUID)
  | lockRow (tx : Tx)
  | stat (tx : Tx)
  | scan (tx : Tx) (reply : Reply)
  | copy (tx : Tx)
  | removeSource (tx : Tx) (ok : Bool)
  | create (tx : Tx) (conversationId senderId : UUID) (content : String) (ids : List UUID)
  | lockNext (tx : Tx) (id : UUID)
  | flush (tx : Tx) (id : UUID)
  | cleanup (tx : Tx) (cutoff : Instant) (limit : Nat)
  | pickNext (tx : Tx) (id : UUID)
  | selected (tx : Tx)
  | removeNext (tx : Tx) (ok : Bool)
  | commit (tx : Tx)
  | abort (tx : Tx)

/-- One step of the system. -/
def step (cfg : Config) (s : State) : Action → Option State
  | .tick d => some { s with now := s.now + d }
  | .put key object =>
      if key.area = .pending then
        some { s with bucket := Function.update s.bucket key (some object) }
      else none
  | .reserve tx conversationId uploaderId filename mimeType fileSize id =>
      reserve cfg s tx conversationId uploaderId filename mimeType fileSize id
  | .complete tx id userId =>
      match s.phase tx with
      | .idle => some (s.set tx (.completing id userId))
      | _ => none
  | .lockRow tx => lockRow cfg s tx
  | .stat tx => stat cfg s tx
  | .scan tx reply => scan cfg s tx reply
  | .copy tx => copy cfg s tx
  | .removeSource tx ok => removeSource s tx ok
  | .create tx conversationId senderId content ids =>
      create cfg s tx conversationId senderId content ids
  | .lockNext tx id => lockNext s tx id
  | .flush tx id => flush s tx id
  | .cleanup tx cutoff limit =>
      match s.phase tx with
      | .idle => some (s.set tx (.selecting cutoff limit []))
      | _ => none
  | .pickNext tx id => pickNext s tx id
  | .selected tx =>
      match s.phase tx with
      | .selecting _ _ batch => some (s.set tx (.removing batch []))
      | _ => none
  | .removeNext tx ok => removeNext s tx ok
  | .commit tx => commit cfg s tx
  | .abort tx =>
      match s.phase tx with
      | .idle | .done | .failed _ => none
      -- behind the commit: a cancellation, which `except Exception` does not catch
      | .finalized _ _ => some (s.set tx (.failed none))
      | _ => some (s.close tx (.failed none))

/-- No attachment, no lock and no operation in flight. -/
def Initial (s : State) : Prop :=
  (∀ id, s.attachments.row id = none) ∧ (∀ id, s.attachments.owner id = none) ∧
    ∀ tx, s.phase tx = .idle

/-! ## What a step can do -/

/-- The operation has come to its end, or has raised. -/
def Phase.IsOver : Phase → Prop
  | .done | .failed _ => True
  | _ => False

/-- What a commit can do. -/
inductive Commit (cfg : Config) (s : State) (tx : Tx) : State → Prop
  | reserved {id : UUID} {row : Attachment} (phase : s.phase tx = .reserved id row) :
      Commit cfg s tx { s.set tx .done with
        attachments := s.attachments.commit tx [(id, some { row with createdAt := s.now })] }
  | copied {id : UUID} {row : Attachment} {read : Option CleanRead}
      (phase : s.phase tx = .copied id row read) :
      Commit cfg s tx { s.set tx (.finalized id row.storageKey) with
        attachments := s.attachments.commit tx [(id, some (promote cfg id s.now row))] }
  | bound {id : UUID} {message : Message} {locked : Locked}
      (phase : s.phase tx = .bound id message locked) :
      Commit cfg s tx { s.set tx .done with
        messages := Function.update s.messages id (some message)
        attachments := s.attachments.commit tx
          (locked.map fun p ↦ (p.1, some (bindTo id p.2))) }
  | removing {deleted : Locked} (phase : s.phase tx = .removing [] deleted) :
      Commit cfg s tx { s.set tx .done with
        attachments := s.attachments.commit tx (deleted.map fun p ↦ (p.1, none)) }

/-- What a step can do, operation by operation. -/
inductive Move (cfg : Config) (s : State) : Action → State → Prop
  | tick (d : Nat) : Move cfg s (.tick d) { s with now := s.now + d }
  | put {key : StorageKey} {object : Object} (staging : key.area = .pending) :
      Move cfg s (.put key object) { s with bucket := Function.update s.bucket key (some object) }
  | ended {a : Action} {tx : Tx} {ph : Phase} (isOver : ph.IsOver) : Move cfg s a (s.close tx ph)
  | reserve {tx : Tx} {conversationId uploaderId id : UUID} {filename mimeType : String}
      {fileSize : Nat} (phase : s.phase tx = .idle) (fresh : id ∉ s.drawn) :
      Move cfg s (.reserve tx conversationId uploaderId filename mimeType fileSize id)
        { s.set tx (.reserved id
            { conversationId, uploaderId, messageId := none, filename, mimeType, fileSize,
              storageKey := pendingKey cfg id conversationId uploaderId filename,
              createdAt := s.now, uploadedAt := none }) with drawn := id :: s.drawn }
  | complete {tx : Tx} {id userId : UUID} (phase : s.phase tx = .idle) :
      Move cfg s (.complete tx id userId) (s.set tx (.completing id userId))
  | checked {tx : Tx} {id userId : UUID} {row : Attachment} {tab : Table UUID Tx Attachment}
      (phase : s.phase tx = .completing id userId) (found : s.attachments.row id = some row)
      (lock : s.attachments.lock tx id = some tab) (pending : row.uploadedAt = none) :
      Move cfg s (.lockRow tx) ({ s with attachments := tab }.set tx (.checked id row))
  | unlocked {tx : Tx} {id : UUID} {tab : Table UUID Tx Attachment} {ph : Phase}
      (lock : s.attachments.lock tx id = some tab) (isOver : ph.IsOver) :
      Move cfg s (.lockRow tx) ({ s with attachments := tab }.close tx ph)
  | measured {tx : Tx} {id : UUID} {row : Attachment} {object : Object}
      (phase : s.phase tx = .checked id row) (stored : s.bucket row.storageKey = some object) :
      Move cfg s (.stat tx) (s.set tx (.measured id row (metadata cfg object).etag))
  | unscanned {tx : Tx} {reply : Reply} {id : UUID} {row : Attachment} {etag : ETag}
      (phase : s.phase tx = .measured id row etag) (mode : cfg.scanMode = .disabled) :
      Move cfg s (.scan tx reply) (s.set tx (.scanned id row etag none))
  | scanned {tx : Tx} {reply : Reply} {id : UUID} {row : Attachment} {etag : ETag} {object : Object}
      (phase : s.phase tx = .measured id row etag) (stored : s.bucket row.storageKey = some object)
      (clean : scanResult reply = .ok ()) :
      Move cfg s (.scan tx reply)
        (s.set tx (.scanned id row etag (some ⟨object.content, reply, clean⟩)))
  | copied {tx : Tx} {id : UUID} {row : Attachment} {etag : ETag} {read : Option CleanRead}
      {object : Object} (phase : s.phase tx = .scanned id row etag read)
      (stored : s.bucket row.storageKey = some object) (same : cfg.etag object.content = etag) :
      Move cfg s (.copy tx) { s.set tx (.copied id row read) with
        bucket := Function.update s.bucket (finalKey cfg id row) (some object) }
  | removeSource {tx : Tx} {ok : Bool} {id : UUID} {source : StorageKey}
      (phase : s.phase tx = .finalized id source) :
      Move cfg s (.removeSource tx ok) { s.set tx .done with
        bucket := if ok then Function.update s.bucket source none else s.bucket }
  | create {tx : Tx} {conversationId senderId : UUID} {content : String} {ids : List UUID}
      (phase : s.phase tx = .idle) :
      Move cfg s (.create tx conversationId senderId content ids)
        (s.set tx (.creating ⟨conversationId, senderId, cfg.text.strip content⟩ ids
          (ids.filter fun id ↦ (s.attachments.row id).isSome) []))
  | skipped {tx : Tx} {id : UUID} {message : Message} {ids todo : List UUID} {locked : Locked}
      (phase : s.phase tx = .creating message ids todo locked)
      (gone : s.attachments.row id = none) :
      Move cfg s (.lockNext tx id) (s.set tx (.creating message ids (todo.erase id) locked))
  | locked {tx : Tx} {id : UUID} {row : Attachment} {message : Message} {ids todo : List UUID}
      {locked : Locked} {tab : Table UUID Tx Attachment}
      (phase : s.phase tx = .creating message ids todo locked)
      (found : s.attachments.row id = some row) (lock : s.attachments.lock tx id = some tab) :
      Move cfg s (.lockNext tx id)
        { s.set tx (.creating message ids (todo.erase id) ((id, row) :: locked)) with
          attachments := tab }
  | flushed {tx : Tx} {id : UUID} {message : Message} {ids : List UUID} {locked : Locked}
      (phase : s.phase tx = .creating message ids [] locked)
      (usable : ∀ p ∈ locked, ¬ unusable message.conversationId message.senderId p.2)
      (fresh : id ∉ s.drawn) (unsent : s.messages id = none) :
      Move cfg s (.flush tx id)
        { s.set tx (.bound id message locked) with drawn := id :: s.drawn }
  | cleanup {tx : Tx} {cutoff : Instant} {limit : Nat} (phase : s.phase tx = .idle) :
      Move cfg s (.cleanup tx cutoff limit) (s.set tx (.selecting cutoff limit []))
  | picked {tx : Tx} {id : UUID} {row : Attachment} {cutoff : Instant} {limit : Nat}
      {batch : Locked} {tab : Table UUID Tx Attachment}
      (phase : s.phase tx = .selecting cutoff limit batch)
      (found : s.attachments.row id = some row) (unbound : abandoned cutoff row)
      (lock : s.attachments.lock tx id = some tab) :
      Move cfg s (.pickNext tx id)
        { s.set tx (.selecting cutoff limit ((id, row) :: batch)) with attachments := tab }
  | selected {tx : Tx} {cutoff : Instant} {limit : Nat} {batch : Locked}
      (phase : s.phase tx = .selecting cutoff limit batch) :
      Move cfg s (.selected tx) (s.set tx (.removing batch []))
  | removed {tx : Tx} {p : UUID × Attachment} {todo deleted : Locked}
      (phase : s.phase tx = .removing (p :: todo) deleted) :
      Move cfg s (.removeNext tx true) { s.set tx (.removing todo (p :: deleted)) with
        bucket := Function.update s.bucket p.2.storageKey none }
  | kept {tx : Tx} {p : UUID × Attachment} {todo deleted : Locked}
      (phase : s.phase tx = .removing (p :: todo) deleted) :
      Move cfg s (.removeNext tx false) (s.set tx (.removing todo deleted))
  | commit {tx : Tx} {t : State} (committed : Commit cfg s tx t) : Move cfg s (.commit tx) t
  | dropped {tx : Tx} {id : UUID} {source : StorageKey}
      (phase : s.phase tx = .finalized id source) :
      Move cfg s (.abort tx) (s.set tx (.failed none))

variable {cfg : Config} {s t : State} {tx : Tx} {a : Action}

theorem Commit.of_commit (ht : Attachments.commit cfg s tx = some t) : Commit cfg s tx t := by
  unfold Attachments.commit at ht
  split at ht
  · cases ht
    exact .reserved ‹_›
  · cases ht
    exact .copied ‹_›
  · cases ht
    exact .bound ‹_›
  · cases ht
    exact .removing ‹_›
  · cases ht

theorem Move.of_lockRow (ht : lockRow cfg s tx = some t) : Move cfg s (.lockRow tx) t := by
  unfold lockRow at ht
  split at ht
  · split at ht
    · cases ht
      exact .ended trivial
    · obtain ⟨tab, hlock, rfl⟩ := Option.map_eq_some_iff.mp ht
      unfold checkRow
      split
      · exact .unlocked hlock trivial
      · split
        · exact .unlocked hlock trivial
        · split
          · exact .unlocked hlock trivial
          · exact .checked ‹_› ‹_› hlock (not_not.mp ‹_›)
  · cases ht

theorem Move.of_scan {reply : Reply} (ht : scan cfg s tx reply = some t) :
    Move cfg s (.scan tx reply) t := by
  unfold scan at ht
  split at ht
  · split at ht
    · cases ht
      exact .unscanned ‹_› ‹_›
    · split at ht
      · cases ht
        exact .ended trivial
      · split at ht
        · cases ht
          exact .ended trivial
        · cases ht
          exact .scanned ‹_› ‹_› ‹_›
  · cases ht

theorem Move.of_lockNext {id : UUID} (ht : lockNext s tx id = some t) :
    Move cfg s (.lockNext tx id) t := by
  unfold lockNext at ht
  split at ht
  · split at ht
    · split at ht
      · cases ht
        exact .skipped ‹_› ‹_›
      · obtain ⟨tab, hlock, rfl⟩ := Option.map_eq_some_iff.mp ht
        exact .locked ‹_› ‹_› hlock
    · cases ht
  · cases ht

theorem Move.of_flush {id : UUID} (ht : flush s tx id = some t) : Move cfg s (.flush tx id) t := by
  unfold flush at ht
  split at ht
  · split at ht
    · cases ht
      exact .ended trivial
    · split at ht
      · cases ht
        exact .ended trivial
      · rename_i husable
        split at ht
        · rename_i hfresh
          cases ht
          exact .flushed ‹_› (fun p hp hun ↦ husable ⟨p, hp, hun⟩) hfresh.1 hfresh.2
        · cases ht
  · cases ht

theorem Move.of_pickNext {id : UUID} (ht : pickNext s tx id = some t) :
    Move cfg s (.pickNext tx id) t := by
  unfold pickNext at ht
  split at ht
  · split at ht
    · cases ht
    · split at ht
      · rename_i hpick
        obtain ⟨tab, hlock, rfl⟩ := Option.map_eq_some_iff.mp ht
        exact .picked ‹_› ‹_› hpick.2.1 hlock
      · cases ht
  · cases ht

/-- `Move` leaves nothing out. -/
theorem Move.of_step (ht : step cfg s a = some t) : Move cfg s a t := by
  cases a with
  | tick d =>
      cases ht
      exact .tick d
  | put key object =>
      simp only [step] at ht
      split at ht
      · cases ht
        exact .put ‹_›
      · cases ht
  | lockRow tx => exact .of_lockRow ht
  | scan tx reply => exact .of_scan ht
  | lockNext tx id => exact .of_lockNext ht
  | flush tx id => exact .of_flush ht
  | pickNext tx id => exact .of_pickNext ht
  | commit tx => exact .commit (.of_commit ht)
  | reserve | stat | copy | create =>
      simp only [step, Attachments.reserve, Attachments.stat, Attachments.copy,
        Attachments.create] at ht
      repeat' split at ht
      all_goals cases ht
      all_goals first
        | exact .ended trivial
        | constructor <;> first | assumption | exact not_not.mp ‹_›
  | complete | removeSource | cleanup | selected =>
      simp only [step, Attachments.removeSource] at ht
      split at ht
      · cases ht
        constructor
        assumption
      · cases ht
  | removeNext tx ok =>
      simp only [step, Attachments.removeNext] at ht
      split at ht
      · cases ok with
        | true =>
            cases ht
            exact .removed ‹_›
        | false =>
            cases ht
            exact .kept ‹_›
      · cases ht
  | abort tx =>
      simp only [step] at ht
      split at ht
      · cases ht
      · cases ht
      · cases ht
      · cases ht
        exact .dropped ‹_›
      · cases ht
        exact .ended trivial

/-- The operation whose step it is. -/
def Action.operation : Action → Option Tx
  | .tick _ | .put _ _ => none
  | .reserve tx .. | .complete tx .. | .lockRow tx | .stat tx | .scan tx _ | .copy tx
  | .removeSource tx _ | .create tx .. | .lockNext tx _ | .flush tx _ | .cleanup tx ..
  | .pickNext tx _ | .selected tx | .removeNext tx _ | .commit tx | .abort tx => some tx

/-- The other operations stay where they are. -/
theorem phase_of_step (ht : step cfg s a = some t) {q : Tx} (hq : a.operation ≠ some q) :
    t.phase q = s.phase q := by
  have hne : ∀ tx, a.operation = some tx → ∀ ph, Function.update s.phase tx ph q = s.phase q :=
    fun tx htx ph ↦ Function.update_of_ne (fun e ↦ hq (by rw [htx, e])) ..
  cases a with
  | tick | put =>
      simp only [step, Option.ite_none_right_eq_some, Option.some.injEq] at ht
      first
        | exact ht ▸ rfl
        | exact ht.2 ▸ rfl
  | lockRow tx =>
      simp only [step, Attachments.lockRow, checkRow] at ht
      split at ht
      · split at ht
        · cases ht
          exact hne tx rfl _
        · obtain ⟨tab, -, rfl⟩ := Option.map_eq_some_iff.mp ht
          repeat' split
          all_goals exact hne tx rfl _
      · cases ht
  | lockNext tx id | pickNext tx id =>
      simp only [step, Attachments.lockNext, Attachments.pickNext] at ht
      repeat' split at ht
      all_goals
        first
          | cases ht
          | (obtain ⟨tab, -, rfl⟩ := Option.map_eq_some_iff.mp ht)
        try exact hne tx rfl _
  | reserve tx | complete tx | stat tx | scan tx | copy tx | removeSource tx | create tx
  | flush tx | cleanup tx | selected tx | removeNext tx | commit tx | abort tx =>
      simp only [step, Attachments.reserve, Attachments.stat, Attachments.scan, Attachments.copy,
        Attachments.removeSource, Attachments.create, Attachments.flush, Attachments.removeNext,
        Attachments.commit] at ht
      repeat' split at ht
      all_goals
        cases ht
        try exact hne tx rfl _

/-- An operation moves to a phase with the step, or was in it before. -/
theorem phase_cases {q : Tx} {ph ph' : Phase} (hph : t.phase = Function.update s.phase tx ph')
    (hq : t.phase q = ph) : q = tx ∧ ph' = ph ∨ s.phase q = ph := by
  by_cases e : q = tx
  · rw [hph, e, Function.update_self] at hq
    exact .inl ⟨e, hq⟩
  · rw [hph, Function.update_of_ne e] at hq
    exact .inr hq

theorem phase_back {q : Tx} {ph ph' : Phase} (hph : t.phase = Function.update s.phase tx ph')
    (hq : t.phase q = ph) (hne : ph' ≠ ph) : s.phase q = ph :=
  (phase_cases hph hq).resolve_left fun h ↦ hne h.2

end Chatterbox.Attachments
