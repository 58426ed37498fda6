import Chatterbox.Conversations.Direct
import Chatterbox.Run
import Chatterbox.Services.Store

/-!
# Requests

The operations of the four services, each as one transaction on the store: it
fails and leaves the store alone, or it answers and leaves another one.

| operation | source |
|---|---|
| `createDirect`, `listConversations`, `getConversation` | `ConversationService` |
| `createMessage`, `listMessages` | `MessageService` |
| `markDelivered`, `markPendingDelivered`, `markRead` | `ReceiptService` |
| `reserve`, `complete`, `authorizeDownload`, `cleanupAbandoned` | `AttachmentService` |

`serve` answers a request of a user.  `Action` adds what happens to the store
otherwise: users register and leave, clients upload, deliveries are marked, and
abandoned uploads are cleaned up.
-/

namespace Chatterbox.Services

open Attachments (Attachment StorageKey Object unusable bindTo promote)
open Conversations (directKey)
open Messages (Message MessageTable Cursor stamp)
open Receipts (MessageReceipt Operation)

def messageNotFound : AppError := ⟨404, "MESSAGE_NOT_FOUND", "Message was not found"⟩

/-- The settings as the functions on attachments take them. -/
def Settings.config (st : Settings) (s : Store) : Attachments.Config where
  text := st.text
  etag := st.etag
  attachmentMaxBytes := st.attachmentMaxBytes
  attachmentMaxPerMessage := st.attachmentMaxPerMessage
  scanMode := st.scanMode
  members := s.membership

/-! ## Conversations -/

/-- The conversation that `create_direct` adds, and its members. -/
def addDirect (env : Env) (s : Store) (currentUserId participantId : UUID) : Store :=
  { s with
    conversations := ⟨env.draw 0, none, directKey currentUserId participantId, currentUserId,
      env.now, env.now⟩ :: s.conversations
    members := ⟨env.draw 0, currentUserId, "member"⟩ :: ⟨env.draw 0, participantId, "member"⟩ ::
      s.members }

/-- `ConversationService.create_direct`. -/
def createDirect (env : Env) (s : Store) (currentUserId participantId : UUID) :
    Except Failure (ConversationResponse × Store) :=
  if currentUserId = participantId then .error (.app Conversations.Direct.invalidParticipant)
  else if ∀ user ∈ s.users, user.id ≠ participantId then
    .error (.app Conversations.Direct.userNotFound)
  else
    match s.conversations.find? fun x ↦ x.directKey = directKey currentUserId participantId with
    | some x => .ok (toConversationResponse s x currentUserId, s)
    | none =>
        if ∃ x ∈ s.conversations, x.id = env.draw 0 then .error .other
        else
          let t := addDirect env s currentUserId participantId
          .ok (toConversationResponse t ⟨env.draw 0, none, directKey currentUserId participantId,
            currentUserId, env.now, env.now⟩ currentUserId, t)

/-- `ConversationService.list`. -/
def listConversations (s : Store) (currentUserId : UUID) : List ConversationResponse :=
  ((s.conversations.filter fun x ↦ currentUserId ∈ s.memberIds x.id).mergeSort fun x y ↦
    y.updatedAt < x.updatedAt ∨ y.updatedAt = x.updatedAt ∧ y.id ≤ x.id).map fun x ↦
      toConversationResponse s x currentUserId

/-- `ConversationService.get`. -/
def getConversation (s : Store) (conversationId currentUserId : UUID) :
    Except Failure ConversationResponse :=
  match authorize s conversationId currentUserId with
  | .error e => .error e
  | .ok _ =>
      match s.conversations.find? fun x ↦ x.id = conversationId with
      | none => .error .other
      | some x => .ok (toConversationResponse s x currentUserId)

/-! ## Messages -/

/-- The receipts that come with a message. -/
def newReceipts (env : Env) (recipientIds : List UUID) : List MessageReceipt :=
  recipientIds.zipIdx.map fun (userId, i) ↦ ⟨env.draw (i + 1), env.draw 0, userId, none, none⟩

/-- The attachments named, in that order, if all are there and usable. -/
def attachmentsFor (s : Store) (conversationId senderId : UUID) (attachmentIds : List UUID) :
    Except Failure (List (UUID × Attachment)) :=
  let ordered := attachmentIds.filterMap s.attachment
  if ordered.length ≠ attachmentIds.length then .error (.app Attachments.invalidAttachments)
  else if ∃ p ∈ ordered, unusable conversationId senderId p.2 then
    .error (.app Attachments.invalidAttachments)
  else .ok ordered

/-- What `create` leaves, once the message has been inserted. -/
def addMessage (env : Env) (s : Store) (message : Message) (messages : MessageTable)
    (recipientIds attachmentIds : List UUID) : Store :=
  { s with
    conversations := s.conversations.map fun x ↦
      if x.id = message.conversationId then { x with updatedAt := env.now } else x
    messages
    receipts := newReceipts env recipientIds ++ s.receipts
    attachments := s.attachments.map fun p ↦
      if p.1 ∈ attachmentIds then (p.1, bindTo message.id p.2) else p }

/-- `MessageService.create`. -/
def createMessage (st : Settings) (env : Env) (s : Store) (conversationId senderId : UUID)
    (content : String) (attachmentIds : List UUID) : Except Failure (MessageResponse × Store) :=
  match authorize s conversationId senderId with
  | .error e => .error e
  | .ok memberIds =>
      if st.text.strip content = "" ∧ attachmentIds = [] then
        .error (.app Attachments.emptyMessage)
      else if attachmentIds.length > st.attachmentMaxPerMessage then
        .error (.app Attachments.tooManyAttachments)
      else if ¬ attachmentIds.Nodup then .error (.app Attachments.duplicateAttachments)
      else
        match attachmentsFor s conversationId senderId attachmentIds with
        | .error e => .error e
        | .ok ordered =>
            let message : Message :=
              ⟨env.draw 0, conversationId, senderId, st.text.strip content, env.now, none⟩
            let recipientIds := memberIds.filter (· ≠ senderId)
            let receipts := newReceipts env recipientIds
            match s.messages.insert message with
            | none => .error .other
            | some messages =>
                if ((receipts ++ s.receipts).map MessageReceipt.id).Nodup then
                  let t := addMessage env s message messages recipientIds attachmentIds
                  .ok (toMessageResponse t message receipts
                    (ordered.map fun p ↦ (p.1, bindTo message.id p.2)), t)
                else .error .other

/-- `MessageService.list`. -/
def listMessages (s : Store) (conversationId currentUserId : UUID) (limit : ℕ)
    (before after : Option Cursor) : Except Failure MessagePage :=
  match Messages.list s.membership s.messages conversationId currentUserId limit before after with
  | .error e => .error (.app e)
  | .ok page =>
      .ok ⟨page.items.map fun message ↦ toMessageResponse s message (s.receiptsOf message.id)
        (s.attachmentsOf message.id), page.nextCursor⟩

/-! ## Receipts -/

/-- An operation on receipts: what it has selected, as it is now, and the table. -/
def mark (op : Operation) (now : Instant) (s : Store) : List (MessageReceipt × Message) × Store :=
  let found := op.select s.messages.rows s.receipts
  (found.map fun (receipt, message) ↦ (op.assign now receipt, message),
    { s with receipts := s.receipts.map fun receipt ↦
        if receipt ∈ found.map Prod.fst then op.assign now receipt else receipt })

/-- `ReceiptService.mark_delivered`. -/
def markDelivered (now : Instant) (s : Store) (messageId : UUID) (userIds : List UUID) :
    List ReceiptEventData × Store :=
  let (found, t) := mark (.markDelivered messageId userIds) now s
  (found.map toEvent, t)

/-- `ReceiptService.mark_pending_delivered`. -/
def markPendingDelivered (now : Instant) (s : Store) (userId : UUID) :
    List ReceiptEventData × Store :=
  let (found, t) := mark (.markPendingDelivered userId) now s
  (found.map toEvent, t)

/-- `ReceiptService.mark_read`. -/
def markRead (now : Instant) (s : Store) (conversationId messageId userId : UUID) :
    Except Failure (List ReceiptEventData × Store) :=
  match authorize s conversationId userId with
  | .error e => .error e
  | .ok _ =>
      match s.message messageId with
      | none => .error (.app messageNotFound)
      | some target =>
          if target.conversationId ≠ conversationId then .error (.app messageNotFound)
          else
            let (found, t) :=
              mark (.markReadThrough conversationId userId target.createdAt target.id) now s
            .ok ((found.mergeSort fun a b ↦ stamp a.2 ≤ stamp b.2).map toEvent, t)

/-! ## Attachments -/

/-- `AttachmentService.reserve`. -/
def reserve (st : Settings) (env : Env) (s : Store) (conversationId uploaderId : UUID)
    (filename mimeType : String) (fileSize : ℕ) :
    Except Failure (AttachmentUploadResponse × Store) :=
  match authorize s conversationId uploaderId with
  | .error e => .error e
  | .ok _ =>
      match Attachments.validateMetadata (st.config s) mimeType fileSize with
      | .error e => .error (.app e)
      | .ok _ =>
          if ∃ p ∈ s.attachments, p.1 = env.draw 0 then .error .other
          else
            let key :=
              Attachments.pendingKey (st.config s) (env.draw 0) conversationId uploaderId filename
            let row : Attachment := ⟨conversationId, uploaderId, none, filename, mimeType, fileSize,
              key, env.now, none⟩
            .ok (⟨toAttachmentResponse (env.draw 0, row),
                st.presignedPut key (env.now + st.uploadExpires), [("Content-Type", mimeType)],
                env.now + st.uploadExpires⟩,
              { s with attachments := (env.draw 0, row) :: s.attachments })

/-- `scanner.scan`. -/
def scan (st : Settings) (object : Object) : Except Failure Unit :=
  match st.scanMode with
  | .disabled => .ok ()
  | .clamav => (Attachments.scanResult (st.scanner object.content)).mapError .app

/-- The checks of `complete` on the object, as `stat` and the scanner find it. -/
def checkObject (st : Settings) (s : Store) (row : Attachment) : Except Failure Object :=
  match s.bucket row.storageKey with
  | none => .error (.app Attachments.attachmentNotUploaded)
  | some object =>
      let metadata := Attachments.metadata (st.config s) object
      if metadata.size ≠ row.fileSize then .error (.app Attachments.attachmentSizeMismatch)
      else if st.text.mimeType metadata.contentType ≠ row.mimeType then
        .error (.app Attachments.attachmentTypeMismatch)
      else
        match scan st object with
        | .error e => .error e
        | .ok _ => .ok object

/-- What `complete` leaves: the object copied, the row promoted, the source removed. -/
def promoteRow (st : Settings) (env : Env) (s : Store) (id : UUID) (row : Attachment)
    (object : Object) : Store :=
  let copied :=
    Function.update s.bucket (Attachments.finalKey (st.config s) id row) (some object)
  { s with
    attachments := s.attachments.map fun p ↦
      if p.1 = id then (id, promote (st.config s) id env.now row) else p
    bucket := if env.removes then Function.update copied row.storageKey none else copied }

/-- `AttachmentService.complete`. -/
def complete (st : Settings) (env : Env) (s : Store) (attachmentId currentUserId : UUID) :
    Except Failure (AttachmentResponse × Store) :=
  match s.attachment attachmentId with
  | none => .error (.app Attachments.attachmentNotFound)
  | some (id, row) =>
      if row.uploaderId ≠ currentUserId then .error (.app Attachments.attachmentNotFound)
      else
        match authorize s row.conversationId currentUserId with
        | .error e => .error e
        | .ok _ =>
            if row.uploadedAt ≠ none then .ok (toAttachmentResponse (id, row), s)
            else
              match checkObject st s row with
              | .error e => .error e
              | .ok object =>
                  .ok (toAttachmentResponse (id, promote (st.config s) id env.now row),
                    promoteRow st env s id row object)

/-- `AttachmentService.authorize_download`. -/
def authorizeDownload (s : Store) (attachmentId currentUserId : UUID) :
    Except Failure (UUID × Attachment) :=
  match s.attachment attachmentId with
  | none => .error (.app Attachments.attachmentNotFound)
  | some (id, row) =>
      if row.messageId = none ∨ row.uploadedAt = none then
        .error (.app Attachments.attachmentNotFound)
      else
        match authorize s row.conversationId currentUserId with
        | .error e => .error e
        | .ok _ => .ok (id, row)

/-- `AttachmentService.cleanup_abandoned`; `fails` says which removals raise. -/
def cleanupAbandoned (s : Store) (cutoff : Instant) (limit : ℕ) (fails : UUID → Bool) : Store :=
  let batch := ((s.attachments.filter fun p ↦ Attachments.abandoned cutoff p.2).mergeSort
    fun p q ↦ p.2.createdAt ≤ q.2.createdAt).take limit
  let removed := batch.filter fun p ↦ !fails p.1
  { s with
    attachments := s.attachments.filter (· ∉ removed)
    bucket := fun key ↦ if ∃ p ∈ removed, p.2.storageKey = key then none else s.bucket key }

/-! ## Serving -/

/-- A request of a user. -/
inductive Request where
  | createDirect (participantId : UUID)
  | listConversations
  | getConversation (conversationId : UUID)
  | listMessages (conversationId : UUID) (limit : ℕ) (before after : Option Cursor)
  | createMessage (conversationId : UUID) (content : String) (attachmentIds : List UUID)
  | reserve (conversationId : UUID) (filename mimeType : String) (fileSize : ℕ)
  | complete (attachmentId : UUID)
  | authorizeDownload (attachmentId : UUID)
  | markRead (conversationId messageId : UUID)
  | markPendingDelivered
deriving DecidableEq, Repr

/-- The answer to a request. -/
inductive Response where
  | conversation (response : ConversationResponse)
  | conversations (responses : List ConversationResponse)
  | messages (page : MessagePage)
  | message (response : MessageResponse)
  | upload (response : AttachmentUploadResponse)
  | attachment (response : AttachmentResponse)
  | download (attachment : UUID × Attachment)
  | receipts (events : List ReceiptEventData)
deriving DecidableEq, Repr

/-- Serve a request of `userId`: the answer and the store it leaves. -/
def serve (st : Settings) (env : Env) (s : Store) (userId : UUID) :
    Request → Except Failure (Response × Store)
  | .createDirect participantId =>
      (createDirect env s userId participantId).map (Prod.map .conversation id)
  | .listConversations => .ok (.conversations (listConversations s userId), s)
  | .getConversation conversationId =>
      (getConversation s conversationId userId).map fun response ↦ (.conversation response, s)
  | .listMessages conversationId limit before after =>
      (listMessages s conversationId userId limit before after).map fun page ↦ (.messages page, s)
  | .createMessage conversationId content attachmentIds =>
      (createMessage st env s conversationId userId content attachmentIds).map
        (Prod.map .message id)
  | .reserve conversationId filename mimeType fileSize =>
      (reserve st env s conversationId userId filename mimeType fileSize).map (Prod.map .upload id)
  | .complete attachmentId =>
      (complete st env s attachmentId userId).map (Prod.map .attachment id)
  | .authorizeDownload attachmentId =>
      (authorizeDownload s attachmentId userId).map fun p ↦ (.download p, s)
  | .markRead conversationId messageId =>
      (markRead env.now s conversationId messageId userId).map (Prod.map .receipts id)
  | .markPendingDelivered => .ok ((markPendingDelivered env.now s userId).map .receipts id)

/-- What happens to the store. -/
inductive Action where
  | register (user : User)
  /-- `UserRepository.set_last_seen`. -/
  | setLastSeen (userId : UUID) (lastSeen : Instant)
  /-- A client uploads an object, under a key of the staging area. -/
  | put (key : StorageKey) (object : Object)
  | cleanup (cutoff : Instant) (limit : ℕ) (fails : UUID → Bool)
  | markDelivered (now : Instant) (messageId : UUID) (userIds : List UUID)
  | request (env : Env) (userId : UUID) (request : Request)

/-- One committed transaction; a request that fails commits nothing. -/
def step (st : Settings) (s : Store) : Action → Option Store
  | .register user =>
      if ∃ other ∈ s.users, other.id = user.id then none
      else some { s with users := user :: s.users }
  | .setLastSeen userId lastSeen =>
      some { s with users := s.users.map fun user ↦
        if user.id = userId then { user with lastSeen := some lastSeen } else user }
  | .put key object =>
      if key.area = .pending then
        some { s with bucket := Function.update s.bucket key (some object) }
      else none
  | .cleanup cutoff limit fails => some (cleanupAbandoned s cutoff limit fails)
  | .markDelivered now messageId userIds => some (markDelivered now s messageId userIds).2
  | .request env userId request =>
      match serve st env s userId request with
      | .ok (_, t) => some t
      | .error _ => none

/-- Nobody has registered. -/
def Store.initial : Store where
  users := []
  conversations := []
  members := []
  messages := ⟨[], List.nodup_nil⟩
  receipts := []
  attachments := []
  bucket := fun _ ↦ none

/-- A store that committed transactions lead to. -/
def Reachable (st : Settings) (s : Store) : Prop := ∃ as, exec (step st) .initial as = some s

/-- The settings of the example runs: nothing is scanned. -/
def plain : Settings where
  text := ⟨fun _ ↦ "", id, id⟩
  etag := id
  attachmentMaxBytes := 10
  attachmentMaxPerMessage := 2
  scanMode := .disabled
  scanner := fun _ ↦ .unavailable
  uploadExpires := 900
  presignedPut := fun _ _ ↦ ""

end Chatterbox.Services
