import Chatterbox.Attachments.Model
import Chatterbox.Conversations.DirectKey
import Chatterbox.Messages.Recovery
import Chatterbox.Receipts.Model

/-!
# The database between transactions

The tables and the bucket as one transaction leaves them to the next, the queries
of the repositories on them, and the responses that the services build from what
they find.  Interleavings of transactions are the subject of the modules on
attachments, receipts, direct conversations and message recovery; here the
services run one at a time, and all of them on one store.

A list is a table in the order in which the database returns its rows where a
query does not order them.  `edited_at` is left out of messages, and `joined_at`
and `type` out of the tables: nothing writes or reads them.
-/

namespace Chatterbox.Services

open Attachments (Attachment StorageKey Object Text ScanMode Reply)
open Conversations (directKey str)
open Messages (Message MessageTable Cursor)
open Receipts (MessageReceipt)

/-- `models.User`: the columns that responses show. -/
structure User where
  id : UUID
  username : String
  lastSeen : Option Instant
deriving DecidableEq, Repr

/-- `models.Conversation`. -/
structure Conversation where
  id : UUID
  name : Option String
  directKey : List Char
  createdBy : UUID
  createdAt : Instant
  updatedAt : Instant
deriving DecidableEq, Repr

/-- `models.ConversationMember`. -/
structure Member where
  conversationId : UUID
  userId : UUID
  role : String
deriving DecidableEq, Repr

/-- The database and the bucket.  An attachment stands next to its `id`. -/
structure Store where
  users : List User
  conversations : List Conversation
  members : List Member
  messages : MessageTable
  receipts : List MessageReceipt
  attachments : List (UUID × Attachment)
  bucket : StorageKey → Option Object

/-- The settings, and the services outside: the scanner's reply to the content of
an object, and the URL that the object store signs. -/
structure Settings where
  text : Text
  etag : Attachments.Bytes → Attachments.ETag
  attachmentMaxBytes : ℕ
  attachmentMaxPerMessage : ℕ
  scanMode : ScanMode
  scanner : Attachments.Bytes → Reply
  uploadExpires : ℕ
  presignedPut : StorageKey → Instant → String

/-- What a request finds in the world: the clock, the identifiers that `uuid4` is
about to draw, and whether the object store removes what it is asked to. -/
structure Env where
  now : Instant
  draw : ℕ → UUID
  removes : Bool

/-- How a service fails: with an `AppError`, or with another exception. -/
inductive Failure where
  | app (error : AppError)
  | other
deriving DecidableEq, Repr

/-! ## Queries -/

namespace Store

/-- `ConversationRepository.member_ids`. -/
def memberIds (s : Store) (conversationId : UUID) : List UUID :=
  (s.members.filter fun member ↦ member.conversationId = conversationId).map Member.userId

/-- What `get_by_id` and `is_member` find. -/
def membership (s : Store) : Members := fun conversationId ↦
  if ∃ x ∈ s.conversations, x.id = conversationId then some (s.memberIds conversationId) else none

/-- `User.username`, of the user that a foreign key names. -/
def username (s : Store) (id : UUID) : Option String :=
  (s.users.find? fun user ↦ user.id = id).map User.username

/-- `User.last_seen`, of the user that a foreign key names. -/
def lastSeen (s : Store) (id : UUID) : Option Instant :=
  (s.users.find? fun user ↦ user.id = id).bind User.lastSeen

/-- `MessageRepository.get_by_id`. -/
def message (s : Store) (id : UUID) : Option Message :=
  s.messages.rows.find? fun message ↦ message.id = id

/-- `MessageRepository.get_latest`. -/
def latest (s : Store) (conversationId : UUID) : Option Message :=
  (Messages.pageBefore s.messages conversationId 0 none).head?

/-- `Message.receipts`. -/
def receiptsOf (s : Store) (messageId : UUID) : List MessageReceipt :=
  s.receipts.filter fun receipt ↦ receipt.messageId = messageId

/-- `Message.attachments`. -/
def attachmentsOf (s : Store) (messageId : UUID) : List (UUID × Attachment) :=
  s.attachments.filter fun p ↦ p.2.messageId = some messageId

/-- `AttachmentRepository.get_by_id`. -/
def attachment (s : Store) (id : UUID) : Option (UUID × Attachment) :=
  s.attachments.find? fun p ↦ p.1 = id

/-- `ConversationRepository.unread_count`. -/
def unreadCount (s : Store) (conversationId userId : UUID) : ℕ :=
  ((Receipts.joined s.messages.rows s.receipts).filter fun (receipt, message) ↦
    message.conversationId = conversationId ∧ receipt.userId = userId ∧
      receipt.readAt = none).length

end Store

/-- `ConversationService.get_authorized`. -/
def authorize (s : Store) (conversationId userId : UUID) : Except Failure (List UUID) :=
  (getAuthorized s.membership conversationId userId).mapError .app

/-! ## Responses -/

/-- `ConversationMemberResponse`. -/
structure ConversationMemberResponse where
  userId : UUID
  username : Option String
  role : String
  lastSeen : Option Instant
deriving DecidableEq, Repr

/-- `MessageSummary`. -/
structure MessageSummary where
  id : UUID
  senderId : UUID
  senderUsername : Option String
  content : String
  createdAt : Instant
deriving DecidableEq, Repr

/-- `ConversationResponse`. -/
structure ConversationResponse where
  id : UUID
  type : String
  name : Option String
  createdBy : UUID
  createdAt : Instant
  updatedAt : Instant
  members : List ConversationMemberResponse
  lastMessage : Option MessageSummary
  unreadCount : ℕ
deriving DecidableEq, Repr

/-- `MessageReceiptResponse`. -/
structure MessageReceiptResponse where
  userId : UUID
  deliveredAt : Option Instant
  readAt : Option Instant
deriving DecidableEq, Repr

/-- `AttachmentResponse`. -/
structure AttachmentResponse where
  id : UUID
  filename : String
  mimeType : String
  fileSize : ℕ
  uploadedAt : Option Instant
  downloadUrl : List Char
deriving DecidableEq, Repr

/-- `AttachmentUploadResponse`. -/
structure AttachmentUploadResponse where
  attachment : AttachmentResponse
  uploadUrl : String
  uploadHeaders : List (String × String)
  expiresAt : Instant
deriving DecidableEq, Repr

/-- `MessageResponse`. -/
structure MessageResponse where
  id : UUID
  conversationId : UUID
  senderId : UUID
  senderUsername : Option String
  content : String
  createdAt : Instant
  cursor : Cursor
  receipts : List MessageReceiptResponse
  attachments : List AttachmentResponse
deriving DecidableEq, Repr

/-- `MessagePage`, of responses. -/
structure MessagePage where
  items : List MessageResponse
  nextCursor : Option Cursor
deriving DecidableEq, Repr

/-- `ReceiptEventData`. -/
structure ReceiptEventData where
  messageId : UUID
  conversationId : UUID
  userId : UUID
  deliveredAt : Option Instant
  readAt : Option Instant
deriving DecidableEq, Repr

/-- `AttachmentService.to_response`. -/
def toAttachmentResponse (p : UUID × Attachment) : AttachmentResponse where
  id := p.1
  filename := p.2.filename
  mimeType := p.2.mimeType
  fileSize := p.2.fileSize
  uploadedAt := p.2.uploadedAt
  downloadUrl := "/attachments/".toList ++ str p.1 ++ "/download".toList

def toReceiptResponse (receipt : MessageReceipt) : MessageReceiptResponse :=
  ⟨receipt.userId, receipt.deliveredAt, receipt.readAt⟩

/-- `MessageService._to_response`, of a message with these receipts and attachments. -/
def toMessageResponse (s : Store) (message : Message) (receipts : List MessageReceipt)
    (attachments : List (UUID × Attachment)) : MessageResponse where
  id := message.id
  conversationId := message.conversationId
  senderId := message.senderId
  senderUsername := s.username message.senderId
  content := message.content
  createdAt := message.createdAt
  cursor := Messages.encodeCursor message
  receipts := receipts.map toReceiptResponse
  attachments := attachments.map toAttachmentResponse

/-- `ReceiptService._to_event`. -/
def toEvent (p : MessageReceipt × Message) : ReceiptEventData :=
  ⟨p.1.messageId, p.2.conversationId, p.1.userId, p.1.deliveredAt, p.1.readAt⟩

/-- The summary that `_to_response` makes of the latest message. -/
def toSummary (s : Store) (message : Message) : MessageSummary where
  id := message.id
  senderId := message.senderId
  senderUsername := s.username message.senderId
  content :=
    if message.content ≠ "" then message.content
    else if s.attachmentsOf message.id ≠ [] then "📎 Attachment" else ""
  createdAt := message.createdAt

/-- `ConversationService._to_response`. -/
def toConversationResponse (s : Store) (x : Conversation) (currentUserId : UUID) :
    ConversationResponse where
  id := x.id
  type := "direct"
  name := x.name
  createdBy := x.createdBy
  createdAt := x.createdAt
  updatedAt := x.updatedAt
  members := (s.members.filter fun member ↦ member.conversationId = x.id).map fun member ↦
    ⟨member.userId, s.username member.userId, member.role, s.lastSeen member.userId⟩
  lastMessage := (s.latest x.id).map (toSummary s)
  unreadCount := s.unreadCount x.id currentUserId

end Chatterbox.Services
