import Chatterbox.Messages.Pages

/-!
# Receipts

A message has one receipt for every recipient, with the time at which it was
delivered to them and the time at which they read it.  `ReceiptRepository` has
three operations.  Each of them selects receipts, joined with their messages,
and sets attributes of what it has found from one reading of the clock:

| operation | selects | sets |
|---|---|---|
| `mark_delivered` | the undelivered receipts of a message, for some users | `delivered_at` |
| `mark_pending_delivered` | the undelivered receipts of a user | `delivered_at` |
| `mark_read_through` | the unread receipts of a user up to a position | `read_at`, and `delivered_at` where there is none |
-/

namespace Chatterbox.Receipts

open Messages (Message stamp)

/-- `models.MessageReceipt`: a row of `message_receipts`. -/
structure MessageReceipt where
  id : UUID
  messageId : UUID
  userId : UUID
  deliveredAt : Option Instant
  readAt : Option Instant
deriving DecidableEq, Repr

/-- An operation of `ReceiptRepository`. -/
inductive Operation where
  | markDelivered (messageId : UUID) (userIds : List UUID)
  | markPendingDelivered (userId : UUID)
  | markReadThrough (conversationId userId : UUID) (targetCreatedAt : Instant) (targetId : UUID)
deriving DecidableEq, Repr

/-- The `WHERE` clause of an operation, for a receipt and its message. -/
def Operation.selects : Operation → MessageReceipt × Message → Bool
  | .markDelivered messageId userIds, (receipt, _) =>
      receipt.messageId = messageId ∧ receipt.userId ∈ userIds ∧ receipt.deliveredAt = none
  | .markPendingDelivered userId, (receipt, _) =>
      receipt.userId = userId ∧ receipt.deliveredAt = none
  | .markReadThrough conversationId userId targetCreatedAt targetId, (receipt, message) =>
      message.conversationId = conversationId ∧ receipt.userId = userId ∧ receipt.readAt = none ∧
        (message.createdAt < targetCreatedAt ∨
          message.createdAt = targetCreatedAt ∧ message.id ≤ targetId)

/-- What an operation makes of a receipt it has selected. -/
def Operation.assign : Operation → Instant → MessageReceipt → MessageReceipt
  | .markDelivered .., now, receipt | .markPendingDelivered _, now, receipt =>
      { receipt with deliveredAt := some now }
  | .markReadThrough .., now, receipt =>
      { receipt with deliveredAt := some (receipt.deliveredAt.getD now), readAt := some now }

/-- The receipts with their messages. -/
def joined (messages : List Message) (receipts : List MessageReceipt) :
    List (MessageReceipt × Message) :=
  receipts.filterMap fun receipt ↦
    (messages.find? fun message ↦ message.id = receipt.messageId).map fun message ↦
      (receipt, message)

/-- What the `SELECT` of an operation returns. -/
def Operation.select (op : Operation) (messages : List Message) (receipts : List MessageReceipt) :
    List (MessageReceipt × Message) :=
  (joined messages receipts).filter op.selects

variable {messages : List Message} {receipts : List MessageReceipt} {receipt : MessageReceipt}
  {message : Message} {op : Operation}

theorem mem_joined : (receipt, message) ∈ joined messages receipts ↔
    receipt ∈ receipts ∧ messages.find? (fun m ↦ m.id = receipt.messageId) = some message := by
  simp only [joined, List.mem_filterMap, Option.map_eq_some_iff, Prod.mk.injEq]
  constructor
  · rintro ⟨r, hr, m, hm, rfl, rfl⟩
    exact ⟨hr, hm⟩
  · rintro ⟨hr, hm⟩
    exact ⟨receipt, hr, message, hm, rfl, rfl⟩

theorem mem_select : (receipt, message) ∈ op.select messages receipts ↔
    (receipt, message) ∈ joined messages receipts ∧ op.selects (receipt, message) = true :=
  List.mem_filter

/-- Every operation leaves the row its identity. -/
@[simp] theorem assign_id (now : Instant) : (op.assign now receipt).id = receipt.id := by
  cases op <;> rfl

@[simp] theorem assign_messageId (now : Instant) :
    (op.assign now receipt).messageId = receipt.messageId := by
  cases op <;> rfl

@[simp] theorem assign_userId (now : Instant) :
    (op.assign now receipt).userId = receipt.userId := by
  cases op <;> rfl

end Chatterbox.Receipts
