import Chatterbox.Services.Invariant
import Chatterbox.Session

/-!
# The statements of a message

`MessageService.create` and `ReceiptService.mark_delivered` once more, cut into the
statements that they send to the database, each of which may raise.

| program | statements |
|---|---|
| `prepare` | `getConversation`, `isMember`, `lockForMessage`, `flush`, `touch` |
| `create` | those, `commit`, `refreshSender` |
| `markDelivered` | `selectReceipts`, `commitReceipts` |

Without a fault they are the transactions of `Chatterbox.Services` (`create_of_ok`,
`markDelivered_of_ok`).  `prepare` commits nothing, so a message is stored if `create`
gets past its commit, and only then; the statement behind the commit may still raise.
-/

namespace Chatterbox.Services

open Attachments (Attachment unusable bindTo)
open Messages (Message MessageTable)
open Receipts (MessageReceipt)

/-- A statement of one of the two services, or of the handler behind them. -/
inductive Statement where
  | getConversation
  | isMember
  | lockForMessage
  | flush
  | touch
  | commit
  | refreshSender
  | memberIds
  | selectReceipts
  | commitReceipts
deriving DecidableEq, Repr

/-- Which statements raise. -/
abbrev Faults := Statement → Bool

/-- The exception of a statement that raises. -/
def Faults.at (faults : Faults) (x : Statement) : Option Failure :=
  if faults x then some .other else none

namespace Statements

/-- `ConversationService.get_authorized`. -/
def authorized (faults : Faults) (conversationId userId : UUID) :
    Program Store Failure (List UUID) := do
  match ← .read (faults.at .getConversation) fun s ↦ s.membership conversationId with
  | none => .raise (.app conversationNotFound)
  | some memberIds =>
      if ← .read (faults.at .isMember) fun s ↦ decide (userId ∈ s.memberIds conversationId) then
        pure memberIds
      else .raise (.app conversationAccessDenied)

/-- `AttachmentRepository.lock_for_message`; the rows in the order of the identifiers. -/
def lockForMessage (faults : Faults) (attachmentIds : List UUID) :
    Program Store Failure (List (UUID × Attachment)) :=
  if attachmentIds = [] then pure []
  else .read (faults.at .lockForMessage) fun s ↦ attachmentIds.filterMap s.attachment

/-- The store with the rows of a message. -/
def withRows (env : Env) (s : Store) (message : Message) (messages : MessageTable)
    (recipientIds attachmentIds : List UUID) : Store :=
  { s with
    messages
    receipts := newReceipts env recipientIds ++ s.receipts
    attachments := s.attachments.map fun p ↦
      if p.1 ∈ attachmentIds then (p.1, bindTo message.id p.2) else p }

/-- What `flush` writes; the identifiers must be new. -/
def insertRows (env : Env) (s : Store) (message : Message)
    (recipientIds attachmentIds : List UUID) : Except Failure (Unit × Store) :=
  match s.messages.insert message with
  | none => .error .other
  | some messages =>
      if ((newReceipts env recipientIds ++ s.receipts).map MessageReceipt.id).Nodup then
        .ok ((), withRows env s message messages recipientIds attachmentIds)
      else .error .other

/-- `ConversationService.touch`. -/
def touchConversation (env : Env) (s : Store) (conversationId : UUID) : Store :=
  { s with
    conversations := s.conversations.map fun x ↦
      if x.id = conversationId then { x with updatedAt := env.now } else x }

/-- What `create` has in hand at its commit. -/
structure Prepared where
  message : Message
  receipts : List MessageReceipt
  attachments : List (UUID × Attachment)

/-- `MessageService.create`, up to the commit. -/
def prepare (st : Settings) (env : Env) (faults : Faults) (conversationId senderId : UUID)
    (content : String) (attachmentIds : List UUID) : Program Store Failure Prepared := do
  let memberIds ← authorized faults conversationId senderId
  if st.text.strip content = "" ∧ attachmentIds = [] then .raise (.app Attachments.emptyMessage)
  else if attachmentIds.length > st.attachmentMaxPerMessage then
    .raise (.app Attachments.tooManyAttachments)
  else if ¬ attachmentIds.Nodup then .raise (.app Attachments.duplicateAttachments)
  else do
    let ordered ← lockForMessage faults attachmentIds
    if ordered.length ≠ attachmentIds.length then .raise (.app Attachments.invalidAttachments)
    else if ∃ p ∈ ordered, unusable conversationId senderId p.2 then
      .raise (.app Attachments.invalidAttachments)
    else do
      let message : Message :=
        ⟨env.draw 0, conversationId, senderId, st.text.strip content, env.now, none⟩
      let recipientIds := memberIds.filter (· ≠ senderId)
      .statement (faults.at .flush) fun s ↦ insertRows env s message recipientIds attachmentIds
      .statement (faults.at .touch) fun s ↦ .ok ((), touchConversation env s conversationId)
      pure ⟨message, newReceipts env recipientIds,
        ordered.map fun p ↦ (p.1, bindTo message.id p.2)⟩

/-- `MessageService.create`. -/
def create (st : Settings) (env : Env) (faults : Faults) (conversationId senderId : UUID)
    (content : String) (attachmentIds : List UUID) : Program Store Failure MessageResponse := do
  let prepared ← prepare st env faults conversationId senderId content attachmentIds
  .commit (faults.at .commit)
  .read (faults.at .refreshSender) fun s ↦
    toMessageResponse s prepared.message prepared.receipts prepared.attachments

/-- `ReceiptService.mark_delivered`. -/
def markDelivered (faults : Faults) (now : Instant) (messageId : UUID) (userIds : List UUID) :
    Program Store Failure (List ReceiptEventData) := do
  let receipts ← .statement (faults.at .selectReceipts) fun s ↦
    .ok (Services.markDelivered now s messageId userIds)
  .commit (faults.at .commitReceipts)
  pure receipts

variable {st : Settings} {env : Env} {faults : Faults} {c u : UUID} {content : String}
  {ids : List UUID} {s t : Store}

/-! ## Nothing is stored before the commit -/

theorem quiet_authorized : Program.Quiet (authorized faults c u) := by
  refine .bind (.read _ _) fun found ↦ ?_
  cases found with
  | none => exact .raise _
  | some memberIds => exact .bind (.read _ _) fun isMember ↦ .ite (.pure _) (.raise _)

theorem quiet_lockForMessage : Program.Quiet (lockForMessage faults ids) :=
  .ite (.pure _) (.read _ _)

theorem quiet_prepare (st : Settings) (env : Env) (faults : Faults) (c u : UUID) (content : String)
    (ids : List UUID) : Program.Quiet (prepare st env faults c u content ids) := by
  refine .bind quiet_authorized fun memberIds ↦ ?_
  refine .ite (.raise _) (.ite (.raise _) (.ite (.raise _) ?_))
  refine .bind quiet_lockForMessage fun ordered ↦ ?_
  refine .ite (.raise _) (.ite (.raise _) ?_)
  exact .bind (.statement _ _) fun _ ↦ .bind (.statement _ _) fun _ ↦ .pure _

/-! ## What a message takes to be stored -/

/-- A statement of `create` up to and including its commit raises, if it is reached. -/
def Blocked (faults : Faults) (attachmentIds : List UUID) : Prop :=
  faults .getConversation ∨ faults .isMember ∨ (attachmentIds ≠ [] ∧ faults .lockForMessage) ∨
    faults .flush ∨ faults .touch ∨ faults .commit

theorem at_of_true {x : Statement} (h : faults x = true) : faults.at x = some .other := by
  rw [Faults.at, if_pos h]

theorem at_of_false {x : Statement} (h : faults x = false) : faults.at x = none := by
  rw [Faults.at, if_neg (by rw [h]; exact Bool.false_ne_true)]

/-- A query that raises. -/
theorem read_fault {α : Type} {x : Statement} (h : faults x = true) (f : Store → α)
    (w : Session Store) :
    (Program.read (faults.at x) f : Program Store Failure α) w = (.error .other, w) := by
  rw [at_of_true h]
  rfl

/-- A query that does not. -/
theorem read_ok {α : Type} {x : Statement} (h : faults x = false) (f : Store → α)
    (w : Session Store) :
    (Program.read (faults.at x) f : Program Store Failure α) w = (.ok (f w.working), w) := by
  rw [at_of_false h]
  rfl

theorem authorized_ok (hconv : faults .getConversation = false) (hmember : faults .isMember = false)
    (w : Session Store) : authorized faults c u w = (authorize w.working c u, w) := by
  unfold authorized
  rw [Program.bind_ok (read_ok hconv _ w)]
  unfold authorize getAuthorized
  cases hfound : w.working.membership c with
  | none => rfl
  | some memberIds =>
      obtain ⟨-, rfl⟩ := membership_eq_some.mp hfound
      dsimp only
      rw [Program.bind_ok (read_ok hmember _ w)]
      by_cases hu : u ∈ w.working.memberIds c
      · simp only [hu, decide_true, if_true]
        rfl
      · simp only [hu, decide_false, if_false]
        rfl

theorem authorized_fault (h : faults .getConversation = true ∨ faults .isMember = true)
    (w : Session Store) : ∃ e, authorized faults c u w = (.error e, w) := by
  unfold authorized
  cases hconv : faults .getConversation with
  | true => exact ⟨.other, Program.bind_error (read_fault hconv _ w)⟩
  | false =>
      have hmember := h.resolve_left (by rw [hconv]; exact Bool.false_ne_true)
      rw [Program.bind_ok (read_ok hconv _ w)]
      cases w.working.membership c with
      | none => exact ⟨_, rfl⟩
      | some memberIds => exact ⟨.other, Program.bind_error (read_fault hmember _ w)⟩

theorem lockForMessage_ok (h : ¬ (ids ≠ [] ∧ faults .lockForMessage)) (w : Session Store) :
    lockForMessage faults ids w = (.ok (ids.filterMap w.working.attachment), w) := by
  unfold lockForMessage
  split
  · rename_i hnil
    rw [hnil]
    rfl
  · rename_i hne
    exact read_ok (Bool.eq_false_of_not_eq_true fun hf ↦ h ⟨hne, hf⟩) _ w

theorem lockForMessage_fault (h : ids ≠ [] ∧ faults .lockForMessage) (w : Session Store) :
    lockForMessage faults ids w = (.error .other, w) := by
  rw [lockForMessage, if_neg h.1]
  exact read_fault h.2 _ w

/-- A statement of `prepare` raises, if it is reached. -/
def Faulty (faults : Faults) (attachmentIds : List UUID) : Prop :=
  (faults .getConversation ∨ faults .isMember) ∨ (attachmentIds ≠ [] ∧ faults .lockForMessage) ∨
    faults .flush ∨ faults .touch

theorem blocked_iff : Blocked faults ids ↔ Faulty faults ids ∨ faults .commit := by
  simp only [Blocked, Faulty, or_assoc]

/-- A statement that changes the store. -/
theorem statement_ok {x : Statement} (h : faults x = false)
    {f : Store → Except Failure (Unit × Store)} {w : Session Store} (hf : f w.working = .ok ((), t)) :
    Program.statement (faults.at x) f w = (.ok (), { w with working := t }) := by
  rw [at_of_false h, Program.statement]
  simp only [hf]

theorem statement_error {x : Statement} (h : faults x = false)
    {f : Store → Except Failure (Unit × Store)} {w : Session Store} {e : Failure}
    (hf : f w.working = .error e) : Program.statement (faults.at x) f w = (.error e, w) := by
  rw [at_of_false h, Program.statement]
  simp only [hf]

theorem statement_fault {x : Statement} (h : faults x = true)
    (f : Store → Except Failure (Unit × Store)) (w : Session Store) :
    Program.statement (faults.at x) f w = (.error .other, w) := by
  rw [at_of_true h]
  rfl

/-- The rows go in if all their identifiers are new. -/
theorem insertRows_cases (env : Env) (s : Store) (message : Message)
    (recipientIds ids : List UUID) :
    (s.messages.insert message = none ∧
        insertRows env s message recipientIds ids = .error .other) ∨
      ∃ messages, s.messages.insert message = some messages ∧
        (¬ ((newReceipts env recipientIds ++ s.receipts).map MessageReceipt.id).Nodup ∧
            insertRows env s message recipientIds ids = .error .other ∨
          ((newReceipts env recipientIds ++ s.receipts).map MessageReceipt.id).Nodup ∧
            insertRows env s message recipientIds ids =
              .ok ((), withRows env s message messages recipientIds ids)) := by
  unfold insertRows
  cases s.messages.insert message with
  | none => exact .inl ⟨rfl, rfl⟩
  | some messages =>
      refine .inr ⟨messages, rfl, ?_⟩
      by_cases hnodup : ((newReceipts env recipientIds ++ s.receipts).map MessageReceipt.id).Nodup
      · exact .inr ⟨hnodup, if_pos hnodup⟩
      · exact .inl ⟨hnodup, if_neg hnodup⟩

/-- Without a fault `prepare` gets to its end exactly if the transaction succeeds, with
what the transaction leaves. -/
theorem prepare_of_not_faulty (st : Settings) (env : Env) (s : Store) (c u : UUID)
    (content : String) (h : ¬ Faulty faults ids) :
    (∃ e, createMessage st env s c u content ids = .error e ∧
        prepare st env faults c u content ids ⟨s, s⟩ = (.error e, ⟨s, s⟩)) ∨
      ∃ p t, createMessage st env s c u content ids =
          .ok (toMessageResponse t p.message p.receipts p.attachments, t) ∧
        prepare st env faults c u content ids ⟨s, s⟩ = (.ok p, ⟨s, t⟩) := by
  simp only [Faulty, not_or, Bool.not_eq_true] at h
  obtain ⟨⟨hconv, hmember⟩, hlock, hflush, htouch⟩ := h
  unfold prepare createMessage
  cases hauth : authorize s c u with
  | error e =>
      refine .inl ⟨e, rfl, Program.bind_error ?_⟩
      rw [authorized_ok hconv hmember, hauth]
  | ok memberIds =>
      have hauthorized : authorized faults c u ⟨s, s⟩ = (.ok memberIds, ⟨s, s⟩) := by
        rw [authorized_ok hconv hmember, hauth]
      rw [Program.bind_ok hauthorized]
      dsimp only
      split
      · exact .inl ⟨_, rfl, rfl⟩
      split
      · exact .inl ⟨_, rfl, rfl⟩
      split
      · exact .inl ⟨_, rfl, rfl⟩
      rw [Program.bind_ok (lockForMessage_ok hlock ⟨s, s⟩)]
      unfold attachmentsFor
      dsimp only
      by_cases hlength : (ids.filterMap s.attachment).length ≠ ids.length
      · simp only [if_pos hlength]
        exact .inl ⟨_, rfl, rfl⟩
      by_cases hunusable : ∃ p ∈ ids.filterMap s.attachment, unusable c u p.2
      · simp only [if_neg hlength, if_pos hunusable]
        exact .inl ⟨_, rfl, rfl⟩
      simp only [if_neg hlength, if_neg hunusable]
      rcases insertRows_cases env s ⟨env.draw 0, c, u, st.text.strip content, env.now, none⟩
        (memberIds.filter (· ≠ u)) ids with
        ⟨hinsert, hrows⟩ | ⟨messages, hinsert, ⟨hdup, hrows⟩ | ⟨hnodup, hrows⟩⟩
      · rw [hinsert]
        exact .inl ⟨_, rfl, Program.bind_error (statement_error hflush hrows)⟩
      · simp only [hinsert, if_neg hdup]
        exact .inl ⟨_, rfl, Program.bind_error (statement_error hflush hrows)⟩
      · simp only [hinsert, if_pos hnodup]
        refine .inr ⟨⟨_, _, _⟩, _, rfl, ?_⟩
        rw [Program.bind_ok (statement_ok hflush hrows)]
        exact Program.bind_ok (statement_ok htouch rfl)

/-- With a fault it raises. -/
theorem prepare_of_faulty (st : Settings) (env : Env) (s : Store) (c u : UUID)
    (content : String) (h : Faulty faults ids) :
    ∃ e w, prepare st env faults c u content ids ⟨s, s⟩ = (.error e, w) := by
  unfold prepare
  by_cases hauthorized : faults .getConversation = true ∨ faults .isMember = true
  · obtain ⟨e, he⟩ := authorized_fault hauthorized ⟨s, s⟩
    exact ⟨e, _, Program.bind_error he⟩
  have h := h.resolve_left hauthorized
  simp only [not_or, Bool.not_eq_true] at hauthorized
  cases hauth : authorize s c u with
  | error e =>
      refine ⟨e, ⟨s, s⟩, Program.bind_error ?_⟩
      rw [authorized_ok hauthorized.1 hauthorized.2, hauth]
  | ok memberIds =>
      have hok : authorized faults c u ⟨s, s⟩ = (.ok memberIds, ⟨s, s⟩) := by
        rw [authorized_ok hauthorized.1 hauthorized.2, hauth]
      rw [Program.bind_ok hok]
      split
      · exact ⟨_, _, rfl⟩
      split
      · exact ⟨_, _, rfl⟩
      split
      · exact ⟨_, _, rfl⟩
      by_cases hlock : ids ≠ [] ∧ faults .lockForMessage
      · exact ⟨.other, _, Program.bind_error (lockForMessage_fault hlock _)⟩
      rw [Program.bind_ok (lockForMessage_ok hlock ⟨s, s⟩)]
      have h := h.resolve_left hlock
      dsimp only
      split
      · exact ⟨_, _, rfl⟩
      split
      · exact ⟨_, _, rfl⟩
      cases hflush : faults .flush with
      | true => exact ⟨.other, _, Program.bind_error (statement_fault hflush _ _)⟩
      | false =>
          have htouch := h.resolve_left (by rw [hflush]; exact Bool.false_ne_true)
          cases hrows : insertRows env s ⟨env.draw 0, c, u, st.text.strip content, env.now, none⟩
              (memberIds.filter (· ≠ u)) ids with
          | error e => exact ⟨e, _, Program.bind_error (statement_error hflush hrows)⟩
          | ok r =>
              rw [Program.bind_ok (statement_ok hflush hrows)]
              exact ⟨.other, _, Program.bind_error (statement_fault htouch _ _)⟩

/-! ## What becomes of a message -/

/-- **A message that is accepted, with no fault up to its commit, is stored**, whether
the statement behind the commit raises or not. -/
theorem create_of_ok {response : MessageResponse}
    (hok : createMessage st env s c u content ids = .ok (response, t)) (h : ¬ Blocked faults ids) :
    create st env faults c u content ids ⟨s, s⟩ =
      (if faults .refreshSender then .error .other else .ok response, ⟨t, t⟩) := by
  rw [blocked_iff, not_or] at h
  obtain ⟨hfaulty, hcommit⟩ := h
  rcases prepare_of_not_faulty st env s c u content hfaulty with ⟨e, he, -⟩ | ⟨p, t', hok', hp⟩
  · rw [hok] at he
    cases he
  · cases hok.symm.trans hok'
    have hcommitted : (Program.commit (faults.at .commit) : Program Store Failure PUnit) ⟨s, t⟩ =
        (.ok ⟨⟩, ⟨t, t⟩) := by
      rw [at_of_false (Bool.eq_false_of_not_eq_true hcommit)]
      rfl
    unfold create
    rw [Program.bind_ok hp, Program.bind_ok hcommitted]
    cases hrefresh : faults .refreshSender with
    | true => exact read_fault hrefresh _ _
    | false => exact read_ok hrefresh _ _

/-- A message that the transaction refuses is refused for the same reason. -/
theorem create_of_error {e : Failure} (he : createMessage st env s c u content ids = .error e)
    (h : ¬ Faulty faults ids) :
    create st env faults c u content ids ⟨s, s⟩ = (.error e, ⟨s, s⟩) := by
  rcases prepare_of_not_faulty st env s c u content h with ⟨e', he', hp⟩ | ⟨p, t, hok, -⟩
  · cases he.symm.trans he'
    exact Program.bind_error hp
  · rw [he] at hok
    cases hok

/-- Any other message is refused, and leaves the store alone. -/
theorem create_of_not
    (h : Blocked faults ids ∨ ∃ e, createMessage st env s c u content ids = .error e) :
    ∃ e w, create st env faults c u content ids ⟨s, s⟩ = (.error e, w) ∧ w.committed = s := by
  have hquiet := quiet_prepare st env faults c u content ids ⟨s, s⟩
  unfold create
  cases hp : prepare st env faults c u content ids ⟨s, s⟩ with
  | mk r w =>
      rw [hp] at hquiet
      cases r with
      | error e => exact ⟨e, w, Program.bind_error hp, hquiet⟩
      | ok p =>
          -- only the commit is left to raise
          have hfaulty : ¬ Faulty faults ids := fun hf ↦ by
            obtain ⟨e, w', he⟩ := prepare_of_faulty st env s c u content hf
            rw [hp] at he
            cases he
          have hcommit : faults .commit = true := by
            rcases h with hb | ⟨e, he⟩
            · exact (blocked_iff.mp hb).resolve_left hfaulty
            · rcases prepare_of_not_faulty st env s c u content hfaulty with
                ⟨e', -, hp'⟩ | ⟨p', t', hok, -⟩
              · rw [hp] at hp'
                cases hp'
              · rw [he] at hok
                cases hok
          have hraises : (Program.commit (faults.at .commit) : Program Store Failure PUnit) w =
              (.error .other, w) := by
            rw [at_of_true hcommit]
            rfl
          exact ⟨.other, w, (Program.bind_ok hp).trans (Program.bind_error hraises), hquiet⟩

/-- The receipts are marked, or nothing is. -/
theorem markDelivered_runOn (now : Instant) (messageId : UUID) (userIds : List UUID) :
    (markDelivered faults now messageId userIds).runOn s =
      if faults .selectReceipts ∨ faults .commitReceipts then (.error .other, s)
      else (.ok (Services.markDelivered now s messageId userIds).1,
        (Services.markDelivered now s messageId userIds).2) := by
  unfold markDelivered Program.runOn Program.statement Program.commit Faults.at
  cases faults .selectReceipts <;> cases faults .commitReceipts <;> rfl

end Statements

end Chatterbox.Services
