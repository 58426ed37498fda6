import Chatterbox.Services.Summaries
import Chatterbox.Services.Unread

/-!
# What lasts

Transactions add.  A message that has been committed stays as it is, with its attachments and
with those whom it has been sent to; all that can still happen to it is that a receipt gets a
time, once for each of its columns, and that the sender's name becomes known.

`Lasts` says this of two stores, and `MessageResponse.Lasts` of two responses for one message.
`history_lasts` is about what users see: an item of a history that has been read is found there
ever after, and says what it said.  Attachments and receipts come in no particular order from
the database, so they are compared as such.
-/

namespace Chatterbox.Services

open Attachments (Attachment bindTo promote)
open Messages (Message MessageTable Cursor visible)
open Receipts (MessageReceipt Operation joined)

variable {st : Settings} {s t r : Store} {env : Env} {c u : UUID} {ids : List UUID}
  {message : Message} {receipt : MessageReceipt}

/-! ## Receipts and stores -/

/-- The row of a receipt, at two times. -/
structure RowLasts (before after : MessageReceipt) : Prop where
  messageId : after.messageId = before.messageId
  userId : after.userId = before.userId
  deliveredAt : ∀ now, before.deliveredAt = some now → after.deliveredAt = some now
  readAt : ∀ now, before.readAt = some now → after.readAt = some now

theorem RowLasts.refl (receipt : MessageReceipt) : RowLasts receipt receipt :=
  ⟨rfl, rfl, fun _ h ↦ h, fun _ h ↦ h⟩

theorem RowLasts.trans {x y z : MessageReceipt} (h : RowLasts x y) (h' : RowLasts y z) :
    RowLasts x z where
  messageId := h'.messageId.trans h.messageId
  userId := h'.userId.trans h.userId
  deliveredAt now hx := h'.deliveredAt now (h.deliveredAt now hx)
  readAt now hx := h'.readAt now (h.readAt now hx)

/-- The store, at two times. -/
structure Lasts (s t : Store) : Prop where
  username : ∀ id name, s.username id = some name → t.username id = some name
  exists_ : ∀ c, s.Exists c → t.Exists c
  memberIds : ∀ c, s.Exists c → t.memberIds c = s.memberIds c
  messages : ∀ message ∈ s.messages.rows, message ∈ t.messages.rows
  attachments : ∀ message ∈ s.messages.rows,
    t.attachmentsOf message.id = s.attachmentsOf message.id
  receipts : ∀ message ∈ s.messages.rows, ∃ f : MessageReceipt → MessageReceipt,
    t.receiptsOf message.id = (s.receiptsOf message.id).map f ∧
      ∀ receipt, RowLasts receipt (f receipt)

theorem Lasts.refl (s : Store) : Lasts s s where
  username _ _ h := h
  exists_ _ h := h
  memberIds _ _ := rfl
  messages _ h := h
  attachments _ _ := rfl
  receipts _ _ := ⟨id, (List.map_id _).symm, RowLasts.refl⟩

theorem Lasts.trans (h : Lasts s t) (h' : Lasts t r) : Lasts s r where
  username id name hs := h'.username id name (h.username id name hs)
  exists_ c hc := h'.exists_ c (h.exists_ c hc)
  memberIds c hc := (h'.memberIds c (h.exists_ c hc)).trans (h.memberIds c hc)
  messages message hm := h'.messages message (h.messages message hm)
  attachments message hm :=
    (h'.attachments message (h.messages message hm)).trans (h.attachments message hm)
  receipts message hm := by
    obtain ⟨f, hf, hlasts⟩ := h.receipts message hm
    obtain ⟨g, hg, hlasts'⟩ := h'.receipts message (h.messages message hm)
    refine ⟨g ∘ f, ?_, fun receipt ↦ (hlasts receipt).trans (hlasts' (f receipt))⟩
    rw [hg, hf, List.map_map]

/-! ## One transaction -/

/-- An attachment that belongs to a message has been uploaded. -/
def BoundUploaded (s : Store) : Prop :=
  ∀ p ∈ s.attachments, p.2.messageId ≠ none → p.2.uploadedAt ≠ none

theorem BoundUploaded.step (h : BoundUploaded s) (hinv : Inv s) {a : Action}
    (ht : step st s a = some t) : BoundUploaded t := by
  cases hop : a.operation s with
  | some op =>
      rw [step_operation ht hop]
      exact h
  | none =>
      cases Move.of_step ht hop with
      | other | direct => exact h
      | message env member usable id inserted receipts =>
          intro p hp hbound
          obtain ⟨q, hq, rfl⟩ := List.mem_map.mp hp
          revert hbound
          split
          · rename_i hid
            exact fun _ hnone ↦ hinv.usable usable hq hid (.inr (.inr (.inl hnone)))
          · exact h q hq
      | reserve member fresh unbound key =>
          refine List.forall_mem_cons.mpr ⟨fun hbound ↦ absurd unbound hbound, h⟩
      | promote env object found =>
          intro p hp
          obtain ⟨q, hq, rfl⟩ := List.mem_map.mp hp
          split
          · exact fun _ ↦ Option.some_ne_none _
          · exact h q hq
      | cleanup cutoff limit fails => exact fun p hp ↦ h p (List.mem_of_mem_filter hp)

/-- An attachment is promoted when it has not been uploaded, and then it is nobody's. -/
theorem attachmentsOf_complete (hinv : Inv s) (hbound : BoundUploaded s) {attachmentId : UUID}
    {response : AttachmentResponse}
    (h : complete st env s attachmentId u = .ok (response, t)) (id : UUID) :
    t.users = s.users ∧ t.attachmentsOf id = s.attachmentsOf id := by
  unfold complete at h
  split at h
  · cases h
  · rename_i id' row hfound
    obtain ⟨hrow, -⟩ := (find?_key hinv.attachmentIds).mp hfound
    repeat' split at h
    all_goals cases h
    · exact ⟨rfl, rfl⟩
    · rename_i hnew _ _ _
      have hnobody : row.messageId = none := by
        by_contra hne
        exact hbound _ hrow hne (not_not.mp hnew)
      have hself : ∀ p ∈ s.attachments, p.1 = id' → p.2 = row := fun p hp hid ↦
        congrArg Prod.snd (List.inj_on_of_nodup_map hinv.attachmentIds hp hrow hid)
      refine ⟨rfl, filter_map_eq (fun p hp ↦ ?_) fun p hp hmessage ↦ if_neg fun hid ↦ ?_⟩
      · split
        · rename_i hid
          rw [hself p hp hid]
          rfl
        · rfl
      · rw [hself p hp hid, hnobody] at hmessage
        cases of_decide_eq_true hmessage

/-- A request keeps the users, and if it does not create a message, what messages have. -/
theorem kept_of_serve (hinv : Inv s) (hbound : BoundUploaded s) {request : Request}
    {response : Response} (h : serve st env s u request = .ok (response, t)) :
    t.users = s.users ∧ ((∀ c content ids, request ≠ .createMessage c content ids) →
      ∀ id, t.attachmentsOf id = s.attachmentsOf id) := by
  cases request with
  | createDirect participantId =>
      obtain ⟨⟨_, _⟩, hok, hpair⟩ := serve_eq_ok h
      cases hpair
      obtain ⟨-, -, ⟨x, -, rfl, -⟩ | ⟨-, -, rfl, -⟩⟩ := createDirect_eq_ok hok
      · exact ⟨rfl, fun _ _ ↦ rfl⟩
      · exact ⟨rfl, fun _ _ ↦ rfl⟩
  | listConversations | markPendingDelivered =>
      cases h
      exact ⟨rfl, fun _ _ ↦ rfl⟩
  | getConversation | listMessages | authorizeDownload =>
      obtain ⟨_, -, hpair⟩ := serve_eq_ok h
      cases hpair
      exact ⟨rfl, fun _ _ ↦ rfl⟩
  | createMessage conversationId content attachmentIds =>
      obtain ⟨⟨_, _⟩, hok, hpair⟩ := serve_eq_ok h
      cases hpair
      obtain ⟨_, _, _, -, -, -, -, rfl, -⟩ := createMessage_eq_ok hok
      exact ⟨rfl, fun hne ↦ absurd rfl (hne conversationId content attachmentIds)⟩
  | markRead conversationId messageId =>
      obtain ⟨⟨_, _⟩, hok, hpair⟩ := serve_eq_ok h
      cases hpair
      obtain ⟨_, -, -, -, rfl, -⟩ := markRead_eq_ok hok
      exact ⟨rfl, fun _ _ ↦ rfl⟩
  | reserve conversationId filename mimeType fileSize =>
      obtain ⟨⟨_, _⟩, hok, hpair⟩ := serve_eq_ok h
      cases hpair
      unfold Services.reserve at hok
      repeat' split at hok
      all_goals cases hok
      exact ⟨rfl, fun _ id ↦ List.filter_cons_of_neg Bool.false_ne_true⟩
  | complete attachmentId =>
      obtain ⟨⟨_, _⟩, hok, hpair⟩ := serve_eq_ok h
      cases hpair
      exact ⟨(attachmentsOf_complete hinv hbound hok u).1,
        fun _ id ↦ (attachmentsOf_complete hinv hbound hok id).2⟩

/-- An operation sets what has not been set. -/
theorem rowLasts_assign {op : Operation} {now : Instant}
    (h : op.selects (receipt, message) = true) : RowLasts receipt (op.assign now receipt) where
  messageId := Receipts.assign_messageId now
  userId := Receipts.assign_userId now
  deliveredAt time htime := by
    cases op with
    | markDelivered messageId userIds =>
        rw [(of_decide_eq_true h).2.2] at htime
        cases htime
    | markPendingDelivered userId =>
        rw [(of_decide_eq_true h).2] at htime
        cases htime
    | markReadThrough conversationId userId targetCreatedAt targetId =>
        rw [Operation.assign, htime, Option.getD_some]
  readAt time htime := by
    cases op with
    | markDelivered messageId userIds | markPendingDelivered userId => exact htime
    | markReadThrough conversationId userId targetCreatedAt targetId =>
        rw [(of_decide_eq_true h).2.2.1] at htime
        cases htime

/-- Names stay. -/
theorem username_of_step (hinv : Inv s) (hbound : BoundUploaded s) {a : Action}
    (ht : step st s a = some t) {id : UUID} {name : String} (hname : s.username id = some name) :
    t.username id = some name := by
  cases a with
  | register user =>
      simp only [step] at ht
      split at ht
      · cases ht
      · rename_i hfresh
        cases ht
        obtain ⟨other, hother, rfl⟩ := Option.map_eq_some_iff.mp hname
        have hfound : other.id = id := by simpa using List.find?_some hother
        have hid : user.id ≠ id := fun e ↦
          hfresh ⟨other, List.mem_of_find?_eq_some hother, hfound.trans e.symm⟩
        rw [Store.username, List.find?_cons_of_neg (by simpa using hid)]
        exact hname
  | setLastSeen userId lastSeen =>
      cases ht
      have hid : ((fun user : User ↦ decide (user.id = id)) ∘ fun user ↦
          if user.id = userId then { user with lastSeen := some lastSeen } else user) =
            fun user ↦ decide (user.id = id) := by
        funext user
        rw [Function.comp_apply]
        split <;> rfl
      rw [Store.username, List.find?_map, hid, Option.map_map, ← hname]
      refine Option.map_congr fun user _ ↦ ?_
      rw [Function.comp_apply]
      split <;> rfl
  | put key object =>
      simp only [step] at ht
      split at ht
      · cases ht
        exact hname
      · cases ht
  | cleanup cutoff limit fails | markDelivered now messageId userIds =>
      cases ht
      exact hname
  | request env userId request =>
      simp only [step] at ht
      split at ht
      · rename_i hserve
        cases ht
        rw [Store.username, (kept_of_serve hinv hbound hserve).1]
        exact hname
      · cases ht

/-- The attachments of a message stay. -/
theorem attachmentsOf_of_step (hinv : Inv s) (hbound : BoundUploaded s) {a : Action}
    (ht : step st s a = some t) (hm : message ∈ s.messages.rows) :
    t.attachmentsOf message.id = s.attachmentsOf message.id := by
  rcases step_cases ht with ⟨_, env, u, c, content, ids, rfl, hok⟩ |
    ⟨_, env, u, v, rfl, hok⟩ | ⟨-, hother⟩
  · obtain ⟨memberIds, ordered, messages, -, husable, hinserted, -, rfl, -⟩ :=
      createMessage_eq_ok hok
    refine attachmentsOf_addMessage (ne_of_insert hinserted hm) fun p hp hid ↦ ?_
    by_contra hmessage
    exact hinv.usable husable hp hid (.inr (.inr (.inr hmessage)))
  · obtain ⟨-, -, ⟨x, -, rfl, -⟩ | ⟨-, -, rfl, -⟩⟩ := createDirect_eq_ok hok <;> rfl
  · cases a with
    | register user =>
        simp only [step] at ht
        split at ht <;> cases ht
        rfl
    | put key object =>
        simp only [step] at ht
        split at ht <;> cases ht
        rfl
    | setLastSeen userId lastSeen | markDelivered now messageId userIds =>
        cases ht
        rfl
    | cleanup cutoff limit fails =>
        cases ht
        exact attachmentsOf_cleanup message.id
    | request env userId request =>
        simp only [step] at ht
        split at ht
        · rename_i hserve
          cases ht
          refine (kept_of_serve hinv hbound hserve).2 (fun c content ids h ↦ ?_) message.id
          exact (hother env userId).2 c content ids (congrArg _ h)
        · cases ht

/-- Receipts stay, and are filled in. -/
theorem receiptsOf_of_step {a : Action} (ht : step st s a = some t)
    (hm : message ∈ s.messages.rows) : ∃ f : MessageReceipt → MessageReceipt,
      t.receiptsOf message.id = (s.receiptsOf message.id).map f ∧
        ∀ receipt, RowLasts receipt (f receipt) := by
  cases hop : a.operation s with
  | some p =>
      obtain ⟨op, now⟩ := p
      rw [step_operation ht hop]
      refine ⟨fun receipt ↦ if receipt ∈ (op.select s.messages.rows s.receipts).map Prod.fst then
        op.assign now receipt else receipt, ?_, fun receipt ↦ ?_⟩
      · rw [Store.receiptsOf, Store.receiptsOf, mark, List.filter_map]
        refine congrArg (List.map _) (List.filter_congr fun receipt _ ↦ ?_)
        rw [Function.comp_apply]
        split
        · rw [Receipts.assign_messageId]
        · rfl
      · dsimp only
        split
        · rename_i hmem
          obtain ⟨⟨_, other⟩, hsel, rfl⟩ := List.mem_map.mp hmem
          exact rowLasts_assign (Receipts.mem_select.mp hsel).2
        · exact .refl receipt
  | none =>
      cases Move.of_step ht hop with
      | other | direct | reserve | promote | cleanup => exact ⟨id, (List.map_id _).symm, .refl⟩
      | @message env new messages memberIds ids ordered member usable hid inserted hnew =>
          refine ⟨id, ?_, .refl⟩
          rw [List.map_id, Store.receiptsOf, addMessage, List.filter_append]
          refine List.append_left_eq_self.mpr (List.filter_eq_nil_iff.mpr fun receipt h ↦ ?_)
          obtain ⟨⟨userId, i⟩, -, rfl⟩ := List.mem_map.mp h
          rw [decide_eq_true_eq, ← hid]
          exact ne_of_insert inserted hm

theorem messages_of_step {a : Action} (ht : step st s a = some t)
    (hm : message ∈ s.messages.rows) : message ∈ t.messages.rows := by
  rcases step_cases ht with ⟨_, env, u, c, content, ids, rfl, hok⟩ |
    ⟨_, env, u, v, rfl, hok⟩ | ⟨hkept, -⟩
  · obtain ⟨memberIds, ordered, messages, -, -, hinserted, -, rfl, -⟩ := createMessage_eq_ok hok
    rw [addMessage, MessageTable.rows_insert hinserted]
    exact List.mem_cons_of_mem _ hm
  · obtain ⟨-, -, ⟨x, -, rfl, -⟩ | ⟨-, -, rfl, -⟩⟩ := createDirect_eq_ok hok <;> exact hm
  · rwa [hkept.messages]

theorem Lasts.step (hinv : Inv s) (hbound : BoundUploaded s) {a : Action}
    (ht : Services.step st s a = some t) : Lasts s t where
  username _ _ hname := username_of_step hinv hbound ht hname
  exists_ _ hc := exists_of_step ht hc
  memberIds _ hc := memberIds_of_step ht hc
  messages _ hm := messages_of_step ht hm
  attachments _ hm := attachmentsOf_of_step hinv hbound ht hm
  receipts _ hm := receiptsOf_of_step ht hm

/-! ## Runs -/

theorem Reachable.boundUploaded (h : Reachable st s) : BoundUploaded s := by
  obtain ⟨as, hrun⟩ := h
  have hboth : Inv s ∧ BoundUploaded s := by
    refine exec_invariant (P := fun s ↦ Inv s ∧ BoundUploaded s) (fun h ht ↦ ?_)
      ⟨.initial, fun _ h ↦ absurd h List.not_mem_nil⟩ hrun
    exact ⟨h.1.step ht, h.2.step h.1 ht⟩
  exact hboth.2

theorem Reachable.run (h : Reachable st s) {as : List Action}
    (hrun : exec (Services.step st) s as = some t) : Reachable st t := by
  obtain ⟨before, hbefore⟩ := h
  exact ⟨before ++ as, exec_append_eq_some.mpr ⟨s, hbefore, hrun⟩⟩

/-- After a run from a reachable store all is as it was. -/
theorem Lasts.run (h : Reachable st s) {as : List Action}
    (hrun : exec (Services.step st) s as = some t) : Lasts s t := by
  have hboth : Reachable st t ∧ Lasts s t := by
    refine exec_invariant (P := fun t ↦ Reachable st t ∧ Lasts s t) (fun {m a t} hm ht ↦ ?_)
      ⟨h, .refl s⟩ hrun
    have hnext : exec (Services.step st) m [a] = some t := exec_cons_eq_some.mpr ⟨t, ht, rfl⟩
    exact ⟨hm.1.run hnext, hm.2.trans (.step hm.1.inv hm.1.boundUploaded ht)⟩
  exact hboth.2

/-! ## What is shown -/

/-- A message, as a page shows it. -/
def shown (s : Store) (message : Message) : MessageResponse :=
  toMessageResponse s message (s.receiptsOf message.id) (s.attachmentsOf message.id)

/-- A receipt that is shown, at two times. -/
structure MessageReceiptResponse.Lasts (before after : MessageReceiptResponse) : Prop where
  userId : after.userId = before.userId
  deliveredAt : ∀ now, before.deliveredAt = some now → after.deliveredAt = some now
  readAt : ∀ now, before.readAt = some now → after.readAt = some now

/-- A message that is shown, at two times. -/
structure MessageResponse.Lasts (before after : MessageResponse) : Prop where
  id : after.id = before.id
  conversationId : after.conversationId = before.conversationId
  senderId : after.senderId = before.senderId
  senderUsername : ∀ name, before.senderUsername = some name → after.senderUsername = some name
  content : after.content = before.content
  createdAt : after.createdAt = before.createdAt
  cursor : after.cursor = before.cursor
  recipients : (after.receipts.map MessageReceiptResponse.userId).Perm
    (before.receipts.map MessageReceiptResponse.userId)
  receipts : ∀ x ∈ before.receipts, ∃ y ∈ after.receipts, x.Lasts y
  attachments : after.attachments.Perm before.attachments

theorem shown_lasts (h : Lasts s t) (hm : message ∈ s.messages.rows) :
    (shown s message).Lasts (shown t message) := by
  obtain ⟨f, hf, hlasts⟩ := h.receipts message hm
  refine ⟨rfl, rfl, rfl, h.username _, rfl, rfl, rfl, ?_, fun x hx ↦ ?_, ?_⟩
  · have huser : (fun receipt ↦ (toReceiptResponse receipt).userId) ∘ f =
        fun receipt ↦ (toReceiptResponse receipt).userId :=
      funext fun receipt ↦ (hlasts receipt).userId
    simp only [shown, toMessageResponse, hf, List.map_map, Function.comp_def] at huser ⊢
    rw [huser]
  · obtain ⟨receipt, hr, rfl⟩ := List.mem_map.mp hx
    refine ⟨toReceiptResponse (f receipt), List.mem_map.mpr ⟨f receipt, ?_, rfl⟩, ?_⟩
    · rw [hf]
      exact List.mem_map_of_mem hr
    · exact ⟨(hlasts receipt).userId, (hlasts receipt).deliveredAt, (hlasts receipt).readAt⟩
  · simp only [shown, toMessageResponse, h.attachments message hm]
    exact .refl _

theorem MessageResponse.Lasts.trans {x y z : MessageResponse} (h : x.Lasts y) (h' : y.Lasts z) :
    x.Lasts z where
  id := h'.id.trans h.id
  conversationId := h'.conversationId.trans h.conversationId
  senderId := h'.senderId.trans h.senderId
  senderUsername name hname := h'.senderUsername name (h.senderUsername name hname)
  content := h'.content.trans h.content
  createdAt := h'.createdAt.trans h.createdAt
  cursor := h'.cursor.trans h.cursor
  recipients := h'.recipients.trans h.recipients
  receipts r hr := by
    obtain ⟨r', hr', hlasts⟩ := h.receipts r hr
    obtain ⟨r'', hr'', hlasts'⟩ := h'.receipts r' hr'
    exact ⟨r'', hr'', hlasts'.userId.trans hlasts.userId,
      fun now hnow ↦ hlasts'.deliveredAt now (hlasts.deliveredAt now hnow),
      fun now hnow ↦ hlasts'.readAt now (hlasts.readAt now hnow)⟩
  attachments := h'.attachments.trans h.attachments

/-- A receipt in an event, at two times. -/
structure ReceiptEventData.Lasts (before after : ReceiptEventData) : Prop where
  messageId : after.messageId = before.messageId
  conversationId : after.conversationId = before.conversationId
  userId : after.userId = before.userId
  deliveredAt : ∀ now, before.deliveredAt = some now → after.deliveredAt = some now
  readAt : ∀ now, before.readAt = some now → after.readAt = some now

theorem ReceiptEventData.Lasts.refl (data : ReceiptEventData) : data.Lasts data :=
  ⟨rfl, rfl, rfl, fun _ h ↦ h, fun _ h ↦ h⟩

theorem ReceiptEventData.Lasts.trans {x y z : ReceiptEventData} (h : x.Lasts y) (h' : y.Lasts z) :
    x.Lasts z where
  messageId := h'.messageId.trans h.messageId
  conversationId := h'.conversationId.trans h.conversationId
  userId := h'.userId.trans h.userId
  deliveredAt now hnow := h'.deliveredAt now (h.deliveredAt now hnow)
  readAt now hnow := h'.readAt now (h.readAt now hnow)

/-- A receipt with its message is still one. -/
theorem joined_lasts (h : Lasts s t) {p : MessageReceipt × Message}
    (hp : p ∈ joined s.messages.rows s.receipts) :
    ∃ q ∈ joined t.messages.rows t.receipts, (toEvent p).Lasts (toEvent q) := by
  obtain ⟨receipt, message⟩ := p
  obtain ⟨hr, hm, hid⟩ := mem_joined.mp hp
  obtain ⟨f, hf, hlasts⟩ := h.receipts message hm
  have hmem : f receipt ∈ t.receiptsOf message.id := by
    rw [hf]
    exact List.mem_map_of_mem (List.mem_filter.mpr ⟨hr, decide_eq_true hid.symm⟩)
  have hl := hlasts receipt
  exact ⟨(f receipt, message), mem_joined.mpr ⟨List.mem_of_mem_filter hmem,
    h.messages message hm, hid.trans hl.messageId.symm⟩, hl.messageId, rfl, hl.userId,
    hl.deliveredAt, hl.readAt⟩

/-- What an operation returns is there then. -/
theorem mem_joined_of_mark {op : Operation} {now : Instant} {p : MessageReceipt × Message}
    (hp : p ∈ (mark op now s).1) :
    p ∈ joined (mark op now s).2.messages.rows (mark op now s).2.receipts := by
  obtain ⟨⟨receipt, message⟩, hsel, rfl⟩ := List.mem_map.mp hp
  obtain ⟨hjoined, hop⟩ := Receipts.mem_select.mp hsel
  exact mem_joined_mark.mpr ⟨receipt, hjoined, (if_pos hop).symm⟩

/-- A new message has the attachments that it is answered with. -/
theorem attachmentsOf_addMessage_perm (hinv : Inv s) (hids : ids.Nodup)
    {ordered : List (UUID × Attachment)} (hok : attachmentsFor s c u ids = .ok ordered)
    {messages : MessageTable} (hinserted : s.messages.insert message = some messages)
    (recipientIds : List UUID) :
    ((addMessage env s message messages recipientIds ids).attachmentsOf message.id).Perm
      (ordered.map fun p ↦ (p.1, bindTo message.id p.2)) := by
  have hnobody : ∀ p ∈ s.attachments, p.2.messageId ≠ some message.id := fun p hp hid ↦ by
    obtain ⟨other, hother, hsame, -⟩ := hinv.bound p hp _ hid
    exact ne_of_insert hinserted hother hsame.symm
  have hordered : ordered = ids.filterMap s.attachment := by
    unfold attachmentsFor at hok
    dsimp only at hok
    repeat' split at hok
    all_goals cases hok
    rfl
  have hfound : ∀ p, p ∈ ordered ↔ p ∈ s.attachments ∧ p.1 ∈ ids := by
    intro p
    rw [hordered, List.mem_filterMap]
    constructor
    · rintro ⟨id, hid, hp⟩
      obtain ⟨hrow, rfl⟩ := (find?_key hinv.attachmentIds).mp hp
      exact ⟨hrow, hid⟩
    · rintro ⟨hrow, hid⟩
      exact ⟨p.1, hid, (find?_key hinv.attachmentIds).mpr ⟨hrow, rfl⟩⟩
  have hnodup : (ordered.map fun p ↦ (p.1, bindTo message.id p.2)).Nodup := by
    rw [hordered]
    refine (hids.filterMap fun id id' p hp hp' ↦ ?_).map_on fun p hp q hq hpq ↦ ?_
    · exact (attachment_fst hp).symm.trans (attachment_fst hp')
    · rw [← hordered] at hp hq
      exact List.inj_on_of_nodup_map hinv.attachmentIds ((hfound p).mp hp).1 ((hfound q).mp hq).1
        (Prod.mk.inj hpq).1
  have hself : ((addMessage env s message messages recipientIds ids).attachmentsOf
      message.id).map Prod.fst = (s.attachments.map Prod.fst).filter (· ∈ ids) :=
    attachmentsOf_addMessage_self hnobody
  have hnodup' := hself ▸ hinv.attachmentIds.filter _
  refine (List.perm_ext_iff_of_nodup hnodup'.of_map hnodup).mpr fun p ↦ ?_
  rw [mem_attachmentsOf, List.mem_map]
  constructor
  · rintro ⟨hp, hmessage⟩
    obtain ⟨q, hq, rfl⟩ := List.mem_map.mp hp
    split at hmessage
    · rename_i hid
      exact ⟨q, (hfound q).mpr ⟨hq, hid⟩, (if_pos hid).symm⟩
    · exact absurd hmessage (hnobody q hq)
  · rintro ⟨q, hq, rfl⟩
    obtain ⟨hrow, hid⟩ := (hfound q).mp hq
    exact ⟨List.mem_map.mpr ⟨q, hrow, if_pos hid⟩, rfl⟩

/-- A message is shown from then on as its sender has been answered. -/
theorem createMessage_shown (hinv : Inv s) {content : String} {response : MessageResponse}
    (hok : createMessage st env s c u content ids = .ok (response, t)) :
    ∃ message ∈ t.messages.rows, response.Lasts (shown t message) := by
  have hids := (createMessage_checks hok).2.2
  obtain ⟨memberIds, ordered, messages, -, husable, hinserted, -, rfl, rfl⟩ :=
    createMessage_eq_ok hok
  set message : Message := ⟨env.draw 0, c, u, st.text.strip content, env.now, none⟩
  set recipientIds := memberIds.filter (· ≠ u)
  set t := addMessage env s message messages recipientIds ids
  have hnew : message ∈ t.messages.rows := by
    show message ∈ messages.rows
    rw [MessageTable.rows_insert hinserted]
    exact List.mem_cons_self
  have hreceipts : t.receiptsOf message.id = newReceipts env recipientIds := by
    have hold : s.receipts.filter (fun receipt ↦ receipt.messageId = message.id) = [] := by
      refine List.filter_eq_nil_iff.mpr fun receipt hr hid ↦ ?_
      obtain ⟨other, hother, hsame, -⟩ := (hinv.receipts _ _).mp (List.mem_map_of_mem hr)
      exact ne_of_insert hinserted hother ((of_decide_eq_true hid).symm.trans hsame.symm)
    show (newReceipts env recipientIds ++ s.receipts).filter _ = _
    rw [List.filter_append, hold, List.append_nil, List.filter_eq_self]
    intro receipt hr
    obtain ⟨-, -, rfl⟩ := List.mem_map.mp hr
    exact decide_eq_true rfl
  have hattachments : (t.attachmentsOf message.id).Perm
      (ordered.map fun p ↦ (p.1, bindTo message.id p.2)) :=
    attachmentsOf_addMessage_perm hinv hids husable hinserted recipientIds
  refine ⟨message, hnew, rfl, rfl, rfl, fun _ h ↦ h, rfl, rfl, rfl, ?_, fun x hx ↦ ?_, ?_⟩
  · rw [shown, hreceipts]
    exact .refl _
  · rw [shown, hreceipts]
    exact ⟨x, hx, rfl, fun _ h ↦ h, fun _ h ↦ h⟩
  · exact hattachments.map toAttachmentResponse

/-- **What has been shown lasts.**  Every item of every page of a history is still to be seen
after any further transactions of anybody, and says what it said: its text, its attachments and
its recipients are the same, and no time of a receipt has been changed or taken back. -/
theorem history_lasts (h : Reachable st s) {limit : ℕ} {before after : Option Cursor}
    {page : MessagePage} (hpage : listMessages s c u limit before after = .ok page)
    {as : List Action} (hrun : exec (step st) s as = some t) :
    ∀ item ∈ page.items, (∃ message ∈ visible t.messages c, item.Lasts (shown t message)) ∧
      ∀ v limit before after later, listMessages t c v limit before after = .ok later →
        ∀ other ∈ later.items, other.id = item.id → item.Lasts other := by
  have hlasts : Lasts s t := .run h hrun
  obtain ⟨found, hfound, hitems⟩ := listMessages_eq_ok hpage
  intro item hitem
  rw [hitems] at hitem
  obtain ⟨message, hm, rfl⟩ := List.mem_map.mp hitem
  obtain ⟨hrow, hc, hdeleted⟩ := Messages.mem_visible.mp (Messages.mem_list hfound hm)
  have hlater := hlasts.messages message hrow
  refine ⟨⟨message, Messages.mem_visible.mpr ⟨hlater, hc, hdeleted⟩, shown_lasts hlasts hrow⟩, ?_⟩
  intro v limit before after later hpage' other hother hid
  obtain ⟨found', hfound', hitems'⟩ := listMessages_eq_ok hpage'
  rw [hitems'] at hother
  obtain ⟨message', hm', rfl⟩ := List.mem_map.mp hother
  have hrow' := (Messages.mem_visible.mp (Messages.mem_list hfound' hm')).1
  obtain rfl : message' = message := t.messages.eq_of_id hrow' hlater hid
  exact shown_lasts hlasts hrow

/-- A file has been sent, and is read later on; the sender sees the same as before. -/
theorem history_lasts_readLater : ∃ s t page item, exec (step plain) .initial fileOnly = some s ∧
    exec (step plain) s [.request ⟨9, fun _ ↦ 50, true⟩ 2 (.markRead 10 40)] = some t ∧
      listMessages s 10 2 5 none none = .ok page ∧ item ∈ page.items ∧
        ∃ message ∈ visible t.messages 10, item.Lasts (shown t message) := by
  obtain ⟨s, page, hs, hpage, hitem⟩ := fileOnly_listed
  obtain ⟨t, ht⟩ : ∃ t, exec (step plain) .initial
      (fileOnly ++ [.request ⟨9, fun _ ↦ 50, true⟩ 2 (.markRead 10 40)]) = some t := ⟨_, rfl⟩
  obtain ⟨m, hm, ht⟩ := exec_append_eq_some.mp ht
  obtain rfl : s = m := Option.some.inj (hs.symm.trans hm)
  have hmem := hitem ▸ List.mem_singleton_self _
  exact ⟨s, t, page, _, hs, ht, hpage, hmem, (history_lasts ⟨fileOnly, hs⟩ hpage ht _ hmem).1⟩

end Chatterbox.Services
