import Chatterbox.Services.Requests

/-!
# What every store satisfies

A transaction performs one of the three operations on receipts, or one of the
moves that `Move` lists, with what it has checked.  `Inv` is what all reachable
stores have in common: the key of a direct conversation names members of it, a
message has a receipt for every recipient, rows are told apart by their keys, and
an attachment that is bound is bound to a message of its own conversation.
-/

namespace Chatterbox.Services

open Attachments (Attachment unusable bindTo promote)
open Conversations (directKey)
open Messages (Message MessageTable stamp)
open Receipts (MessageReceipt Operation)

variable {st : Settings} {s t : Store} {env : Env} {c u : UUID} {users : List UUID}

/-! ## Rows by their keys -/

/-- Looking for a row by a key finds the row that has it. -/
theorem find?_key {α β : Type*} [DecidableEq β] {key : α → β} {rows : List α} {k : β} {x : α}
    (h : (rows.map key).Nodup) :
    rows.find? (fun y ↦ key y = k) = some x ↔ x ∈ rows ∧ key x = k := by
  constructor
  · intro hfind
    exact ⟨List.mem_of_find?_eq_some hfind, by simpa using List.find?_some hfind⟩
  · rintro ⟨hx, rfl⟩
    cases hfind : rows.find? fun y ↦ key y = key x with
    | none => simpa using List.find?_eq_none.mp hfind x hx
    | some y =>
        have hy : key y = key x := by simpa using List.find?_some hfind
        rw [List.inj_on_of_nodup_map h (List.mem_of_find?_eq_some hfind) hx hy]

/-- Looking among some of the rows. -/
theorem find?_filter_key {α β : Type*} [DecidableEq β] {key : α → β} {rows : List α} (k : β)
    (h : (rows.map key).Nodup) (p : α → Bool) :
    (rows.filter p).find? (fun y ↦ key y = k) = (rows.find? fun y ↦ key y = k).filter p := by
  ext x
  rw [find?_key (h.sublist (List.filter_sublist.map key)), Option.filter_eq_some_iff, find?_key h,
    List.mem_filter]
  exact and_right_comm

/-! ## Authorization -/

/-- The conversation exists. -/
def Store.Exists (s : Store) (c : UUID) : Prop := ∃ x ∈ s.conversations, x.id = c

instance (s : Store) (c : UUID) : Decidable (s.Exists c) :=
  inferInstanceAs (Decidable (∃ _ ∈ _, _))

theorem mem_memberIds : u ∈ s.memberIds c ↔
    ∃ member ∈ s.members, member.conversationId = c ∧ member.userId = u := by
  simp [Store.memberIds, and_assoc]

theorem membership_eq_some :
    s.membership c = some users ↔ s.Exists c ∧ s.memberIds c = users := by
  simp only [Store.membership, Option.ite_none_right_eq_some, Option.some.injEq, Store.Exists]

theorem authorize_eq_ok :
    authorize s c u = .ok users ↔ s.Exists c ∧ s.memberIds c = users ∧ u ∈ users := by
  unfold authorize
  cases h : getAuthorized s.membership c u with
  | error e =>
      refine iff_of_false nofun fun ⟨hc, hmembers, hu⟩ ↦ ?_
      rw [getAuthorized_eq_ok.mpr ⟨membership_eq_some.mpr ⟨hc, hmembers⟩, hu⟩] at h
      cases h
  | ok found =>
      obtain ⟨hmembers, hu⟩ := getAuthorized_eq_ok.mp h
      obtain ⟨hc, rfl⟩ := membership_eq_some.mp hmembers
      constructor
      · rintro ⟨⟩
        exact ⟨hc, rfl, hu⟩
      · rintro ⟨-, rfl, -⟩
        rfl

/-! ## What a transaction can do -/

/-- The operation on receipts that a transaction performs, and its clock. -/
def Action.operation (s : Store) : Action → Option (Operation × Instant)
  | .markDelivered now messageId userIds => some (.markDelivered messageId userIds, now)
  | .request env userId .markPendingDelivered => some (.markPendingDelivered userId, env.now)
  | .request env userId (.markRead conversationId messageId) =>
      (s.message messageId).map fun target ↦
        (.markReadThrough conversationId userId target.createdAt target.id, env.now)
  | _ => none

/-- What another transaction can do to the store. -/
inductive Move (st : Settings) (s : Store) : Store → Prop
  /-- Users, objects, or nothing at all. -/
  | other (users : List User) (bucket : Attachments.StorageKey → Option Attachments.Object) :
      Move st s { s with users, bucket }
  | direct (env : Env) {a b : UUID} (fresh : ¬ s.Exists (env.draw 0)) (distinct : a ≠ b) :
      Move st s (addDirect env s a b)
  | message (env : Env) {message : Message} {messages : MessageTable} {memberIds ids : List UUID}
      {ordered : List (UUID × Attachment)}
      (member : authorize s message.conversationId message.senderId = .ok memberIds)
      (usable : attachmentsFor s message.conversationId message.senderId ids = .ok ordered)
      (id : message.id = env.draw 0) (inserted : s.messages.insert message = some messages)
      (receipts : ((newReceipts env (memberIds.filter (· ≠ message.senderId)) ++ s.receipts).map
        MessageReceipt.id).Nodup) :
      Move st s
        (addMessage env s message messages (memberIds.filter (· ≠ message.senderId)) ids)
  | reserve {id : UUID} {row : Attachment} {memberIds : List UUID}
      (member : authorize s row.conversationId row.uploaderId = .ok memberIds)
      (fresh : ∀ p ∈ s.attachments, p.1 ≠ id) (unbound : row.messageId = none)
      (key : row.storageKey.conversationId = row.conversationId) :
      Move st s { s with attachments := (id, row) :: s.attachments }
  | promote (env : Env) {id : UUID} {row : Attachment} (object : Attachments.Object)
      (found : s.attachment id = some (id, row)) : Move st s (promoteRow st env s id row object)
  | cleanup (cutoff : Instant) (limit : ℕ) (fails : UUID → Bool) :
      Move st s (cleanupAbandoned s cutoff limit fails)

/-- A transaction that leaves the store alone. -/
theorem Move.refl (st : Settings) (s : Store) : Move st s s := .other s.users s.bucket

theorem attachment_fst {id : UUID} {p : UUID × Attachment} (h : s.attachment id = some p) :
    p.1 = id := by
  simpa using List.find?_some h

theorem Move.of_createDirect {a b : UUID} {response : ConversationResponse}
    (h : createDirect env s a b = .ok (response, t)) : Move st s t := by
  unfold createDirect at h
  split at h
  · cases h
  · split at h
    · cases h
    · split at h
      · cases h
        exact .refl st s
      · split at h
        · cases h
        · cases h
          exact .direct env ‹_› ‹_›

/-- What `create` does, and what it has found out before. -/
theorem createMessage_eq_ok {content : String} {ids : List UUID} {response : MessageResponse}
    (h : createMessage st env s c u content ids = .ok (response, t)) :
    ∃ memberIds ordered messages, authorize s c u = .ok memberIds ∧
      attachmentsFor s c u ids = .ok ordered ∧
      let message : Message := ⟨env.draw 0, c, u, st.text.strip content, env.now, none⟩
      let recipientIds := memberIds.filter (· ≠ u)
      s.messages.insert message = some messages ∧
        ((newReceipts env recipientIds ++ s.receipts).map MessageReceipt.id).Nodup ∧
        t = addMessage env s message messages recipientIds ids ∧
        response = toMessageResponse t message (newReceipts env recipientIds)
          (ordered.map fun p ↦ (p.1, bindTo message.id p.2)) := by
  unfold createMessage at h
  split at h
  · cases h
  · rename_i memberIds hauth
    split at h
    · cases h
    · split at h
      · cases h
      · split at h
        · cases h
        · split at h
          · cases h
          · rename_i ordered husable
            dsimp only at h
            split at h
            · cases h
            · rename_i messages hinsert
              split at h
              · cases h
                exact ⟨memberIds, ordered, messages, hauth, husable, hinsert, ‹_›, rfl, rfl⟩
              · cases h

theorem Move.of_createMessage {content : String} {ids : List UUID} {response : MessageResponse}
    (h : createMessage st env s c u content ids = .ok (response, t)) : Move st s t := by
  obtain ⟨memberIds, ordered, messages, hauth, husable, hinsert, hreceipts, rfl, -⟩ :=
    createMessage_eq_ok h
  exact .message env hauth husable rfl hinsert hreceipts

theorem Move.of_reserve {filename mimeType : String} {size : ℕ}
    {response : AttachmentUploadResponse}
    (h : Services.reserve st env s c u filename mimeType size = .ok (response, t)) :
    Move st s t := by
  unfold Services.reserve at h
  split at h
  · cases h
  · split at h
    · cases h
    · split at h
      · cases h
      · rename_i hfresh
        cases h
        exact Move.reserve ‹_› (fun p hp e ↦ hfresh ⟨p, hp, e⟩) rfl rfl

theorem Move.of_complete {id : UUID} {response : AttachmentResponse}
    (h : complete st env s id u = .ok (response, t)) : Move st s t := by
  unfold complete at h
  split at h
  · cases h
  · rename_i id' row hfound
    split at h
    · cases h
    · split at h
      · cases h
      · split at h
        · cases h
          exact .refl st s
        · split at h
          · cases h
          · cases h
            obtain rfl : id' = id := attachment_fst hfound
            exact .promote env _ hfound

/-- What `mark_read` does, and what it has found out before. -/
theorem markRead_eq_ok {now : Instant} {m : UUID} {events : List ReceiptEventData}
    (h : markRead now s c m u = .ok (events, t)) : ∃ target, s.message m = some target ∧
      target.conversationId = c ∧ u ∈ s.memberIds c ∧
      let op := Operation.markReadThrough c u target.createdAt target.id
      t = (mark op now s).2 ∧
        events = ((mark op now s).1.mergeSort fun a b ↦ stamp a.2 ≤ stamp b.2).map toEvent := by
  unfold markRead at h
  split at h
  · cases h
  · rename_i hauth
    obtain ⟨-, rfl, hu⟩ := authorize_eq_ok.mp hauth
    split at h
    · cases h
    · rename_i target hfound
      split at h
      · cases h
      · rename_i hc
        cases h
        exact ⟨target, hfound, not_not.mp hc, hu, rfl, rfl⟩

/-- A request that is answered. -/
theorem serve_eq_ok {α : Type*} {f : α → Response × Store} {x : Except Failure α}
    {y : Response × Store} (h : x.map f = .ok y) : ∃ a, x = .ok a ∧ f a = y := by
  cases x with
  | error e => cases h
  | ok a => exact ⟨a, rfl, Except.ok.inj h⟩

/-- A transaction that performs an operation on receipts does nothing else. -/
theorem step_operation {a : Action} {op : Operation} {now : Instant} (h : step st s a = some t)
    (hop : a.operation s = some (op, now)) : t = (mark op now s).2 := by
  cases a with
  | register | setLastSeen | put | cleanup => cases hop
  | markDelivered now messageId userIds =>
      cases hop
      exact (Option.some.inj h).symm
  | request env userId request =>
      simp only [step] at h
      split at h
      · rename_i response t' hserve
        cases h
        cases request with
        | createDirect | listConversations | getConversation | listMessages | createMessage
        | reserve | complete | authorizeDownload => cases hop
        | markRead conversationId messageId =>
            obtain ⟨⟨events, t''⟩, hread, hpair⟩ := serve_eq_ok hserve
            obtain ⟨target, hfound, -, -, rfl, -⟩ := markRead_eq_ok hread
            cases hpair
            rw [Action.operation, hfound] at hop
            cases hop
            rfl
        | markPendingDelivered =>
            cases hserve
            cases hop
            rfl
      · cases h

/-- Every other transaction makes a move. -/
theorem Move.of_step {a : Action} (h : step st s a = some t) (hop : a.operation s = none) :
    Move st s t := by
  cases a with
  | register user =>
      simp only [step] at h
      split at h
      · cases h
      · cases h
        exact .other _ s.bucket
  | setLastSeen userId lastSeen =>
      cases h
      exact .other _ s.bucket
  | put key object =>
      simp only [step] at h
      split at h
      · cases h
        exact .other s.users _
      · cases h
  | cleanup cutoff limit fails =>
      cases h
      exact .cleanup cutoff limit fails
  | markDelivered now messageId userIds => cases hop
  | request env userId request =>
      simp only [step] at h
      split at h
      · rename_i response t' hserve
        cases h
        cases request with
        | createDirect participantId =>
            obtain ⟨⟨_, _⟩, hok, hpair⟩ := serve_eq_ok hserve
            cases hpair
            exact .of_createDirect hok
        | listConversations =>
            cases hserve
            exact .refl st s
        | getConversation | listMessages | authorizeDownload =>
            obtain ⟨_, -, hpair⟩ := serve_eq_ok hserve
            cases hpair
            exact .refl st s
        | createMessage conversationId content attachmentIds =>
            obtain ⟨⟨_, _⟩, hok, hpair⟩ := serve_eq_ok hserve
            cases hpair
            exact .of_createMessage hok
        | reserve conversationId filename mimeType fileSize =>
            obtain ⟨⟨_, _⟩, hok, hpair⟩ := serve_eq_ok hserve
            cases hpair
            exact .of_reserve hok
        | complete attachmentId =>
            obtain ⟨⟨_, _⟩, hok, hpair⟩ := serve_eq_ok hserve
            cases hpair
            exact .of_complete hok
        | markRead conversationId messageId =>
            obtain ⟨_, hread, -⟩ := serve_eq_ok hserve
            obtain ⟨target, hfound, -⟩ := markRead_eq_ok hread
            rw [Action.operation, hfound] at hop
            cases hop
        | markPendingDelivered => cases hop
      · cases h

/-! ## The invariant -/

/-- For which message and which user there is a receipt. -/
def Store.receiptRows (s : Store) : List (UUID × UUID) :=
  s.receipts.map fun receipt ↦ (receipt.messageId, receipt.userId)

/-- What all reachable stores have in common. -/
structure Inv (s : Store) : Prop where
  memberRows : (s.members.map fun member ↦ (member.conversationId, member.userId)).Nodup
  memberOf : ∀ member ∈ s.members, s.Exists member.conversationId
  direct : ∀ x ∈ s.conversations, ∀ a b, x.directKey = directKey a b → a ∈ s.memberIds x.id
  messageOf : ∀ message ∈ s.messages.rows, s.Exists message.conversationId
  receiptIds : (s.receipts.map MessageReceipt.id).Nodup
  receiptRows : s.receiptRows.Nodup
  /-- A message has a receipt for every member but its sender. -/
  receipts : ∀ id v, (id, v) ∈ s.receiptRows ↔ ∃ message ∈ s.messages.rows,
    message.id = id ∧ v ∈ s.memberIds message.conversationId ∧ v ≠ message.senderId
  attachmentIds : (s.attachments.map Prod.fst).Nodup
  keys : ∀ p ∈ s.attachments, p.2.storageKey.conversationId = p.2.conversationId
  bound : ∀ p ∈ s.attachments, ∀ id, p.2.messageId = some id →
    ∃ message ∈ s.messages.rows, message.id = id ∧ message.conversationId = p.2.conversationId

theorem Inv.initial : Inv .initial where
  memberRows := List.nodup_nil
  memberOf := nofun
  direct := nofun
  messageOf := nofun
  receiptIds := List.nodup_nil
  receiptRows := List.nodup_nil
  receipts _ _ := ⟨nofun, nofun⟩
  attachmentIds := List.nodup_nil
  keys := nofun
  bound := nofun

/-- Members are listed once. -/
theorem Inv.memberIds_nodup (h : Inv s) (c : UUID) : (s.memberIds c).Nodup := by
  have hrows := List.pairwise_map.mp h.memberRows
  refine List.pairwise_map.mpr ((hrows.filter _).imp_of_mem fun hx hy hne e ↦ hne ?_)
  obtain ⟨-, hx⟩ := List.mem_filter.mp hx
  obtain ⟨-, hy⟩ := List.mem_filter.mp hy
  rw [decide_eq_true_eq] at hx hy
  rw [hx, hy, e]

/-- Conversations without rows of their own have no members. -/
theorem Inv.exists_of_mem (h : Inv s) (hu : u ∈ s.memberIds c) : s.Exists c := by
  obtain ⟨member, hm, rfl, -⟩ := mem_memberIds.mp hu
  exact h.memberOf member hm

/-! ### A new conversation -/

theorem exists_addDirect {a b : UUID} :
    (addDirect env s a b).Exists c ↔ env.draw 0 = c ∨ s.Exists c := by
  simp only [Store.Exists, addDirect, List.mem_cons, exists_eq_or_imp]

theorem memberIds_addDirect {a b : UUID} : (addDirect env s a b).memberIds c =
    if env.draw 0 = c then a :: b :: s.memberIds c else s.memberIds c := by
  split <;> simp [Store.memberIds, addDirect, *]

theorem Inv.addDirect (h : Inv s) {a b : UUID} (fresh : ¬ s.Exists (env.draw 0))
    (distinct : a ≠ b) : Inv (addDirect env s a b) := by
  have hmem : ∀ {c}, s.Exists c → (Services.addDirect env s a b).memberIds c = s.memberIds c := by
    intro c hc
    rw [memberIds_addDirect, if_neg]
    rintro rfl
    exact fresh hc
  exact {
    memberRows := by
      have hnew : ∀ v, (env.draw 0, v) ∉
          s.members.map fun member ↦ (member.conversationId, member.userId) := by
        intro v hv
        obtain ⟨member, hm, e⟩ := List.mem_map.mp hv
        obtain ⟨hc, -⟩ := Prod.mk.inj e
        rw [← hc] at fresh
        exact fresh (h.memberOf member hm)
      refine List.nodup_cons.mpr ⟨?_, List.nodup_cons.mpr ⟨hnew b, h.memberRows⟩⟩
      rw [List.map_cons, List.mem_cons, not_or]
      exact ⟨fun e ↦ distinct (congrArg Prod.snd e), hnew a⟩
    memberOf := by
      intro member hm
      rw [exists_addDirect]
      simp only [Services.addDirect, List.mem_cons] at hm
      rcases hm with rfl | rfl | hm
      · exact .inl rfl
      · exact .inl rfl
      · exact .inr (h.memberOf member hm)
    direct := by
      intro x hx a' b' hkey
      rcases List.mem_cons.mp hx with rfl | hx
      · have hpair := Conversations.directKey_eq_iff.mp hkey
        have ha : a' ∈ s(a, b) := hpair ▸ Sym2.mem_mk_left a' b'
        rw [memberIds_addDirect, if_pos rfl]
        rcases Sym2.mem_iff.mp ha with rfl | rfl
        · exact List.mem_cons_self
        · exact List.mem_cons_of_mem _ List.mem_cons_self
      · rw [hmem ⟨x, hx, rfl⟩]
        exact h.direct x hx a' b' hkey
    messageOf := fun message hm ↦ exists_addDirect.mpr (.inr (h.messageOf message hm))
    receiptIds := h.receiptIds
    receiptRows := h.receiptRows
    receipts := by
      intro id v
      refine (h.receipts id v).trans (exists_congr fun message ↦ and_congr_right fun hm ↦ ?_)
      rw [hmem (h.messageOf message hm)]
    attachmentIds := h.attachmentIds
    keys := h.keys
    bound := h.bound }

/-! ### A new message -/

theorem receiptRows_newReceipts (recipientIds : List UUID) :
    (newReceipts env recipientIds).map (fun receipt ↦ (receipt.messageId, receipt.userId)) =
      recipientIds.map (Prod.mk (env.draw 0)) := by
  rw [newReceipts, List.map_map]
  conv_rhs => rw [← List.zipIdx_map_fst 0 recipientIds, List.map_map]
  rfl

section Message

variable {message : Message} {messages : MessageTable} {recipientIds ids : List UUID}

theorem receiptRows_addMessage :
    (addMessage env s message messages recipientIds ids).receiptRows =
      recipientIds.map (Prod.mk (env.draw 0)) ++ s.receiptRows := by
  rw [Store.receiptRows, addMessage, List.map_append, receiptRows_newReceipts]
  rfl

theorem exists_addMessage :
    (addMessage env s message messages recipientIds ids).Exists c ↔ s.Exists c := by
  simp only [Store.Exists, addMessage, List.mem_map, exists_exists_and_eq_and]
  refine exists_congr fun x ↦ and_congr_right fun _ ↦ ?_
  split <;> rfl

theorem fst_addMessage : (addMessage env s message messages recipientIds ids).attachments.map
    Prod.fst = s.attachments.map Prod.fst := by
  rw [addMessage, List.map_map]
  refine List.map_congr_left fun p _ ↦ ?_
  simp only [Function.comp_apply]
  split <;> rfl

/-- The attachments that a message names can be used. -/
theorem Inv.usable (h : Inv s) {ordered : List (UUID × Attachment)} {p : UUID × Attachment}
    (hok : attachmentsFor s c u ids = .ok ordered) (hp : p ∈ s.attachments) (hid : p.1 ∈ ids) :
    ¬ unusable c u p.2 := by
  unfold attachmentsFor at hok
  dsimp only at hok
  split at hok
  · cases hok
  · split at hok
    · cases hok
    · rename_i hall
      refine fun hbad ↦ hall ⟨p, List.mem_filterMap.mpr ⟨p.1, hid, ?_⟩, hbad⟩
      exact (find?_key h.attachmentIds).mpr ⟨hp, rfl⟩

theorem Inv.addMessage (h : Inv s) {memberIds : List UUID} {ordered : List (UUID × Attachment)}
    (member : authorize s message.conversationId message.senderId = .ok memberIds)
    (usable : attachmentsFor s message.conversationId message.senderId ids = .ok ordered)
    (id : message.id = env.draw 0) (inserted : s.messages.insert message = some messages)
    (receipts : ((newReceipts env (memberIds.filter (· ≠ message.senderId)) ++ s.receipts).map
      MessageReceipt.id).Nodup) :
    Inv (addMessage env s message messages (memberIds.filter (· ≠ message.senderId)) ids) := by
  obtain ⟨hexists, rfl, -⟩ := authorize_eq_ok.mp member
  have hrows := Messages.MessageTable.rows_insert inserted
  have hfresh : ∀ other ∈ s.messages.rows, other.id ≠ env.draw 0 := by
    have hunique := messages.unique
    rw [hrows, List.map_cons, List.nodup_cons] at hunique
    exact fun other hother e ↦ hunique.1 (id ▸ e ▸ List.mem_map_of_mem hother)
  exact {
    memberRows := h.memberRows
    memberOf := fun member hm ↦ exists_addMessage.mpr (h.memberOf member hm)
    direct := by
      intro x hx a b hkey
      obtain ⟨y, hy, rfl⟩ := List.mem_map.mp hx
      split at hkey
      · rw [if_pos ‹_›]
        exact h.direct y hy a b hkey
      · rw [if_neg ‹_›]
        exact h.direct y hy a b hkey
    messageOf := by
      intro other hother
      rw [exists_addMessage]
      rcases List.mem_cons.mp (hrows ▸ hother) with rfl | hother
      · exact hexists
      · exact h.messageOf other hother
    receiptIds := receipts
    receiptRows := by
      rw [receiptRows_addMessage, List.nodup_append]
      refine ⟨?_, h.receiptRows, ?_⟩
      · exact ((h.memberIds_nodup _).filter _).map fun v w e ↦ (Prod.mk.inj e).2
      · rintro _ hnew ⟨id', v⟩ hold rfl
        obtain ⟨w, -, e⟩ := List.mem_map.mp hnew
        obtain ⟨other, hother, hid, -⟩ := (h.receipts id' v).mp hold
        exact hfresh other hother (hid.trans (Prod.mk.inj e).1.symm)
    receipts := by
      intro id' v
      rw [receiptRows_addMessage, List.mem_append, h.receipts id' v]
      simp only [Services.addMessage, hrows, List.mem_cons, exists_eq_or_imp]
      refine or_congr_left ?_
      simp only [List.mem_map, List.mem_filter, Prod.mk.injEq, decide_eq_true_eq, id]
      constructor
      · rintro ⟨w, hw, rfl, rfl⟩
        exact ⟨rfl, hw⟩
      · rintro ⟨rfl, hv⟩
        exact ⟨v, hv, rfl, rfl⟩
    attachmentIds := by
      rw [fst_addMessage]
      exact h.attachmentIds
    keys := by
      intro p hp
      obtain ⟨q, hq, rfl⟩ := List.mem_map.mp hp
      split
      · exact h.keys q hq
      · exact h.keys q hq
    bound := by
      intro p hp id' hid
      obtain ⟨q, hq, rfl⟩ := List.mem_map.mp hp
      simp only [Services.addMessage, hrows, List.mem_cons, exists_eq_or_imp]
      split at hid
      · rename_i hnamed
        rw [if_pos hnamed]
        have hc : q.2.conversationId = message.conversationId := by
          by_contra hne
          exact h.usable usable hq hnamed (.inl hne)
        exact .inl ⟨Option.some.inj hid, hc.symm⟩
      · rename_i hnamed
        rw [if_neg hnamed]
        exact .inr (h.bound q hq id' hid) }

end Message

/-! ### Receipts, attachments and runs -/

/-- An operation on receipts changes nothing of a row that it does not assign. -/
theorem map_receipts_mark {α : Type*} (f : MessageReceipt → α) {op : Operation} (now : Instant)
    (hf : ∀ receipt, f (op.assign now receipt) = f receipt) :
    (mark op now s).2.receipts.map f = s.receipts.map f := by
  rw [mark, List.map_map]
  refine List.map_congr_left fun receipt _ ↦ ?_
  simp only [Function.comp_apply]
  split
  · exact hf receipt
  · rfl

theorem receiptIds_mark (op : Operation) (now : Instant) :
    (mark op now s).2.receipts.map MessageReceipt.id = s.receipts.map MessageReceipt.id :=
  map_receipts_mark _ now fun _ ↦ Receipts.assign_id now

theorem receiptRows_mark (op : Operation) (now : Instant) :
    (mark op now s).2.receiptRows = s.receiptRows :=
  map_receipts_mark _ now fun _ ↦ by rw [Receipts.assign_messageId, Receipts.assign_userId]

theorem Inv.mark (h : Inv s) (op : Operation) (now : Instant) : Inv (mark op now s).2 where
  memberRows := h.memberRows
  memberOf := h.memberOf
  direct := h.direct
  messageOf := h.messageOf
  receiptIds := by
    rw [receiptIds_mark]
    exact h.receiptIds
  receiptRows := by
    rw [receiptRows_mark]
    exact h.receiptRows
  receipts := by
    rw [receiptRows_mark]
    exact h.receipts
  attachmentIds := h.attachmentIds
  keys := h.keys
  bound := h.bound

/-- Attachments come and go, and are promoted. -/
theorem Inv.attachments (h : Inv s) {attachments : List (UUID × Attachment)}
    {bucket : Attachments.StorageKey → Option Attachments.Object}
    (ids : (attachments.map Prod.fst).Nodup)
    (keys : ∀ p ∈ attachments, p.2.storageKey.conversationId = p.2.conversationId)
    (bound : ∀ p ∈ attachments, ∀ id, p.2.messageId = some id →
      ∃ message ∈ s.messages.rows, message.id = id ∧ message.conversationId = p.2.conversationId) :
    Inv { s with attachments, bucket } where
  memberRows := h.memberRows
  memberOf := h.memberOf
  direct := h.direct
  messageOf := h.messageOf
  receiptIds := h.receiptIds
  receiptRows := h.receiptRows
  receipts := h.receipts
  attachmentIds := ids
  keys := keys
  bound := bound

theorem Inv.move (h : Inv s) (hmove : Move st s t) : Inv t := by
  cases hmove with
  | other users bucket =>
      exact { h with }
  | direct env fresh distinct => exact h.addDirect fresh distinct
  | message env member usable id inserted receipts =>
      exact h.addMessage member usable id inserted receipts
  | reserve member fresh unbound key =>
      refine h.attachments (List.nodup_cons.mpr ⟨fun hid ↦ ?_, h.attachmentIds⟩) ?_ ?_
      · obtain ⟨p, hp, e⟩ := List.mem_map.mp hid
        exact fresh p hp e
      · exact List.forall_mem_cons.mpr ⟨key, h.keys⟩
      · refine List.forall_mem_cons.mpr ⟨fun id hid ↦ ?_, h.bound⟩
        rw [unbound] at hid
        cases hid
  | @promote env id row object found =>
      obtain ⟨hrow, -⟩ := (find?_key h.attachmentIds).mp found
      refine h.attachments ?_ ?_ ?_
      · have hids : (s.attachments.map fun p ↦
            if p.1 = id then (id, promote (st.config s) id env.now row) else p).map Prod.fst =
              s.attachments.map Prod.fst := by
          rw [List.map_map]
          refine List.map_congr_left fun p _ ↦ ?_
          simp only [Function.comp_apply]
          split
          · exact Eq.symm ‹_›
          · rfl
        exact hids ▸ h.attachmentIds
      · intro p hp
        obtain ⟨q, hq, rfl⟩ := List.mem_map.mp hp
        split
        · rfl
        · exact h.keys q hq
      · intro p hp id' hid
        obtain ⟨q, hq, rfl⟩ := List.mem_map.mp hp
        split at hid
        · rw [if_pos ‹_›]
          exact h.bound (id, row) hrow id' hid
        · rw [if_neg ‹_›]
          exact h.bound q hq id' hid
  | cleanup cutoff limit fails =>
      refine h.attachments (h.attachmentIds.sublist (List.filter_sublist.map _)) ?_ ?_
      · exact fun p hp ↦ h.keys p (List.mem_of_mem_filter hp)
      · exact fun p hp ↦ h.bound p (List.mem_of_mem_filter hp)

theorem Inv.step (h : Inv s) {a : Action} (ht : step st s a = some t) : Inv t := by
  cases hop : a.operation s with
  | none => exact h.move (.of_step ht hop)
  | some op =>
      rw [step_operation ht hop]
      exact h.mark op.1 op.2

/-- A conversation stays. -/
theorem exists_of_step {a : Action} (ht : step st s a = some t) (hc : s.Exists c) : t.Exists c := by
  cases hop : a.operation s with
  | none =>
      cases Move.of_step ht hop with
      | direct env fresh distinct => exact exists_addDirect.mpr (.inr hc)
      | message env member usable id inserted receipts => exact exists_addMessage.mpr hc
      | other | reserve | promote | cleanup => exact hc
  | some op =>
      rw [step_operation ht hop]
      exact hc

/-- So do its members. -/
theorem memberIds_of_step {a : Action} (ht : step st s a = some t) (hc : s.Exists c) :
    t.memberIds c = s.memberIds c := by
  cases hop : a.operation s with
  | none =>
      cases Move.of_step ht hop with
      | direct env fresh distinct =>
          rw [memberIds_addDirect, if_neg]
          rintro rfl
          exact fresh hc
      | other | message | reserve | promote | cleanup => rfl
  | some op => rw [step_operation ht hop, mark, Store.memberIds, Store.memberIds]

theorem Reachable.inv (h : Reachable st s) : Inv s := by
  obtain ⟨as, hrun⟩ := h
  exact exec_invariant (fun hs ht ↦ hs.step ht) .initial hrun

end Chatterbox.Services
