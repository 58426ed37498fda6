import Chatterbox.Services.Invariant

/-!
# Non-interference

What a user learns from the services does not depend on the conversations that the
user is not a member of.  `Store.without` takes a conversation's messages, receipts,
attachments and objects out of the store; for a user who is not a member, serving a
request commutes with it (`serve_without`), so that two stores which agree outside
the conversation go on agreeing, and answer alike.

Identifiers that are drawn are new in the whole store.  A store in which one of them
had been taken by a row of the conversation would refuse the request.
-/

namespace Chatterbox.Services

open Attachments (Attachment StorageKey Object)
open Conversations (directKey)
open Messages (Message MessageTable Cursor)
open Receipts (MessageReceipt Operation joined)

variable {st : Settings} {s t : Store} {env : Env} {c d u : UUID}

/-! ## Without a conversation -/

/-- The message of the receipt belongs to the conversation. -/
def Store.ReceiptIn (s : Store) (c : UUID) (receipt : MessageReceipt) : Prop :=
  ∃ message ∈ s.messages.rows, message.id = receipt.messageId ∧ message.conversationId = c

instance (s : Store) (c : UUID) : DecidablePred (s.ReceiptIn c) :=
  fun _ ↦ inferInstanceAs (Decidable (∃ _ ∈ _, _))

/-- The store without what belongs to the conversation; the conversation and its
members are still there. -/
def Store.without (s : Store) (c : UUID) : Store :=
  { s with
    messages := ⟨s.messages.rows.filter fun message ↦ message.conversationId ≠ c,
      s.messages.unique.sublist (List.filter_sublist.map _)⟩
    receipts := s.receipts.filter fun receipt ↦ ¬ s.ReceiptIn c receipt
    attachments := s.attachments.filter fun p ↦ p.2.conversationId ≠ c
    bucket := fun key ↦ if key.conversationId = c then none else s.bucket key }

@[simp] theorem users_without : (s.without c).users = s.users := rfl

@[simp] theorem conversations_without : (s.without c).conversations = s.conversations := rfl

@[simp] theorem memberIds_without : (s.without c).memberIds d = s.memberIds d := rfl

/-! ## Queries -/

theorem visible_without (hd : d ≠ c) :
    Messages.visible (s.without c).messages d = Messages.visible s.messages d := by
  simp only [Messages.visible, Store.without, List.filter_filter]
  refine List.filter_congr fun message _ ↦ ?_
  by_cases hm : message.conversationId = d
  · simp [hm, hd]
  · simp [hm]

theorem message_without (c id : UUID) : (s.without c).message id =
    (s.message id).filter fun message ↦ message.conversationId ≠ c :=
  find?_filter_key id s.messages.unique _

theorem attachment_without (h : Inv s) (c id : UUID) : (s.without c).attachment id =
    (s.attachment id).filter fun p ↦ p.2.conversationId ≠ c :=
  find?_filter_key id h.attachmentIds _

theorem receiptsOf_without {message : Message} (hm : message ∈ s.messages.rows)
    (hc : message.conversationId ≠ c) :
    (s.without c).receiptsOf message.id = s.receiptsOf message.id := by
  simp only [Store.receiptsOf, Store.without, List.filter_filter]
  refine List.filter_congr fun receipt _ ↦ ?_
  by_cases hid : receipt.messageId = message.id
  · have hout : ¬ s.ReceiptIn c receipt := by
      rintro ⟨other, hother, hid', rfl⟩
      exact hc (congrArg _ (s.messages.eq_of_id hm hother (hid'.trans hid).symm))
    simp [hid, hout]
  · simp [hid]

theorem attachmentsOf_without (h : Inv s) {message : Message} (hm : message ∈ s.messages.rows)
    (hc : message.conversationId ≠ c) :
    (s.without c).attachmentsOf message.id = s.attachmentsOf message.id := by
  simp only [Store.attachmentsOf, Store.without, List.filter_filter]
  refine List.filter_congr fun p hp ↦ ?_
  by_cases hid : p.2.messageId = some message.id
  · obtain ⟨other, hother, hid', hconv⟩ := h.bound p hp message.id hid
    have hout : p.2.conversationId ≠ c := by
      rwa [← hconv, s.messages.eq_of_id hother hm hid']
    simp [hid, hout]
  · simp [hid]

/-- The receipts of other conversations. -/
theorem joined_without (s : Store) (c : UUID) :
    joined (s.without c).messages.rows (s.without c).receipts =
      (joined s.messages.rows s.receipts).filter fun p ↦ p.2.conversationId ≠ c := by
  simp only [joined, Store.without, List.filter_filterMap, List.filterMap_filter]
  refine List.filterMap_congr fun receipt _ ↦ ?_
  rw [find?_filter_key _ s.messages.unique]
  cases hm : s.messages.rows.find? fun message ↦ message.id = receipt.messageId with
  | none => simp
  | some message =>
      obtain ⟨hmem, hid⟩ := (find?_key s.messages.unique).mp hm
      have hin : s.ReceiptIn c receipt ↔ message.conversationId = c := by
        constructor
        · rintro ⟨other, hother, hid', rfl⟩
          exact congrArg _ (s.messages.eq_of_id hmem hother (hid.trans hid'.symm))
        · exact fun hc ↦ ⟨message, hmem, hid, hc⟩
      by_cases hc : message.conversationId = c
      · simp [Option.filter_some, hin, hc]
      · simp [Option.filter_some, hin, hc]

theorem unreadCount_without (hd : d ≠ c) : (s.without c).unreadCount d u = s.unreadCount d u := by
  rw [Store.unreadCount, Store.unreadCount, joined_without, List.filter_filter]
  congr 1
  refine List.filter_congr fun p _ ↦ ?_
  by_cases hp : p.2.conversationId = d
  · simp [hp, hd]
  · simp [hp]

/-! ## Responses -/

theorem toMessageResponse_without (h : Inv s) {message : Message}
    (hm : message ∈ s.messages.rows) (hc : message.conversationId ≠ c) :
    toMessageResponse (s.without c) message ((s.without c).receiptsOf message.id)
      ((s.without c).attachmentsOf message.id) =
        toMessageResponse s message (s.receiptsOf message.id) (s.attachmentsOf message.id) := by
  rw [receiptsOf_without hm hc, attachmentsOf_without h hm hc]
  rfl

/-- What a user sees of another conversation. -/
theorem toConversationResponse_without (h : Inv s) {x : Conversation} (hx : x.id ≠ c) :
    toConversationResponse (s.without c) x u = toConversationResponse s x u := by
  have hlatest : (s.without c).latest x.id = s.latest x.id := by
    rw [Store.latest, Messages.pageBefore_congr (visible_without hx), Store.latest]
  have hsummary : (s.latest x.id).map (toSummary (s.without c)) =
      (s.latest x.id).map (toSummary s) := by
    refine Option.map_congr fun message hm ↦ ?_
    obtain ⟨hrow, hconv, -⟩ :=
      Messages.mem_visible.mp (Messages.mem_pageBefore (List.mem_of_head? hm))
    simp only [toSummary, attachmentsOf_without h hrow (hconv ▸ hx)]
    rfl
  unfold toConversationResponse
  rw [hlatest, hsummary, unreadCount_without hx]
  rfl

/-! ## Operations -/

/-- The outcome of an operation on a store, and on the store without a conversation:
both fail, or both succeed, with the same result and stores that agree. -/
inductive Matches {α : Type*} (c : UUID) :
    Except Failure (α × Store) → Except Failure (α × Store) → Prop
  | error (e e' : Failure) : Matches c (.error e) (.error e')
  | ok (a : α) (t : Store) : Matches c (.ok (a, t)) (.ok (a, t.without c))

theorem Matches.map {α β : Type*} (f : α → β) {x y : Except Failure (α × Store)}
    (h : Matches c x y) : Matches c (x.map (Prod.map f id)) (y.map (Prod.map f id)) := by
  cases h with
  | error e e' => exact .error e e'
  | ok a t => exact .ok (f a) t

/-- The same result, and a store that has not changed. -/
theorem Matches.of_eq {α β : Type*} (f : α → β) {x y : Except Failure α} (h : y = x) :
    Matches c (x.map fun a ↦ (f a, s)) (y.map fun a ↦ (f a, s.without c)) := by
  subst h
  cases y with
  | error e => exact .error e e
  | ok a => exact .ok (f a) s

theorem authorize_without (s : Store) (c d u : UUID) :
    authorize (s.without c) d u = authorize s d u := rfl

/-- A user is authorized in other conversations only. -/
theorem authorize_ne (hu : u ∉ s.memberIds c) {users : List UUID}
    (h : authorize s d u = .ok users) : d ≠ c := by
  rintro rfl
  obtain ⟨-, rfl, hmem⟩ := authorize_eq_ok.mp h
  exact hu hmem

theorem listConversations_without (h : Inv s) (hu : u ∉ s.memberIds c) :
    listConversations (s.without c) u = listConversations s u := by
  refine List.map_congr_left fun x hx ↦ toConversationResponse_without h ?_
  rintro rfl
  exact hu (of_decide_eq_true (List.mem_filter.mp (List.mem_mergeSort.mp hx)).2)

theorem getConversation_without (h : Inv s) (hu : u ∉ s.memberIds c) :
    getConversation (s.without c) d u = getConversation s d u := by
  unfold getConversation
  rw [authorize_without]
  cases hauth : authorize s d u with
  | error e => rfl
  | ok users =>
      cases hx : s.conversations.find? fun x ↦ x.id = d with
      | none => simp only [Store.without, hx]
      | some x =>
          have hid : x.id = d := by simpa using List.find?_some hx
          have hresponse := toConversationResponse_without (u := u) h
            (hid ▸ authorize_ne hu hauth : x.id ≠ c)
          simp only [Store.without, hx] at hresponse ⊢
          rw [hresponse]

theorem listMessages_without (h : Inv s) (hu : u ∉ s.memberIds c) {limit : ℕ}
    {before after : Option Cursor} :
    listMessages (s.without c) d u limit before after = listMessages s d u limit before after := by
  have hmembership : (s.without c).membership = s.membership := rfl
  unfold listMessages
  rw [hmembership]
  cases hauth : getAuthorized s.membership d u with
  | error e => rw [Messages.list_error hauth, Messages.list_error hauth]
  | ok users =>
      have hauthorize : authorize s d u = .ok users := by
        rw [authorize, hauth]
        rfl
      have hd : d ≠ c := authorize_ne hu hauthorize
      rw [Messages.list_congr (visible_without hd)]
      cases hpage : Messages.list s.membership s.messages d u limit before after with
      | error e => rfl
      | ok page =>
          have hitems : page.items.map (fun message ↦ toMessageResponse (s.without c) message
              ((s.without c).receiptsOf message.id) ((s.without c).attachmentsOf message.id)) =
                page.items.map fun message ↦ toMessageResponse s message (s.receiptsOf message.id)
                  (s.attachmentsOf message.id) := by
            refine List.map_congr_left fun message hm ↦ ?_
            obtain ⟨hrow, hconv, -⟩ := Messages.mem_visible.mp (Messages.mem_list hpage hm)
            exact toMessageResponse_without h hrow (hconv ▸ hd)
          simp only [hitems]

theorem createDirect_without (h : Inv s) (hc : s.Exists c) (hu : u ∉ s.memberIds c) {v : UUID} :
    Matches c (createDirect env s u v) (createDirect env (s.without c) u v) := by
  have hsame : ∀ x ∈ s.conversations, x.directKey = directKey u v → x.id ≠ c := by
    rintro x hx hkey rfl
    exact hu (h.direct x hx u v hkey)
  unfold createDirect
  rw [users_without, conversations_without]
  by_cases huv : u = v
  · rw [if_pos huv, if_pos huv]
    exact .error _ _
  rw [if_neg huv, if_neg huv]
  by_cases hv : ∀ user ∈ s.users, user.id ≠ v
  · rw [if_pos hv, if_pos hv]
    exact .error _ _
  rw [if_neg hv, if_neg hv]
  cases hx : s.conversations.find? fun x ↦ x.directKey = directKey u v with
  | some x =>
      have hkey : x.directKey = directKey u v := by simpa using List.find?_some hx
      dsimp only
      rw [toConversationResponse_without h (hsame x (List.mem_of_find?_eq_some hx) hkey)]
      exact .ok _ s
  | none =>
      dsimp only
      by_cases hfresh : ∃ x ∈ s.conversations, x.id = env.draw 0
      · rw [if_pos hfresh, if_pos hfresh]
        exact .error _ _
      · rw [if_neg hfresh, if_neg hfresh]
        have hne : env.draw 0 ≠ c := fun e ↦ hfresh (e ▸ hc)
        have hadd : addDirect env (s.without c) u v = (addDirect env s u v).without c := rfl
        rw [hadd, toConversationResponse_without (h.addDirect hfresh huv) hne]
        exact .ok _ _

/-- An operation that selects no receipt of the conversation. -/
theorem mark_without {op : Operation} (now : Instant)
    (hsel : ∀ p ∈ joined s.messages.rows s.receipts, op.selects p = true →
      p.2.conversationId ≠ c) :
    mark op now (s.without c) = ((mark op now s).1, (mark op now s).2.without c) := by
  have hselect : op.select (s.without c).messages.rows (s.without c).receipts =
      op.select s.messages.rows s.receipts := by
    rw [Operation.select, joined_without, List.filter_filter, Operation.select]
    refine List.filter_congr fun p hp ↦ ?_
    by_cases hop : op.selects p = true
    · simp [hop, hsel p hp hop]
    · simp [hop]
  have hin : ∀ receipt : MessageReceipt, s.ReceiptIn c receipt ↔
      (mark op now s).2.ReceiptIn c (if receipt ∈
        (op.select s.messages.rows s.receipts).map Prod.fst then op.assign now receipt
          else receipt) := by
    intro receipt
    split
    · simp only [Store.ReceiptIn, Receipts.assign_messageId]
      rfl
    · rfl
  simp only [mark, hselect, Prod.mk.injEq, true_and]
  simp only [Store.without, Store.mk.injEq, true_and, and_true, List.filter_map]
  refine congrArg _ (List.filter_congr fun receipt _ ↦ ?_)
  rw [Function.comp_apply, decide_eq_decide, hin receipt]
  rfl

theorem markRead_without (hu : u ∉ s.memberIds c) {now : Instant} {id : UUID} :
    Matches c (markRead now s d id u) (markRead now (s.without c) d id u) := by
  unfold markRead
  rw [authorize_without]
  cases hauth : authorize s d u with
  | error e => exact .error _ _
  | ok users =>
      have hd := authorize_ne hu hauth
      rw [message_without]
      cases htarget : s.message id with
      | none => exact .error _ _
      | some target =>
          rw [Option.filter_some]
          by_cases hc : target.conversationId = c
          · have hne : target.conversationId ≠ d := fun e ↦ hd (e.symm.trans hc)
            rw [if_neg (by simpa using hc)]
            dsimp only
            rw [if_pos hne]
            exact .error _ _
          · rw [if_pos (by simpa using hc)]
            dsimp only
            by_cases hne : target.conversationId ≠ d
            · rw [if_pos hne, if_pos hne]
              exact .error _ _
            · rw [if_neg hne, if_neg hne, mark_without now]
              · exact .ok _ _
              · exact fun p _ hp ↦ (of_decide_eq_true hp).1 ▸ hd

theorem markPendingDelivered_without (h : Inv s) (hu : u ∉ s.memberIds c) {now : Instant} :
    markPendingDelivered now (s.without c) u =
      (markPendingDelivered now s u).map id (·.without c) := by
  have hsel : ∀ p ∈ Receipts.joined s.messages.rows s.receipts,
      (Receipts.Operation.markPendingDelivered u).selects p = true → p.2.conversationId ≠ c := by
    rintro ⟨receipt, message⟩ hp hsel rfl
    obtain ⟨rfl, -⟩ := of_decide_eq_true hsel
    obtain ⟨hr, hfind⟩ := Receipts.mem_joined.mp hp
    obtain ⟨hm, hid⟩ := (find?_key s.messages.unique).mp hfind
    obtain ⟨other, hother, hid', hmem, -⟩ := (h.receipts _ _).mp (List.mem_map_of_mem hr)
    rw [s.messages.eq_of_id hother hm (hid'.trans hid.symm)] at hmem
    exact hu hmem
  simp only [markPendingDelivered, mark_without now hsel]
  rfl

/-- The identifiers that a request draws are new in the store. -/
structure Fresh (env : Env) (s : Store) : Prop where
  messages : ∀ message ∈ s.messages.rows, ∀ i, message.id ≠ env.draw i
  receipts : ∀ receipt ∈ s.receipts, ∀ i, receipt.id ≠ env.draw i
  attachments : ∀ p ∈ s.attachments, ∀ i, p.1 ≠ env.draw i

theorem reserve_without (hu : u ∉ s.memberIds c) (hf : Fresh env s) {filename mimeType : String}
    {size : ℕ} : Matches c (reserve st env s d u filename mimeType size)
      (reserve st env (s.without c) d u filename mimeType size) := by
  have hconfig : st.config (s.without c) = st.config s := rfl
  unfold reserve
  rw [authorize_without, hconfig]
  cases hauth : authorize s d u with
  | error e => exact .error _ _
  | ok users =>
      have hd := authorize_ne hu hauth
      cases hvalid : Attachments.validateMetadata (st.config s) mimeType size with
      | error e => exact .error _ _
      | ok _ =>
          have hnew : ¬ ∃ p ∈ s.attachments, p.1 = env.draw 0 := fun ⟨p, hp, hid⟩ ↦
            hf.attachments p hp 0 hid
          have hnew' : ¬ ∃ p ∈ (s.without c).attachments, p.1 = env.draw 0 := fun ⟨p, hp, hid⟩ ↦
            hnew ⟨p, List.mem_of_mem_filter hp, hid⟩
          dsimp only
          rw [if_neg hnew, if_neg hnew']
          set row : Attachment := ⟨d, u, none, filename, mimeType, size,
            Attachments.pendingKey (st.config s) (env.draw 0) d u filename, env.now, none⟩
          have hstore :
              ({ s.without c with
                attachments := (env.draw 0, row) :: (s.without c).attachments } : Store) =
              ({ s with attachments := (env.draw 0, row) :: s.attachments } : Store).without c := by
            simp only [Store.without, Store.mk.injEq, true_and, and_true]
            exact ⟨rfl, (List.filter_cons_of_pos (by simpa using hd)).symm⟩
          rw [hstore]
          exact .ok _ _

theorem authorizeDownload_without (h : Inv s) (hu : u ∉ s.memberIds c) {id : UUID} :
    Matches c ((authorizeDownload s id u).map fun p ↦ (Response.download p, s))
      ((authorizeDownload (s.without c) id u).map fun p ↦ (Response.download p, s.without c)) := by
  unfold authorizeDownload
  rw [attachment_without h]
  cases hrow : s.attachment id with
  | none => exact .error _ _
  | some p =>
      rw [Option.filter_some]
      by_cases hc : p.2.conversationId = c
      · rw [if_neg (by simpa using hc)]
        dsimp only
        split
        · exact .error _ _
        · cases hauth : authorize s p.2.conversationId u with
          | error e => exact .error _ _
          | ok users => exact absurd hc (authorize_ne hu hauth)
      · rw [if_pos (by simpa using hc)]
        exact .of_eq _ rfl

/-- An object of another conversation changes. -/
theorem hide_update {bucket : StorageKey → Option Object} {key : StorageKey}
    (hkey : key.conversationId ≠ c) (object : Option Object) :
    (fun k ↦ if k.conversationId = c then none else Function.update bucket key object k) =
      Function.update (fun k ↦ if k.conversationId = c then none else bucket k) key object := by
  funext k
  by_cases hk : k = key
  · subst hk
    rw [if_neg hkey, Function.update_self, Function.update_self]
  · rw [Function.update_of_ne hk, Function.update_of_ne hk]

theorem promoteRow_without {id : UUID} {row : Attachment} {object : Object}
    (hc : row.conversationId ≠ c) (hkey : row.storageKey.conversationId ≠ c)
    (hid : ∀ p ∈ s.attachments, p.1 = id → p.2 = row) :
    promoteRow st env (s.without c) id row object =
      (promoteRow st env s id row object).without c := by
  have hfinal : (Attachments.finalKey (st.config s) id row).conversationId ≠ c := hc
  simp only [promoteRow, Store.without, Store.mk.injEq, true_and]
  refine ⟨rfl, ?_, ?_⟩
  · rw [List.filter_map]
    refine congrArg _ (List.filter_congr fun p hp ↦ ?_)
    simp only [Function.comp_apply]
    split
    · rw [hid p hp ‹_›]
      rfl
    · rfl
  · split
    · rw [hide_update hkey, hide_update hfinal]
      rfl
    · rw [hide_update hfinal]
      rfl

theorem complete_without (h : Inv s) (hu : u ∉ s.memberIds c) {id : UUID} :
    Matches c (complete st env s id u) (complete st env (s.without c) id u) := by
  have hconfig : st.config (s.without c) = st.config s := rfl
  unfold complete
  rw [attachment_without h, hconfig]
  cases hfound : s.attachment id with
  | none => exact .error _ _
  | some p =>
      obtain ⟨id', row⟩ := p
      obtain ⟨hp, rfl⟩ := (find?_key h.attachmentIds).mp hfound
      rw [Option.filter_some]
      by_cases hc : row.conversationId = c
      · rw [if_neg (by simpa using hc)]
        dsimp only
        split
        · exact .error _ _
        · cases hauth : authorize s row.conversationId u with
          | error e => exact .error _ _
          | ok users => exact absurd hc (authorize_ne hu hauth)
      · rw [if_pos (by simpa using hc)]
        dsimp only
        have hkey : row.storageKey.conversationId ≠ c := (h.keys _ hp).symm ▸ hc
        have hcheck : checkObject st (s.without c) row = checkObject st s row := by
          have hobject : (s.without c).bucket row.storageKey = s.bucket row.storageKey :=
            if_neg hkey
          rw [checkObject, hobject, hconfig, checkObject]
        by_cases howner : row.uploaderId ≠ u
        · rw [if_pos howner, if_pos howner]
          exact .error _ _
        rw [if_neg howner, if_neg howner, authorize_without]
        cases hauth : authorize s row.conversationId u with
        | error e => exact .error _ _
        | ok users =>
            dsimp only
            by_cases hdone : row.uploadedAt ≠ none
            · rw [if_pos hdone, if_pos hdone]
              exact .ok _ _
            rw [if_neg hdone, if_neg hdone, hcheck]
            cases checkObject st s row with
            | error e => exact .error _ _
            | ok object =>
                dsimp only
                rw [promoteRow_without hc hkey]
                · exact .ok _ _
                · intro q hq hid
                  exact congrArg Prod.snd (List.inj_on_of_nodup_map h.attachmentIds hq hp hid)

theorem attachmentsFor_without (h : Inv s) (hd : d ≠ c) (ids : List UUID) :
    attachmentsFor (s.without c) d u ids = attachmentsFor s d u ids := by
  have hordered : ids.filterMap (s.without c).attachment =
      (ids.filterMap s.attachment).filter fun p ↦ p.2.conversationId ≠ c := by
    rw [List.filter_filterMap]
    exact List.filterMap_congr fun id _ ↦ attachment_without h c id
  unfold attachmentsFor
  rw [hordered]
  by_cases hall : ∀ p ∈ ids.filterMap s.attachment, p.2.conversationId ≠ c
  · rw [List.filter_eq_self.mpr fun p hp ↦ decide_eq_true (hall p hp)]
  · -- One of them is hidden here, and of another conversation there.
    obtain ⟨p, hp, hc⟩ : ∃ p ∈ ids.filterMap s.attachment, p.2.conversationId = c := by
      simpa only [not_forall, not_not, exists_prop] using hall
    have hlt : ((ids.filterMap s.attachment).filter fun p ↦ p.2.conversationId ≠ c).length <
        (ids.filterMap s.attachment).length :=
      List.length_filter_lt_length_iff_exists.mpr ⟨p, hp, by simpa using hc⟩
    have hle := List.length_filterMap_le s.attachment ids
    have hbad : ∃ p ∈ ids.filterMap s.attachment, Attachments.unusable d u p.2 :=
      ⟨p, hp, .inl fun e ↦ hd (e.symm.trans hc)⟩
    dsimp only
    rw [if_pos (by omega), if_pos hbad, ite_self]

theorem addMessage_without (hf : Fresh env s) {message : Message} {recipientIds ids : List UUID}
    (hc : message.conversationId ≠ c) {messages messages' : MessageTable}
    (hins : s.messages.insert message = some messages)
    (hins' : (s.without c).messages.insert message = some messages') :
    addMessage env (s.without c) message messages' recipientIds ids =
      (addMessage env s message messages recipientIds ids).without c := by
  have hrows := Messages.MessageTable.rows_insert hins
  have hrows' := Messages.MessageTable.rows_insert hins'
  have hin : ∀ receipt, (addMessage env s message messages recipientIds ids).ReceiptIn c receipt ↔
      s.ReceiptIn c receipt := by
    intro receipt
    simp only [Store.ReceiptIn, addMessage, hrows, List.mem_cons, exists_eq_or_imp, hc, and_false,
      false_or]
  have hnew : ∀ receipt ∈ newReceipts env recipientIds, ¬ s.ReceiptIn c receipt := by
    rintro receipt hr ⟨other, hother, hoid, -⟩
    obtain ⟨⟨v, i⟩, -, rfl⟩ := List.mem_map.mp hr
    exact hf.messages other hother 0 hoid
  have hreceipts : ((newReceipts env recipientIds ++ s.receipts).filter fun receipt ↦
      ¬ (addMessage env s message messages recipientIds ids).ReceiptIn c receipt) =
        newReceipts env recipientIds ++
          s.receipts.filter fun receipt ↦ ¬ s.ReceiptIn c receipt := by
    simp only [hin, List.filter_append]
    rw [List.filter_eq_self.mpr fun receipt hr ↦ decide_eq_true (hnew receipt hr)]
  obtain ⟨rows', unique'⟩ := messages'
  obtain rfl : rows' = messages.rows.filter fun message ↦ message.conversationId ≠ c := by
    rw [hrows, List.filter_cons_of_pos (by simpa using hc)]
    exact hrows'
  simp only [addMessage, Store.without, Store.mk.injEq, true_and, and_true]
  refine ⟨hreceipts.symm, ?_⟩
  rw [List.filter_map]
  refine congrArg _ (List.filter_congr fun p _ ↦ ?_)
  simp only [Function.comp_apply]
  split <;> rfl

theorem newReceipts_nodup (h : Inv s) (hf : Fresh env s) {recipientIds : List UUID} :
    ((newReceipts env recipientIds ++ s.receipts).map MessageReceipt.id).Nodup ↔
      ((newReceipts env recipientIds ++ (s.without c).receipts).map MessageReceipt.id).Nodup := by
  have hdisjoint : ∀ receipts : List MessageReceipt, (∀ r ∈ receipts, r ∈ s.receipts) →
      (receipts.map MessageReceipt.id).Nodup →
        (((newReceipts env recipientIds ++ receipts).map MessageReceipt.id).Nodup ↔
          ((newReceipts env recipientIds).map MessageReceipt.id).Nodup) := by
    intro receipts hsub hnodup
    rw [List.map_append, List.nodup_append]
    refine and_iff_left ⟨hnodup, ?_⟩
    intro id hnew id' hold e
    obtain ⟨new, hmem, rfl⟩ := List.mem_map.mp hnew
    obtain ⟨receipt, hr, rfl⟩ := List.mem_map.mp hold
    unfold newReceipts at hmem
    obtain ⟨⟨v, i⟩, -, rfl⟩ := List.mem_map.mp hmem
    exact hf.receipts receipt (hsub receipt hr) (i + 1) e.symm
  have hkept : (s.without c).receipts.Sublist s.receipts := List.filter_sublist
  rw [hdisjoint _ (fun _ hr ↦ hr) h.receiptIds, hdisjoint _ (fun _ hr ↦ hkept.subset hr)
    (h.receiptIds.sublist (hkept.map _))]

theorem createMessage_without (h : Inv s) (hu : u ∉ s.memberIds c) (hf : Fresh env s)
    {content : String} {ids : List UUID} : Matches c (createMessage st env s d u content ids)
      (createMessage st env (s.without c) d u content ids) := by
  unfold createMessage
  rw [authorize_without]
  cases hauth : authorize s d u with
  | error e => exact .error _ _
  | ok users =>
      have hd := authorize_ne hu hauth
      dsimp only
      split
      · exact .error _ _
      split
      · exact .error _ _
      split
      · exact .error _ _
      rw [attachmentsFor_without h hd]
      cases attachmentsFor s d u ids with
      | error e => exact .error _ _
      | ok ordered =>
          dsimp only
          set message : Message := ⟨env.draw 0, d, u, st.text.strip content, env.now, none⟩
          have hfresh : message.id ∉ s.messages.rows.map Message.id := by
            rintro hid
            obtain ⟨other, hother, e⟩ := List.mem_map.mp hid
            exact hf.messages other hother 0 e
          have hfresh' : message.id ∉ (s.without c).messages.rows.map Message.id := fun hid ↦
            hfresh ((List.filter_sublist.map _).subset hid)
          have hins := Messages.MessageTable.insert_eq hfresh
          have hins' := Messages.MessageTable.insert_eq hfresh'
          have hreceipts : ((newReceipts env (users.filter (· ≠ u)) ++ s.receipts).map
              MessageReceipt.id).Nodup ↔ ((newReceipts env (users.filter (· ≠ u)) ++
                (s.without c).receipts).map MessageReceipt.id).Nodup :=
            newReceipts_nodup h hf
          rw [hins, hins']
          dsimp only
          by_cases hnodup : ((newReceipts env (users.filter (· ≠ u)) ++ s.receipts).map
              MessageReceipt.id).Nodup
          · rw [if_pos hnodup, if_pos (hreceipts.mp hnodup),
              addMessage_without hf (show message.conversationId ≠ c from hd) hins hins']
            exact .ok _ _
          · rw [if_neg hnodup, if_neg (hreceipts.not.mp hnodup)]
            exact .error _ _

/-- **Serving a user commutes with taking out a conversation of others.** -/
theorem serve_without (h : Inv s) (hc : s.Exists c) (hu : u ∉ s.memberIds c) (hf : Fresh env s)
    (request : Request) :
    Matches c (serve st env s u request) (serve st env (s.without c) u request) := by
  cases request with
  | createDirect participantId => exact (createDirect_without h hc hu).map _
  | listConversations =>
      simp only [serve, listConversations_without h hu]
      exact .ok _ s
  | getConversation conversationId => exact .of_eq _ (getConversation_without h hu)
  | listMessages conversationId limit before after => exact .of_eq _ (listMessages_without h hu)
  | createMessage conversationId content attachmentIds =>
      exact (createMessage_without h hu hf).map _
  | reserve conversationId filename mimeType fileSize => exact (reserve_without hu hf).map _
  | complete attachmentId => exact (complete_without h hu).map _
  | authorizeDownload attachmentId => exact authorizeDownload_without h hu
  | markRead conversationId messageId => exact (markRead_without hu).map _
  | markPendingDelivered =>
      simp only [serve, markPendingDelivered_without h hu]
      exact .ok _ _

/-! ## Runs of requests -/

/-- The store after a request. -/
def after (st : Settings) (u : UUID) (s : Store) (p : Env × Request) : Store :=
  match serve st p.1 s u p.2 with
  | .ok (_, t) => t
  | .error _ => s

/-- The answers to the requests of a user, one after the other; `none` where a
request fails. -/
def answers (st : Settings) (u : UUID) : Store → List (Env × Request) → List (Option Response)
  | _, [] => []
  | s, p :: ps => (serve st p.1 s u p.2).toOption.map Prod.fst :: answers st u (after st u s p) ps

/-- Each request draws new identifiers. -/
def FreshRun (st : Settings) (u : UUID) (s : Store) (ps : List (Env × Request)) : Prop :=
  Along (fun s p ↦ some (after st u s p)) (fun s p ↦ Fresh p.1 s) s ps

/-- A request leaves the invariant, the conversation and its members. -/
theorem after_kept (h : Inv s) (hc : s.Exists c) (p : Env × Request) :
    Inv (after st u s p) ∧ (after st u s p).Exists c ∧
      (after st u s p).memberIds c = s.memberIds c := by
  unfold after
  split
  · rename_i response t hserve
    have ht : step st s (.request p.1 u p.2) = some t := by rw [step, hserve]
    exact ⟨h.step ht, exists_of_step ht hc, memberIds_of_step ht hc⟩
  · exact ⟨h, hc, rfl⟩

theorem Matches.answer {α : Type*} {x y : Except Failure (α × Store)} (h : Matches c x y) :
    y.toOption.map Prod.fst = x.toOption.map Prod.fst := by
  cases h with
  | error e e' => rfl
  | ok a t => rfl

theorem after_without (h : Inv s) (hc : s.Exists c) (hu : u ∉ s.memberIds c) {p : Env × Request}
    (hf : Fresh p.1 s) : after st u (s.without c) p = (after st u s p).without c := by
  have hmatch : Matches c (serve st p.1 s u p.2) (serve st p.1 (s.without c) u p.2) :=
    serve_without h hc hu hf p.2
  unfold after
  revert hmatch
  generalize serve st p.1 s u p.2 = x
  generalize serve st p.1 (s.without c) u p.2 = y
  rintro (_ | _)
  · rfl
  · rfl

theorem answers_without (h : Inv s) (hc : s.Exists c) (hu : u ∉ s.memberIds c)
    {ps : List (Env × Request)} (hf : FreshRun st u s ps) :
    answers st u (s.without c) ps = answers st u s ps := by
  induction ps generalizing s with
  | nil => rfl
  | cons p ps ih =>
      obtain ⟨hinv, hexists, hmembers⟩ : Inv (after st u s p) ∧ (after st u s p).Exists c ∧
          (after st u s p).memberIds c = s.memberIds c := after_kept h hc p
      rw [answers, answers, (serve_without h hc hu hf.1 p.2).answer, after_without h hc hu hf.1]
      exact congrArg _ (ih hinv hexists (hmembers ▸ hu) (hf.2 _ rfl))

/-- **Non-interference.**  Two stores that agree outside a conversation answer every
sequence of requests of a user who is not a member of it alike. -/
theorem non_interference {s₁ s₂ : Store} (h₁ : Reachable st s₁) (h₂ : Reachable st s₂)
    (hc : s₁.Exists c) (hagree : s₁.without c = s₂.without c) (hu : u ∉ s₁.memberIds c)
    {requests : List (Env × Request)} (hf₁ : FreshRun st u s₁ requests)
    (hf₂ : FreshRun st u s₂ requests) : answers st u s₁ requests = answers st u s₂ requests := by
  have hc₂ : s₂.Exists c := by
    have hconv := congrArg Store.conversations hagree
    rw [conversations_without, conversations_without] at hconv
    rwa [Store.Exists, ← hconv]
  have hu₂ : u ∉ s₂.memberIds c := by
    rwa [← memberIds_without, ← hagree, memberIds_without]
  rw [← answers_without h₁.inv hc hu hf₁, ← answers_without h₂.inv hc₂ hu₂ hf₂, hagree]

/-- Two users write to each other; a third one is there. -/
def secret (content : String) : List Action :=
  let env (id : UUID) : Env := ⟨5, fun i ↦ id + Fin.ofNat _ i, true⟩
  [.register ⟨1, "one", none⟩, .register ⟨2, "two", none⟩, .register ⟨3, "three", none⟩,
    .request (env 10) 1 (.createDirect 2), .request (env 20) 1 (.createMessage 10 content [])]

/-- The store that they leave. -/
def told (content : String) : Store :=
  (exec (step plain) .initial (secret content)).getD .initial

/-- What the third user asks. -/
def curious : List (Env × Request) :=
  [(⟨6, fun _ ↦ 99, true⟩, .markRead 10 20), (⟨7, fun _ ↦ 99, true⟩, .listConversations)]

/-- The third user does not learn what the two have written. -/
theorem non_interference_told : (told "hi").messages.rows ≠ (told "ho").messages.rows ∧
    answers plain 3 (told "hi") curious = answers plain 3 (told "ho") curious := by
  have hfresh : ∀ s : Store, ∀ now : Instant, (∀ message ∈ s.messages.rows, message.id ≠ 99) →
      (∀ receipt ∈ s.receipts, receipt.id ≠ 99) → (∀ p ∈ s.attachments, p.1 ≠ 99) →
        Fresh ⟨now, fun _ ↦ 99, true⟩ s := fun s now hm hr hp ↦
    ⟨fun m h _ ↦ hm m h, fun r h _ ↦ hr r h, fun p h _ ↦ hp p h⟩
  have hrun : ∀ s : Store, (∀ message ∈ s.messages.rows, message.id ≠ 99) →
      (∀ receipt ∈ s.receipts, receipt.id ≠ 99) → (∀ p ∈ s.attachments, p.1 ≠ 99) →
        after plain 3 s (⟨6, fun _ ↦ 99, true⟩, .markRead 10 20) = s →
          FreshRun plain 3 s curious := by
    intro s hm hr hp hsame
    refine ⟨hfresh s 6 hm hr hp, fun t ht ↦ ⟨?_, fun _ _ ↦ trivial⟩⟩
    obtain rfl : s = t := hsame.symm.trans (Option.some.inj ht)
    exact hfresh s 7 hm hr hp
  refine ⟨by decide, ?_⟩
  have hhi : exec (step plain) .initial (secret "hi") = some (told "hi") := rfl
  have hho : exec (step plain) .initial (secret "ho") = some (told "ho") := rfl
  exact non_interference (c := 10) ⟨_, hhi⟩ ⟨_, hho⟩ (by decide) rfl (by decide)
    (hrun _ (by decide) (by decide) (by decide) rfl)
    (hrun _ (by decide) (by decide) (by decide) rfl)

end Chatterbox.Services
