import Chatterbox.Services.Summaries
import Chatterbox.Services.Unread

/-!
# The badges of the conversation list

The unread count of a conversation is what its badge shows.  A transaction changes it in two
ways only: a message adds one for every other member, and `mark_read` takes off as many as it
returns events, for its user (`unreadCount_step`).  So over a whole run of transactions, one at
a time, a badge is the number of messages received, less the number of events that have come
back (`badge_is_balance`), and whoever acknowledges the newest message of the others that the
history shows has no badge left there, and keeps all others (`reading_clears_badge`).

Of two transactions that overlap this is not so: `mark_read` takes no lock when it selects, and
both may return an event for the same receipt.
-/

namespace Chatterbox.Services

open Attachments (Attachment)
open Messages (Message MessageTable stamp)
open Receipts (MessageReceipt Operation joined)

variable {st : Settings} {s t : Store} {env : Env} {c d u v : UUID} {message : Message}

/-! ## Operations on receipts -/

/-- The user has not read the message, which is in the conversation. -/
def IsUnread (c u : UUID) (p : MessageReceipt × Message) : Prop :=
  p.2.conversationId = c ∧ p.1.userId = u ∧ p.1.readAt = none

instance (c u : UUID) : DecidablePred (IsUnread c u) := fun _ ↦ inferInstanceAs (Decidable (_ ∧ _))

instance (u : UUID) (message : Message) : DecidablePred (Reads u message)
  | .markDelivered .. | .markPendingDelivered _ => inferInstanceAs (Decidable False)
  | .markReadThrough .. => inferInstanceAs (Decidable (_ ∧ _))

theorem unreadCount_eq_filter : s.unreadCount c u =
    ((joined s.messages.rows s.receipts).filter fun p ↦ IsUnread c u p).length := rfl

/-- Every receipt stays with its message. -/
theorem joined_mark (op : Operation) (now : Instant) :
    joined (mark op now s).2.messages.rows (mark op now s).2.receipts =
      (joined s.messages.rows s.receipts).map fun p ↦
        (if op.selects p then op.assign now p.1 else p.1, p.2) := by
  simp only [mark, joined, List.filterMap_map, List.map_filterMap]
  refine List.filterMap_congr fun receipt hr ↦ ?_
  rw [Function.comp_apply]
  have hid : ∀ receipt' : MessageReceipt, receipt'.messageId = receipt.messageId →
      ((s.messages.rows.find? fun message ↦ message.id = receipt'.messageId).map fun message ↦
        (receipt', message)) =
          (s.messages.rows.find? fun message ↦ message.id = receipt.messageId).map fun message ↦
            (receipt', message) := by
    intro receipt' h
    rw [h]
  rw [hid _ (by split <;> simp)]
  cases hm : s.messages.rows.find? fun message ↦ message.id = receipt.messageId with
  | none => rfl
  | some message =>
      have hselected : receipt ∈ (op.select s.messages.rows s.receipts).map Prod.fst ↔
          op.selects (receipt, message) = true := by
        constructor
        · intro hmem
          obtain ⟨⟨_, other⟩, hsel, rfl⟩ := List.mem_map.mp hmem
          obtain ⟨hother, hsel⟩ := Receipts.mem_select.mp hsel
          have hsame := (Receipts.mem_joined.mp hother).2
          rw [hm] at hsame
          exact Option.some.inj hsame ▸ hsel
        · intro hsel
          have hjoined := Receipts.mem_joined.mpr ⟨hr, hm⟩
          exact List.mem_map.mpr ⟨_, Receipts.mem_select.mpr ⟨hjoined, hsel⟩, rfl⟩
      simp only [Option.map_some, hselected]

/-- What an operation leaves unread. -/
theorem unreadCount_mark (op : Operation) (now : Instant) :
    (mark op now s).2.unreadCount d v = (((joined s.messages.rows s.receipts).filter fun p ↦
      IsUnread d v p).filter fun p ↦ ¬ Reads v p.2 op).length := by
  rw [unreadCount_eq_filter, joined_mark, List.filter_map, List.length_map, List.filter_filter]
  refine congrArg List.length (List.filter_congr fun p _ ↦ ?_)
  rw [Function.comp_apply, ← Bool.decide_and, decide_eq_decide]
  have hread : (if op.selects p then op.assign now p.1 else p.1).readAt ≠ none ↔
      p.1.readAt ≠ none ∨ Reads p.1.userId p.2 op := receipt_readAt_mark
  have huser : (if op.selects p then op.assign now p.1 else p.1).userId = p.1.userId := by
    split
    · exact Receipts.assign_userId now
    · rfl
  rw [IsUnread, IsUnread, huser]
  constructor
  · rintro ⟨hc, rfl, hunread⟩
    have h := mt hread.mpr (not_not.mpr hunread)
    rw [not_or, not_not] at h
    exact ⟨h.2, hc, rfl, h.1⟩
  · rintro ⟨hreads, hc, rfl, hunread⟩
    refine ⟨hc, rfl, not_not.mp fun h ↦ ?_⟩
    exact (hread.mp h).elim (fun h ↦ h hunread) hreads

/-- What `mark_read` takes off. -/
theorem unreadCount_markRead {now : Instant} {id : UUID} {events : List ReceiptEventData}
    (hok : markRead now s c id u = .ok (events, t)) (d v : UUID) :
    t.unreadCount d v + (if d = c ∧ v = u then events.length else 0) = s.unreadCount d v := by
  obtain ⟨target, -, -, -, rfl, rfl⟩ := markRead_eq_ok hok
  set op := Operation.markReadThrough c u target.createdAt target.id
  set unread := (joined s.messages.rows s.receipts).filter fun p ↦ IsUnread d v p
  have hsplit : s.unreadCount d v = (unread.filter fun p ↦ ¬ Reads v p.2 op).length +
      (unread.filter fun p ↦ Reads v p.2 op).length := by
    rw [unreadCount_eq_filter, List.length_eq_length_filter_add fun p ↦ decide (Reads v p.2 op),
      Nat.add_comm]
    simp only [decide_not]
    rfl
  rw [unreadCount_mark, hsplit]
  refine congrArg _ ?_
  split
  · rename_i hsame
    obtain ⟨rfl, rfl⟩ := hsame
    rw [List.length_map, List.length_mergeSort, mark, List.length_map, Operation.select,
      List.filter_filter]
    refine congrArg List.length (List.filter_congr fun p _ ↦ ?_)
    rw [← Bool.decide_and, Operation.selects, decide_eq_decide, Reads, IsUnread]
    constructor
    · rintro ⟨hc, hu, hunread, hle⟩
      exact ⟨⟨hc, rfl, hle⟩, hc, hu, hunread⟩
    · rintro ⟨⟨hc, -, hle⟩, -, hu, hunread⟩
      exact ⟨hc, hu, hunread, hle⟩
  · rename_i hother
    symm
    rw [List.length_eq_zero_iff, List.filter_eq_nil_iff]
    intro p hp hreads
    obtain ⟨hc, rfl, -⟩ := of_decide_eq_true hreads
    exact hother ⟨(of_decide_eq_true (List.mem_filter.mp hp).2).1.symm.trans hc, rfl⟩

/-! ## New messages -/

/-- The receipts of a new message are receipts of it, and the others are of other messages. -/
theorem joined_addMessage (h : Inv s) {messages : MessageTable} {recipientIds ids : List UUID}
    (hid : message.id = env.draw 0) (hinserted : s.messages.insert message = some messages) :
    let t := addMessage env s message messages recipientIds ids
    joined t.messages.rows t.receipts =
      (newReceipts env recipientIds).map (·, message) ++ joined s.messages.rows s.receipts := by
  have hrows := Messages.MessageTable.rows_insert hinserted
  have hunique := messages.unique
  rw [hrows, List.map_cons, List.nodup_cons] at hunique
  simp only [addMessage, joined, hrows, List.filterMap_append]
  refine congrArg₂ _ ?_ (List.filterMap_congr fun receipt hr ↦ ?_)
  · rw [← List.filterMap_eq_map]
    refine List.filterMap_congr fun receipt hr ↦ ?_
    obtain ⟨⟨v, i⟩, -, rfl⟩ := List.mem_map.mp hr
    have hfirst : (message :: s.messages.rows).find? (fun m ↦ m.id = env.draw 0) = some message :=
      List.find?_cons_of_pos (decide_eq_true hid)
    dsimp only
    rw [hfirst]
    rfl
  · obtain ⟨other, hother, hsame, -⟩ := (h.receipts _ _).mp (List.mem_map_of_mem hr)
    rw [List.find?_cons_of_neg]
    rw [decide_eq_true_eq]
    intro e
    exact hunique.1 (e.trans hsame.symm ▸ List.mem_map_of_mem hother)

/-- New receipts are unread, one for every recipient. -/
theorem unread_newReceipts {recipientIds : List UUID} (hnodup : recipientIds.Nodup) :
    (((newReceipts env recipientIds).map (·, message)).filter fun p ↦ IsUnread d v p).length =
      if d = message.conversationId ∧ v ∈ recipientIds then 1 else 0 := by
  have husers : (newReceipts env recipientIds).map MessageReceipt.userId = recipientIds := by
    rw [newReceipts, List.map_map]
    exact List.zipIdx_map_fst 0 recipientIds
  have hunread : ∀ receipt ∈ newReceipts env recipientIds,
      (IsUnread d v (receipt, message) ↔ d = message.conversationId ∧ receipt.userId = v) := by
    intro receipt hr
    obtain ⟨⟨w, i⟩, -, rfl⟩ := List.mem_map.mp hr
    constructor
    · rintro ⟨hc, hw, -⟩
      exact ⟨hc.symm, hw⟩
    · rintro ⟨hc, hw⟩
      exact ⟨hc.symm, hw, rfl⟩
  rw [List.filter_map, List.length_map]
  by_cases hc : d = message.conversationId
  · have hcount := hnodup.count (a := v)
    conv_lhs at hcount => rw [← husers]
    rw [List.count, List.countP_map, List.countP_eq_length_filter] at hcount
    simp only [and_iff_right hc, ← hcount]
    refine congrArg List.length (List.filter_congr fun receipt hr ↦ ?_)
    simp only [Function.comp_apply, hunread receipt hr, and_iff_right hc]
    rfl
  · rw [if_neg fun hd ↦ hc hd.1, List.length_eq_zero_iff, List.filter_eq_nil_iff]
    exact fun receipt hr h ↦ hc ((hunread receipt hr).mp (of_decide_eq_true h)).1

/-- A message is unread for the members other than its sender. -/
theorem unreadCount_createMessage (h : Inv s) {content : String} {ids : List UUID}
    {response : MessageResponse}
    (hok : createMessage st env s c u content ids = .ok (response, t)) (d v : UUID) :
    t.unreadCount d v =
      s.unreadCount d v + if d = c ∧ v ∈ s.memberIds c ∧ v ≠ u then 1 else 0 := by
  obtain ⟨memberIds, ordered, messages, hauth, -, hinserted, -, rfl, -⟩ := createMessage_eq_ok hok
  obtain ⟨-, rfl, -⟩ := authorize_eq_ok.mp hauth
  have hnodup : ((s.memberIds c).filter (· ≠ u)).Nodup := (h.memberIds_nodup c).filter _
  rw [unreadCount_eq_filter, joined_addMessage h rfl hinserted, List.filter_append,
    List.length_append, unread_newReceipts hnodup, Nat.add_comm]
  simp only [List.mem_filter, decide_eq_true_eq]
  rfl

/-! ## Transactions -/

/-- How many messages a transaction makes unread. -/
def received (d v : UUID) (s : Store) : Action → ℕ
  | .request _ u (.createMessage c _ _) => if d = c ∧ v ∈ s.memberIds c ∧ v ≠ u then 1 else 0
  | _ => 0

/-- How many events `mark_read` returns to the user. -/
def returned (d v : UUID) (s : Store) : Action → ℕ
  | .request env u (.markRead c id) =>
      match markRead env.now s c id u with
      | .ok (events, _) => if d = c ∧ v = u then events.length else 0
      | .error _ => 0
  | _ => 0

theorem unreadCount_of_kept (hkept : Kept s t) (hreceipts : t.receipts = s.receipts) :
    t.unreadCount d v = s.unreadCount d v := by
  rw [unreadCount_eq_filter, unreadCount_eq_filter, hkept.messages, hreceipts]

/-- Nothing is read by marking deliveries. -/
theorem unreadCount_of_not_reads {op : Operation} (hop : ∀ message, ¬ Reads v message op)
    (now : Instant) : (mark op now s).2.unreadCount d v = s.unreadCount d v := by
  rw [unreadCount_mark, List.filter_eq_self.mpr fun p _ ↦ decide_eq_true (hop p.2)]
  rfl

/-- A transaction that performs an operation on receipts. -/
theorem unreadCount_operation {a : Action} {p : Operation × Instant}
    (ht : step st s a = some t) (hop : a.operation s = some p) :
    t.unreadCount d v + returned d v s a = s.unreadCount d v := by
  have hmark := step_operation ht hop
  unfold Action.operation at hop
  split at hop
  · cases hop
    rw [hmark]
    exact unreadCount_of_not_reads (fun _ ↦ id) _
  · cases hop
    rw [hmark]
    exact unreadCount_of_not_reads (fun _ ↦ id) _
  · rename_i env u c id
    simp only [step] at ht
    split at ht
    · rename_i hserve
      cases ht
      obtain ⟨⟨events, t'⟩, hread, hpair⟩ := serve_eq_ok hserve
      cases hpair
      rw [returned, hread]
      exact unreadCount_markRead hread d v
    · cases ht
  · cases hop

/-- **What a transaction does to a badge**: messages add to it, and acknowledgements take off it
what they return. -/
theorem unreadCount_step (h : Inv s) {a : Action} (ht : step st s a = some t) :
    t.unreadCount d v + returned d v s a = s.unreadCount d v + received d v s a := by
  rcases step_cases ht with ⟨response, env, u, c, content, ids, rfl, hok⟩ |
    ⟨response, env, u, w, rfl, hok⟩ | ⟨hkept, hneither⟩
  · exact unreadCount_createMessage h hok d v
  · obtain ⟨-, -, ⟨x, -, rfl, -⟩ | ⟨-, -, rfl, -⟩⟩ := createDirect_eq_ok hok
    · rfl
    · rfl
  · have hreceived : received d v s a = 0 := by
      unfold received
      split
      · exact absurd rfl ((hneither _ _).2 _ _ _)
      · rfl
    rw [hreceived]
    cases hop : a.operation s with
    | none =>
        have hreturned : returned d v s a = 0 := by
          unfold returned
          split
          · rename_i env u c id
            split
            · rename_i events _ hread
              obtain ⟨target, hfound, -⟩ := markRead_eq_ok hread
              rw [Action.operation, hfound] at hop
              cases hop
            · rfl
          · rfl
        rw [hreturned]
        have hreceipts : t.receipts = s.receipts := by
          cases Move.of_step ht hop with
          | message env member usable id inserted receipts =>
              -- There would be a row more.
              have hrows := Messages.MessageTable.rows_insert inserted
              obtain rfl : _ = s.messages := hkept.messages
              exact absurd hrows.symm (List.cons_ne_self _ _)
          | other | direct | reserve | promote | cleanup => rfl
        exact unreadCount_of_kept hkept hreceipts
    | some p => exact (unreadCount_operation ht hop).trans (Nat.add_zero _).symm

/-- **A badge is a balance.**  After any run of transactions, one at a time, it shows the number of
messages that others have sent, less the number of events that `mark_read` has returned to the
user. -/
theorem badge_is_balance {as : List Action} (hrun : exec (step st) .initial as = some s)
    (d v : UUID) : s.unreadCount d v + tally (step st) (returned d v) .initial as =
      tally (step st) (received d v) .initial as := by
  have hbalance := tally_balance (P := Inv) (f := fun s ↦ s.unreadCount d v)
    (fun h ht ↦ h.step ht) (fun h ht ↦ unreadCount_step h ht) .initial hrun
  rw [hbalance]
  exact Nat.zero_add _

/-- The other user has one message of two left. -/
theorem badge_is_balance_oneRead :
    ∃ s, exec (step plain) .initial oneRead = some s ∧ s.unreadCount 10 2 + 1 = 2 := by
  have htally : tally (step plain) (returned 10 2) .initial oneRead = 1 ∧
      tally (step plain) (received 10 2) .initial oneRead = 2 := by decide +kernel
  obtain ⟨s, hs⟩ : ∃ s, exec (step plain) .initial oneRead = some s := ⟨_, rfl⟩
  have hbalance := badge_is_balance hs 10 2
  rw [htally.1, htally.2] at hbalance
  exact ⟨s, hs, hbalance⟩

/-! ## Reading the newest page -/

/-- The first that is found in a list that goes down. -/
theorem le_of_find? {α : Type*} {r : α → α → Prop} {p : α → Bool} {l : List α} {x y : α}
    (hl : l.Pairwise r) (hx : l.find? p = some x) (hy : y ∈ l) (hp : p y) : y = x ∨ r x y := by
  obtain ⟨-, before, after, rfl, hbefore⟩ := List.find?_eq_some_iff_append.mp hx
  rw [List.mem_append, List.mem_cons] at hy
  rcases hy with hy | rfl | hy
  · have hnot := hbefore y hy
    rw [hp] at hnot
    cases hnot
  · exact .inl rfl
  · exact .inr ((List.pairwise_cons.mp (List.pairwise_append.mp hl).2.1).1 y hy)

/-- The last message of the others on the newest page is the last of all. -/
theorem newest_inbound {found : Messages.MessagePage} {limit : ℕ}
    (hfound : Messages.list s.membership s.messages c u limit none none = .ok found)
    (hm : found.items.reverse.find? (fun message ↦ message.senderId ≠ u) = some message) :
    ∀ other ∈ Messages.visible s.messages c, other.senderId ≠ u → stamp other ≤ stamp message := by
  have hauth := (authorized_of_list hfound).1
  have hpage := (Messages.list_before hauth s.messages limit none).symm.trans hfound
  obtain rfl := Except.ok.inj hpage
  rw [Messages.backPage, List.reverse_reverse] at hm
  have hnodup := Messages.visible_nodup s.messages c Messages.backStamp
    fun _ _ ↦ Messages.backStamp_id
  have hpairwise := Keyset.slice_strict limit none hnodup
  intro other hother hsender
  have hbeyond : Keyset.Beyond Messages.backStamp none other := Keyset.beyond_none other
  rcases Keyset.mem_slice_or_rest limit hother hbeyond with hitem | hrest
  · rcases le_of_find? hpairwise hm hitem (decide_eq_true hsender) with rfl | hlt
    · exact le_rfl
    · exact hlt.le
  · exact (Keyset.slice_lt_rest hnodup (List.mem_of_find?_eq_some hm) hrest).le

/-- A receipt that is unread is of a message of another user. -/
theorem Inv.sender_ne (h : Inv s) {p : MessageReceipt × Message}
    (hp : p ∈ joined s.messages.rows s.receipts) : p.2.senderId ≠ p.1.userId := by
  obtain ⟨hr, hm, hid⟩ := mem_joined.mp hp
  obtain ⟨other, hother, hsame, -, hsender⟩ := (h.receipts _ _).mp (List.mem_map_of_mem hr)
  rw [s.messages.eq_of_id hm hother (hid.trans hsame.symm)]
  exact hsender.symm

/-- **Reading clears the badge.**  When the user acknowledges the last message of the others on
the newest page of a history, whatever the size of the page is, `mark_read` succeeds and
returns as many events as the badge shows; then the badge is gone, and all other badges are
as they have been. -/
theorem reading_clears_badge (h : Reachable st s) {limit : ℕ} {page : MessagePage}
    (hpage : listMessages s c u limit none none = .ok page) {item : MessageResponse}
    (hitem : page.items.reverse.find? (fun item ↦ item.senderId ≠ u) = some item)
    (now : Instant) : ∃ events t, markRead now s c item.id u = .ok (events, t) ∧
      events.length = s.unreadCount c u ∧ t.unreadCount c u = 0 ∧
        ∀ d v, (d, v) ≠ (c, u) → t.unreadCount d v = s.unreadCount d v := by
  have hinv := h.inv
  obtain ⟨found, hfound, hitems⟩ := listMessages_eq_ok hpage
  rw [hitems, ← List.map_reverse, List.find?_map, Option.map_eq_some_iff] at hitem
  obtain ⟨message, hm, rfl⟩ := hitem
  have hnewest := newest_inbound hfound hm
  have hvisible := Messages.mem_list hfound (List.mem_reverse.mp (List.mem_of_find?_eq_some hm))
  obtain ⟨hrow, hc, -⟩ := Messages.mem_visible.mp hvisible
  obtain ⟨events, t, hread⟩ : ∃ events t, markRead now s c message.id u = .ok (events, t) := by
    obtain ⟨-, hexists, hu⟩ := authorized_of_list hfound
    have hauth : authorize s c u = .ok (s.memberIds c) := authorize_eq_ok.mpr ⟨hexists, rfl, hu⟩
    have htarget : s.message message.id = some message :=
      (find?_key s.messages.unique).mpr ⟨hrow, rfl⟩
    rw [markRead, hauth, htarget]
    dsimp only
    rw [if_neg (not_not.mpr hc)]
    exact ⟨_, _, rfl⟩
  have hcount := unreadCount_markRead hread
  have hzero : t.unreadCount c u = 0 := by
    obtain ⟨target, htarget, -, -, rfl, -⟩ := markRead_eq_ok hread
    obtain rfl : message = target := by
      have hself := (find?_key s.messages.unique).mpr ⟨hrow, rfl⟩
      exact Option.some.inj (hself.symm.trans htarget)
    rw [unreadCount_mark, List.length_eq_zero_iff, List.filter_eq_nil_iff]
    intro p hp hnot
    obtain ⟨hp, hunread⟩ := List.mem_filter.mp hp
    obtain ⟨hpc, hpu, -⟩ := of_decide_eq_true hunread
    have hprow := (mem_joined.mp hp).2.1
    have hle := hnewest p.2 (Messages.mem_visible.mpr ⟨hprow, hpc, h.not_deleted _ hprow⟩)
      (hpu ▸ hinv.sender_ne hp)
    exact of_decide_eq_true hnot ⟨hpc, rfl, Messages.stamp_le.mp hle⟩
  refine ⟨events, t, hread, ?_, hzero, fun d v hne ↦ ?_⟩
  · have hself := hcount c u
    rwa [hzero, if_pos ⟨rfl, rfl⟩, Nat.zero_add] at hself
  · have hother := hcount d v
    rwa [if_neg fun hsame ↦ hne (Prod.ext hsame.1 hsame.2), Nat.add_zero] at hother

/-- The other user has got a file, and reads it. -/
theorem reading_clears_badge_fileOnly : ∃ s events t,
    exec (step plain) .initial fileOnly = some s ∧ s.unreadCount 10 2 = 1 ∧
      markRead 9 s 10 40 2 = .ok (events, t) ∧ events.length = 1 ∧
      t.unreadCount 10 2 = 0 := by
  have hdone : ((exec (step plain) .initial fileOnly).bind fun s ↦
      (listMessages s 10 2 1 none none).toOption.bind fun page ↦
        (page.items.reverse.find? fun item ↦ item.senderId ≠ 2).map fun item ↦
          (item.id, s.unreadCount 10 2)) = some (40, 1) := by decide +kernel
  obtain ⟨s, hs, hpage⟩ := Option.bind_eq_some_iff.mp hdone
  obtain ⟨page, hpage, hitem⟩ := Option.bind_eq_some_iff.mp hpage
  obtain ⟨item, hitem, hvalues⟩ := Option.map_eq_some_iff.mp hitem
  obtain ⟨hid, hcount⟩ := Prod.mk.inj hvalues
  have hlist : listMessages s 10 2 1 none none = .ok page := by
    cases hlist : listMessages s 10 2 1 none none with
    | error e =>
        rw [hlist] at hpage
        cases hpage
    | ok page' =>
        rw [hlist] at hpage
        exact congrArg _ (Option.some.inj hpage)
  obtain ⟨events, t, hread, hlength, hzero, -⟩ :=
    reading_clears_badge ⟨fileOnly, hs⟩ hlist hitem 9
  exact ⟨s, events, t, hs, hcount, hid ▸ hread, hlength.trans hcount, hzero⟩

end Chatterbox.Services
