import Chatterbox.Services.Invariant
import Mathlib.Data.Set.Card

/-!
# Unread counts

`mark_read` names a message, and acknowledges all messages of its conversation
that come no later in the history; `unread_count` looks at the receipts, one for
every message and recipient.  The receipts that are unread are exactly those of
the messages that have not been acknowledged since they were sent, in whatever
order messages and acknowledgements have come.

`unread_counts_exact` says this of every run: the receipts that there are, what is
counted as unread, and what `mark_read` returns.
-/

namespace Chatterbox.Services

open Messages (Message stamp)
open Receipts (MessageReceipt Operation joined)

variable {st : Settings} {s t : Store} {c u : UUID} {receipt : MessageReceipt} {message : Message}

/-! ## Acknowledgements -/

/-- A `mark_read` of the user that names a message no older than this one, which is
there. -/
def Acknowledges (u : UUID) (message : Message) (s : Store) (a : Action) : Prop :=
  message ∈ s.messages.rows ∧ ∃ env id target,
    a = .request env u (.markRead message.conversationId id) ∧ s.message id = some target ∧
      stamp message ≤ stamp target

/-- The run has acknowledged the message for the user. -/
def Acknowledged (st : Settings) (as : List Action) (u : UUID) (message : Message) : Prop :=
  Once (step st) (Acknowledges u message) .initial as

/-- The operation reads the user's receipt of the message. -/
def Reads (u : UUID) (message : Message) : Operation → Prop
  | .markReadThrough conversationId userId targetCreatedAt targetId =>
      message.conversationId = conversationId ∧ u = userId ∧
        (message.createdAt < targetCreatedAt ∨
          message.createdAt = targetCreatedAt ∧ message.id ≤ targetId)
  | .markDelivered .. | .markPendingDelivered _ => False

/-- To acknowledge a message is to perform an operation that reads the receipt. -/
theorem acknowledges_iff {a : Action} (hm : message ∈ s.messages.rows) :
    Acknowledges u message s a ↔ ∃ op now, a.operation s = some (op, now) ∧ Reads u message op := by
  constructor
  · rintro ⟨-, env, id, target, rfl, hfound, hle⟩
    refine ⟨.markReadThrough message.conversationId u target.createdAt target.id, env.now, ?_,
      rfl, rfl, Messages.stamp_le.mp hle⟩
    rw [Action.operation, hfound, Option.map_some]
  · rintro ⟨op, now, hop, hreads⟩
    unfold Action.operation at hop
    split at hop
    · cases hop
      exact hreads.elim
    · cases hop
      exact hreads.elim
    · rename_i env userId conversationId id
      obtain ⟨target, hfound, he⟩ := Option.map_eq_some_iff.mp hop
      cases he
      obtain ⟨rfl, rfl, hle⟩ := hreads
      exact ⟨hm, env, id, target, rfl, hfound, Messages.stamp_le.mpr hle⟩
    · cases hop

/-- Messages stay. -/
theorem rows_subset_of_step {a : Action} (ht : step st s a = some t)
    (hm : message ∈ s.messages.rows) : message ∈ t.messages.rows := by
  cases hop : a.operation s with
  | none =>
      cases Move.of_step ht hop with
      | message env member usable id inserted receipts =>
          rw [addMessage, Messages.MessageTable.rows_insert inserted]
          exact List.mem_cons_of_mem _ hm
      | other | direct | reserve | promote | cleanup => exact hm
  | some op =>
      rw [step_operation ht hop]
      exact hm

/-- A message that a run has acknowledged is there at its end. -/
theorem Acknowledged.mem {as : List Action} (hrun : exec (step st) .initial as = some s)
    (h : Acknowledged st as u message) : message ∈ s.messages.rows := by
  revert h
  refine exec_history (P := fun as s ↦ Acknowledged st as u message → message ∈ s.messages.rows)
    (fun h ↦ (once_nil h).elim) (fun hrun ih ht h ↦ ?_) hrun
  rcases (once_concat hrun).mp h with h | ⟨hm, -⟩
  · exact rows_subset_of_step ht (ih h)
  · exact rows_subset_of_step ht hm

/-! ## Receipts with their messages -/

theorem mem_joined : (receipt, message) ∈ joined s.messages.rows s.receipts ↔
    receipt ∈ s.receipts ∧ message ∈ s.messages.rows ∧ message.id = receipt.messageId := by
  rw [Receipts.mem_joined, find?_key s.messages.unique]

/-- The receipt that an operation has left, from the one that it has found. -/
theorem mem_joined_mark {op : Operation} {now : Instant} :
    (receipt, message) ∈ joined (mark op now s).2.messages.rows (mark op now s).2.receipts ↔
      ∃ before, (before, message) ∈ joined s.messages.rows s.receipts ∧
        receipt = if op.selects (before, message) then op.assign now before else before := by
  have hselected : ∀ {before}, (before, message) ∈ joined s.messages.rows s.receipts →
      (before ∈ (op.select s.messages.rows s.receipts).map Prod.fst ↔
        op.selects (before, message) = true) := by
    intro before hjoined
    constructor
    · intro hmem
      obtain ⟨⟨_, other⟩, hsel, rfl⟩ := List.mem_map.mp hmem
      obtain ⟨hother, hsel⟩ := Receipts.mem_select.mp hsel
      obtain ⟨-, hm, hid⟩ := mem_joined.mp hjoined
      obtain ⟨-, hm', hid'⟩ := mem_joined.mp hother
      exact s.messages.eq_of_id hm hm' (hid.trans hid'.symm) ▸ hsel
    · exact fun hsel ↦ List.mem_map.mpr ⟨_, Receipts.mem_select.mpr ⟨hjoined, hsel⟩, rfl⟩
  rw [mem_joined]
  constructor
  · rintro ⟨hr, hm, hid⟩
    obtain ⟨before, hbefore, rfl⟩ := List.mem_map.mp hr
    have hkept : (before, message) ∈ joined s.messages.rows s.receipts := by
      refine mem_joined.mpr ⟨hbefore, hm, hid.trans ?_⟩
      split
      · exact Receipts.assign_messageId now
      · rfl
    exact ⟨before, hkept, by simp only [hselected hkept]⟩
  · rintro ⟨before, hjoined, rfl⟩
    obtain ⟨hbefore, hm, hid⟩ := mem_joined.mp hjoined
    refine ⟨List.mem_map.mpr ⟨before, hbefore, by simp only [hselected hjoined]⟩, hm, hid.trans ?_⟩
    split
    · exact (Receipts.assign_messageId now).symm
    · rfl

theorem receipt_readAt_mark {op : Operation} {now : Instant} :
    (if op.selects (receipt, message) then op.assign now receipt else receipt).readAt ≠ none ↔
      receipt.readAt ≠ none ∨ Reads receipt.userId message op := by
  cases op with
  | markDelivered messageId userIds | markPendingDelivered userId =>
      simp only [Reads, or_false]
      split <;> rfl
  | markReadThrough conversationId userId targetCreatedAt targetId =>
      by_cases hunread : receipt.readAt = none
      · simp only [hunread, ne_eq, not_true_eq_false, false_or, Reads, Operation.selects,
          Operation.assign, true_and, decide_eq_true_eq]
        split <;> simp_all
      · simp [hunread, Operation.selects]

/-- **What has been read.**  After a run a receipt is read exactly if the run has
acknowledged the message for its user. -/
theorem read_iff_acknowledged {as : List Action} (hrun : exec (step st) .initial as = some s) :
    ∀ receipt message, (receipt, message) ∈ joined s.messages.rows s.receipts →
      (receipt.readAt ≠ none ↔ Acknowledged st as receipt.userId message) := by
  refine exec_history (P := fun as s ↦ ∀ receipt message,
    (receipt, message) ∈ joined s.messages.rows s.receipts →
      (receipt.readAt ≠ none ↔ Acknowledged st as receipt.userId message))
    (fun _ _ h ↦ absurd (mem_joined.mp h).1 List.not_mem_nil) ?_ hrun
  intro as s a t hrun ih ht receipt message hjoined
  have hinv : Inv s := Reachable.inv ⟨as, hrun⟩
  rw [Acknowledged, once_concat hrun]
  cases hop : a.operation s with
  | some p =>
      obtain ⟨op, now⟩ := p
      rw [step_operation ht hop] at hjoined
      obtain ⟨before, hbefore, rfl⟩ := mem_joined_mark.mp hjoined
      have huser : (if op.selects (before, message) then op.assign now before else before).userId =
          before.userId := by
        split
        · exact Receipts.assign_userId now
        · rfl
      have hm := (mem_joined.mp hbefore).2.1
      rw [receipt_readAt_mark, huser, acknowledges_iff hm, hop]
      refine or_congr (ih before message hbefore) ⟨fun hreads ↦ ⟨op, now, rfl, hreads⟩, ?_⟩
      rintro ⟨_, _, ⟨⟩, hreads⟩
      exact hreads
  | none =>
      have hquiet : ¬ Acknowledges receipt.userId message s a := by
        intro h
        obtain ⟨op, now, hsome, -⟩ := (acknowledges_iff h.1).mp h
        rw [hop] at hsome
        cases hsome
      rw [or_iff_left hquiet]
      cases Move.of_step ht hop with
      | other | direct | reserve | promote | cleanup => exact ih receipt message hjoined
      | @message env new messages memberIds ids ordered member usable id inserted receipts =>
          obtain ⟨hr, hm, hid⟩ := mem_joined.mp hjoined
          have hrows := Messages.MessageTable.rows_insert inserted
          have hunique := messages.unique
          rw [hrows, List.map_cons, List.nodup_cons] at hunique
          have hold : ∀ other ∈ s.messages.rows, other.id ≠ new.id := fun other hother e ↦
            hunique.1 (e ▸ List.mem_map_of_mem hother)
          rcases List.mem_append.mp hr with hr | hr
          · -- A new receipt is unread, and nobody has acknowledged a message that was not there.
            obtain ⟨⟨v, i⟩, -, rfl⟩ := List.mem_map.mp hr
            refine iff_of_false (fun h ↦ h rfl) fun hack ↦ ?_
            exact hold message (Acknowledged.mem hrun hack) (hid.trans id.symm)
          · refine ih receipt message (mem_joined.mpr ⟨hr, ?_, hid⟩)
            have hrow : (receipt.messageId, receipt.userId) ∈ s.receiptRows :=
              List.mem_map_of_mem hr
            obtain ⟨other, hother, hid', -⟩ := (hinv.receipts _ _).mp hrow
            rcases List.mem_cons.mp (hrows ▸ hm) with rfl | hm
            · exact absurd (hid'.trans hid.symm) (hold other hother)
            · exact hm

/-! ## Counting -/

/-- A message and a user have one receipt at most. -/
theorem Inv.receipt_inj (h : Inv s) {r₁ r₂ : MessageReceipt} (h₁ : r₁ ∈ s.receipts)
    (h₂ : r₂ ∈ s.receipts) (hm : r₁.messageId = r₂.messageId) (hu : r₁.userId = r₂.userId) :
    r₁ = r₂ :=
  List.inj_on_of_nodup_map h.receiptRows h₁ h₂ (Prod.ext hm hu)

/-- One receipt for every recipient, and none for anyone else. -/
theorem Inv.countP_receipts (h : Inv s) (hm : message ∈ s.messages.rows) (v : UUID) :
    s.receipts.countP (fun r ↦ r.messageId = message.id ∧ r.userId = v) =
      if v ∈ s.memberIds message.conversationId ∧ v ≠ message.senderId then 1 else 0 := by
  have hcount : s.receipts.countP (fun r ↦ r.messageId = message.id ∧ r.userId = v) =
      s.receiptRows.count (message.id, v) := by
    rw [Store.receiptRows, List.count, List.countP_map]
    refine List.countP_congr fun r _ ↦ ?_
    simp [Prod.ext_iff]
  have hmem : (message.id, v) ∈ s.receiptRows ↔
      v ∈ s.memberIds message.conversationId ∧ v ≠ message.senderId := by
    rw [h.receipts]
    constructor
    · rintro ⟨other, hother, hid, hv⟩
      exact s.messages.eq_of_id hother hm hid ▸ hv
    · exact fun hv ↦ ⟨message, hm, rfl, hv⟩
  rw [hcount, h.receiptRows.count]
  exact if_congr hmem rfl rfl

/-- The receipts of one user are receipts of different messages. -/
theorem Inv.joined_pairwise (h : Inv s) : (joined s.messages.rows s.receipts).Pairwise
    fun a b ↦ a.1.userId = b.1.userId → a.2.id ≠ b.2.id := by
  refine List.pairwise_filterMap.mpr ((List.pairwise_map.mp h.receiptRows).imp ?_)
  intro r₁ r₂ hne p₁ hp₁ p₂ hp₂ hu hid
  obtain ⟨m₁, hm₁, rfl⟩ := Option.map_eq_some_iff.mp hp₁
  obtain ⟨m₂, hm₂, rfl⟩ := Option.map_eq_some_iff.mp hp₂
  have hid₁ := ((find?_key s.messages.unique).mp hm₁).2
  have hid₂ := ((find?_key s.messages.unique).mp hm₂).2
  exact hne (Prod.ext (hid₁.symm.trans (hid.trans hid₂)) hu)

theorem Inv.joined_filter_nodup (h : Inv s) {p : MessageReceipt × Message → Bool}
    (hp : ∀ x, p x = true → x.1.userId = u) :
    (((joined s.messages.rows s.receipts).filter p).map fun x ↦ x.2.id).Nodup := by
  refine List.pairwise_map.mpr ((h.joined_pairwise.filter p).imp_of_mem ?_)
  intro a b ha hb hne
  exact hne ((hp a (List.mem_filter.mp ha).2).trans (hp b (List.mem_filter.mp hb).2).symm)

/-- What a member has not read. -/
theorem unreadCount_eq {as : List Action} (hrun : exec (step st) .initial as = some s)
    (hu : u ∈ s.memberIds c) : s.unreadCount c u = Set.ncard {message |
      message ∈ s.messages.rows ∧ message.conversationId = c ∧ message.senderId ≠ u ∧
        ¬ Acknowledged st as u message} := by
  have hinv : Inv s := Reachable.inv ⟨as, hrun⟩
  set unread := (joined s.messages.rows s.receipts).filter fun x ↦
    x.2.conversationId = c ∧ x.1.userId = u ∧ x.1.readAt = none with hunread
  have hids : (unread.map fun x ↦ x.2.id).Nodup :=
    hinv.joined_filter_nodup fun _ hx ↦ (of_decide_eq_true hx).2.1
  have hnodup : (unread.map Prod.snd).Nodup := by
    refine List.Nodup.of_map Message.id ?_
    rwa [List.map_map]
  have hset : {message | message ∈ s.messages.rows ∧ message.conversationId = c ∧
      message.senderId ≠ u ∧ ¬ Acknowledged st as u message} =
        ((unread.map Prod.snd).toFinset : Set Message) := by
    ext message
    simp only [Set.mem_ofPred_eq, List.coe_toFinset, List.mem_map, hunread, List.mem_filter,
      Prod.exists, exists_eq_right, decide_eq_true_eq]
    constructor
    · rintro ⟨hm, rfl, hsender, hack⟩
      obtain ⟨receipt, hr, e⟩ := List.mem_map.mp
        ((hinv.receipts message.id u).mpr ⟨message, hm, rfl, hu, hsender.symm⟩)
      obtain ⟨hid, rfl⟩ := Prod.mk.inj e
      have hjoined := mem_joined.mpr ⟨hr, hm, hid.symm⟩
      refine ⟨receipt, hjoined, rfl, rfl, ?_⟩
      exact not_not.mp fun hread ↦
        hack ((read_iff_acknowledged hrun receipt message hjoined).mp hread)
    · rintro ⟨receipt, hjoined, rfl, rfl, hread⟩
      obtain ⟨hr, hm, hid⟩ := mem_joined.mp hjoined
      obtain ⟨other, hother, hid', -, hsender⟩ :=
        (hinv.receipts receipt.messageId receipt.userId).mp (List.mem_map_of_mem hr)
      obtain rfl := s.messages.eq_of_id hother hm (hid'.trans hid.symm)
      refine ⟨hm, rfl, hsender.symm, fun hack ↦ ?_⟩
      exact (read_iff_acknowledged hrun receipt other hjoined).mpr hack hread
  rw [hset, Set.ncard_coe_finset, List.toFinset_card_of_nodup hnodup, List.length_map]
  rfl

/-! ## What `mark_read` returns -/

/-- A receipt that was unread, and is read now. -/
def NewlyRead (s : Store) (receipt : MessageReceipt) : Prop :=
  receipt.readAt ≠ none ∧ ∃ before ∈ s.receipts, before.messageId = receipt.messageId ∧
    before.userId = receipt.userId ∧ before.readAt = none

theorem markRead_returns (h : Inv s) {now : Instant} {id : UUID} {events : List ReceiptEventData}
    (hok : markRead now s c id u = .ok (events, t)) : ∃ marked : List (MessageReceipt × Message),
      events = marked.map toEvent ∧ marked.Pairwise (fun a b ↦ stamp a.2 < stamp b.2) ∧
        ∀ receipt message, (receipt, message) ∈ marked ↔
          (receipt, message) ∈ joined t.messages.rows t.receipts ∧ NewlyRead s receipt := by
  obtain ⟨target, -, -, -, rfl, rfl⟩ := markRead_eq_ok hok
  set op := Operation.markReadThrough c u target.createdAt target.id
  have hids : ((mark op now s).1.map fun x ↦ stamp x.2).Nodup := by
    have hfound : ((op.select s.messages.rows s.receipts).map fun x ↦ x.2.id).Nodup :=
      h.joined_filter_nodup fun _ hx ↦ (of_decide_eq_true hx).2.1
    rw [mark, List.map_map]
    exact List.pairwise_map.mpr
      ((List.pairwise_map.mp hfound).imp fun hne e ↦ hne (Messages.stamp_id e))
  refine ⟨_, rfl, Keyset.mergeSort_strict hids, fun receipt message ↦ ?_⟩
  rw [List.mem_mergeSort, mem_joined_mark]
  simp only [mark, List.mem_map, Prod.mk.injEq, Prod.exists]
  constructor
  · rintro ⟨before, message, hsel, rfl, rfl⟩
    obtain ⟨hjoined, hsel⟩ := Receipts.mem_select.mp hsel
    have hread : (op.assign now before).readAt ≠ none := Option.some_ne_none _
    refine ⟨⟨before, hjoined, by rw [if_pos hsel]⟩, hread, before, (mem_joined.mp hjoined).1,
      (Receipts.assign_messageId now).symm, (Receipts.assign_userId now).symm, ?_⟩
    exact (of_decide_eq_true hsel).2.2.1
  · rintro ⟨⟨before, hjoined, rfl⟩, hread, other, hother, hid, huser, hunread⟩
    by_cases hsel : op.selects (before, message) = true
    · exact ⟨before, message, Receipts.mem_select.mpr ⟨hjoined, hsel⟩, (if_pos hsel).symm, rfl⟩
    · rw [if_neg hsel] at hread hid huser
      rw [h.receipt_inj hother (mem_joined.mp hjoined).1 hid huser] at hunread
      exact absurd hunread hread

/-- **Unread counts are exact.**  In every state that a run leads to, a message has
one receipt for every member but its sender and no other; a member's unread count
of a conversation is the number of messages of others that the run has not
acknowledged for them; and `mark_read` returns precisely what it has newly read,
in the order of the history. -/
theorem unread_counts_exact {as : List Action} (hrun : exec (step st) .initial as = some s) :
    (∀ message ∈ s.messages.rows, ∀ v,
      s.receipts.countP (fun r ↦ r.messageId = message.id ∧ r.userId = v) =
        if v ∈ s.memberIds message.conversationId ∧ v ≠ message.senderId then 1 else 0) ∧
    (∀ c, ∀ u ∈ s.memberIds c, s.unreadCount c u = Set.ncard {message |
      message ∈ s.messages.rows ∧ message.conversationId = c ∧ message.senderId ≠ u ∧
        ¬ Acknowledged st as u message}) ∧
    ∀ env u c id response t, serve st env s u (.markRead c id) = .ok (response, t) →
      ∃ marked : List (MessageReceipt × Message), response = .receipts (marked.map toEvent) ∧
        marked.Pairwise (fun a b ↦ stamp a.2 < stamp b.2) ∧
        ∀ receipt message, (receipt, message) ∈ marked ↔
          (receipt, message) ∈ joined t.messages.rows t.receipts ∧ NewlyRead s receipt := by
  have hinv : Inv s := Reachable.inv ⟨as, hrun⟩
  refine ⟨fun message hm v ↦ hinv.countP_receipts hm v, fun c u hu ↦ unreadCount_eq hrun hu, ?_⟩
  intro env u c id response t hserve
  obtain ⟨⟨events, t'⟩, hok, hpair⟩ := serve_eq_ok hserve
  cases hpair
  obtain ⟨marked, rfl, hmarked⟩ := markRead_returns hinv hok
  exact ⟨marked, rfl, hmarked⟩

/-- Two users, two messages of the one at the same time, of which the other reads the
first. -/
def oneRead : List Action :=
  let env (id : UUID) : Env := ⟨5, fun i ↦ id + Fin.ofNat _ i, true⟩
  [.register ⟨1, "one", none⟩, .register ⟨2, "two", none⟩,
    .request (env 10) 1 (.createDirect 2), .request (env 20) 1 (.createMessage 10 "hi" []),
    .request (env 30) 1 (.createMessage 10 "ho" []), .request (env 40) 2 (.markRead 10 20)]

/-- Of the two messages, the second counts as unread. -/
theorem unread_counts_exact_oneRead : Set.ncard {message | ∃ s,
    exec (step plain) .initial oneRead = some s ∧ message ∈ s.messages.rows ∧
      message.conversationId = 10 ∧ message.senderId ≠ 2 ∧
        ¬ Acknowledged plain oneRead 2 message} = 1 := by
  obtain ⟨s, hs, hcount⟩ : ∃ s, exec (step plain) .initial oneRead = some s ∧
      2 ∈ s.memberIds 10 ∧ s.unreadCount 10 2 = 1 := ⟨_, rfl, by decide, rfl⟩
  have hset := (unread_counts_exact hs).2.1 10 2 hcount.1
  rw [hcount.2] at hset
  simp only [hs, Option.some.injEq, exists_eq_left']
  exact hset.symm

end Chatterbox.Services
