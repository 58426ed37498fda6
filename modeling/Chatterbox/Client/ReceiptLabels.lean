import Chatterbox.Services.Invariant
import Mathlib.Data.List.Perm.Basic
import Mathlib.Order.Basic

/-!
# The labels under a sent message

The client keeps the last receipt event of every message in `receiptUpdates`, and
shows *Sent*, *Delivered* or *Read* from it, or from the receipts that came with the
message while there is none.

| event | `delivered_at` | `read_at` |
|---|---|---|
| `message.delivered` | set | null |
| `message.read` | set | set |

Different handlers, on different instances, publish the two, so they may arrive in
either order.  A label that only moved forwards would be a join: the greatest of what
has been seen, in whatever order.  `updateReceipt` overwrites instead, and is that join
exactly if no delivered event arrives for a message that is shown as read
(`labels_agree_iff`).
-/

namespace Chatterbox.Client.ReceiptLabels

open Services (MessageReceiptResponse ReceiptEventData)

/-! ## Events -/

/-- A receipt event of the server, with the data of its kind. -/
inductive ReceiptEvent where
  | delivered (messageId conversationId userId : UUID) (deliveredAt : Instant)
  | read (messageId conversationId userId : UUID) (deliveredAt readAt : Instant)
deriving DecidableEq, Repr

namespace ReceiptEvent

/-- `data`. -/
def data : ReceiptEvent → ReceiptEventData
  | .delivered messageId conversationId userId deliveredAt =>
      ⟨messageId, conversationId, userId, some deliveredAt, none⟩
  | .read messageId conversationId userId deliveredAt readAt =>
      ⟨messageId, conversationId, userId, some deliveredAt, some readAt⟩

def messageId (e : ReceiptEvent) : UUID := e.data.messageId

/-- The event says that the message has been read. -/
def IsRead (e : ReceiptEvent) : Prop := e.data.readAt ≠ none

instance : DecidablePred IsRead := fun _ ↦ inferInstanceAs (Decidable (_ ≠ _))

end ReceiptEvent

/-! ## The store and the page -/

/-- `ChatState.receiptUpdates`; `none` where the record has no such key. -/
abbrev ReceiptUpdates := UUID → Option ReceiptEventData

/-- `updateReceipt`. -/
def updateReceipt (updates : ReceiptUpdates) (receipt : ReceiptEventData) : ReceiptUpdates :=
  Function.update updates receipt.messageId (some receipt)

/-- The events are handled one after the other. -/
def handleEvents (updates : ReceiptUpdates) (events : List ReceiptEvent) : ReceiptUpdates :=
  events.foldl (fun updates e ↦ updateReceipt updates e.data) updates

/-- What is shown under a message. -/
inductive Label where
  | sent
  | delivered
  | read
deriving DecidableEq, Repr

namespace Label

def rank : Label → ℕ
  | .sent => 0
  | .delivered => 1
  | .read => 2

theorem rank_injective : Function.Injective rank := by
  intro a b h
  cases a <;> cases b <;> first | rfl | cases h

/-- Labels move forwards from *Sent* to *Read*. -/
instance : LinearOrder Label := .lift' rank rank_injective

theorem le_read (l : Label) : l ≤ .read := by cases l <;> decide

/-- Behind *Delivered* there is only *Read*. -/
theorem le_delivered {l : Label} (h : l ≠ .read) : l ≤ .delivered := by
  cases l with
  | sent | delivered => decide
  | read => exact absurd rfl h

end Label

/-- `receiptLabel`, of a receipt: `read_at` and `delivered_at` of it, if there is one. -/
def labelOf (deliveredAt readAt : Option Instant) : Label :=
  if readAt ≠ none then .read else if deliveredAt ≠ none then .delivered else .sent

/-- `receiptLabel`: `receipts` are those that came with the messages. -/
def receiptLabel (receipts : UUID → List MessageReceiptResponse) (updates : ReceiptUpdates)
    (messageId : UUID) : Label :=
  match updates messageId with
  | some receipt => labelOf receipt.deliveredAt receipt.readAt
  | none =>
      match (receipts messageId)[0]? with
      | some receipt => labelOf receipt.deliveredAt receipt.readAt
      | none => .sent

variable {receipts : UUID → List MessageReceiptResponse} {updates : ReceiptUpdates}
  {l pre post : List ReceiptEvent} {e : ReceiptEvent} {id : UUID}

/-- What an event says about its message. -/
def ReceiptEvent.label (e : ReceiptEvent) : Label := labelOf e.data.deliveredAt e.data.readAt

theorem ReceiptEvent.label_eq_read : e.label = .read ↔ e.IsRead := by
  cases e with
  | delivered => exact iff_of_false (by simp [label, data, labelOf]) fun h ↦ h rfl
  | read => exact iff_of_true rfl (Option.some_ne_none _)

theorem ReceiptEvent.label_of_not_isRead (h : ¬ e.IsRead) : e.label = .delivered := by
  cases e with
  | delivered => rfl
  | read => exact absurd (Option.some_ne_none _) h

/-- An event overwrites the label of its message. -/
theorem receiptLabel_updateReceipt : receiptLabel receipts (updateReceipt updates e.data) id =
    if e.messageId = id then e.label else receiptLabel receipts updates id := by
  unfold receiptLabel updateReceipt
  by_cases h : e.messageId = id
  · rw [if_pos h, ← h, ReceiptEvent.messageId, Function.update_self]
    rfl
  · have hne : id ≠ e.data.messageId := Ne.symm h
    rw [if_neg h, Function.update_of_ne hne]

@[simp] theorem handleEvents_append (l l' : List ReceiptEvent) :
    handleEvents updates (l ++ l') = handleEvents (handleEvents updates l) l' :=
  List.foldl_append

/-! ## Forwards -/

/-- No label moves backwards while the events are handled. -/
def Forward (receipts : UUID → List MessageReceiptResponse) (updates : ReceiptUpdates)
    (l : List ReceiptEvent) : Prop :=
  ∀ pre e post, l = pre ++ e :: post → ∀ id,
    receiptLabel receipts (handleEvents updates pre) id ≤
      receiptLabel receipts (handleEvents updates (pre ++ [e])) id

/-- A delivered event arrives for a message that is shown as read: from the start, or
because of an event. -/
def Late (receipts : UUID → List MessageReceiptResponse) (updates : ReceiptUpdates)
    (l : List ReceiptEvent) : Prop :=
  ∃ pre e post, l = pre ++ e :: post ∧ ¬ e.IsRead ∧
    (receiptLabel receipts updates e.messageId = .read ∨
      ∃ e' ∈ pre, e'.IsRead ∧ e'.messageId = e.messageId)

theorem Late.append (h : Late receipts updates pre) (post : List ReceiptEvent) :
    Late receipts updates (pre ++ post) := by
  obtain ⟨pre, e, rest, rfl, hlate⟩ := h
  exact ⟨pre, e, rest ++ post, by simp, hlate⟩

/-- Along events that keep the labels from moving backwards, they have moved forwards. -/
theorem Forward.le (h : Forward receipts updates l) (hl : l = pre ++ post) (id : UUID) :
    receiptLabel receipts updates id ≤ receiptLabel receipts (handleEvents updates pre) id := by
  induction pre using List.reverseRecOn generalizing post with
  | nil => exact le_refl _
  | append_singleton pre e ih =>
      have hsplit : l = pre ++ e :: post := by rw [hl, List.append_assoc, List.singleton_append]
      exact (ih hsplit).trans (h pre e post hsplit id)

/-- What comes after a part of the events. -/
theorem Forward.drop (h : Forward receipts updates (pre ++ post)) :
    Forward receipts (handleEvents updates pre) post := by
  intro mid e rest hpost id
  have hstep := h (pre ++ mid) e rest (by rw [hpost, List.append_assoc]) id
  rwa [List.append_assoc, handleEvents_append, handleEvents_append] at hstep

/-- A late event moves a label backwards. -/
theorem Forward.not_late (h : Forward receipts updates l) : ¬ Late receipts updates l := by
  rintro ⟨pre, e, post, rfl, he, hread⟩
  have hbefore : receiptLabel receipts (handleEvents updates pre) e.messageId = .read := by
    refine le_antisymm (Label.le_read _) ?_
    rcases hread with hstart | ⟨e', he', hread, hid⟩
    · exact hstart ▸ h.le rfl _
    · obtain ⟨before, after, rfl⟩ := List.mem_iff_append.mp he'
      have hsplit : before ++ e' :: after ++ e :: post =
          (before ++ [e']) ++ (after ++ e :: post) := by simp
      have hafter : after ++ e :: post = after ++ (e :: post) := rfl
      have hle := (hsplit ▸ h).drop.le hafter e.messageId
      rw [← handleEvents_append, List.append_assoc, List.singleton_append] at hle
      refine le_trans (le_of_eq ?_) hle
      rw [handleEvents_append]
      exact ((receiptLabel_updateReceipt.trans (if_pos hid)).trans
        (ReceiptEvent.label_eq_read.mpr hread)).symm
  have hstep := h pre e post rfl e.messageId
  rw [hbefore, handleEvents_append] at hstep
  have hafter : receiptLabel receipts (handleEvents (handleEvents updates pre) [e]) e.messageId =
      .delivered :=
    (receiptLabel_updateReceipt.trans (if_pos rfl)).trans (ReceiptEvent.label_of_not_isRead he)
  rw [hafter] at hstep
  exact absurd hstep (by decide)

/-! ## As a join -/

/-- The greatest of what the events say about a message. -/
def joined (start : Label) (l : List ReceiptEvent) (id : UUID) : Label :=
  l.foldl (fun label e ↦ if e.messageId = id then max label e.label else label) start

/-- One event more. -/
theorem joined_append (start : Label) (l : List ReceiptEvent) (e : ReceiptEvent) (id : UUID) :
    joined start (l ++ [e]) id =
      if e.messageId = id then max (joined start l id) e.label else joined start l id := by
  rw [joined, List.foldl_append]
  rfl

/-- The order of the events does not matter. -/
theorem joined_perm {l₁ l₂ : List ReceiptEvent} (h : l₁.Perm l₂) (start : Label) (id : UUID) :
    joined start l₁ id = joined start l₂ id := by
  refine h.foldl_eq' (fun x _ y _ label ↦ ?_) start
  by_cases hx : x.messageId = id <;> by_cases hy : y.messageId = id <;>
    simp only [hx, hy, if_true, if_false]
  exact max_right_comm _ _ _

/-- *Read* is said at the start or by an event. -/
theorem joined_eq_read {start : Label} (h : joined start l id = .read) :
    start = .read ∨ ∃ e ∈ l, e.IsRead ∧ e.messageId = id := by
  induction l generalizing start with
  | nil => exact .inl h
  | cons e l ih =>
      rcases ih h with hnext | ⟨e', he', hread⟩
      · dsimp only at hnext
        split at hnext
        · rename_i hid
          rcases max_choice start e.label with hmax | hmax
          · exact .inl (hmax ▸ hnext)
          · exact .inr ⟨e, List.mem_cons_self, e.label_eq_read.mp (hmax ▸ hnext), hid⟩
        · exact .inl hnext
      · exact .inr ⟨e', List.mem_cons_of_mem _ he', hread⟩

/-- **Without late events the store is a join.** -/
theorem receiptLabel_eq_joined (h : ¬ Late receipts updates l) (id : UUID) :
    receiptLabel receipts (handleEvents updates l) id =
      joined (receiptLabel receipts updates id) l id := by
  induction l using List.reverseRecOn with
  | nil => rfl
  | append_singleton l e ih =>
      have hbefore := ih fun hlate ↦ h (hlate.append [e])
      rw [handleEvents_append, joined_append, ← hbefore]
      refine receiptLabel_updateReceipt.trans ?_
      split
      · rename_i hid
        refine (max_eq_right ?_).symm
        by_cases hread : e.IsRead
        · exact e.label_eq_read.mpr hread ▸ Label.le_read _
        · rw [e.label_of_not_isRead hread]
          refine Label.le_delivered fun hshown ↦ h ⟨l, e, [], rfl, hread, ?_⟩
          rw [hid]
          exact joined_eq_read (hbefore ▸ hshown)
      · rfl

/-- Without late events no label moves backwards. -/
theorem forward_of_not_late (h : ¬ Late receipts updates l) : Forward receipts updates l := by
  rintro pre e post rfl id
  have hsplit : pre ++ e :: post = (pre ++ [e]) ++ post := by simp
  have hnext : ¬ Late receipts updates (pre ++ [e]) := fun hlate ↦ h (hsplit ▸ hlate.append post)
  have hbefore : ¬ Late receipts updates pre := fun hlate ↦ h (hlate.append _)
  rw [receiptLabel_eq_joined hnext, receiptLabel_eq_joined hbefore, joined_append]
  split
  · exact le_max_left _ _
  · exact le_refl _

/-- **Exactly when the order of arrival does not matter**: if neither order has a delivered
event arrive for a message that is shown as read. -/
theorem labels_agree_iff (receipts : UUID → List MessageReceiptResponse) (updates : ReceiptUpdates)
    {l₁ l₂ : List ReceiptEvent} (hperm : l₁.Perm l₂) :
    ((∀ id, receiptLabel receipts (handleEvents updates l₁) id =
          receiptLabel receipts (handleEvents updates l₂) id) ∧
        Forward receipts updates l₁ ∧ Forward receipts updates l₂) ↔
      ¬ Late receipts updates l₁ ∧ ¬ Late receipts updates l₂ := by
  constructor
  · rintro ⟨-, h₁, h₂⟩
    exact ⟨h₁.not_late, h₂.not_late⟩
  · rintro ⟨h₁, h₂⟩
    refine ⟨fun id ↦ ?_, forward_of_not_late h₁, forward_of_not_late h₂⟩
    rw [receiptLabel_eq_joined h₁, receiptLabel_eq_joined h₂, joined_perm hperm]

/-- A message is delivered and read, and another one is delivered, before or behind. -/
def behind : List ReceiptEvent := [.delivered 20 10 2 7, .read 20 10 2 7 9, .delivered 21 10 2 8]

def before : List ReceiptEvent := [.delivered 21 10 2 8, .delivered 20 10 2 7, .read 20 10 2 7 9]

theorem not_late_behind : ¬ Late (fun _ ↦ [⟨2, none, none⟩]) (fun _ ↦ none) behind := by
  rintro ⟨pre, e, post, hsplit, hnot, hstart | ⟨e', he', hread, hid⟩⟩
  · exact absurd hstart Label.noConfusion
  · rcases pre with _ | ⟨_, _ | ⟨_, _ | ⟨_, pre⟩⟩⟩ <;> simp [behind] at hsplit
    · cases he'
    · obtain ⟨-, rfl, -⟩ := hsplit
      exact hnot (Option.some_ne_none _)
    · obtain ⟨rfl, rfl, rfl, -⟩ := hsplit
      rcases List.mem_pair.mp he' with rfl | rfl
      · exact hread rfl
      · exact absurd hid (by decide)

theorem not_late_before : ¬ Late (fun _ ↦ [⟨2, none, none⟩]) (fun _ ↦ none) before := by
  rintro ⟨pre, e, post, hsplit, hnot, hstart | ⟨e', he', hread, -⟩⟩
  · exact absurd hstart Label.noConfusion
  · rcases pre with _ | ⟨_, _ | ⟨_, _ | ⟨_, pre⟩⟩⟩ <;> simp [before] at hsplit
    · cases he'
    · obtain ⟨rfl, -⟩ := hsplit
      obtain rfl := List.mem_singleton.mp he'
      exact hread rfl
    · obtain ⟨-, -, rfl, -⟩ := hsplit
      exact hnot (Option.some_ne_none _)

/-- The order of the two does not matter. -/
theorem labels_agree_delivered :
    receiptLabel (fun _ ↦ [⟨2, none, none⟩]) (handleEvents (fun _ ↦ none) behind) 20 = .read ∧
      receiptLabel (fun _ ↦ [⟨2, none, none⟩]) (handleEvents (fun _ ↦ none) behind) 20 =
        receiptLabel (fun _ ↦ [⟨2, none, none⟩]) (handleEvents (fun _ ↦ none) before) 20 ∧
      Forward (fun _ ↦ [⟨2, none, none⟩]) (fun _ ↦ none) behind := by
  have hperm : behind.Perm before := by decide
  have h := (labels_agree_iff (fun _ ↦ [⟨2, none, none⟩]) (fun _ ↦ none) hperm).mpr
    ⟨not_late_behind, not_late_before⟩
  exact ⟨rfl, h.1 20, h.2.1⟩

/-! ## What the server emits -/

section Server

open Services (Store Reachable mark toEvent)
open Receipts (Operation MessageReceipt)

variable {st : Services.Settings} {s t : Store}

/-- What has been read has been delivered. -/
def ReadDelivered (s : Store) : Prop :=
  ∀ receipt ∈ s.receipts, receipt.readAt ≠ none → receipt.deliveredAt ≠ none

theorem ReadDelivered.mark (h : ReadDelivered s) (op : Operation) (now : Instant) :
    ReadDelivered (mark op now s).2 := by
  intro receipt hreceipt hread
  obtain ⟨receipt, hmem, rfl⟩ := List.mem_map.mp hreceipt
  split
  · cases op <;> exact Option.some_ne_none _
  · rw [if_neg ‹_›] at hread
    exact h receipt hmem hread

theorem ReadDelivered.step (h : ReadDelivered s) {a : Services.Action}
    (ht : Services.step st s a = some t) : ReadDelivered t := by
  cases hop : a.operation s with
  | some op =>
      rw [Services.step_operation ht hop]
      exact h.mark op.1 op.2
  | none =>
      cases Services.Move.of_step ht hop with
      | message env member usable id inserted receipts =>
          intro receipt hreceipt hread
          rcases List.mem_append.mp hreceipt with hnew | hold
          · obtain ⟨⟨_, _⟩, -, rfl⟩ := List.mem_map.mp hnew
            exact absurd rfl hread
          · exact h receipt hold hread
      | other | direct | reserve | promote | cleanup => exact h

theorem readDelivered_of_reachable (h : Reachable st s) : ReadDelivered s := by
  obtain ⟨as, hrun⟩ := h
  exact exec_invariant (fun hs ht ↦ hs.step ht) (fun _ hreceipt ↦ by cases hreceipt) hrun

/-- The operation is that of `message.read`. -/
def marksRead : Operation → Prop
  | .markReadThrough .. => True
  | .markDelivered .. | .markPendingDelivered _ => False

/-- In every state that is reached, the receipts of an operation make events of its kind. -/
theorem exists_event (h : Reachable st s) {op : Operation} {now : Instant}
    {p : MessageReceipt × Messages.Message} (hp : p ∈ (mark op now s).1) :
    ∃ e : ReceiptEvent, e.data = toEvent p ∧ (e.IsRead ↔ marksRead op) := by
  obtain ⟨⟨receipt, message⟩, hsel, rfl⟩ := List.mem_map.mp hp
  obtain ⟨hjoined, hop⟩ := Receipts.mem_select.mp hsel
  have hmem := (Receipts.mem_joined.mp hjoined).1
  have hunread : receipt.deliveredAt = none → receipt.readAt = none := fun hnone ↦
    by_contra fun hread ↦ readDelivered_of_reachable h receipt hmem hread hnone
  cases op with
  | markDelivered messageId userIds =>
      have hread := hunread (of_decide_eq_true hop).2.2
      exact ⟨.delivered receipt.messageId message.conversationId receipt.userId now,
        congrArg (ReceiptEventData.mk _ _ _ (some now)) hread.symm,
        iff_of_false (fun hne ↦ hne rfl) id⟩
  | markPendingDelivered userId =>
      have hread := hunread (of_decide_eq_true hop).2
      exact ⟨.delivered receipt.messageId message.conversationId receipt.userId now,
        congrArg (ReceiptEventData.mk _ _ _ (some now)) hread.symm,
        iff_of_false (fun hne ↦ hne rfl) id⟩
  | markReadThrough conversationId userId targetCreatedAt targetId =>
      exact ⟨.read receipt.messageId message.conversationId receipt.userId
        (receipt.deliveredAt.getD now) now, rfl, iff_of_true (Option.some_ne_none _) trivial⟩

/-! ## A delivered event that is overtaken -/

/-- The message 20 of the first user has been delivered to the second one, who reads it. -/
def deliveredFirst : List ReceiptEvent := [.delivered 20 10 2 7, .read 20 10 2 7 8]

/-- The first user writes to the second. -/
def written : List Services.Action :=
  [.register ⟨1, "one", none⟩, .register ⟨2, "two", none⟩,
    .request ⟨5, fun _ ↦ 10, true⟩ 1 (.createDirect 2),
    .request ⟨6, fun i ↦ 20 + Fin.ofNat _ i, true⟩ 1 (.createMessage 10 "hi" [])]

/-- The server emits the two events in this order. -/
theorem deliveredFirst_emitted :
    ∃ s s' t, exec (Services.step Services.plain) .initial written = some s ∧
      Services.markDelivered 7 s 20 [2] = ([(ReceiptEvent.delivered 20 10 2 7).data], s') ∧
      Services.markRead 8 s' 10 20 2 = .ok ([(ReceiptEvent.read 20 10 2 7 8).data], t) := by
  obtain ⟨s, s', users, p, hrun, hdelivered, hmember, hmessage, hmark, hevent⟩ :
      ∃ s s' users p, exec (Services.step Services.plain) .initial written = some s ∧
        Services.markDelivered 7 s 20 [2] = ([(ReceiptEvent.delivered 20 10 2 7).data], s') ∧
        Services.authorize s' 10 2 = .ok users ∧
        s'.message 20 = some ⟨20, 10, 1, "hi", 6, none⟩ ∧
        (mark (.markReadThrough 10 2 6 20) 8 s').1 = [p] ∧
        toEvent p = (ReceiptEvent.read 20 10 2 7 8).data :=
    ⟨_, _, _, _, rfl, rfl, rfl, rfl, rfl, rfl⟩
  refine ⟨s, s', (mark (.markReadThrough 10 2 6 20) 8 s').2, hrun, hdelivered, ?_⟩
  simp only [Services.markRead, hmember, hmessage, ne_eq, not_true, if_false, hmark,
    List.mergeSort_singleton, List.map_singleton, hevent]

/-- In the other order they leave the label at *Delivered*, which was *Read*. -/
theorem read_overtaken :
    ¬ ∀ (receipts : UUID → List MessageReceiptResponse) (updates : ReceiptUpdates)
        (l₁ l₂ : List ReceiptEvent), l₁.Perm l₂ →
      (∀ id, receiptLabel receipts (handleEvents updates l₁) id =
          receiptLabel receipts (handleEvents updates l₂) id) ∧
        Forward receipts updates l₁ ∧ Forward receipts updates l₂ := by
  intro h
  have hperm : deliveredFirst.Perm deliveredFirst.reverse := deliveredFirst.reverse_perm.symm
  have hlabels := (h (fun _ ↦ [⟨2, none, none⟩]) (fun _ ↦ none) _ _ hperm).1 20
  exact absurd hlabels (by decide)

end Server

end Chatterbox.Client.ReceiptLabels
