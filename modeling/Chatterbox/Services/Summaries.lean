import Chatterbox.Services.Steps

/-!
# What is shown of a message

A message has text, or it has attachments: `create` asks for it, and nothing that happens
to attachments later takes the last one from a message, since `cleanup_abandoned` is
about attachments that have none.  So no page of a history has an empty item
(`history_not_blank`), and what the conversation list shows of the last message is not
empty, and is what the newest page of the history ends with (`list_agrees_with_history`).
-/

namespace Chatterbox.Services

open Attachments (Attachment unusable bindTo promote)
open Messages (Message MessageTable Cursor)
open Receipts (MessageReceipt Operation)

variable {st : Settings} {s t : Store} {env : Env} {c u : UUID} {ids : List UUID}

/-! ## What `create` has checked -/

/-- There is text or an attachment, and there are not too many of them, each named once. -/
theorem createMessage_checks {content : String} {response : MessageResponse}
    (h : createMessage st env s c u content ids = .ok (response, t)) :
    (st.text.strip content = "" → ids ≠ []) ∧ ids.length ≤ st.attachmentMaxPerMessage ∧
      ids.Nodup := by
  unfold createMessage at h
  split at h
  · cases h
  · split at h
    · cases h
    · rename_i hempty
      split at h
      · cases h
      · rename_i hmany
        split at h
        · cases h
        · rename_i hnodup
          exact ⟨fun htext hids ↦ hempty ⟨htext, hids⟩, not_lt.mp hmany, not_not.mp hnodup⟩

/-- All attachments that are named are there. -/
theorem attachment_of_mem {ordered : List (UUID × Attachment)} {id : UUID}
    (hok : attachmentsFor s c u ids = .ok ordered) (hid : id ∈ ids) :
    ∃ row, (id, row) ∈ s.attachments := by
  unfold attachmentsFor at hok
  dsimp only at hok
  split at hok
  · cases hok
  · rename_i hlength
    have hall := List.filterMap_length_eq_length.mp (not_not.mp hlength)
    obtain ⟨⟨id', row⟩, hp⟩ := Option.isSome_iff_exists.mp (hall id hid)
    obtain rfl : id' = id := attachment_fst hp
    exact ⟨row, List.mem_of_find?_eq_some hp⟩

/-! ## Messages and their attachments -/

/-- A message without text has an attachment, and no message has more than it may have. -/
structure Shown (st : Settings) (s : Store) : Prop where
  attached : ∀ message ∈ s.messages.rows, message.content = "" →
    s.attachmentsOf message.id ≠ []
  few : ∀ message ∈ s.messages.rows,
    (s.attachmentsOf message.id).length ≤ st.attachmentMaxPerMessage

theorem mem_attachmentsOf {id : UUID} {p : UUID × Attachment} :
    p ∈ s.attachmentsOf id ↔ p ∈ s.attachments ∧ p.2.messageId = some id := by
  rw [Store.attachmentsOf, List.mem_filter, decide_eq_true_eq]

/-- Rows that are selected stay as they are, and the others are not selected by a change. -/
theorem filter_map_eq {α : Type*} {f : α → α} {p : α → Bool} {l : List α}
    (hp : ∀ a ∈ l, p (f a) = p a) (hf : ∀ a ∈ l, p a = true → f a = a) :
    (l.map f).filter p = l.filter p := by
  have hsame : ∀ a ∈ l.filter p, f a = a := fun a ha ↦
    hf a (List.mem_of_mem_filter ha) (List.mem_filter.mp ha).2
  rw [List.filter_map, ← (List.map_congr_left hsame).trans (List.map_id _)]
  exact congrArg (List.map f) (List.filter_congr hp)

/-- All that matters of an attachment is whose it is. -/
theorem attachmentsOf_map {f : UUID × Attachment → UUID × Attachment}
    (hf : ∀ p ∈ s.attachments, (f p).2.messageId = p.2.messageId)
    (bucket : Attachments.StorageKey → Option Attachments.Object) (id : UUID) :
    Store.attachmentsOf { s with attachments := s.attachments.map f, bucket } id =
      (s.attachmentsOf id).map f := by
  rw [Store.attachmentsOf, Store.attachmentsOf, List.filter_map]
  refine congrArg (List.map f) (List.filter_congr fun p hp ↦ ?_)
  rw [Function.comp_apply, hf p hp]

theorem Shown.map (h : Shown st s) {f : UUID × Attachment → UUID × Attachment}
    (hf : ∀ p ∈ s.attachments, (f p).2.messageId = p.2.messageId)
    (bucket : Attachments.StorageKey → Option Attachments.Object) :
    Shown st { s with attachments := s.attachments.map f, bucket } where
  attached message hm hcontent := by
    rw [attachmentsOf_map hf, ne_eq, List.map_eq_nil_iff]
    exact h.attached message hm hcontent
  few message hm := by
    rw [attachmentsOf_map hf, List.length_map]
    exact h.few message hm

/-- The messages and what they have are as before. -/
theorem Shown.congr (h : Shown st s) (hmessages : t.messages = s.messages)
    (hattachments : ∀ id, t.attachmentsOf id = s.attachmentsOf id) : Shown st t where
  attached message hm hcontent := by
    rw [hattachments]
    exact h.attached message (hmessages ▸ hm) hcontent
  few message hm := by
    rw [hattachments]
    exact h.few message (hmessages ▸ hm)

/-- Abandoned attachments are nobody's. -/
theorem attachmentsOf_cleanup {cutoff : Instant} {limit : ℕ} {fails : UUID → Bool} (id : UUID) :
    (cleanupAbandoned s cutoff limit fails).attachmentsOf id = s.attachmentsOf id := by
  rw [Store.attachmentsOf, cleanupAbandoned, List.filter_filter]
  refine List.filter_congr fun p hp ↦ ?_
  by_cases hid : p.2.messageId = some id
  · rw [hid, decide_eq_true rfl, Bool.true_and, decide_eq_true_eq]
    intro hremoved
    have hbatch := List.mem_mergeSort.mp (List.mem_of_mem_take (List.mem_filter.mp hremoved).1)
    have hunbound := (of_decide_eq_true (List.mem_filter.mp hbatch).2).1
    rw [hid] at hunbound
    cases hunbound
  · rw [decide_eq_false hid, Bool.false_and]

section Create

variable {message : Message} {messages : MessageTable} {recipientIds : List UUID}

theorem fst_bind (p : UUID × Attachment) :
    (if p.1 ∈ ids then (p.1, bindTo message.id p.2) else p).1 = p.1 := by
  split <;> rfl

/-- Another message keeps its attachments: those that are named have been nobody's. -/
theorem attachmentsOf_addMessage {id : UUID} (hid : message.id ≠ id)
    (hnamed : ∀ p ∈ s.attachments, p.1 ∈ ids → p.2.messageId = none) :
    (addMessage env s message messages recipientIds ids).attachmentsOf id =
      s.attachmentsOf id := by
  refine filter_map_eq (fun p hp ↦ ?_) fun p hp hbound ↦ if_neg fun hmem ↦ ?_
  · rw [decide_eq_decide]
    split
    · rename_i hmem
      rw [hnamed p hp hmem]
      exact iff_of_false (fun e ↦ hid (Option.some.inj e)) (Option.some_ne_none id).symm
    · rfl
  · rw [hnamed p hp hmem] at hbound
    cases of_decide_eq_true hbound

/-- A new message has the attachments that it names. -/
theorem attachmentsOf_addMessage_self
    (hnobody : ∀ p ∈ s.attachments, p.2.messageId ≠ some message.id) :
    ((addMessage env s message messages recipientIds ids).attachmentsOf message.id).map Prod.fst =
      (s.attachments.map Prod.fst).filter (· ∈ ids) := by
  rw [Store.attachmentsOf, addMessage, List.filter_map, List.filter_map, List.map_map]
  refine (List.map_congr_left fun p _ ↦ fst_bind p).trans ?_
  refine congrArg (List.map _) (List.filter_congr fun p hp ↦ ?_)
  rw [Function.comp_apply, Function.comp_apply, decide_eq_decide]
  split
  · exact iff_of_true rfl ‹_›
  · exact iff_of_false (hnobody p hp) ‹_›

end Create

theorem Shown.create (h : Shown st s) (hinv : Inv s) {content : String}
    {response : MessageResponse}
    (hok : createMessage st env s c u content ids = .ok (response, t)) : Shown st t := by
  obtain ⟨htext, hmany, -⟩ := createMessage_checks hok
  obtain ⟨memberIds, ordered, messages, -, husable, hinserted, -, rfl, -⟩ := createMessage_eq_ok hok
  set message : Message := ⟨env.draw 0, c, u, st.text.strip content, env.now, none⟩
  have hrows := Messages.MessageTable.rows_insert hinserted
  have hfresh : ∀ other ∈ s.messages.rows, message.id ≠ other.id :=
    fun other hother ↦ ne_of_insert hinserted hother
  have hnamed : ∀ p ∈ s.attachments, p.1 ∈ ids → p.2.messageId = none := by
    intro p hp hid
    by_contra hbound
    exact hinv.usable husable hp hid (.inr (.inr (.inr hbound)))
  have hnobody : ∀ p ∈ s.attachments, p.2.messageId ≠ some message.id := by
    intro p hp hid
    obtain ⟨other, hother, hsame, -⟩ := hinv.bound p hp _ hid
    exact hfresh other hother hsame.symm
  set t := addMessage env s message messages (memberIds.filter (· ≠ u)) ids
  have hold : ∀ other ∈ s.messages.rows, t.attachmentsOf other.id = s.attachmentsOf other.id :=
    fun other hother ↦ attachmentsOf_addMessage (hfresh other hother) hnamed
  have hnew : (t.attachmentsOf message.id).map Prod.fst =
      (s.attachments.map Prod.fst).filter (· ∈ ids) := attachmentsOf_addMessage_self hnobody
  refine ⟨fun other hother hcontent ↦ ?_, fun other hother ↦ ?_⟩
  · rcases List.mem_cons.mp (hrows ▸ hother) with rfl | hother
    · obtain ⟨id, rest, hids⟩ := List.exists_cons_of_ne_nil (htext hcontent)
      have hid : id ∈ ids := hids ▸ List.mem_cons_self
      obtain ⟨row, hrow⟩ := attachment_of_mem husable hid
      have hmem : id ∈ (s.attachments.map Prod.fst).filter (· ∈ ids) :=
        List.mem_filter.mpr ⟨List.mem_map_of_mem hrow, decide_eq_true hid⟩
      rw [← hnew] at hmem
      intro hnil
      rw [hnil] at hmem
      exact absurd hmem List.not_mem_nil
    · rw [hold other hother]
      exact h.attached other hother hcontent
  · rcases List.mem_cons.mp (hrows ▸ hother) with rfl | hother
    · refine le_trans ?_ hmany
      rw [← List.length_map Prod.fst, hnew]
      refine ((hinv.attachmentIds.filter _).subperm fun id hid ↦ ?_).length_le
      exact of_decide_eq_true (List.mem_filter.mp hid).2
    · rw [hold other hother]
      exact h.few other hother

/-- A transaction that adds no message. -/
theorem Shown.move (h : Shown st s) (hinv : Inv s) {a : Action} (ht : step st s a = some t)
    (hmessages : t.messages = s.messages) : Shown st t := by
  cases hop : a.operation s with
  | some op =>
      rw [step_operation ht hop]
      exact h.congr rfl fun id ↦ rfl
  | none =>
      cases Move.of_step ht hop with
      | other | direct => exact h.congr rfl fun id ↦ rfl
      | message env member usable id inserted receipts =>
          -- There would be a row more.
          have hrows := Messages.MessageTable.rows_insert inserted
          obtain rfl : _ = s.messages := hmessages
          exact absurd hrows.symm (List.cons_ne_self _ _)
      | reserve member fresh unbound key =>
          refine h.congr rfl fun id ↦ List.filter_cons_of_neg ?_
          rw [decide_eq_true_eq, unbound]
          exact (Option.some_ne_none id).symm
      | @promote env id row object found =>
          obtain ⟨hrow, -⟩ := (find?_key hinv.attachmentIds).mp found
          refine h.map (fun p hp ↦ ?_) _
          split
          · rename_i hid
            rw [List.inj_on_of_nodup_map hinv.attachmentIds hp hrow hid]
            rfl
          · rfl
      | cleanup cutoff limit fails => exact h.congr rfl attachmentsOf_cleanup

theorem Shown.step (h : Shown st s) (hinv : Inv s) {a : Action} (ht : step st s a = some t) :
    Shown st t := by
  rcases step_cases ht with ⟨response, env, u, c, content, ids, -, hok⟩ |
    ⟨response, env, u, v, -, hok⟩ | ⟨hkept, -⟩
  · exact h.create hinv hok
  · obtain ⟨-, -, ⟨x, -, rfl, -⟩ | ⟨-, -, rfl, -⟩⟩ := createDirect_eq_ok hok
    · exact h
    · exact h.congr rfl fun id ↦ rfl
  · exact h.move hinv ht hkept.messages

theorem Reachable.shown (h : Reachable st s) : Shown st s := by
  obtain ⟨as, hrun⟩ := h
  have hboth : Inv s ∧ Shown st s := by
    refine exec_invariant (P := fun s ↦ Inv s ∧ Shown st s) (fun h ht ↦ ?_)
      ⟨.initial, ⟨fun _ h ↦ absurd h List.not_mem_nil, fun _ h ↦ absurd h List.not_mem_nil⟩⟩ hrun
    exact ⟨h.1.step ht, h.2.step h.1 ht⟩
  exact hboth.2

/-! ## Pages -/

/-- A page has messages of the conversation, with their attachments. -/
theorem listMessages_eq_ok {limit : ℕ} {before after : Option Cursor} {page : MessagePage}
    (h : listMessages s c u limit before after = .ok page) : ∃ found,
      Messages.list s.membership s.messages c u limit before after = .ok found ∧
        page.items = found.items.map fun message ↦
          toMessageResponse s message (s.receiptsOf message.id) (s.attachmentsOf message.id) := by
  unfold listMessages at h
  split at h
  · cases h
  · rename_i found hfound
    cases h
    exact ⟨found, hfound, rfl⟩

/-- Whoever gets a page is a member. -/
theorem authorized_of_list {limit : ℕ} {before after : Option Cursor}
    {found : Messages.MessagePage}
    (h : Messages.list s.membership s.messages c u limit before after = .ok found) :
    getAuthorized s.membership c u = .ok (s.memberIds c) ∧ s.Exists c ∧ u ∈ s.memberIds c := by
  cases hauth : getAuthorized s.membership c u with
  | error e =>
      rw [Messages.list_error hauth] at h
      cases h
  | ok users =>
      obtain ⟨hmembers, hu⟩ := getAuthorized_eq_ok.mp hauth
      obtain ⟨hc, rfl⟩ := membership_eq_some.mp hmembers
      exact ⟨rfl, hc, hu⟩

/-- **No page of a history has an empty item**: each has text or attachments, and not more of
these than it may have. -/
theorem history_not_blank (h : Reachable st s) {limit : ℕ} {before after : Option Cursor}
    {page : MessagePage} (hpage : listMessages s c u limit before after = .ok page) :
    ∀ item ∈ page.items, (item.content ≠ "" ∨ item.attachments ≠ []) ∧
      item.attachments.length ≤ st.attachmentMaxPerMessage := by
  obtain ⟨found, hfound, hitems⟩ := listMessages_eq_ok hpage
  intro item hitem
  rw [hitems] at hitem
  obtain ⟨message, hm, rfl⟩ := List.mem_map.mp hitem
  have hrow := (Messages.mem_visible.mp (Messages.mem_list hfound hm)).1
  simp only [toMessageResponse, List.length_map, ne_eq, List.map_eq_nil_iff]
  exact ⟨or_iff_not_imp_left.mpr fun hempty ↦ h.shown.attached message hrow (not_not.mp hempty),
    h.shown.few message hrow⟩

/-- One user sends another a file, and nothing else. -/
def fileOnly : List Action :=
  let env (id : UUID) : Env := ⟨5, fun i ↦ id + Fin.ofNat _ i, true⟩
  let key : Attachments.StorageKey := ⟨.pending, 10, 1, 20, ""⟩
  [.register ⟨1, "one", none⟩, .register ⟨2, "two", none⟩,
    .request (env 10) 1 (.createDirect 2), .request (env 20) 1 (.reserve 10 "a" "text/plain" 1),
    .put key ⟨[7], "text/plain"⟩, .request (env 30) 1 (.complete 20),
    .request (env 40) 1 (.createMessage 10 "" [20])]

/-- The history has one item. -/
theorem fileOnly_listed : ∃ s page, exec (step plain) .initial fileOnly = some s ∧
    listMessages s 10 2 5 none none = .ok page ∧ page.items =
      [toMessageResponse s ⟨40, 10, 1, "", 5, none⟩ (s.receiptsOf 40) (s.attachmentsOf 40)] := by
  obtain ⟨s, hs, hvisible, hauth⟩ : ∃ s, exec (step plain) .initial fileOnly = some s ∧
      Messages.visible s.messages 10 = [⟨40, 10, 1, "", 5, none⟩] ∧
        getAuthorized s.membership 10 2 = .ok [1, 2] := ⟨_, rfl, rfl, rfl⟩
  have hitems : (Keyset.slice Messages.backStamp 5 none (Messages.visible s.messages 10)).items =
      [⟨40, 10, 1, "", 5, none⟩] := by
    rw [hvisible, Keyset.slice_items, Keyset.window]
    simp [Keyset.beyond_none]
  have hfound := Messages.list_before hauth s.messages 5 none
  rw [Option.map_none, Messages.backPage, hitems] at hfound
  obtain ⟨page, hpage, hitem⟩ : ∃ page, listMessages s 10 2 5 none none = .ok page ∧ page.items =
      [toMessageResponse s ⟨40, 10, 1, "", 5, none⟩ (s.receiptsOf 40) (s.attachmentsOf 40)] := by
    rw [listMessages, hfound]
    exact ⟨_, rfl, rfl⟩
  exact ⟨s, page, hs, hpage, hitem⟩

/-- It has no text, so it has attachments. -/
theorem history_not_blank_fileOnly : ∃ s page item, exec (step plain) .initial fileOnly = some s ∧
    listMessages s 10 2 5 none none = .ok page ∧ item ∈ page.items ∧ item.content = "" ∧
      item.attachments ≠ [] := by
  obtain ⟨s, page, hs, hpage, hitem⟩ := fileOnly_listed
  have hmem := hitem ▸ List.mem_singleton_self _
  have hshown := history_not_blank ⟨fileOnly, hs⟩ hpage _ hmem
  exact ⟨s, page, _, hs, hpage, hmem, rfl, hshown.1.resolve_left fun h ↦ h rfl⟩

/-! ## The conversation list -/

/-- What an item of a history is in short. -/
def MessageResponse.summary (item : MessageResponse) : MessageSummary where
  id := item.id
  senderId := item.senderId
  senderUsername := item.senderUsername
  content :=
    if item.content ≠ "" then item.content
    else if item.attachments ≠ [] then "📎 Attachment" else ""
  createdAt := item.createdAt

theorem toSummary_eq (message : Message) : toSummary s message = MessageResponse.summary
    (toMessageResponse s message (s.receiptsOf message.id) (s.attachmentsOf message.id)) := by
  simp only [toSummary, MessageResponse.summary, toMessageResponse, ne_eq, List.map_eq_nil_iff]

/-- The latest message is what the newest page ends with, whatever its limit is. -/
theorem latest_eq_getLast? {users : List UUID} {limit : ℕ} (hlimit : 1 ≤ limit)
    (hauth : getAuthorized s.membership c u = .ok users) : ∃ found,
      Messages.list s.membership s.messages c u limit none none = .ok found ∧
        s.latest c = found.items.getLast? := by
  refine ⟨_, Messages.list_before hauth s.messages limit none, ?_⟩
  rw [Messages.backPage, List.getLast?_reverse, Keyset.slice_items, Store.latest,
    Messages.pageBefore_eq, List.head?_take, List.head?_take, if_neg (Nat.succ_ne_zero 0),
    if_neg (Nat.ne_of_gt hlimit)]
  rfl

/-- **The conversation list agrees with the history.**  Every conversation in a user's list is
one whose history the user gets, and its last message is what the newest page of that, of any
size, ends with: nothing if there is none, and else something that is not empty. -/
theorem list_agrees_with_history (h : Reachable st s) (u : UUID) :
    ∀ response ∈ listConversations s u, ∀ limit, 1 ≤ limit → ∃ page,
      listMessages s response.id u limit none none = .ok page ∧
        response.lastMessage = page.items.getLast?.map MessageResponse.summary ∧
          ∀ summary ∈ response.lastMessage, summary.content ≠ "" := by
  intro response hresponse limit hlimit
  obtain ⟨x, hx, rfl⟩ := List.mem_map.mp hresponse
  obtain ⟨hx, hmember⟩ := List.mem_filter.mp (List.mem_mergeSort.mp hx)
  have hauth : getAuthorized s.membership x.id u = .ok (s.memberIds x.id) :=
    getAuthorized_eq_ok.mpr
      ⟨membership_eq_some.mpr ⟨⟨x, hx, rfl⟩, rfl⟩, of_decide_eq_true hmember⟩
  obtain ⟨found, hfound, hlatest⟩ := latest_eq_getLast? hlimit hauth
  have hpage : ∃ page, listMessages s x.id u limit none none = .ok page := by
    rw [listMessages, hfound]
    exact ⟨_, rfl⟩
  obtain ⟨page, hpage⟩ := hpage
  obtain ⟨found', hfound', hitems⟩ := listMessages_eq_ok hpage
  obtain rfl : found = found' := Except.ok.inj (hfound.symm.trans hfound')
  have hlast : (s.latest x.id).map (toSummary s) =
      page.items.getLast?.map MessageResponse.summary := by
    rw [hlatest, hitems, List.getLast?_map, Option.map_map]
    exact congrArg (Option.map · _) (funext fun message ↦ toSummary_eq message)
  refine ⟨page, hpage, hlast, fun summary hsummary ↦ ?_⟩
  rw [toConversationResponse, hlast] at hsummary
  obtain ⟨item, hitem, rfl⟩ := Option.map_eq_some_iff.mp hsummary
  have hblank := (history_not_blank h hpage item (List.mem_of_getLast? hitem)).1
  rw [MessageResponse.summary]
  dsimp only
  split
  · assumption
  · rw [if_pos (hblank.resolve_left ‹_›)]
    decide

/-- The list says that there is an attachment. -/
theorem list_agrees_with_history_fileOnly : ∃ s, exec (step plain) .initial fileOnly = some s ∧
    ∃ response ∈ listConversations s 2, ∃ page,
      listMessages s response.id 2 1 none none = .ok page ∧
        response.lastMessage = page.items.getLast?.map MessageResponse.summary ∧
          ∀ summary ∈ response.lastMessage, summary.content ≠ "" := by
  obtain ⟨s, hs, x, hx⟩ : ∃ s, exec (step plain) .initial fileOnly = some s ∧
      ∃ x, s.conversations.filter (fun x ↦ 2 ∈ s.memberIds x.id) = [x] := ⟨_, rfl, _, rfl⟩
  have hmem : toConversationResponse s x 2 ∈ listConversations s 2 := by
    rw [listConversations, hx, List.mergeSort_singleton]
    exact List.mem_singleton_self _
  exact ⟨s, hs, _, hmem, list_agrees_with_history ⟨fileOnly, hs⟩ 2 _ hmem 1 le_rfl⟩

end Chatterbox.Services
