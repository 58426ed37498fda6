import Chatterbox.Client.ChatStore
import Chatterbox.Client.Composer
import Chatterbox.Client.Connection
import Chatterbox.Client.ReceiptLabels
import Chatterbox.Realtime.Announcements

/-!
# The live view

`useChatStore`, with all that `handleEvent` and the pages of a recovery do to it.  The store of
a client is a copy of what the server has, and it is made of what the server has sent.

* Nothing in it is untrue (`live_view_true`), whichever of the events arrive, in whatever order
  and however often: a message is in the history as it is in the view, a receipt that says that a
  message has been read is of a message that has been read, and whoever is shown as typing is
  another member of the conversation.
* Nothing is missing (`live_view_complete`) if all events arrive in order: then the view of a
  conversation has every message that has been sent over a socket, in the order of the database.

Events are handled one at a time here, and what has been committed is announced.  Two senders may
commit in one order and publish in the other, and a fault behind the commit leaves a message that
nobody is told of (`Realtime.Replies`); neither is in these runs.
-/

namespace Chatterbox.Client.LiveView

open Messages (visible)
open Realtime.Dispatch (Sent ServerEvent State Action perform Told Truthful)
open Services (MessageResponse MessagePage ReceiptEventData listMessages shown toEvent)

/-! ## The chat store -/

/-- `ChatState`. -/
structure ChatState where
  selectedConversationId : Option UUID
  connectionStatus : Connection.ConnectionStatus
  realtimeMessages : UUID → List MessageResponse
  presence : Presence
  typingUsers : Composer.TypingUsers
  receiptUpdates : ReceiptLabels.ReceiptUpdates

namespace ChatState

/-- The store before anything has come. -/
def initial : ChatState :=
  ⟨none, .disconnected, fun _ ↦ [], fun _ ↦ none, fun _ ↦ [], fun _ ↦ none⟩

/-- `addRealtimeMessage`. -/
def addRealtimeMessage (s : ChatState) (message : MessageResponse) : ChatState :=
  let existing := s.realtimeMessages message.conversationId
  if ∃ item ∈ existing, item.id = message.id then s
  else
    { s with
      realtimeMessages :=
        Function.update s.realtimeMessages message.conversationId (existing ++ [message]) }

/-- `clearRealtimeState`. -/
def clearRealtimeState (s : ChatState) : ChatState :=
  { initial with selectedConversationId := s.selectedConversationId }

/-- `handleEvent`, of an event that a dispatch has sent.  An `error` goes to `onError`. -/
def handleEvent (s : ChatState) : ServerEvent → ChatState
  | .messageCreated _ data => s.addRealtimeMessage data
  | .messageDelivered data | .messageRead _ data =>
      { s with receiptUpdates := ReceiptLabels.updateReceipt s.receiptUpdates data }
  | .typing (.started data) =>
      { s with
        typingUsers := Composer.setTyping s.typingUsers data.conversationId data.userId true }
  | .typing (.stopped data) =>
      { s with
        typingUsers := Composer.setTyping s.typingUsers data.conversationId data.userId false }
  | .error .. => s

end ChatState

/-- What a client makes of the store. -/
inductive Input where
  | event (event : ServerEvent)
  /-- `connection.ready`, `presence.online` or `presence.offline`. -/
  | presence (event : Client.Event)
  /-- An item of a page, in `recoverLoadedConversations`. -/
  | recovered (item : MessageResponse)
  | selectConversation (conversationId : Option UUID)
  | setConnectionStatus (status : Connection.ConnectionStatus)
  | clear

/-- One of the actions of the store. -/
def apply (s : ChatState) : Input → ChatState
  | .event event => s.handleEvent event
  | .presence event => { s with presence := s.presence.handleEvent event }
  | .recovered item => s.addRealtimeMessage item
  | .selectConversation conversationId => { s with selectedConversationId := conversationId }
  | .setConnectionStatus status => { s with connectionStatus := status }
  | .clear => s.clearRealtimeState

variable {st : Services.Settings} {s t : State} {store : Services.Store} {view : ChatState}
  {c u v id : UUID} {as : List Action} {sent : List Sent} {message item : MessageResponse}

/-! ## One message more -/

theorem mem_addRealtimeMessage (h : item ∈ (view.addRealtimeMessage message).realtimeMessages c) :
    item ∈ view.realtimeMessages c ∨ item = message ∧ message.conversationId = c := by
  unfold ChatState.addRealtimeMessage at h
  dsimp only at h
  split at h
  · exact .inl h
  · dsimp only at h
    rw [Function.update_apply] at h
    split at h
    · next hc =>
        subst hc
        exact (List.mem_append.mp h).imp_right fun h ↦ ⟨List.mem_singleton.mp h, rfl⟩
    · exact .inl h

theorem nodup_addRealtimeMessage (h : ((view.realtimeMessages c).map MessageResponse.id).Nodup) :
    (((view.addRealtimeMessage message).realtimeMessages c).map MessageResponse.id).Nodup := by
  unfold ChatState.addRealtimeMessage
  dsimp only
  split
  · exact h
  · next hnew =>
      dsimp only
      rw [Function.update_apply]
      split
      · next hc =>
          subst hc
          rw [List.map_append, List.map_singleton, List.nodup_append]
          refine ⟨h, List.nodup_singleton _, fun a ha b hb ↦ ?_⟩
          obtain ⟨item, hitem, rfl⟩ := List.mem_map.mp ha
          rw [List.mem_singleton.mp hb]
          exact fun e ↦ hnew ⟨item, hitem, e⟩
      · exact h

/-! ## Nothing is untrue -/

/-- What a view shows a user is so. -/
structure Correct (store : Services.Store) (v : UUID) (view : ChatState) : Prop where
  messages : ∀ c, ∀ item ∈ view.realtimeMessages c, v ∈ store.memberIds c ∧
    ∃ message ∈ visible store.messages c, item.Lasts (shown store message)
  distinct : ∀ c, ((view.realtimeMessages c).map MessageResponse.id).Nodup
  receipts : ∀ id data, view.receiptUpdates id = some data → data.messageId = id ∧
    v ∈ store.memberIds data.conversationId ∧
      ∃ p ∈ Receipts.joined store.messages.rows store.receipts, data.Lasts (toEvent p)
  typing : ∀ c, ∀ u ∈ view.typingUsers c,
    u ≠ v ∧ u ∈ store.memberIds c ∧ v ∈ store.memberIds c

theorem Correct.initial : Correct store v .initial where
  messages _ _ h := absurd h List.not_mem_nil
  distinct _ := List.nodup_nil
  receipts _ _ h := absurd h.symm (Option.some_ne_none _)
  typing _ _ h := absurd h List.not_mem_nil

/-- What comes to a user is so, and concerns them. -/
def Fits (store : Services.Store) (v : UUID) : Input → Prop
  | .event event => Told store event ∧
      (∀ c, event.conversationId = some c → v ∈ store.memberIds c) ∧
        ∀ typing, event = .typing typing → typing.data.userId ≠ v
  | .recovered item => Told store (.messageCreated none item) ∧
      v ∈ store.memberIds item.conversationId
  | .presence _ | .selectConversation _ | .setConnectionStatus _ | .clear => True

theorem Correct.addRealtimeMessage (h : Correct store v view)
    (hdeleted : ∀ message ∈ store.messages.rows, message.deletedAt = none)
    (htold : Told store (.messageCreated none message))
    (hv : v ∈ store.memberIds message.conversationId) :
    Correct store v (view.addRealtimeMessage message) := by
  have hsame : (view.addRealtimeMessage message).receiptUpdates = view.receiptUpdates ∧
      (view.addRealtimeMessage message).typingUsers = view.typingUsers := by
    unfold ChatState.addRealtimeMessage
    dsimp only
    split <;> exact ⟨rfl, rfl⟩
  refine ⟨fun c item hitem ↦ ?_, fun c ↦ nodup_addRealtimeMessage (h.distinct c), ?_, ?_⟩
  · rcases mem_addRealtimeMessage hitem with hitem | ⟨rfl, rfl⟩
    · exact h.messages c item hitem
    · obtain ⟨row, hrow, hlasts⟩ := htold
      exact ⟨hv, row, Messages.mem_visible.mpr ⟨hrow, hlasts.conversationId, hdeleted row hrow⟩,
        hlasts⟩
  · rw [hsame.1]
    exact h.receipts
  · rw [hsame.2]
    exact h.typing

theorem Correct.updateReceipt (h : Correct store v view) {data : ReceiptEventData}
    (hv : v ∈ store.memberIds data.conversationId)
    (htold : ∃ p ∈ Receipts.joined store.messages.rows store.receipts, data.Lasts (toEvent p)) :
    Correct store v
      { view with receiptUpdates := ReceiptLabels.updateReceipt view.receiptUpdates data } where
  messages := h.messages
  distinct := h.distinct
  receipts id other hother := by
    change Function.update view.receiptUpdates data.messageId (some data) id = some other at hother
    rw [Function.update_apply] at hother
    split at hother
    · next hid =>
        obtain rfl := Option.some.inj hother
        exact ⟨hid.symm, hv, htold⟩
    · exact h.receipts id other hother
  typing := h.typing

theorem mem_setTyping {users : Composer.TypingUsers} {c' u' : UUID} {typing : Bool}
    (h : u ∈ Composer.setTyping users c' u' typing c) :
    u ∈ users c ∨ typing = true ∧ c' = c ∧ u' = u := by
  unfold Composer.setTyping at h
  rw [Function.update_apply] at h
  split at h
  · next hc =>
      subst hc
      split at h
      · next htyping =>
          split at h
          · exact .inl h
          · refine (List.mem_append.mp h).imp_right fun h ↦ ?_
            exact ⟨htyping, rfl, (List.mem_singleton.mp h).symm⟩
      · exact .inl (List.mem_of_mem_filter h)
  · exact .inl h

theorem Correct.setTyping (h : Correct store v view) {typing : Bool}
    (htyping : typing = true → u ≠ v ∧ u ∈ store.memberIds c ∧ v ∈ store.memberIds c) :
    Correct store v
      { view with typingUsers := Composer.setTyping view.typingUsers c u typing } where
  messages := h.messages
  distinct := h.distinct
  receipts := h.receipts
  typing c' u' hu := by
    rcases mem_setTyping hu with hu | ⟨htrue, rfl, rfl⟩
    · exact h.typing c' u' hu
    · exact htyping htrue

/-- One action of the store. -/
theorem Correct.apply (h : Correct store v view)
    (hdeleted : ∀ message ∈ store.messages.rows, message.deletedAt = none) {input : Input}
    (hinput : Fits store v input) : Correct store v (LiveView.apply view input) := by
  cases input with
  | event event =>
      obtain ⟨htold, hconversation, hother⟩ := hinput
      cases event with
      | messageCreated requestId data =>
          exact h.addRealtimeMessage hdeleted htold (hconversation _ rfl)
      | messageDelivered data => exact h.updateReceipt (hconversation _ rfl) htold
      | messageRead requestId data => exact h.updateReceipt (hconversation _ rfl) htold
      | typing event =>
          cases event with
          | started data =>
              exact h.setTyping fun _ ↦ ⟨hother _ rfl, htold, hconversation _ rfl⟩
          | stopped data => exact h.setTyping fun hfalse ↦ absurd hfalse Bool.false_ne_true
      | error requestId code message => exact h
  | recovered item => exact h.addRealtimeMessage hdeleted hinput.1 hinput.2
  | presence event | selectConversation conversationId | setConnectionStatus status =>
      exact ⟨h.messages, h.distinct, h.receipts, h.typing⟩
  | clear =>
      have hinitial : Correct store v .initial := .initial
      exact ⟨hinitial.messages, hinitial.distinct, hinitial.receipts, hinitial.typing⟩

theorem Correct.foldl (h : Correct store v view)
    (hdeleted : ∀ message ∈ store.messages.rows, message.deletedAt = none) {inputs : List Input}
    (hinputs : ∀ input ∈ inputs, Fits store v input) :
    Correct store v (inputs.foldl LiveView.apply view) := by
  induction inputs generalizing view with
  | nil => exact h
  | cons input inputs ih =>
      obtain ⟨hinput, hinputs⟩ := List.forall_mem_cons.mp hinputs
      exact ih (h.apply hdeleted hinput) hinputs

/-! ## What a client hears -/

/-- What comes to a user in a run: an event that has been sent to them, or an item of a page that
they have got at some point of it. -/
def Heard (st : Services.Settings) (as : List Action) (sent : List Sent) (v : UUID) : Input → Prop
  | .event event => ∃ x ∈ sent, v ∈ x.targets ∧ x.event = event
  | .recovered item => ∃ pre post m, as = pre ++ post ∧
      exec (Realtime.Dispatch.step st) .initial pre = some m ∧
        ∃ c limit before after page, listMessages m.store c v limit before after = .ok page ∧
          item ∈ page.items
  | .presence _ | .selectConversation _ | .setConnectionStatus _ | .clear => True

/-- What the database says lasts. -/
theorem lasts_of_exec (h : Services.Reachable st s.store)
    (hrun : exec (Realtime.Dispatch.step st) s as = some t) :
    Services.Reachable st t.store ∧ Services.Lasts s.store t.store := by
  refine exec_invariant (P := fun t ↦ Services.Reachable st t.store ∧
    Services.Lasts s.store t.store) (fun {m a t} hm ht ↦ ?_) ⟨h, .refl _⟩ hrun
  obtain ⟨⟨t, sent⟩, hperform, rfl⟩ := Option.map_eq_some_iff.mp ht
  obtain ⟨bs, hbs⟩ := Realtime.Dispatch.store_of_perform hperform
  exact ⟨hm.1.run hbs, hm.2.trans (.run hm.1 hbs)⟩

theorem fits_of_heard (hrun : emits (perform st) .initial as = some (s, sent)) {input : Input}
    (h : Heard st as sent v input) : Fits s.store v input := by
  obtain ⟨hreach, hsent⟩ := Realtime.Dispatch.truthful_of_run hrun
  cases input with
  | event event =>
      obtain ⟨x, hx, hv, rfl⟩ := h
      have htrue := hsent x hx
      exact ⟨htrue.told, fun c hc ↦ htrue.addressed c hc v hv,
        fun typing htyping e ↦ htrue.others typing htyping (e ▸ hv)⟩
  | recovered item =>
      obtain ⟨pre, post, m, rfl, hpre, c, limit, before, after, page, hpage, hitem⟩ := h
      obtain ⟨m', hm', hpost⟩ := exec_append_eq_some.mp (exec_of_emits hrun)
      obtain rfl : m = m' := Option.some.inj (hpre.symm.trans hm')
      have hm : Services.Reachable st m.store := (lasts_of_exec ⟨[], rfl⟩ hpre).1
      have hlasts : Services.Lasts m.store s.store := (lasts_of_exec hm hpost).2
      obtain ⟨found, hfound, hitems⟩ := Services.listMessages_eq_ok hpage
      rw [hitems] at hitem
      obtain ⟨message, hmessage, rfl⟩ := List.mem_map.mp hitem
      obtain ⟨hrow, hc, -⟩ := Messages.mem_visible.mp (Messages.mem_list hfound hmessage)
      obtain ⟨-, hexists, hv⟩ := Services.authorized_of_list hfound
      refine ⟨⟨message, hlasts.messages message hrow, Services.shown_lasts hlasts hrow⟩, ?_⟩
      show v ∈ s.store.memberIds message.conversationId
      rw [hc, hlasts.memberIds c hexists]
      exact hv
  | presence event | selectConversation conversationId | setConnectionStatus status | clear =>
      trivial

/-- **The live view shows what is so.**  Whatever a client has heard of a run, all of it or a part,
in this order or another, once or more often: every message in its view is in the history of a
conversation of the user, with what the view shows of it, and no message is there twice; every
receipt in its view says of a time what the database says; and whoever is shown as typing is another
member. -/
theorem live_view_true (hrun : emits (perform st) .initial as = some (s, sent)) (v : UUID)
    {inputs : List Input} (hinputs : ∀ input ∈ inputs, Heard st as sent v input) :
    Correct s.store v (inputs.foldl LiveView.apply .initial) :=
  Correct.initial.foldl (Realtime.Dispatch.truthful_of_run hrun).1.not_deleted
    fun input hinput ↦ fits_of_heard hrun (hinputs input hinput)

/-- A message over a socket, and one by a request. -/
def spoken : List Action :=
  [.transaction (.register ⟨1, "one", none⟩), .transaction (.register ⟨2, "two", none⟩),
    .transaction (.request ⟨5, fun _ ↦ 10, true⟩ 1 (.createDirect 2)),
    .dispatch Realtime.Dispatch.calm 1 ⟨none, .messageSend 10 "hello" []⟩,
    .transaction (.request ⟨8, fun n ↦ if n = 0 then 20 else 21, true⟩ 2 (.createMessage 10 "good day" []))]

/-- The event of the first message comes twice. -/
theorem live_view_true_spoken : ∃ s sent x, emits (perform Services.plain) .initial spoken =
    some (s, sent) ∧ x ∈ sent ∧
      Correct s.store 2 ([.event x.event, .event x.event].foldl LiveView.apply .initial) := by
  obtain ⟨s, sent, x, rest, hrun, rfl, hx⟩ : ∃ s sent x rest,
      emits (perform Services.plain) .initial spoken = some (s, sent) ∧ sent = x :: rest ∧
        2 ∈ x.targets := ⟨_, _, _, _, rfl, rfl, by decide +kernel⟩
  refine ⟨s, _, x, hrun, List.mem_cons_self, live_view_true hrun 2 fun input hinput ↦ ?_⟩
  have hevent : Heard Services.plain spoken (x :: rest) 2 (.event x.event) :=
    ⟨x, List.mem_cons_self, hx, rfl⟩
  rcases List.mem_cons.mp hinput with rfl | hinput
  · exact hevent
  · obtain rfl := List.mem_singleton.mp hinput
    exact hevent

/-! ## Nothing is missing -/

/-- The messages of a conversation, in the order in which they have come to the database. -/
def arrivals (store : Services.Store) (c : UUID) : List UUID :=
  ((store.messages.rows.filter fun message ↦ message.conversationId = c).map
    Messages.Message.id).reverse

/-- The message has been created by a request of its own, not by an event of a socket. -/
def Posted (as : List Action) (id : UUID) : Prop :=
  ∃ env u c content ids, env.draw 0 = id ∧
    .transaction (.request env u (.createMessage c content ids)) ∈ as

/-- A client that is sent an event handles it. -/
def receive (v : UUID) (view : ChatState) (x : Sent) : ChatState :=
  if v ∈ x.targets then view.handleEvent x.event else view

theorem mem_arrivals : id ∈ arrivals store c ↔
    ∃ message ∈ store.messages.rows, message.conversationId = c ∧ message.id = id := by
  unfold arrivals
  rw [List.mem_reverse, List.mem_map]
  refine exists_congr fun message ↦ ?_
  rw [List.mem_filter, decide_eq_true_eq, and_assoc]

theorem arrivals_cons {store' : Services.Store} {message : Messages.Message}
    (h : store'.messages.rows = message :: store.messages.rows) : arrivals store' c =
      if message.conversationId = c then arrivals store c ++ [message.id] else arrivals store c := by
  unfold arrivals
  rw [h, List.filter_cons]
  split
  · next hc => rw [if_pos (of_decide_eq_true hc), List.map_cons, List.reverse_cons]
  · next hc => rw [if_neg fun e ↦ hc (decide_eq_true e)]

/-- The identifiers of the messages that a view has of a conversation. -/
def ChatState.ids (view : ChatState) (c : UUID) : List UUID :=
  (view.realtimeMessages c).map MessageResponse.id

/-- A message that is new to the view goes to the end. -/
theorem ids_addRealtimeMessage (h : message.id ∉ view.ids message.conversationId) :
    (view.addRealtimeMessage message).ids c =
      if message.conversationId = c then view.ids c ++ [message.id] else view.ids c := by
  have hnew : ¬ ∃ item ∈ view.realtimeMessages message.conversationId, item.id = message.id :=
    fun hitem ↦ h (List.mem_map.mpr hitem)
  unfold ChatState.addRealtimeMessage ChatState.ids
  rw [if_neg hnew]
  dsimp only
  rw [Function.update_apply]
  by_cases hc : message.conversationId = c
  · subst hc
    rw [if_pos rfl, if_pos rfl, List.map_append, List.map_singleton]
  · rw [if_neg (Ne.symm hc), if_neg hc]

/-- Another event leaves the messages as they are. -/
theorem ids_receive {x : Sent} (h : x.Other) : (receive v view x).ids c = view.ids c := by
  unfold receive
  split
  · obtain ⟨targets, event⟩ := x
    cases event with
    | messageCreated requestId data => exact absurd rfl (h requestId data)
    | typing event => cases event <;> rfl
    | messageDelivered data | messageRead requestId data | error requestId code message => rfl
  · rfl

theorem ids_foldl_receive {out : List Sent} (h : ∀ x ∈ out, x.Other) :
    (out.foldl (receive v) view).ids c = view.ids c := by
  induction out generalizing view with
  | nil => rfl
  | cons x out ih =>
      obtain ⟨hx, hout⟩ := List.forall_mem_cons.mp h
      rw [List.foldl_cons, ih hout, ids_receive hx]

theorem foldl_sendToUsers {userIds : List UUID} {event : ServerEvent} :
    (Realtime.Dispatch.sendToUsers userIds event).foldl (receive v) view =
      if v ∈ userIds then view.handleEvent event else view := by
  unfold Realtime.Dispatch.sendToUsers
  dsimp only
  by_cases hv : v ∈ userIds
  · have hmem : v ∈ userIds.eraseDups := List.mem_eraseDups.mpr hv
    rw [if_neg (List.ne_nil_of_mem hmem), if_pos hv]
    exact if_pos hmem
  · have hmem : v ∉ userIds.eraseDups := fun h ↦ hv (List.mem_eraseDups.mp h)
    rw [if_neg hv]
    split
    · rfl
    · exact if_neg hmem

/-- A view that has kept up with the database. -/
structure Current (as : List Action) (v : UUID) (store : Services.Store) (view : ChatState) :
    Prop where
  order : ∀ c, (view.ids c).Sublist (arrivals store c)
  complete : ∀ c, v ∈ store.memberIds c → ∀ id ∈ arrivals store c, id ∈ view.ids c ∨ Posted as id

theorem Current.initial : Current as v .initial .initial where
  order _ := List.Sublist.refl []
  complete _ hv := absurd hv List.not_mem_nil

/-- Nothing new. -/
theorem Current.unannounced (h : Current as v s.store view) {out : List Sent}
    (hmember : ∀ c id, v ∈ t.store.memberIds c → id ∈ arrivals s.store c → v ∈ s.store.memberIds c)
    (hout : Realtime.Dispatch.Unannounced s t out) :
    Current as v t.store (out.foldl (receive v) view) := by
  obtain ⟨hmessages, hother⟩ := hout
  have hsame : ∀ c, arrivals t.store c = arrivals s.store c := fun c ↦ by
    rw [arrivals, arrivals, hmessages]
  refine ⟨fun c ↦ ?_, fun c hv id hmem ↦ ?_⟩
  · rw [ids_foldl_receive hother, hsame]
    exact h.order c
  · rw [hsame] at hmem
    rw [ids_foldl_receive hother]
    exact h.complete c (hmember c id hv hmem) id hmem

/-- A message that a request has created. -/
theorem Current.quiet (h : Current as v s.store view) {a : Action} (ha : a ∈ as) {out : List Sent}
    (hmember : ∀ c id, v ∈ t.store.memberIds c → id ∈ arrivals s.store c → v ∈ s.store.memberIds c)
    (hout : Realtime.Dispatch.Quiet s t a out) :
    Current as v t.store (out.foldl (receive v) view) := by
  obtain ⟨rfl, message, env, u, c, content, ids, hrows, hid, rfl⟩ := hout
  refine ⟨fun c' ↦ ?_, fun c' hv id hmem ↦ ?_⟩
  · rw [List.foldl_nil, arrivals_cons hrows]
    split
    · exact (h.order c').trans (List.sublist_append_left _ _)
    · exact h.order c'
  · rw [arrivals_cons hrows] at hmem
    split at hmem
    · rcases List.mem_append.mp hmem with hmem | hmem
      · exact h.complete c' (hmember c' id hv hmem) id hmem
      · obtain rfl := List.mem_singleton.mp hmem
        exact .inr ⟨env, u, c, content, ids, hid, ha⟩
    · exact h.complete c' (hmember c' id hv hmem) id hmem

/-- A message that the members are told of. -/
theorem Current.announced (h : Current as v s.store view) {out : List Sent}
    (hmember : ∀ c id, v ∈ t.store.memberIds c → id ∈ arrivals s.store c → v ∈ s.store.memberIds c)
    (hout : Realtime.Dispatch.Announced s t out) :
    Current as v t.store (out.foldl (receive v) view) := by
  obtain ⟨message, requestId, response, rest, hrows, hfresh, hid, hconversation, rfl, hrest⟩ := hout
  have hnew : response.id ∉ view.ids response.conversationId := fun hmem ↦ by
    obtain ⟨other, hother, -, e⟩ := mem_arrivals.mp ((h.order _).subset hmem)
    exact hfresh other hother (hid.symm.trans e.symm)
  rw [List.foldl_append, foldl_sendToUsers]
  refine ⟨fun c ↦ ?_, fun c hv id hmem ↦ ?_⟩
  all_goals rw [ids_foldl_receive hrest]
  · rw [arrivals_cons hrows]
    split
    · change List.Sublist ((view.addRealtimeMessage response).ids c) _
      rw [ids_addRealtimeMessage hnew, hconversation, hid]
      split
      · exact (h.order c).append (.refl _)
      · exact h.order c
    · split
      · exact (h.order c).trans (List.sublist_append_left _ _)
      · exact h.order c
  · rw [arrivals_cons hrows] at hmem
    split at hmem
    · next hc =>
        subst hc
        rw [if_pos hv]
        change id ∈ (view.addRealtimeMessage response).ids _ ∨ _
        rw [ids_addRealtimeMessage hnew, if_pos hconversation, hid]
        rcases List.mem_append.mp hmem with hmem | hmem
        · exact (h.complete _ (hmember _ id hv hmem) id hmem).imp_left (List.mem_append_left _)
        · exact .inl (List.mem_append_right _ hmem)
    · next hc =>
        have hsame : (if v ∈ t.store.memberIds message.conversationId then
            view.addRealtimeMessage response else view).ids c = view.ids c := by
          split
          · rw [ids_addRealtimeMessage hnew, hconversation, if_neg hc]
          · rfl
        exact hsame ▸ h.complete c (hmember c id hv hmem) id hmem

/-- One step, and what it sends. -/
theorem Current.perform (h : Current as v s.store view) (hinv : Services.Inv s.store)
    (hlasts : Services.Lasts s.store t.store) {a : Action} {out : List Sent} (ha : a ∈ as)
    (ht : perform st s a = some (t, out)) : Current as v t.store (out.foldl (receive v) view) := by
  have hmember : ∀ c id, v ∈ t.store.memberIds c → id ∈ arrivals s.store c →
      v ∈ s.store.memberIds c := by
    intro c id hv hid
    obtain ⟨message, hmessage, rfl, -⟩ := mem_arrivals.mp hid
    rwa [← hlasts.memberIds _ (hinv.messageOf message hmessage)]
  rcases Realtime.Dispatch.messages_of_perform ht with hout | hout | hout
  · exact h.announced hmember hout
  · exact h.unannounced hmember hout
  · exact h.quiet ha hmember hout

/-- **The live view misses nothing that is announced.**  Events are handled one at a time, and no
fault comes behind a commit.  A client that is sent all that concerns it, in order, has in the view
of every conversation messages of that conversation, in the order in which they have come to the
database; and it has all of them, but for those that have been created by requests, which are not
announced. -/
theorem live_view_complete (hrun : emits (perform st) .initial as = some (s, sent)) (v : UUID) :
    Current as v s.store (((sent.filter fun x ↦ v ∈ x.targets).map Sent.event).foldl
      ChatState.handleEvent .initial) := by
  have hfold : ((sent.filter fun x ↦ v ∈ x.targets).map Sent.event).foldl
      ChatState.handleEvent .initial = sent.foldl (receive v) .initial := by
    rw [List.foldl_map, List.foldl_filter]
    refine List.foldl_ext _ _ _ fun view x _ ↦ ?_
    unfold receive
    simp only [decide_eq_true_eq]
  rw [hfold]
  have hall : Services.Reachable st s.store ∧
      Current as v s.store (sent.foldl (receive v) .initial) := by
    refine emits_simulation (R := fun s view ↦ Services.Reachable st s.store ∧
      Current as v s.store view) (fun {s a t out view} ha h ht ↦ ?_) ⟨⟨[], rfl⟩, .initial⟩ hrun
    obtain ⟨bs, hbs⟩ := Realtime.Dispatch.store_of_perform ht
    exact ⟨h.1.run hbs, h.2.perform h.1.inv (.run h.1 hbs) ha ht⟩
  exact hall.2

/-- Of two messages the view has the one that has been sent over a socket. -/
theorem live_view_complete_spoken : ∃ s sent view,
    emits (perform Services.plain) .initial spoken = some (s, sent) ∧
      Current spoken 2 s.store view ∧ arrivals s.store 10 = [99, 20] ∧ view.ids 10 = [99] := by
  obtain ⟨s, sent, hrun, harrivals, hids⟩ : ∃ s sent,
      emits (perform Services.plain) .initial spoken = some (s, sent) ∧
        arrivals s.store 10 = [99, 20] ∧
          (((sent.filter fun x ↦ 2 ∈ x.targets).map Sent.event).foldl
            ChatState.handleEvent .initial).ids 10 = [99] :=
    ⟨_, _, rfl, by decide +kernel, by decide +kernel⟩
  exact ⟨s, sent, _, hrun, live_view_complete hrun 2, harrivals, hids⟩

end Chatterbox.Client.LiveView
