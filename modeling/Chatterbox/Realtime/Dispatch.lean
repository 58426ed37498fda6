import Chatterbox.Services.Invariant
import Chatterbox.Typing.Indicator

/-!
# Dispatching the events of clients

`dispatch_event` hands an event of a client to a service, and what comes of it to
the users concerned.  Each kind of event asks in a place of its own whether the
user is a member of the conversation:

| event | where | then sent to the members |
|---|---|---|
| `message.send` | `MessageService.create` | `message.created`, `message.delivered` |
| `message.read` | `ReceiptService.mark_read` | `message.read` |
| `typing.start`, `typing.stop` | `handle_typing` | the same, and `typing.stop` at the deadline |

What is sent later, when a deadline passes, waits in Redis, or in the
`TypingTracker` of the instance when Redis does not take it.

`events_respect_membership` is about every state that dispatched events, passing
deadlines and other transactions lead to.
-/

namespace Chatterbox.Realtime.Dispatch

open Services (Env Settings Failure MessageResponse ReceiptEventData createMessage markRead
  markDelivered)
open Typing (TypingEvent TypingEventData Envelope Member typingMember startPipeline stopPipeline
  sweepScript)

/-! ## Events -/

/-- An event of a client, validated. -/
inductive ClientEvent where
  | messageSend (conversationId : UUID) (content : String) (attachmentIds : List UUID)
  | messageRead (conversationId messageId : UUID)
  | typingStart (conversationId : UUID)
  | typingStop (conversationId : UUID)
deriving DecidableEq, Repr

/-- A payload that validates, with its `request_id` if that is a string. -/
structure Payload where
  requestId : Option String
  event : ClientEvent
deriving DecidableEq, Repr

/-- The conversation that an event names. -/
def ClientEvent.conversationId : ClientEvent → UUID
  | .messageSend conversationId .. | .messageRead conversationId _
  | .typingStart conversationId | .typingStop conversationId => conversationId

/-- An event for clients. -/
inductive ServerEvent where
  | messageCreated (requestId : Option String) (data : MessageResponse)
  | messageDelivered (data : ReceiptEventData)
  | messageRead (requestId : Option String) (data : ReceiptEventData)
  | typing (event : TypingEvent)
  | error (requestId : Option String) (code message : String)
deriving DecidableEq, Repr

/-- The conversation that an event is about. -/
def ServerEvent.conversationId : ServerEvent → Option UUID
  | .messageCreated _ data => some data.conversationId
  | .messageDelivered data | .messageRead _ data => some data.conversationId
  | .typing event => some event.data.conversationId
  | .error .. => none

/-- An event that is sent, and to whom. -/
structure Sent where
  targets : List UUID
  event : ServerEvent
deriving DecidableEq, Repr

/-- `ConnectionManager.send_to_users`. -/
def sendToUsers (userIds : List UUID) (event : ServerEvent) : List Sent :=
  let targets := userIds.eraseDups
  if targets = [] then [] else [⟨targets, event⟩]

/-! ## The state -/

/-- The database, the typing state in Redis, and the tasks of the `TypingTracker` of
every instance, with what each is to send. -/
structure State where
  store : Services.Store
  typing : Typing.Store Envelope
  tracker : ℕ → Member → Option Envelope

def State.initial : State := ⟨.initial, .empty, fun _ _ ↦ none⟩

/-- What is sent at a deadline. -/
def expirySent (envelope : Envelope) : Sent := ⟨envelope.targets, .typing envelope.event⟩

/-- Set or cancel a task of the `TypingTracker` of an instance. -/
def State.setTask (s : State) (instanceId : ℕ) (member : Member) (task : Option Envelope) :
    State :=
  { s with
    tracker := Function.update s.tracker instanceId
      (Function.update (s.tracker instanceId) member task) }

/-- What comes of a call to the typing commands of the backend. -/
inductive Backend where
  /-- There is no backend, or it is not available. -/
  | absent
  /-- It raises before the transaction. -/
  | failed
  /-- The transaction is performed; then the event is published, or not. -/
  | performed (published : Bool)
deriving DecidableEq, Repr

/-- What a dispatch finds in the world: the instance it runs on, the outcome of the
rate limit, the clock and the identifiers of its first transaction, the clock of
its second one, which of them fail, who is online, and what the backend does. -/
structure World where
  instanceId : ℕ
  allowed : Bool
  env : Env
  later : Instant
  fails : Bool
  failsLater : Bool
  online : UUID → Bool
  typingTtl : Instant
  backend : Backend

/-- What comes of handling an event. -/
structure Outcome where
  state : State
  sent : List Sent
  failure : Option Failure

/-! ## Handlers -/

/-- `handle_message_send`. -/
def handleMessageSend (st : Settings) (w : World) (s : State) (userId : UUID)
    (requestId : Option String) (conversationId : UUID) (content : String)
    (attachmentIds : List UUID) : Outcome :=
  if w.fails then ⟨s, [], some .other⟩
  else
    match createMessage st w.env s.store conversationId userId content attachmentIds with
    | .error e => ⟨s, [], some e⟩
    | .ok (message, store) =>
        let memberIds := store.memberIds conversationId
        let created := sendToUsers memberIds (.messageCreated requestId message)
        let onlineRecipientIds := (memberIds.filter (· ≠ userId)).filter w.online
        if onlineRecipientIds = [] then ⟨{ s with store }, created, none⟩
        else if w.failsLater then ⟨{ s with store }, created, some .other⟩
        else
          let (receipts, store) := markDelivered w.later store message.id onlineRecipientIds
          ⟨{ s with store }, created ++ receipts.flatMap fun receipt ↦
            sendToUsers memberIds (.messageDelivered receipt), none⟩

/-- `handle_message_read`. -/
def handleMessageRead (w : World) (s : State) (userId : UUID) (requestId : Option String)
    (conversationId messageId : UUID) : Outcome :=
  if w.fails then ⟨s, [], some .other⟩
  else
    match markRead w.env.now s.store conversationId messageId userId with
    | .error e => ⟨s, [], some e⟩
    | .ok (receipts, store) =>
        ⟨{ s with store }, receipts.flatMap fun receipt ↦
          sendToUsers (store.memberIds conversationId) (.messageRead requestId receipt), none⟩

/-- `ConnectionManager.typing_start`. -/
def typingStart (w : World) (s : State) (conversationId userId : UUID) (memberIds : List UUID) :
    Outcome :=
  let data : TypingEventData := ⟨conversationId, userId⟩
  let targets := memberIds.filter (· ≠ userId)
  let expiry : Envelope := ⟨targets, .stopped data⟩
  let fallback (s : State) : Outcome :=
    ⟨s.setTask w.instanceId data.member (some expiry),
      sendToUsers targets (.typing (.started data)), none⟩
  match w.backend with
  | .absent | .failed => fallback s
  | .performed published =>
      let s := { s with
        typing := startPipeline w.typingTtl w.env.now data.member expiry s.typing }
      if published then ⟨s, [⟨targets, .typing (.started data)⟩], none⟩ else fallback s

/-- `ConnectionManager.typing_stop`. -/
def typingStop (w : World) (s : State) (conversationId userId : UUID) (memberIds : List UUID) :
    Outcome :=
  let data : TypingEventData := ⟨conversationId, userId⟩
  let targets := memberIds.filter (· ≠ userId)
  let s := s.setTask w.instanceId data.member none
  match w.backend with
  | .absent | .failed => ⟨s, sendToUsers targets (.typing (.stopped data)), none⟩
  | .performed published =>
      let s := { s with typing := stopPipeline data.member s.typing }
      if published then ⟨s, [⟨targets, .typing (.stopped data)⟩], none⟩
      else ⟨s, sendToUsers targets (.typing (.stopped data)), none⟩

def conversationForbidden : AppError :=
  ⟨403, "CONVERSATION_FORBIDDEN", "You are not a conversation member"⟩

/-- `handle_typing`; `forward` is one of the two methods above. -/
def handleTyping (w : World) (s : State) (userId conversationId : UUID)
    (forward : World → State → UUID → UUID → List UUID → Outcome) : Outcome :=
  if w.fails then ⟨s, [], some .other⟩
  else if userId ∉ s.store.memberIds conversationId then
    ⟨s, [], some (.app conversationForbidden)⟩
  else forward w s conversationId userId (s.store.memberIds conversationId)

/-- The message of the `AppError` when the rate limit refuses an event. -/
def ClientEvent.rateLimited : ClientEvent → AppError
  | .messageSend .. => ⟨429, "RATE_LIMITED", "Too many messages; please slow down"⟩
  | .messageRead .. => ⟨429, "RATE_LIMITED", "Too many receipt updates"⟩
  | .typingStart _ | .typingStop _ => ⟨429, "RATE_LIMITED", "Too many typing updates"⟩

/-- The body of the `try` of `dispatch_event`, for an event that has validated. -/
def handle (st : Settings) (w : World) (s : State) (userId : UUID) (payload : Payload) : Outcome :=
  if ¬ w.allowed then ⟨s, [], some (.app payload.event.rateLimited)⟩
  else
    match payload.event with
    | .messageSend conversationId content attachmentIds =>
        handleMessageSend st w s userId payload.requestId conversationId content attachmentIds
    | .messageRead conversationId messageId =>
        handleMessageRead w s userId payload.requestId conversationId messageId
    | .typingStart conversationId => handleTyping w s userId conversationId typingStart
    | .typingStop conversationId => handleTyping w s userId conversationId typingStop

/-- The `error` event for a failure. -/
def errorEvent (requestId : Option String) : Failure → ServerEvent
  | .app e => .error requestId e.code e.message
  | .other => .error requestId "INTERNAL_ERROR" "Event could not be processed"

/-- `dispatch_event`. -/
def dispatchEvent (st : Settings) (w : World) (s : State) (userId : UUID) (payload : Payload) :
    Outcome :=
  let outcome := handle st w s userId payload
  match outcome.failure with
  | none => outcome
  | some failure =>
      { outcome with
        sent := outcome.sent ++ sendToUsers [userId] (errorEvent payload.requestId failure) }

/-! ## Steps -/

/-- What happens to the state. -/
inductive Action where
  | dispatch (w : World) (userId : UUID) (payload : Payload)
  /-- `_sweep_typing`. -/
  | sweep (now : Instant)
  /-- A task of a `TypingTracker` comes to its end. -/
  | expire (instanceId : ℕ) (member : Member)
  /-- Any other transaction. -/
  | transaction (a : Services.Action)

/-- One step: the state it leads to, and what is sent. -/
def perform (st : Settings) (s : State) : Action → Option (State × List Sent)
  | .dispatch w userId payload =>
      let outcome := dispatchEvent st w s userId payload
      some (outcome.state, outcome.sent)
  | .sweep now =>
      let (expired, typing) := sweepScript now s.typing
      some ({ s with typing }, expired.map expirySent)
  | .expire instanceId member =>
      (s.tracker instanceId member).map fun envelope ↦
        (s.setTask instanceId member none, sendToUsers envelope.targets (.typing envelope.event))
  | .transaction a => (Services.step st s.store a).map fun store ↦ ({ s with store }, [])

/-- One step, without what it sends. -/
def step (st : Settings) (s : State) (a : Action) : Option State := (perform st s a).map Prod.fst

variable {st : Settings} {w : World} {s t : State} {store store' : Services.Store} {c u : UUID}
  {x : Sent} {payload : Payload}

/-! ## Events of others are refused -/

/-- The user is a member of the conversation. -/
def Participates (store : Services.Store) (c u : UUID) : Prop :=
  store.Exists c ∧ u ∈ store.memberIds c

theorem authorize_nonmember (h : ¬ Participates store c u) :
    ∃ e, Services.authorize store c u = .error e := by
  cases hauth : Services.authorize store c u with
  | error e => exact ⟨e, rfl⟩
  | ok users =>
      obtain ⟨hc, rfl, hu⟩ := Services.authorize_eq_ok.mp hauth
      exact absurd ⟨hc, hu⟩ h

theorem handleMessageSend_nonmember (h : ¬ Participates s.store c u) (requestId : Option String)
    (content : String) (ids : List UUID) :
    ∃ failure, handleMessageSend st w s u requestId c content ids = ⟨s, [], some failure⟩ := by
  obtain ⟨e, he⟩ := authorize_nonmember h
  unfold handleMessageSend
  split
  · exact ⟨.other, rfl⟩
  · rw [createMessage, he]
    exact ⟨e, rfl⟩

theorem handleMessageRead_nonmember (h : ¬ Participates s.store c u) (requestId : Option String)
    (id : UUID) : ∃ failure, handleMessageRead w s u requestId c id = ⟨s, [], some failure⟩ := by
  obtain ⟨e, he⟩ := authorize_nonmember h
  unfold handleMessageRead
  split
  · exact ⟨.other, rfl⟩
  · rw [markRead, he]
    exact ⟨e, rfl⟩

theorem handleTyping_nonmember (hinv : Services.Inv s.store) (h : ¬ Participates s.store c u)
    (forward : World → State → UUID → UUID → List UUID → Outcome) :
    ∃ failure, handleTyping w s u c forward = ⟨s, [], some failure⟩ := by
  unfold handleTyping
  split
  · exact ⟨.other, rfl⟩
  · split
    · exact ⟨_, rfl⟩
    · rename_i hu
      exact absurd ⟨hinv.exists_of_mem (not_not.mp hu), not_not.mp hu⟩ h

/-- The handlers refuse, one way or another, before they do anything. -/
theorem handle_nonmember (hinv : Services.Inv s.store)
    (h : ¬ Participates s.store payload.event.conversationId u) :
    ∃ failure, handle st w s u payload = ⟨s, [], some failure⟩ := by
  obtain ⟨requestId, event⟩ := payload
  unfold handle
  split
  · exact ⟨_, rfl⟩
  · cases event with
    | messageSend conversationId content attachmentIds =>
        exact handleMessageSend_nonmember h requestId content attachmentIds
    | messageRead conversationId messageId =>
        exact handleMessageRead_nonmember h requestId messageId
    | typingStart conversationId => exact handleTyping_nonmember hinv h typingStart
    | typingStop conversationId => exact handleTyping_nonmember hinv h typingStop

/-- An event about a conversation of others changes nothing, and is answered with one
`error` event to its sender. -/
theorem dispatchEvent_nonmember (hinv : Services.Inv s.store)
    (h : ¬ Participates s.store payload.event.conversationId u) :
    ∃ failure, dispatchEvent st w s u payload =
      ⟨s, [⟨[u], errorEvent payload.requestId failure⟩], some failure⟩ := by
  obtain ⟨failure, hhandle⟩ : ∃ failure, handle st w s u payload = ⟨s, [], some failure⟩ :=
    handle_nonmember hinv h
  refine ⟨failure, ?_⟩
  unfold dispatchEvent
  rw [hhandle]
  rfl

/-! ## Events are addressed to members -/

/-- All targets are members of the conversation that the event is about. -/
def Addressed (store : Services.Store) (x : Sent) : Prop :=
  ∀ c, x.event.conversationId = some c → ∀ v ∈ x.targets, v ∈ store.memberIds c

/-- What waits for a deadline is addressed to members. -/
structure Inv (s : State) : Prop where
  store : Services.Inv s.store
  typing : ∀ m envelope, s.typing.data m = some envelope → Addressed s.store (expirySent envelope)
  tracker : ∀ i m envelope, s.tracker i m = some envelope →
    Addressed s.store (expirySent envelope)

theorem Inv.initial : Inv .initial where
  store := .initial
  typing := nofun
  tracker := nofun

/-- The members of the conversations that there are stay. -/
def Kept (store store' : Services.Store) : Prop :=
  ∀ c, store.Exists c → store'.memberIds c = store.memberIds c

theorem Addressed.mono (hinv : Services.Inv store) (hkept : Kept store store')
    (h : Addressed store x) : Addressed store' x := by
  intro c hc v hv
  have hmem := h c hc v hv
  rwa [hkept c (hinv.exists_of_mem hmem)]

/-- Another transaction. -/
theorem Inv.transaction (h : Inv s) (hstore : Services.Inv store) (hkept : Kept s.store store) :
    Inv { s with store } where
  store := hstore
  typing m envelope hm := (h.typing m envelope hm).mono h.store hkept
  tracker i m envelope hm := (h.tracker i m envelope hm).mono h.store hkept

theorem addressed_of_subset (hc : x.event.conversationId = some c)
    (h : ∀ v ∈ x.targets, v ∈ store.memberIds c) : Addressed store x := by
  intro d hd
  obtain rfl : c = d := Option.some.inj (hc.symm.trans hd)
  exact h

theorem addressed_sendToUsers {userIds : List UUID} {event : ServerEvent}
    (hx : x ∈ sendToUsers userIds event) (hc : event.conversationId = some c)
    (h : ∀ v ∈ userIds, v ∈ store.memberIds c) : Addressed store x := by
  unfold sendToUsers at hx
  dsimp only at hx
  split at hx
  · exact absurd hx List.not_mem_nil
  · obtain rfl := List.mem_singleton.mp hx
    exact addressed_of_subset hc fun v hv ↦ h v (List.mem_eraseDups.mp hv)

/-- The outcome keeps the invariant, and what is sent is addressed to members. -/
def Outcome.Sound (o : Outcome) : Prop := Inv o.state ∧ ∀ x ∈ o.sent, Addressed o.state.store x

theorem Outcome.Sound.refused (h : Inv s) (failure : Option Failure) :
    Outcome.Sound ⟨s, [], failure⟩ :=
  ⟨h, fun _ hx ↦ absurd hx List.not_mem_nil⟩

/-- What an operation on receipts returns is about messages that it selects. -/
theorem conversationId_of_mark {op : Receipts.Operation} {now : Instant}
    (h : ∀ p ∈ op.select store.messages.rows store.receipts, p.2.conversationId = c)
    {p : Receipts.MessageReceipt × Messages.Message}
    (hp : p ∈ (Services.mark op now store).1) : (Services.toEvent p).conversationId = c := by
  unfold Services.mark at hp
  obtain ⟨q, hsel, rfl⟩ := List.mem_map.mp hp
  exact h q hsel

theorem handleMessageSend_sound (h : Inv s) (requestId : Option String) (content : String)
    (ids : List UUID) : (handleMessageSend st w s u requestId c content ids).Sound := by
  unfold handleMessageSend
  split
  · exact .refused h _
  split
  · exact .refused h _
  rename_i response t hcreate
  have hinv : Services.Inv t := h.store.move (.of_createMessage hcreate)
  obtain ⟨memberIds, ordered, messages, -, -, hinsert, -, rfl, rfl⟩ :=
    Services.createMessage_eq_ok hcreate
  set message : Messages.Message := ⟨w.env.draw 0, c, u, st.text.strip content, w.env.now, none⟩
  set t := Services.addMessage w.env s.store message messages (memberIds.filter (· ≠ u)) ids
    with htdef
  have ht : Inv { s with store := t } := h.transaction hinv fun _ _ ↦ rfl
  dsimp only
  split
  · exact ⟨ht, fun x hx ↦ addressed_sendToUsers hx rfl fun _ hv ↦ hv⟩
  split
  · exact ⟨ht, fun x hx ↦ addressed_sendToUsers hx rfl fun _ hv ↦ hv⟩
  refine ⟨ht.transaction (hinv.mark _ _) fun _ _ ↦ rfl, fun x hx ↦ ?_⟩
  rcases List.mem_append.mp hx with hx | hx
  · exact addressed_sendToUsers hx rfl fun _ hv ↦ hv
  · obtain ⟨event, hevent, hx⟩ := List.mem_flatMap.mp hx
    obtain ⟨p, hp, rfl⟩ := List.mem_map.mp hevent
    have hconv : (Services.toEvent p).conversationId = c := by
      refine conversationId_of_mark (fun ⟨receipt, other⟩ hsel ↦ ?_) hp
      -- The receipts are those of the new message, so the message they are joined with is it.
      obtain ⟨hjoined, hop⟩ := Receipts.mem_select.mp hsel
      obtain ⟨-, hfind⟩ := Receipts.mem_joined.mp hjoined
      obtain ⟨hother, hid⟩ := (Services.find?_key t.messages.unique).mp hfind
      have hmessage : message ∈ t.messages.rows := by
        rw [htdef, Services.addMessage, Messages.MessageTable.rows_insert hinsert]
        exact List.mem_cons_self
      rw [t.messages.eq_of_id hother hmessage (hid.trans (of_decide_eq_true hop).1)]
    exact addressed_sendToUsers hx (congrArg some hconv) fun _ hv ↦ hv

theorem handleMessageRead_sound (h : Inv s) (requestId : Option String) (id : UUID) :
    (handleMessageRead w s u requestId c id).Sound := by
  unfold handleMessageRead
  split
  · exact .refused h _
  split
  · exact .refused h _
  rename_i receipts t hread
  obtain ⟨target, -, -, -, rfl, rfl⟩ := Services.markRead_eq_ok hread
  refine ⟨h.transaction (h.store.mark _ _) fun _ _ ↦ rfl, fun x hx ↦ ?_⟩
  obtain ⟨event, hevent, hx⟩ := List.mem_flatMap.mp hx
  obtain ⟨p, hp, rfl⟩ := List.mem_map.mp hevent
  have hconv : (Services.toEvent p).conversationId = c := by
    refine conversationId_of_mark (fun q hsel ↦ ?_) (List.mem_mergeSort.mp hp)
    exact (of_decide_eq_true (List.mem_filter.mp hsel).2).1
  exact addressed_sendToUsers hx (congrArg some hconv) fun _ hv ↦ hv

/-- A task with targets that are members. -/
theorem Inv.setTask (h : Inv s) (i : ℕ) (m : Member) {task : Option Envelope}
    (htask : ∀ envelope, task = some envelope → Addressed s.store (expirySent envelope)) :
    Inv (s.setTask i m task) where
  store := h.store
  typing := h.typing
  tracker j m' envelope hm := by
    unfold State.setTask at hm
    dsimp only at hm
    rw [Function.update_apply] at hm
    split at hm
    · rw [Function.update_apply] at hm
      split at hm
      · exact htask envelope hm
      · exact h.tracker i m' envelope hm
    · exact h.tracker j m' envelope hm

/-- Data of the typing commands that is addressed to members. -/
theorem Inv.typing_update (h : Inv s) {typing : Typing.Store Envelope}
    (htyping : ∀ m envelope, typing.data m = some envelope →
      s.typing.data m = some envelope ∨ Addressed s.store (expirySent envelope)) :
    Inv { s with typing } where
  store := h.store
  typing m envelope hm := (htyping m envelope hm).elim (h.typing m envelope) fun hadd ↦ hadd
  tracker := h.tracker

theorem addressed_others {event : TypingEvent} (hc : event.data.conversationId = c) :
    Addressed store ⟨(store.memberIds c).filter (· ≠ u), .typing event⟩ :=
  addressed_of_subset (congrArg some hc) fun _ hv ↦ List.mem_of_mem_filter hv

/-- A typing event is sent to the other members. -/
theorem Outcome.Sound.sends (h : Inv t) {event : TypingEvent}
    (hc : event.data.conversationId = c) : Outcome.Sound
      ⟨t, sendToUsers ((t.store.memberIds c).filter (· ≠ u)) (.typing event), none⟩ :=
  ⟨h, fun _ hx ↦ addressed_sendToUsers hx (congrArg some hc) fun _ hv ↦ List.mem_of_mem_filter hv⟩

theorem Outcome.Sound.publishes (h : Inv t) {event : TypingEvent}
    (hc : event.data.conversationId = c) : Outcome.Sound
      ⟨t, [⟨(t.store.memberIds c).filter (· ≠ u), .typing event⟩], none⟩ := by
  refine ⟨h, fun x hx ↦ ?_⟩
  obtain rfl := List.mem_singleton.mp hx
  exact addressed_others hc

theorem typingStart_sound (h : Inv s) : (typingStart w s c u (s.store.memberIds c)).Sound := by
  set expiry : Envelope := ⟨(s.store.memberIds c).filter (· ≠ u), .stopped ⟨c, u⟩⟩ with hexpiry
  have hadd : Addressed s.store (expirySent expiry) := addressed_others rfl
  have htask : ∀ envelope, some expiry = some envelope →
      Addressed s.store (expirySent envelope) := by
    rintro _ ⟨⟩
    exact hadd
  have harmed : Inv { s with
      typing := startPipeline w.typingTtl w.env.now (TypingEventData.mk c u).member expiry
        s.typing } := by
    refine h.typing_update fun m envelope hm ↦ ?_
    rw [Typing.data_startPipeline] at hm
    split at hm
    · exact .inr (htask envelope hm)
    · exact .inl hm
  unfold typingStart
  dsimp only
  split
  · exact .sends (h.setTask _ _ htask) rfl
  · exact .sends (h.setTask _ _ htask) rfl
  · split
    · exact .publishes harmed rfl
    · exact .sends (harmed.setTask _ _ htask) rfl

theorem typingStop_sound (h : Inv s) : (typingStop w s c u (s.store.memberIds c)).Sound := by
  have hstopped : Inv (s.setTask w.instanceId (TypingEventData.mk c u).member none) :=
    h.setTask _ _ nofun
  have hcleared : Inv { s.setTask w.instanceId (TypingEventData.mk c u).member none with
      typing := stopPipeline (TypingEventData.mk c u).member s.typing } := by
    refine hstopped.typing_update fun m envelope hm ↦ ?_
    rw [Typing.data_stopPipeline] at hm
    split at hm
    · cases hm
    · exact .inl hm
  unfold typingStop
  dsimp only
  split
  · exact .sends hstopped rfl
  · exact .sends hstopped rfl
  · split
    · exact .publishes hcleared rfl
    · exact .sends hcleared rfl

theorem handleTyping_sound (h : Inv s) {forward : World → State → UUID → UUID → List UUID → Outcome}
    (hforward : (forward w s c u (s.store.memberIds c)).Sound) :
    (handleTyping w s u c forward).Sound := by
  unfold handleTyping
  split
  · exact .refused h _
  · split
    · exact .refused h _
    · exact hforward

theorem dispatchEvent_sound (h : Inv s) : (dispatchEvent st w s u payload).Sound := by
  have hhandle : (handle st w s u payload).Sound := by
    unfold handle
    split
    · exact .refused h _
    · split
      · exact handleMessageSend_sound h ..
      · exact handleMessageRead_sound h ..
      · exact handleTyping_sound h (typingStart_sound h)
      · exact handleTyping_sound h (typingStop_sound h)
  unfold dispatchEvent
  dsimp only
  split
  · exact hhandle
  · rename_i failure _
    refine ⟨hhandle.1, fun x hx ↦ ?_⟩
    rcases List.mem_append.mp hx with hx | hx
    · exact hhandle.2 x hx
    · obtain rfl := List.mem_singleton.mp hx
      intro c hc
      cases failure <;> cases hc

/-- One step keeps the invariant, and what it sends is addressed to members. -/
theorem Inv.perform (h : Inv s) {a : Action} {sent : List Sent}
    (ht : perform st s a = some (t, sent)) : Inv t ∧ ∀ x ∈ sent, Addressed t.store x := by
  cases a with
  | dispatch w userId payload =>
      cases ht
      exact dispatchEvent_sound h
  | sweep now =>
      cases ht
      refine ⟨h.typing_update fun m envelope hm ↦ .inl (Typing.data_of_claim hm), fun x hx ↦ ?_⟩
      obtain ⟨envelope, henvelope, rfl⟩ := List.mem_map.mp hx
      change envelope ∈ (sweepScript now s.typing).1 at henvelope
      rw [Typing.sweepScript_fst] at henvelope
      obtain ⟨m, -, hm⟩ := List.mem_filterMap.mp henvelope
      exact h.typing m envelope hm
  | expire instanceId member =>
      obtain ⟨envelope, htask, hpair⟩ := Option.map_eq_some_iff.mp ht
      cases hpair
      refine ⟨h.setTask _ _ nofun, fun x hx ↦ addressed_sendToUsers hx rfl ?_⟩
      exact h.tracker instanceId member envelope htask _ rfl
  | transaction a =>
      obtain ⟨store, hstep, hpair⟩ := Option.map_eq_some_iff.mp ht
      cases hpair
      refine ⟨h.transaction (h.store.step hstep) fun c hc ↦ ?_, nofun⟩
      exact Services.memberIds_of_step hstep hc

/-- The invariant holds in every state that is reached. -/
theorem Inv.of_exec {as : List Action} (hrun : exec (step st) .initial as = some s) : Inv s := by
  refine exec_invariant (fun hs ht ↦ ?_) Inv.initial hrun
  obtain ⟨⟨t, sent⟩, hperform, rfl⟩ := Option.map_eq_some_iff.mp ht
  exact (hs.perform hperform).1

/-- **Events respect membership.**  In every state that is reached, an event about a
conversation that its sender is not a member of changes nothing, and is answered
with one `error` event to the sender; and every event that is sent about a
conversation, by a dispatch or at a deadline, is addressed to members of it. -/
theorem events_respect_membership {as : List Action}
    (hrun : exec (step st) .initial as = some s) :
    (∀ w u payload, ¬ Participates s.store payload.event.conversationId u →
      ∃ failure, dispatchEvent st w s u payload =
        ⟨s, [⟨[u], errorEvent payload.requestId failure⟩], some failure⟩) ∧
    ∀ a t sent, perform st s a = some (t, sent) → ∀ x ∈ sent, ∀ c,
      x.event.conversationId = some c → ∀ v ∈ x.targets, Participates t.store c v := by
  have hinv := Inv.of_exec hrun
  refine ⟨fun w u payload hu ↦ dispatchEvent_nonmember hinv.store hu, ?_⟩
  intro a t sent hperform x hx c hc v hv
  obtain ⟨ht, hadd⟩ := hinv.perform hperform
  have hmem := hadd x hx c hc v hv
  exact ⟨ht.store.exists_of_mem hmem, hmem⟩

/-- Redis takes everything, and everybody is online. -/
def calm : World :=
  ⟨0, true, ⟨6, fun _ ↦ 99, true⟩, 7, false, false, fun _ ↦ true, 5, .performed true⟩

/-- The first of three users is typing to the second. -/
def typed : List Action :=
  [.transaction (.register ⟨1, "one", none⟩), .transaction (.register ⟨2, "two", none⟩),
    .transaction (.register ⟨3, "three", none⟩),
    .transaction (.request ⟨5, fun _ ↦ 10, true⟩ 1 (.createDirect 2)),
    .dispatch calm 1 ⟨none, .typingStart 10⟩]

/-- The third cannot join in, and the expiry is addressed to a member. -/
theorem events_respect_membership_typed : ∃ s, exec (step Services.plain) .initial typed = some s ∧
    (∃ failure, dispatchEvent Services.plain calm s 3 ⟨none, .typingStop 10⟩ =
      ⟨s, [⟨[3], errorEvent none failure⟩], some failure⟩) ∧
    ∃ t, perform Services.plain s (.sweep 11) =
      some (t, [⟨[2], .typing (.stopped ⟨10, 1⟩)⟩]) ∧ Participates t.store 10 2 := by
  obtain ⟨s, hrun, hu, t, hsweep⟩ : ∃ s, exec (step Services.plain) .initial typed = some s ∧
      ¬ Participates s.store 10 3 ∧ ∃ t, perform Services.plain s (.sweep 11) =
        some (t, [⟨[2], .typing (.stopped ⟨10, 1⟩)⟩]) :=
    ⟨_, rfl, fun h ↦ absurd h.2 (by decide), _, rfl⟩
  obtain ⟨hrefused, hsent⟩ := events_respect_membership hrun
  refine ⟨s, hrun, hrefused calm 3 ⟨none, .typingStop 10⟩ hu, t, hsweep, ?_⟩
  exact hsent _ t _ hsweep _ List.mem_cons_self 10 rfl 2 List.mem_cons_self

end Chatterbox.Realtime.Dispatch
