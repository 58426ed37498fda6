import Chatterbox.Realtime.Dispatch
import Chatterbox.Realtime.Envelope

/-!
# The receive loop

`websocket_endpoint` receives one text frame after another.  What `json.loads` makes of a
frame is the payload of `dispatch_event`, and that may be any value.

| frame | what comes of it |
|---|---|
| no JSON | an `error` event `INVALID_JSON` |
| JSON that `loads` raises something else for | the session ends |
| an object whose `type` has no hash | the session ends |
| any other payload that does not validate | an `error` event `INVALID_EVENT` |
| an event | it is handled, as in `Dispatch` |

The third row is `raw_event_type in {..}`, which stands before the `try`.  `goes_on_iff` says
that the second and the third row are all that keeps a frame from being answered, whatever
the state, and `session_goes_on_iff` says it of a whole session.

What is sent reaches the user.  (The one thing that `send_json` can send to nobody is an
unpaired surrogate in a `request_id`.)
-/

namespace Chatterbox.Realtime.Endpoint

open Dispatch (World State Sent ClientEvent ServerEvent)
open Envelope (key)
open Json
open Services (Settings Failure)

variable {F : Type}

/-! ## `client_event_adapter` -/

/-- A field of type `str` with a `max_length`, which counts characters. -/
def textField (maxLength : ℕ) : Value F → Option Text
  | .str s => (chars s).filter fun t ↦ t.length ≤ maxLength
  | _ => none

/-- A field of type `UUID`; `parse` is how the validator reads one. -/
def uuidField (parse : Text → Option UUID) : Value F → Option UUID
  | .str s => (chars s).bind parse
  | _ => none

/-- The field `request_id` is one. -/
def requestIdField : Option (Value F) → Bool
  | none | some .null => true
  | some v => (textField 64 v).isSome

/-- The field `content`. -/
def contentField : Option (Value F) → Option Text
  | none => some []
  | some v => textField 4000 v

/-- The field `attachment_ids`. -/
def attachmentIdsField (parse : Text → Option UUID) : Option (Value F) → Option (List UUID)
  | none => some []
  | some (.array vs) => if vs.length ≤ 10 then vs.mapM (uuidField parse) else none
  | some _ => none

/-- `MessageSendEvent`, with `require_content_or_attachment`. -/
def messageSendEvent (strip : String → String) (parse : Text → Option UUID)
    (members : List (Str × Value F)) : Option ClientEvent :=
  if ¬ requestIdField (get (key "request_id") members) then none
  else do
    let conversationId ← (get (key "conversation_id") members).bind (uuidField parse)
    let content ← contentField (get (key "content") members)
    let attachmentIds ← attachmentIdsField parse (get (key "attachment_ids") members)
    let content := strip (String.ofList content)
    if content = "" ∧ attachmentIds = [] then none
    else if ¬ attachmentIds.Nodup then none
    else some (.messageSend conversationId content attachmentIds)

/-- `MessageReadRequest`. -/
def messageReadRequest (parse : Text → Option UUID) (members : List (Str × Value F)) :
    Option ClientEvent :=
  if ¬ requestIdField (get (key "request_id") members) then none
  else do
    let conversationId ← (get (key "conversation_id") members).bind (uuidField parse)
    let messageId ← (get (key "message_id") members).bind (uuidField parse)
    some (.messageRead conversationId messageId)

/-- `TypingStartEvent` and `TypingStopEvent`; `event` is the one of them. -/
def typingEvent (event : UUID → ClientEvent) (parse : Text → Option UUID)
    (members : List (Str × Value F)) : Option ClientEvent :=
  ((get (key "conversation_id") members).bind (uuidField parse)).map event

/-- `client_event_adapter.validate_python`: the four models have different literals as `type`,
so at most one of them accepts. -/
def validate (strip : String → String) (parse : Text → Option UUID) :
    Value F → Option ClientEvent
  | .object members =>
      match get (key "type") members with
      | some (.str type) =>
          if type = key "message.send" then messageSendEvent strip parse members
          else if type = key "message.read" then messageReadRequest parse members
          else if type = key "typing.start" then typingEvent .typingStart parse members
          else if type = key "typing.stop" then typingEvent .typingStop parse members
          else none
      | _ => none
  | _ => none

/-! ## Frames -/

/-- An `error` event, with the `request_id` as it came. -/
structure ErrorEvent where
  requestId : Option Str
  code : String
  message : String
deriving DecidableEq, Repr

/-- What comes of a frame. -/
structure Received where
  state : State
  /-- What the handlers send. -/
  sent : List Sent
  errors : List (UUID × ErrorEvent)
  /-- The loop goes on to the next frame. -/
  goesOn : Bool

/-- `payload.get(name) if isinstance(payload, dict) else None`. -/
def member (name : String) : Value F → Option (Value F)
  | .object members => get (key name) members
  | _ => none

/-- A `list` or a `dict`: `hash` raises a `TypeError`. -/
def unhashable : Value F → Bool
  | .array _ | .object _ => true
  | .null | .bool _ | .int _ | .float _ | .str _ => false

/-- `request_id if isinstance(request_id, str) else None`. -/
def requestId (payload : Value F) : Option Str :=
  match member "request_id" payload with
  | some (.str s) => some s
  | _ => none

/-- A `request_id` as a text. -/
def text (requestId : Option Str) : Option String := (requestId.bind chars).map String.ofList

/-- The `error` event for a failure. -/
def errorEvent (requestId : Option Str) : Failure → ErrorEvent
  | .app e => ⟨requestId, e.code, e.message⟩
  | .other => ⟨requestId, "INTERNAL_ERROR", "Event could not be processed"⟩

/-- `dispatch_event`, for any payload. -/
def dispatchEvent (st : Settings) (parse : Text → Option UUID) (w : World) (s : State)
    (userId : UUID) (payload : Value F) : Received :=
  if (member "type" payload).any unhashable then ⟨s, [], [], false⟩
  else
    match validate st.text.strip parse payload with
    | none =>
        ⟨s, [],
          [(userId, ⟨requestId payload, "INVALID_EVENT", "WebSocket event is invalid"⟩)], true⟩
    | some event =>
        let outcome := Dispatch.handle st w s userId ⟨text (requestId payload), event⟩
        ⟨outcome.state, outcome.sent,
          outcome.failure.toList.map fun e ↦ (userId, errorEvent (requestId payload) e), true⟩

/-- One round of the receive loop. -/
def receive (fl : Floats F) (lim : Limits) (st : Settings) (parse : Text → Option UUID) (w : World)
    (s : State) (userId : UUID) (frame : Text) : Received :=
  match loads fl lim frame with
  | .error .jsonDecodeError =>
      ⟨s, [], [(userId, ⟨none, "INVALID_JSON", "WebSocket payload must be valid JSON"⟩)], true⟩
  -- A `ValueError` and a `RecursionError`, which is a `RuntimeError`, are caught behind the loop.
  | .error _ => ⟨s, [], [], false⟩
  | .ok payload => dispatchEvent st parse w s userId payload

variable {fl : Floats F} {lim : Limits} {st : Settings} {parse : Text → Option UUID} {w : World}
  {s : State} {userId : UUID} {frame : Text} {payload : Value F}

/-- An `error` event as the one of `Dispatch`. -/
def ErrorEvent.toServer (e : ErrorEvent) : ServerEvent := .error (text e.requestId) e.code e.message

/-- For an event of a client, it is the `dispatch_event` of `Dispatch`. -/
theorem dispatchEvent_of_validate {event : ClientEvent}
    (htype : (member "type" payload).any unhashable = false)
    (h : validate st.text.strip parse payload = some event) :
    let r := dispatchEvent st parse w s userId payload
    let outcome := Dispatch.dispatchEvent st w s userId ⟨text (requestId payload), event⟩
    r.goesOn = true ∧ outcome.state = r.state ∧
      outcome.sent = r.sent ++ r.errors.map fun (u, e) ↦ ⟨[u], e.toServer⟩ := by
  rw [dispatchEvent, htype, if_neg Bool.false_ne_true, h, Dispatch.dispatchEvent]
  dsimp only
  cases hfailure : (Dispatch.handle st w s userId ⟨text (requestId payload), event⟩).failure with
  | none => exact ⟨rfl, rfl, (List.append_nil _).symm⟩
  | some failure =>
      refine ⟨rfl, rfl, ?_⟩
      cases failure <;> rfl

/-! ## What a frame can do -/

/-- `json.loads` raises nothing but what is expected of it, and `type` has a hash. -/
def Harmless (fl : Floats F) (lim : Limits) (frame : Text) : Prop :=
  match loads fl lim frame with
  | .error e => e = .jsonDecodeError
  | .ok payload => (member "type" payload).any unhashable = false

/-- It is no JSON, or does not validate. -/
def Refused (fl : Floats F) (lim : Limits) (st : Settings) (parse : Text → Option UUID)
    (frame : Text) : Prop :=
  ∀ payload, loads fl lim frame = .ok payload → validate st.text.strip parse payload = none

/-- Nothing is changed, and all that is sent is one `error` event to the user. -/
def Received.OnlyError (r : Received) (s : State) (userId : UUID) : Prop :=
  r.state = s ∧ r.sent = [] ∧
    ∃ e, r.errors = [(userId, e)] ∧ (e.code = "INVALID_JSON" ∨ e.code = "INVALID_EVENT")

/-- The loop goes on after the harmless frames. -/
theorem goesOn_iff : (receive fl lim st parse w s userId frame).goesOn = true ↔
    Harmless fl lim frame := by
  rw [Harmless, receive]
  cases hloads : loads fl lim frame with
  | error e =>
      cases e with
      | jsonDecodeError => exact iff_of_true rfl rfl
      | valueError | recursionError => exact iff_of_false Bool.false_ne_true nofun
  | ok payload =>
      dsimp only
      rw [dispatchEvent]
      cases htype : (member "type" payload).any unhashable with
      | true => exact iff_of_false Bool.false_ne_true Bool.true_eq_false.mp
      | false =>
          refine iff_of_true ?_ rfl
          rw [if_neg Bool.false_ne_true]
          cases validate st.text.strip parse payload <;> rfl

/-- A harmless frame that is refused is answered. -/
theorem onlyError_of_refused (h : Harmless fl lim frame)
    (hrefused : Refused fl lim st parse frame) :
    (receive fl lim st parse w s userId frame).OnlyError s userId := by
  rw [receive]
  rw [Harmless] at h
  cases hloads : loads fl lim frame with
  | error e =>
      rw [hloads] at h
      obtain rfl : e = .jsonDecodeError := h
      exact ⟨rfl, rfl, _, rfl, .inl rfl⟩
  | ok payload =>
      rw [hloads] at h
      dsimp only at h ⊢
      rw [dispatchEvent, h, if_neg Bool.false_ne_true, hrefused payload hloads]
      exact ⟨rfl, rfl, _, rfl, .inr rfl⟩

/-- **A frame is answered, and the session goes on, exactly if the frame is harmless.** -/
theorem goes_on_iff (fl : Floats F) (lim : Limits) (st : Settings) (parse : Text → Option UUID)
    (w : World) (s : State) (userId : UUID) (frame : Text) :
    ((receive fl lim st parse w s userId frame).goesOn = true ∧
        (Refused fl lim st parse frame →
          (receive fl lim st parse w s userId frame).OnlyError s userId)) ↔
      Harmless fl lim frame :=
  ⟨fun h ↦ goesOn_iff.mp h.1, fun h ↦ ⟨goesOn_iff.mpr h, onlyError_of_refused h⟩⟩

/-! ## A session -/

/-- The user sends a frame, and the session goes on. -/
def step (fl : Floats F) (lim : Limits) (st : Settings) (parse : Text → Option UUID)
    (userId : UUID) (s : State) (a : World × Text) : Option State :=
  let r := receive fl lim st parse a.1 s userId a.2
  if r.goesOn then some r.state else none

/-- A harmless frame is received in every state, and no other is. -/
theorem step_isSome_iff {a : World × Text} :
    (step fl lim st parse userId s a).isSome ↔ Harmless fl lim a.2 := by
  have hiff : (receive fl lim st parse a.1 s userId a.2).goesOn = true ↔ Harmless fl lim a.2 :=
    goesOn_iff
  rw [step, ← hiff]
  split
  · next h => exact iff_of_true rfl h
  · next h => exact iff_of_false Bool.false_ne_true h

/-- **A session goes on exactly as long as its frames are harmless**, whatever the state is that
it begins in. -/
theorem session_goes_on_iff (s : State) (frames : List (World × Text)) :
    (exec (step fl lim st parse userId) s frames).isSome ↔ ∀ a ∈ frames, Harmless fl lim a.2 := by
  induction frames generalizing s with
  | nil => exact iff_of_true rfl fun _ ha ↦ absurd ha List.not_mem_nil
  | cons a frames ih =>
      have hstep : (step fl lim st parse userId s a).isSome ↔ Harmless fl lim a.2 :=
        step_isSome_iff
      rw [exec_cons, List.forall_mem_cons, ← hstep]
      cases step fl lim st parse userId s a with
      | none => exact iff_of_false Bool.false_ne_true fun h ↦ Bool.false_ne_true h.1
      | some t => exact (ih t).trans ⟨fun h ↦ ⟨rfl, h⟩, And.right⟩

/-! ## A frame that is not harmless -/

/-- `{"type": []}`. -/
def listType : Text :=
  ['\x7b', '"', 't', 'y', 'p', 'e', '"', ':', '[', ']', '\x7d']

/-- It is JSON and no event, and the session is over without an answer. -/
theorem listType_ends_session :
    Refused .written ⟨4300, 900⟩ Services.plain Envelope.uuidOf listType ∧
      (receive .written ⟨4300, 900⟩ Services.plain Envelope.uuidOf Dispatch.calm .initial 1
        listType).goesOn = false ∧
      (receive .written ⟨4300, 900⟩ Services.plain Envelope.uuidOf Dispatch.calm .initial 1
        listType).errors = [] := by
  have hloads : loads .written ⟨4300, 900⟩ listType =
      .ok (.object [(key "type", .array [])]) := by
    refine loads_dumps (.object (List.nodup_singleton _) fun m hm ↦ ?_) rfl
    obtain rfl := List.mem_singleton.mp hm
    exact .array fun v hv ↦ absurd hv List.not_mem_nil
  refine ⟨fun payload h ↦ ?_, ?_, ?_⟩
  · obtain rfl := Except.ok.inj (hloads.symm.trans h)
    rfl
  · rw [receive, hloads]
    rfl
  · rw [receive, hloads]
    rfl

end Chatterbox.Realtime.Endpoint
