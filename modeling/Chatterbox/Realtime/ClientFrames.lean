import Chatterbox.Json.Stringify
import Chatterbox.Realtime.Endpoint

/-!
# The frames of the realtime client

What the methods of `RealtimeClient` send, and what `websocket_endpoint` makes of it.  A call
becomes a `dict`, a text and a `dict` again, and then an event, if the models of the server accept
it (`ClientCall.accepted`): the two sides do not check the same things, and a content may be too
long, or blank by the standards of the server only.

| method | event |
|---|---|
| `sendMessage` | `message.send` |
| `markRead` | `message.read` |
| `sendTyping` | `typing.start`, `typing.stop` |

`client_session` says that nothing is lost on the way.  Whatever a user types, a session goes on
as long as its frames are those of the client; and a call that is refused is answered with the
`request_id` that it was made with.
-/

namespace Chatterbox.Realtime.Endpoint

open Dispatch (World State Sent ClientEvent)
open Envelope (key)
open Json
open Services (Settings)

variable {F : Type}

/-! ## Calls -/

/-- An identifier as a string. -/
def idStr (u : UUID) : Str := Json.str (Conversations.str u)

/-- A call of one of the methods; `requestId` is what `crypto.randomUUID` draws. -/
inductive ClientCall where
  | sendMessage (requestId conversationId : UUID) (content : Str) (attachmentIds : List UUID)
  | markRead (requestId conversationId messageId : UUID)
  | sendTyping (conversationId : UUID) (isTyping : Bool)
deriving DecidableEq, Repr

namespace ClientCall

/-- The members of the event. -/
def members : ClientCall → List (Str × Value F)
  | .sendMessage requestId conversationId content attachmentIds =>
      [(key "type", .str (key "message.send")), (key "request_id", .str (idStr requestId)),
        (key "conversation_id", .str (idStr conversationId)), (key "content", .str content),
        (key "attachment_ids", .array (attachmentIds.map fun id ↦ .str (idStr id)))]
  | .markRead requestId conversationId messageId =>
      [(key "type", .str (key "message.read")), (key "request_id", .str (idStr requestId)),
        (key "conversation_id", .str (idStr conversationId)),
        (key "message_id", .str (idStr messageId))]
  | .sendTyping conversationId isTyping =>
      [(key "type", .str (key (if isTyping then "typing.start" else "typing.stop"))),
        (key "conversation_id", .str (idStr conversationId))]

/-- What `sendEvent` sends. -/
def frame (numeral : ℤ ⊕ FloatValue F → Text) (call : ClientCall) : Text :=
  (Value.object call.members).stringify numeral

/-- The `request_id`. -/
def requestId : ClientCall → Option UUID
  | .sendMessage requestId .. | .markRead requestId .. => some requestId
  | .sendTyping .. => none

/-- What the server makes of the call. -/
def accepted (strip : String → String) : ClientCall → Option ClientEvent
  | .sendMessage _ conversationId content attachmentIds =>
      match chars content with
      | none => none
      | some t =>
          if t.length ≤ 4000 ∧ attachmentIds.length ≤ 10 ∧ attachmentIds.Nodup ∧
              (strip (.ofList t) ≠ "" ∨ attachmentIds ≠ []) then
            some (.messageSend conversationId (strip (.ofList t)) attachmentIds)
          else none
  | .markRead _ conversationId messageId => some (.messageRead conversationId messageId)
  | .sendTyping conversationId isTyping =>
      some (if isTyping then .typingStart conversationId else .typingStop conversationId)

end ClientCall

/-- What comes of a call: it is handled, or refused under its `request_id`. -/
def answer (st : Settings) (w : World) (s : State) (userId : UUID) (call : ClientCall) : Received :=
  match call.accepted st.text.strip with
  | none =>
      ⟨s, [], [(userId, ⟨call.requestId.map idStr, "INVALID_EVENT", "WebSocket event is invalid"⟩)],
        true⟩
  | some event =>
      let requestId := call.requestId.map fun id ↦ String.ofList (Conversations.str id)
      let outcome := Dispatch.handle st w s userId ⟨requestId, event⟩
      ⟨outcome.state, outcome.sent,
        outcome.failure.toList.map fun e ↦ (userId, errorEvent (call.requestId.map idStr) e), true⟩

variable {numeral : ℤ ⊕ FloatValue F → Text} {fl : Floats F} {lim : Limits} {st : Settings}
  {parse : Text → Option UUID} {w : World} {s t : State} {userId : UUID} {call : ClientCall}

/-! ## The frame is read -/

/-- A field is a string, or an array of strings. -/
theorem field_cases {m : Str × Value F} (hm : m ∈ call.members) :
    (∃ u, m.2 = .str u) ∨ ∃ us : List Str, m.2 = .array (us.map .str) := by
  cases call with
  | sendMessage requestId conversationId content attachmentIds =>
      simp only [ClientCall.members, List.mem_cons, List.not_mem_nil, or_false] at hm
      rcases hm with rfl | rfl | rfl | rfl | rfl
      · exact .inl ⟨_, rfl⟩
      · exact .inl ⟨_, rfl⟩
      · exact .inl ⟨_, rfl⟩
      · exact .inl ⟨_, rfl⟩
      · exact .inr ⟨attachmentIds.map idStr, by rw [List.map_map]; rfl⟩
  | markRead requestId conversationId messageId =>
      simp only [ClientCall.members, List.mem_cons, List.not_mem_nil, or_false] at hm
      rcases hm with rfl | rfl | rfl | rfl <;> exact .inl ⟨_, rfl⟩
  | sendTyping conversationId isTyping =>
      simp only [ClientCall.members, List.mem_cons, List.not_mem_nil, or_false] at hm
      rcases hm with rfl | rfl <;> exact .inl ⟨_, rfl⟩

theorem nodup_members (call : ClientCall) : ((call.members (F := F)).map Prod.fst).Nodup := by
  cases call with
  | sendMessage requestId conversationId content attachmentIds =>
      show [key "type", key "request_id", key "conversation_id", key "content",
        key "attachment_ids"].Nodup
      decide
  | markRead requestId conversationId messageId =>
      show [key "type", key "request_id", key "conversation_id", key "message_id"].Nodup
      decide
  | sendTyping conversationId isTyping =>
      show [key "type", key "conversation_id"].Nodup
      decide

theorem numberFree_members (call : ClientCall) :
    (Value.object (call.members (F := F))).NumberFree := by
  refine .object (nodup_members call) fun m hm ↦ ?_
  obtain ⟨u, hu⟩ | ⟨us, hus⟩ := field_cases hm
  · exact hu ▸ .str u
  · rw [hus]
    refine .array fun v hv ↦ ?_
    obtain ⟨u, -, rfl⟩ := List.mem_map.mp hv
    exact .str u

theorem fault_members {digits depth : ℕ} (call : ClientCall) :
    (Value.object (call.members (F := F))).fault digits (depth + 2) = none := by
  rw [Value.fault, membersFault_eq_none]
  intro m hm
  obtain ⟨u, hu⟩ | ⟨us, hus⟩ := field_cases hm
  · rw [hu, fault_str]
  · rw [hus, Value.fault, elementsFault_eq_none]
    intro v hv
    obtain ⟨u, -, rfl⟩ := List.mem_map.mp hv
    exact fault_str u

theorem loads_frame (hdepth : 2 ≤ lim.depth) (call : ClientCall) :
    loads fl lim (call.frame numeral) = .ok (.object call.members) := by
  obtain ⟨depth, hdepth⟩ := Nat.exists_eq_add_of_le' hdepth
  refine loads_stringify (numberFree_members call) ?_
  rw [hdepth]
  exact fault_members call

theorem hashable_type (call : ClientCall) :
    (member "type" (.object (call.members (F := F)))).any unhashable = false := by
  cases call <;> rfl

/-! ## The event is validated -/

theorem key_inj {a b : String} : key a = key b ↔ a = b := by
  refine ⟨fun h ↦ ?_, congrArg key⟩
  have hchars := congrArg chars h
  rw [key, key, chars_str, chars_str, Option.some.injEq] at hchars
  exact String.toList_inj.mp hchars

theorem get_cons (k : Str) (m : Str × Value F) (ms : List (Str × Value F)) :
    get k (m :: ms) = if m.1 = k then some m.2 else get k ms := by
  unfold Json.get
  rw [List.find?_cons]
  by_cases h : m.1 = k <;> simp [h]

theorem textField_str (n : ℕ) (u : Str) :
    textField n (.str u : Value F) =
      (chars u).bind fun t ↦ if t.length ≤ n then some t else none := by
  rw [textField]
  cases chars u with
  | none => rfl
  | some t => by_cases h : t.length ≤ n <;> simp [Option.filter, h]

theorem requestId_members (call : ClientCall) :
    Endpoint.requestId (.object (call.members (F := F))) = call.requestId.map idStr := by
  cases call <;> simp [Endpoint.requestId, member, ClientCall.members, key_inj, Json.get,
    ClientCall.requestId]

theorem text_requestId (requestId : Option UUID) :
    text (requestId.map idStr) =
      requestId.map fun id ↦ String.ofList (Conversations.str id) := by
  cases requestId with
  | none => rfl
  | some id => rw [text, Option.map_some, Option.bind_some, idStr, chars_str]; rfl

section Validate

variable (hparse : ∀ u, parse (Conversations.str u) = some u)

include hparse

theorem uuidField_idStr (u : UUID) : uuidField parse (.str (idStr u) : Value F) = some u := by
  rw [uuidField, idStr, chars_str, Option.bind_some, hparse]

theorem mapM_uuidField (ids : List UUID) :
    (ids.map fun id ↦ (.str (idStr id) : Value F)).mapM (uuidField parse) = some ids := by
  rw [List.mapM_map]
  induction ids with
  | nil => rfl
  | cons id ids ih =>
      rw [List.mapM_cons, ih, Function.comp_apply, uuidField_idStr hparse]
      rfl

theorem validate_members (strip : String → String) (call : ClientCall) :
    validate strip parse (.object (call.members (F := F))) = call.accepted strip := by
  have hrequest : ∀ u, requestIdField (some (.str (idStr u) : Value F)) = true := fun u ↦ by
    have hlength : (Conversations.str u).length ≤ 64 := by
      rw [Conversations.length_str]
      decide
    show (textField 64 (.str (idStr u) : Value F)).isSome = true
    rw [textField_str, idStr, chars_str, Option.bind_some, if_pos hlength, Option.isSome_some]
  cases call with
  | sendMessage requestId conversationId content attachmentIds =>
      simp only [validate, ClientCall.members, get_cons, key_inj, String.reduceEq, ↓reduceIte,
        messageSendEvent, hrequest, not_true, Option.bind_some, uuidField_idStr hparse,
        contentField, textField_str, attachmentIdsField, List.length_map, mapM_uuidField hparse,
        ClientCall.accepted, Option.bind_eq_bind]
      cases chars content with
      | none => rfl
      | some t =>
          by_cases hlength : t.length ≤ 4000
          · by_cases hcount : attachmentIds.length ≤ 10
            · by_cases hnodup : attachmentIds.Nodup
              · by_cases hblank : strip (.ofList t) = "" <;> by_cases hnone : attachmentIds = [] <;>
                  simp [hlength, hcount, hnodup, hblank, hnone]
              · simp [hcount, hnodup]
            · simp [hcount]
          · simp [hlength]
  | markRead requestId conversationId messageId =>
      simp [validate, ClientCall.members, get_cons, key_inj, messageReadRequest, hrequest,
        uuidField_idStr hparse, ClientCall.accepted]
  | sendTyping conversationId isTyping =>
      cases isTyping <;>
        simp [validate, ClientCall.members, get_cons, key_inj, typingEvent,
          uuidField_idStr hparse, ClientCall.accepted]

/-- **A call is answered as the server answers it**, whatever the text was between them. -/
theorem receive_frame (hdepth : 2 ≤ lim.depth) (call : ClientCall) :
    receive fl lim st parse w s userId (call.frame numeral) = answer st w s userId call := by
  rw [receive, loads_frame hdepth]
  show dispatchEvent st parse w s userId (.object (call.members (F := F))) = _
  rw [answer, dispatchEvent, validate_members hparse, requestId_members, text_requestId]
  exact if_neg (Bool.eq_false_iff.mp (hashable_type call))

end Validate

/-! ## A session -/

/-- The state after the calls, if each is answered. -/
def afterCalls (st : Settings) (userId : UUID) (s : State) (calls : List (World × ClientCall)) :
    State :=
  calls.foldl (fun s a ↦ (answer st a.1 s userId a.2).state) s

/-- The frames of the calls. -/
def frames (numeral : ℤ ⊕ FloatValue F → Text) (calls : List (World × ClientCall)) :
    List (World × Text) :=
  calls.map fun a ↦ (a.1, a.2.frame numeral)

theorem goesOn_answer : (answer st w s userId call).goesOn = true := by
  rw [answer]
  cases call.accepted st.text.strip <;> rfl

theorem exec_frames (hparse : ∀ u, parse (Conversations.str u) = some u) (hdepth : 2 ≤ lim.depth)
    (calls : List (World × ClientCall)) :
    exec (step fl lim st parse userId) s (frames numeral calls) =
      some (afterCalls st userId s calls) := by
  induction calls generalizing s with
  | nil => rfl
  | cons a calls ih =>
      have hstep : step fl lim st parse userId s (a.1, a.2.frame numeral) =
          some (answer st a.1 s userId a.2).state := by
        rw [step]
        dsimp only
        rw [receive_frame hparse hdepth, if_pos goesOn_answer]
      rw [frames, List.map_cons, exec_cons, hstep, Option.bind_some]
      exact ih

/-- **A client cannot end its session by what its user types.**  Each of its frames is answered, in
every state, as the call is that it was made for, and the loop receives them all. -/
theorem client_session (numeral : ℤ ⊕ FloatValue F → Text) (fl : Floats F) {lim : Limits}
    (hdepth : 2 ≤ lim.depth) (st : Settings) {parse : Text → Option UUID}
    (hparse : ∀ u, parse (Conversations.str u) = some u) (userId : UUID) :
    (∀ w s call, receive fl lim st parse w s userId (call.frame numeral) =
        answer st w s userId call) ∧
      ∀ s calls, exec (step fl lim st parse userId) s (frames numeral calls) =
        some (afterCalls st userId s calls) :=
  ⟨fun _ _ call ↦ receive_frame hparse hdepth call, fun _ calls ↦ exec_frames hparse hdepth calls⟩

/-- A content that ends in the middle of a pair of surrogates. -/
def halfPair : ClientCall := .sendMessage 7 10 [0x68, 0x69, 0xd83d] []

/-- No number is sent. -/
def numerals (_ : ℤ ⊕ FloatValue { n : Number // n.Valid ∧ n.IsFloat }) : Text := []

/-- It is refused under its `request_id`, and the session goes on. -/
theorem client_session_halfPair :
    (receive .written ⟨4300, 900⟩ Services.plain Envelope.uuidOf Dispatch.calm .initial 1
        (halfPair.frame numerals)).errors =
        [(1, ⟨some (idStr 7), "INVALID_EVENT", "WebSocket event is invalid"⟩)] ∧
      exec (step .written ⟨4300, 900⟩ Services.plain Envelope.uuidOf 1) .initial
        (frames numerals [(Dispatch.calm, halfPair), (Dispatch.calm, .sendTyping 10 true)]) =
        some .initial := by
  have hdepth : 2 ≤ (⟨4300, 900⟩ : Limits).depth := by decide
  obtain ⟨hreceive, hexec⟩ := client_session numerals .written hdepth Services.plain
    Envelope.uuidOf_str 1
  refine ⟨?_, ?_⟩
  · rw [hreceive]
    rfl
  · rw [hexec]
    rfl

end Chatterbox.Realtime.Endpoint
