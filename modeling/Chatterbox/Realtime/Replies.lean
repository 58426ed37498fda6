import Chatterbox.Realtime.Dispatch
import Chatterbox.Services.Statements

/-!
# Error replies

An `error` event tells a client that what it asked for has not happened.
`handle_message_send` commits the message in its first session and goes on: it reads the
sender and the members, sends the message to them, and marks it as delivered in a second
session.  All of this is under the catch-all of `dispatch_event`, so a statement that
raises behind the commit is answered like one that raises before it.

`error_reply_iff` says when an error reply means that nothing has been stored: exactly
when no statement behind the commit raises (`LateFault`).

The statements raise where `Faults` says so, in place of the two flags of
`Dispatch.World`; without faults the handler is that of `Dispatch`
(`handleMessageSend_of_no_faults`).
-/

namespace Chatterbox.Realtime.Replies

open Dispatch (World State Outcome ServerEvent ClientEvent sendToUsers errorEvent)
open Services (Faults Settings Failure MessageResponse createMessage)
open Services.Statements (Blocked)

/-- The first session of `handle_message_send`. -/
def firstSession (st : Settings) (w : World) (faults : Faults) (userId conversationId : UUID)
    (content : String) (attachmentIds : List UUID) :
    Program Services.Store Failure (MessageResponse × List UUID) := do
  let message ← Services.Statements.create st w.env faults conversationId userId content
    attachmentIds
  let memberIds ← .read (faults.at .memberIds) fun s ↦ s.memberIds conversationId
  pure (message, memberIds)

/-- `handle_message_send`. -/
def handleMessageSend (st : Settings) (w : World) (faults : Faults) (s : State) (userId : UUID)
    (requestId : Option String) (conversationId : UUID) (content : String)
    (attachmentIds : List UUID) : Outcome :=
  match (firstSession st w faults userId conversationId content attachmentIds).runOn s.store with
  | (.error e, store) => ⟨{ s with store }, [], some e⟩
  | (.ok (message, memberIds), store) =>
      let created := sendToUsers memberIds (.messageCreated requestId message)
      let onlineRecipientIds := (memberIds.filter (· ≠ userId)).filter w.online
      if onlineRecipientIds = [] then ⟨{ s with store }, created, none⟩
      else
        match (Services.Statements.markDelivered faults w.later message.id
            onlineRecipientIds).runOn store with
        | (.error e, store) => ⟨{ s with store }, created, some e⟩
        | (.ok receipts, store) =>
            ⟨{ s with store }, created ++ receipts.flatMap fun receipt ↦
              sendToUsers memberIds (.messageDelivered receipt), none⟩

/-- `dispatch_event`, for a `message.send` event that has validated. -/
def dispatchMessageSend (st : Settings) (w : World) (faults : Faults) (s : State) (userId : UUID)
    (requestId : Option String) (conversationId : UUID) (content : String)
    (attachmentIds : List UUID) : Outcome :=
  let outcome : Outcome :=
    if ¬ w.allowed then
      ⟨s, [], some (.app (ClientEvent.messageSend conversationId content attachmentIds).rateLimited)⟩
    else handleMessageSend st w faults s userId requestId conversationId content attachmentIds
  match outcome.failure with
  | none => outcome
  | some failure =>
      { outcome with
        sent := outcome.sent ++ sendToUsers [userId] (errorEvent requestId failure) }

/-- The user is answered with an `error` event. -/
def Answered (outcome : Outcome) (userId : UUID) : Prop :=
  ∃ x ∈ outcome.sent, x.targets = [userId] ∧
    ∃ requestId code message, x.event = .error requestId code message

/-- No message has been committed, and no attachment bound. -/
def Unstored (s t : State) : Prop :=
  t.store.messages = s.store.messages ∧ t.store.attachments = s.store.attachments

/-- The recipients who are online. -/
def onlineRecipients (w : World) (s : State) (userId conversationId : UUID) : List UUID :=
  ((s.store.memberIds conversationId).filter (· ≠ userId)).filter w.online

/-- The message is accepted, and a statement behind its commit raises. -/
def LateFault (st : Settings) (w : World) (faults : Faults) (s : State) (userId : UUID)
    (conversationId : UUID) (content : String) (attachmentIds : List UUID) : Prop :=
  w.allowed = true ∧ ¬ Blocked faults attachmentIds ∧
    (∃ r, createMessage st w.env s.store conversationId userId content attachmentIds = .ok r) ∧
    (faults .refreshSender ∨ faults .memberIds ∨
      onlineRecipients w s userId conversationId ≠ [] ∧
        (faults .selectReceipts ∨ faults .commitReceipts))

variable {st : Settings} {w : World} {faults : Faults} {s : State} {u c : UUID}
  {requestId : Option String} {content : String} {ids : List UUID}

/-! ## The first session -/

/-- A message that is stored stays stored, whatever is raised behind its commit. -/
theorem firstSession_of_ok {store t : Services.Store} {message : MessageResponse}
    (hok : createMessage st w.env store c u content ids = .ok (message, t))
    (h : ¬ Blocked faults ids) : (firstSession st w faults u c content ids).runOn store =
      (if faults .refreshSender ∨ faults .memberIds then .error .other
        else .ok (message, t.memberIds c), t) := by
  have hcreate := Services.Statements.create_of_ok hok h
  unfold firstSession
  cases hrefresh : faults .refreshSender with
  | true =>
      rw [hrefresh] at hcreate
      rw [Program.runOn_eq (Program.bind_error hcreate)]
      simp
  | false =>
      rw [hrefresh] at hcreate
      refine Program.runOn_eq (t := ⟨t, t⟩) ((Program.bind_ok hcreate).trans ?_)
      cases hmembers : faults .memberIds with
      | true => exact Program.bind_error (Services.Statements.read_fault hmembers _ _)
      | false => exact Program.bind_ok (Services.Statements.read_ok hmembers _ _)

/-- A message that is not stored is an exception, and changes nothing. -/
theorem firstSession_of_not {store : Services.Store} (h : Blocked faults ids ∨
      ∃ e, createMessage st w.env store c u content ids = .error e) :
    ∃ e, (firstSession st w faults u c content ids).runOn store = (.error e, store) := by
  obtain ⟨e, session, hcreate, hcommitted⟩ := Services.Statements.create_of_not h
  refine ⟨e, ?_⟩
  unfold firstSession
  rw [Program.runOn_eq (Program.bind_error hcreate), hcommitted]

/-- The transaction leaves the members alone, and adds its message. -/
theorem stored_of_createMessage {store t : Services.Store} {message : MessageResponse}
    (hok : createMessage st w.env store c u content ids = .ok (message, t)) :
    t.memberIds c = store.memberIds c ∧ t.messages ≠ store.messages := by
  obtain ⟨memberIds, ordered, messages, -, -, hinsert, -, rfl, -⟩ :=
    Services.createMessage_eq_ok hok
  refine ⟨rfl, fun e ↦ ?_⟩
  have hrows := Messages.MessageTable.rows_insert hinsert
  have hsame : messages = store.messages := e
  rw [hsame] at hrows
  exact List.cons_ne_self _ _ hrows.symm

/-! ## The handler -/

/-- Without faults the handler is that of `Dispatch`. -/
theorem handleMessageSend_of_no_faults (hfails : w.fails = false)
    (hlater : w.failsLater = false) :
    handleMessageSend st w (fun _ ↦ false) s u requestId c content ids =
      Dispatch.handleMessageSend st w s u requestId c content ids := by
  have hblocked : ¬ Blocked (fun _ ↦ false) ids := by simp [Blocked]
  unfold handleMessageSend Dispatch.handleMessageSend
  cases hcreate : createMessage st w.env s.store c u content ids with
  | error e =>
      have hfirst : (firstSession st w (fun _ ↦ false) u c content ids).runOn s.store =
          (.error e, s.store) := by
        unfold firstSession
        rw [Program.runOn_eq (Program.bind_error
          (Services.Statements.create_of_error hcreate (by simp [Services.Statements.Faulty])))]
      simp only [hfirst, hfails, Bool.false_eq_true, if_false]
  | ok r =>
      obtain ⟨message, t⟩ := r
      rw [firstSession_of_ok hcreate hblocked]
      simp only [hfails, hlater, Bool.false_eq_true, or_self, if_false]
      split
      · rfl
      · rw [Services.Statements.markDelivered_runOn]
        simp

/-- A message that is not stored leaves the state alone, and the handler raises. -/
theorem handleMessageSend_of_not (requestId : Option String) (h : Blocked faults ids ∨
      ∃ e, createMessage st w.env s.store c u content ids = .error e) :
    ∃ e, handleMessageSend st w faults s u requestId c content ids = ⟨s, [], some e⟩ := by
  obtain ⟨e, he⟩ := firstSession_of_not h
  refine ⟨e, ?_⟩
  unfold handleMessageSend
  rw [he]

/-- No event that the handler itself sends is an error. -/
def Plain (outcome : Outcome) : Prop :=
  ∀ x ∈ outcome.sent, ∀ requestId code message, x.event ≠ .error requestId code message

theorem plain_sendToUsers (users : List UUID) {event : ServerEvent}
    (h : ∀ requestId code message, event ≠ .error requestId code message) :
    ∀ x ∈ sendToUsers users event, ∀ requestId code message,
      x.event ≠ .error requestId code message := by
  intro x hx
  unfold sendToUsers at hx
  dsimp only at hx
  split at hx
  · cases hx
  · rw [List.mem_singleton.mp hx]
    exact h

/-- **A stored message**, with no fault up to its commit: the handler raises exactly if a
statement behind the commit does. -/
theorem handleMessageSend_of_ok (requestId : Option String) {t : Services.Store}
    {message : MessageResponse} (hok : createMessage st w.env s.store c u content ids = .ok (message, t))
    (h : ¬ Blocked faults ids) :
    ((handleMessageSend st w faults s u requestId c content ids).failure ≠ none ↔
        faults .refreshSender ∨ faults .memberIds ∨
          onlineRecipients w s u c ≠ [] ∧ (faults .selectReceipts ∨ faults .commitReceipts)) ∧
      (handleMessageSend st w faults s u requestId c content ids).state.store.messages =
        t.messages ∧
      Plain (handleMessageSend st w faults s u requestId c content ids) := by
  have hcreated : ∀ x ∈ sendToUsers (t.memberIds c) (.messageCreated requestId message),
      ∀ requestId code message, x.event ≠ .error requestId code message :=
    plain_sendToUsers _ fun _ _ _ ↦ ServerEvent.noConfusion
  have hrecipients : ((t.memberIds c).filter (· ≠ u)).filter w.online =
      onlineRecipients w s u c := by
    rw [(stored_of_createMessage hok).1, onlineRecipients]
  unfold handleMessageSend
  rw [firstSession_of_ok hok h]
  by_cases hearly : faults .refreshSender ∨ faults .memberIds
  · simp only [if_pos hearly]
    refine ⟨iff_of_true (Option.some_ne_none _) ?_, trivial, fun _ hx ↦ by cases hx⟩
    exact hearly.imp_right .inl
  simp only [if_neg hearly, hrecipients]
  by_cases honline : onlineRecipients w s u c = []
  · rw [if_pos honline]
    refine ⟨iff_of_false (fun hne ↦ hne rfl) ?_, rfl, hcreated⟩
    rintro (hrefresh | hmembers | ⟨hne, -⟩)
    · exact hearly (.inl hrefresh)
    · exact hearly (.inr hmembers)
    · exact hne honline
  rw [if_neg honline, Services.Statements.markDelivered_runOn]
  by_cases hlate : faults .selectReceipts ∨ faults .commitReceipts
  · rw [if_pos hlate]
    exact ⟨iff_of_true (Option.some_ne_none _) (.inr (.inr ⟨honline, hlate⟩)), rfl, hcreated⟩
  · rw [if_neg hlate]
    refine ⟨iff_of_false (fun hne ↦ hne rfl) ?_, rfl, fun x hx ↦ ?_⟩
    · rintro (hrefresh | hmembers | ⟨-, hfault⟩)
      · exact hearly (.inl hrefresh)
      · exact hearly (.inr hmembers)
      · exact hlate hfault
    · rcases List.mem_append.mp hx with hx | hx
      · exact hcreated x hx
      · obtain ⟨receipt, -, hx⟩ := List.mem_flatMap.mp hx
        exact plain_sendToUsers _ (fun _ _ _ ↦ ServerEvent.noConfusion) x hx

/-! ## The reply -/

/-- The reply to a handler that sends no errors itself: there is one if it raises. -/
theorem answered_iff {outcome : Outcome} (h : Plain outcome) :
    Answered (match outcome.failure with
      | none => outcome
      | some failure =>
          { outcome with
            sent := outcome.sent ++ sendToUsers [u] (errorEvent requestId failure) }) u ↔
      outcome.failure ≠ none := by
  cases hfailure : outcome.failure with
  | none =>
      refine iff_of_false ?_ fun hne ↦ hne rfl
      rintro ⟨x, hx, -, requestId', code, message, he⟩
      exact h x hx requestId' code message he
  | some failure =>
      refine iff_of_true ⟨⟨[u], errorEvent requestId failure⟩, ?_, rfl, ?_⟩ (Option.some_ne_none _)
      · exact List.mem_append_right _ List.mem_cons_self
      · cases failure <;> exact ⟨_, _, _, rfl⟩

/-- The reply changes nothing. -/
theorem state_answered (outcome : Outcome) : (match outcome.failure with
      | none => outcome
      | some failure =>
          { outcome with
            sent := outcome.sent ++ sendToUsers [u] (errorEvent requestId failure) }).state =
      outcome.state := by
  cases outcome.failure <;> rfl

/-- **Exactly when an error reply means that nothing was stored**: unless the message is
accepted and a statement behind its commit raises. -/
theorem error_reply_iff (st : Settings) (w : World) (faults : Faults) (s : State) (u : UUID)
    (requestId : Option String) (c : UUID) (content : String) (ids : List UUID) :
    (Answered (dispatchMessageSend st w faults s u requestId c content ids) u →
        Unstored s (dispatchMessageSend st w faults s u requestId c content ids).state) ↔
      ¬ LateFault st w faults s u c content ids := by
  unfold dispatchMessageSend
  dsimp only
  rw [state_answered]
  by_cases hallowed : w.allowed = true
  swap
  · rw [if_pos hallowed]
    exact iff_of_true (fun _ ↦ ⟨rfl, rfl⟩) fun hlate ↦ hallowed hlate.1
  rw [if_neg (not_not.mpr hallowed)]
  by_cases hstored : ¬ Blocked faults ids ∧
      ∃ r, createMessage st w.env s.store c u content ids = .ok r
  · obtain ⟨hblocked, ⟨message, t⟩, hok⟩ := hstored
    obtain ⟨hfailure, hmessages, hplain⟩ :=
      handleMessageSend_of_ok requestId hok hblocked
    rw [answered_iff hplain, hfailure]
    have hnew := (stored_of_createMessage hok).2
    constructor
    · rintro hanswer ⟨-, -, -, hlate⟩
      exact hnew (hmessages.symm.trans (hanswer hlate).1)
    · intro hlate hfault
      exact absurd ⟨hallowed, hblocked, ⟨_, hok⟩, hfault⟩ hlate
  · have hnot : Blocked faults ids ∨
        ∃ e, createMessage st w.env s.store c u content ids = .error e := by
      by_contra hboth
      obtain ⟨hblocked, herror⟩ := not_or.mp hboth
      refine hstored ⟨hblocked, ?_⟩
      cases hcreate : createMessage st w.env s.store c u content ids with
      | ok r => exact ⟨r, rfl⟩
      | error e => exact absurd ⟨e, hcreate⟩ herror
    obtain ⟨e, he⟩ := handleMessageSend_of_not requestId hnot
    rw [he]
    exact iff_of_true (fun _ ↦ ⟨rfl, rfl⟩) fun hlate ↦ hstored ⟨hlate.2.1, hlate.2.2.1⟩

/-! ## A message that is stored and answered with an error -/

/-- Two users with a conversation. -/
def acquainted : List Dispatch.Action :=
  [.transaction (.register ⟨1, "one", none⟩), .transaction (.register ⟨2, "two", none⟩),
    .transaction (.request ⟨5, fun _ ↦ 10, true⟩ 1 (.createDirect 2))]

/-- The clock and the identifiers of the message; everybody is online. -/
def writing : World := { Dispatch.calm with env := ⟨6, fun i ↦ 20 + Fin.ofNat _ i, true⟩ }

/-- The query for the members raises. -/
def membersLost (x : Services.Statement) : Bool := x = .memberIds

/-- The first writes to the second. -/
theorem membersLost_stores : ∃ s,
    exec (Dispatch.step Services.plain) .initial acquainted = some s ∧
      Answered (dispatchMessageSend Services.plain writing membersLost s 1 none 10 "hi" []) 1 ∧
      ¬ Unstored s
        (dispatchMessageSend Services.plain writing membersLost s 1 none 10 "hi" []).state := by
  obtain ⟨s, hrun, hsent, hbefore, hafter⟩ : ∃ s,
      exec (Dispatch.step Services.plain) .initial acquainted = some s ∧
        (dispatchMessageSend Services.plain writing membersLost s 1 none 10 "hi" []).sent =
          [⟨[1], .error none "INTERNAL_ERROR" "Event could not be processed"⟩] ∧
        s.store.messages.rows = [] ∧
        (dispatchMessageSend Services.plain writing membersLost s 1 none 10 "hi"
          []).state.store.messages.rows = [⟨20, 10, 1, "hi", 6, none⟩] :=
    ⟨_, rfl, rfl, rfl, rfl⟩
  refine ⟨s, hrun, ?_, fun h ↦ ?_⟩
  · rw [Answered, hsent]
    exact ⟨_, List.mem_cons_self, rfl, _, _, _, rfl⟩
  · rw [h.1, hbefore] at hafter
    cases hafter

end Chatterbox.Realtime.Replies
