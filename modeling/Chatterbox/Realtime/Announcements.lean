import Chatterbox.Realtime.Dispatch
import Chatterbox.Services.Lasting

/-!
# What is announced

Every event that is sent says something about the database: that a message has been written,
that it has been delivered or read, that a member of a conversation is typing.  `Told` is what it
says, and `truthful_of_run` that all of it is so, and remains so: since what a store says lasts,
an event may come as late as it likes, or twice, or after others that have been sent behind it.

A dispatch is made of transactions of the services (`store_of_perform`), so all that is known of
their runs is known of the runs here.
-/

namespace Chatterbox.Realtime.Dispatch

open Services (Env Settings MessageResponse ReceiptEventData createMessage markRead markDelivered
  shown toEvent Lasts Reachable)
open Typing (TypingEvent TypingEventData Envelope Member)

variable {st : Settings} {w : World} {s t : State} {store store' : Services.Store} {c u v : UUID}
  {x : Sent} {event : ServerEvent} {payload : Payload}

/-! ## The transactions of a step -/

theorem store_of_handleMessageSend (requestId : Option String) (content : String)
    (ids : List UUID) : ∃ as, exec (Services.step st) s.store as =
      some (handleMessageSend st w s u requestId c content ids).state.store := by
  unfold handleMessageSend
  split
  · exact ⟨[], rfl⟩
  · split
    · exact ⟨[], rfl⟩
    · rename_i response store hok
      have hstep : Services.step st s.store (.request w.env u (.createMessage c content ids)) =
          some store := by
        rw [Services.step, Services.serve, hok]
        rfl
      dsimp only
      split
      · exact ⟨[_], exec_cons_eq_some.mpr ⟨store, hstep, rfl⟩⟩
      · split
        · exact ⟨[_], exec_cons_eq_some.mpr ⟨store, hstep, rfl⟩⟩
        · exact ⟨[_, .markDelivered _ _ _], exec_cons_eq_some.mpr ⟨store, hstep, rfl⟩⟩

theorem store_of_handleMessageRead (requestId : Option String) (id : UUID) :
    ∃ as, exec (Services.step st) s.store as =
      some (handleMessageRead w s u requestId c id).state.store := by
  unfold handleMessageRead
  split
  · exact ⟨[], rfl⟩
  · split
    · exact ⟨[], rfl⟩
    · rename_i receipts store hok
      refine ⟨[.request w.env u (.markRead c id)], exec_cons_eq_some.mpr ⟨store, ?_, rfl⟩⟩
      rw [Services.step, Services.serve, hok]
      rfl

/-- A message changes nothing but the database. -/
theorem state_handleMessageSend {requestId : Option String} {content : String} {ids : List UUID} :
    (handleMessageSend st w s u requestId c content ids).state =
      { s with store := (handleMessageSend st w s u requestId c content ids).state.store } := by
  unfold handleMessageSend
  split
  · rfl
  split
  · rfl
  dsimp only
  split
  · rfl
  split <;> rfl

theorem state_handleMessageRead {requestId : Option String} {id : UUID} :
    (handleMessageRead w s u requestId c id).state =
      { s with store := (handleMessageRead w s u requestId c id).state.store } := by
  unfold handleMessageRead
  split
  · rfl
  split <;> rfl

theorem store_of_handleTyping {forward : World → State → UUID → UUID → List UUID → Outcome}
    (h : ∀ users, (forward w s c u users).state.store = s.store) :
    (handleTyping w s u c forward).state.store = s.store := by
  unfold handleTyping
  split
  · rfl
  · split
    · rfl
    · exact h _

theorem store_typingStart (users : List UUID) :
    (typingStart w s c u users).state.store = s.store := by
  unfold typingStart
  dsimp only
  split
  · rfl
  · rfl
  · split <;> rfl

theorem store_typingStop (users : List UUID) :
    (typingStop w s c u users).state.store = s.store := by
  unfold typingStop
  dsimp only
  split
  · rfl
  · rfl
  · split <;> rfl

theorem state_dispatchEvent :
    (dispatchEvent st w s u payload).state = (handle st w s u payload).state := by
  unfold dispatchEvent
  dsimp only
  split <;> rfl

/-- What a step does to the database is what transactions do. -/
theorem store_of_perform {a : Action} {sent : List Sent} (ht : perform st s a = some (t, sent)) :
    ∃ as, exec (Services.step st) s.store as = some t.store := by
  cases a with
  | dispatch w userId payload =>
      cases ht
      rw [state_dispatchEvent]
      obtain ⟨requestId, event⟩ := payload
      unfold handle
      split
      · exact ⟨[], rfl⟩
      · cases event with
        | messageSend c content ids => exact store_of_handleMessageSend requestId content ids
        | messageRead c id => exact store_of_handleMessageRead requestId id
        | typingStart c => exact ⟨[], congrArg some (store_of_handleTyping store_typingStart).symm⟩
        | typingStop c => exact ⟨[], congrArg some (store_of_handleTyping store_typingStop).symm⟩
  | sweep now =>
      cases ht
      exact ⟨[], rfl⟩
  | expire instanceId member =>
      obtain ⟨envelope, -, hpair⟩ := Option.map_eq_some_iff.mp ht
      cases hpair
      exact ⟨[], rfl⟩
  | transaction a =>
      obtain ⟨store, hstep, hpair⟩ := Option.map_eq_some_iff.mp ht
      cases hpair
      exact ⟨[a], exec_cons_eq_some.mpr ⟨store, hstep, rfl⟩⟩

/-! ## What an event says -/

/-- What an event says is so. -/
def Told (store : Services.Store) : ServerEvent → Prop
  | .messageCreated _ data => ∃ message ∈ store.messages.rows, data.Lasts (shown store message)
  | .messageDelivered data | .messageRead _ data =>
      ∃ p ∈ Receipts.joined store.messages.rows store.receipts, data.Lasts (toEvent p)
  | .typing event => event.data.userId ∈ store.memberIds event.data.conversationId
  | .error .. => True

/-- An event is true, and is told to those whom it concerns: to members of the conversation, and
not to the one who is typing. -/
structure Truthful (store : Services.Store) (x : Sent) : Prop where
  told : Told store x.event
  addressed : Addressed store x
  others : ∀ event, x.event = .typing event → event.data.userId ∉ x.targets

theorem Told.mono (hinv : Services.Inv store) (h : Lasts store store') (ht : Told store event) :
    Told store' event := by
  cases event with
  | messageCreated requestId data =>
      obtain ⟨message, hm, hdata⟩ := ht
      exact ⟨message, h.messages message hm, hdata.trans (Services.shown_lasts h hm)⟩
  | messageDelivered data =>
      obtain ⟨p, hp, hdata⟩ := ht
      obtain ⟨q, hq, hlasts⟩ := Services.joined_lasts h hp
      exact ⟨q, hq, hdata.trans hlasts⟩
  | messageRead requestId data =>
      obtain ⟨p, hp, hdata⟩ := ht
      obtain ⟨q, hq, hlasts⟩ := Services.joined_lasts h hp
      exact ⟨q, hq, hdata.trans hlasts⟩
  | typing event =>
      show event.data.userId ∈ store'.memberIds event.data.conversationId
      rw [h.memberIds _ (hinv.exists_of_mem ht)]
      exact ht
  | error requestId code message => trivial

theorem Truthful.mono (hinv : Services.Inv store) (h : Lasts store store')
    (hx : Truthful store x) : Truthful store' x where
  told := hx.told.mono hinv h
  addressed := hx.addressed.mono hinv h.memberIds
  others := hx.others

theorem truthful_error (targets : List UUID) (requestId : Option String) (code message : String) :
    Truthful store ⟨targets, .error requestId code message⟩ where
  told := trivial
  addressed _ h := by cases h
  others _ h := by cases h

/-- A member is typing, and the others are told. -/
theorem truthful_typing {event : TypingEvent} {targets : List UUID} (hdata : event.data = ⟨c, u⟩)
    (hu : u ∈ store.memberIds c)
    (htargets : ∀ v ∈ targets, v ∈ (store.memberIds c).filter (· ≠ u)) :
    Truthful store ⟨targets, .typing event⟩ where
  told := by
    show event.data.userId ∈ store.memberIds event.data.conversationId
    rw [hdata]
    exact hu
  addressed := addressed_of_subset (congrArg (some ∘ TypingEventData.conversationId) hdata)
    fun v hv ↦ List.mem_of_mem_filter (htargets v hv)
  others := by
    rintro _ ⟨⟩ hmem
    rw [hdata] at hmem
    exact of_decide_eq_true (List.mem_filter.mp (htargets u hmem)).2 rfl

/-! ## All that is sent is true -/

/-- What waits for a deadline is true. -/
structure Honest (st : Settings) (s : State) : Prop where
  store : Reachable st s.store
  typing : ∀ m envelope, s.typing.data m = some envelope → Truthful s.store (expirySent envelope)
  tracker : ∀ i m envelope, s.tracker i m = some envelope →
    Truthful s.store (expirySent envelope)

theorem Honest.initial : Honest st .initial where
  store := ⟨[], rfl⟩
  typing _ _ h := by cases h
  tracker _ _ _ h := by cases h

/-- The database goes on, and what waits is still true. -/
theorem Honest.move (h : Honest st s) {as : List Services.Action}
    (hrun : exec (Services.step st) s.store as = some store) : Honest st { s with store } where
  store := h.store.run hrun
  typing m envelope hm := (h.typing m envelope hm).mono h.store.inv (.run h.store hrun)
  tracker i m envelope hm := (h.tracker i m envelope hm).mono h.store.inv (.run h.store hrun)

theorem Honest.setTask (h : Honest st s) (i : ℕ) (m : Member) {task : Option Envelope}
    (htask : ∀ envelope, task = some envelope → Truthful s.store (expirySent envelope)) :
    Honest st (s.setTask i m task) where
  store := h.store
  typing := h.typing
  tracker j m' envelope hm := by
    unfold State.setTask at hm
    dsimp only at hm
    rw [Function.update_apply] at hm
    split at hm
    · rw [Function.update_apply] at hm
      split at hm
      · exact htask envelope hm
      · exact h.tracker i m' envelope hm
    · exact h.tracker j m' envelope hm

theorem Honest.typing_update (h : Honest st s) {typing : Typing.Store Envelope}
    (htyping : ∀ m envelope, typing.data m = some envelope →
      s.typing.data m = some envelope ∨ Truthful s.store (expirySent envelope)) :
    Honest st { s with typing } where
  store := h.store
  typing m envelope hm := (htyping m envelope hm).elim (h.typing m envelope) id
  tracker := h.tracker

/-- An outcome that leaves the state honest, and sends what is true. -/
def Outcome.Honest (st : Settings) (o : Outcome) : Prop :=
  Dispatch.Honest st o.state ∧ ∀ x ∈ o.sent, Truthful o.state.store x

theorem mem_sendToUsers {userIds : List UUID} (hx : x ∈ sendToUsers userIds event) :
    x.event = event ∧ ∀ v ∈ x.targets, v ∈ userIds := by
  unfold sendToUsers at hx
  dsimp only at hx
  split at hx
  · exact absurd hx List.not_mem_nil
  · obtain rfl := List.mem_singleton.mp hx
    exact ⟨rfl, fun v hv ↦ List.mem_eraseDups.mp hv⟩

section Typing

variable {targets : List UUID} {data : TypingEvent}

theorem Outcome.Honest.sends (h : Dispatch.Honest st s) (hu : u ∈ s.store.memberIds c)
    (hdata : data.data = ⟨c, u⟩) : Outcome.Honest st
      ⟨s, sendToUsers ((s.store.memberIds c).filter (· ≠ u)) (.typing data), none⟩ := by
  refine ⟨h, fun x hx ↦ ?_⟩
  obtain ⟨hevent, htargets⟩ := mem_sendToUsers hx
  obtain ⟨targets, event⟩ := x
  obtain rfl : event = .typing data := hevent
  exact truthful_typing hdata hu htargets

theorem Outcome.Honest.publishes (h : Dispatch.Honest st s) (hu : u ∈ s.store.memberIds c)
    (hdata : data.data = ⟨c, u⟩) : Outcome.Honest st
      ⟨s, [⟨(s.store.memberIds c).filter (· ≠ u), .typing data⟩], none⟩ := by
  refine ⟨h, fun x hx ↦ ?_⟩
  obtain rfl := List.mem_singleton.mp hx
  exact truthful_typing hdata hu fun _ hv ↦ hv

theorem honest_typingStart (h : Honest st s) (hu : u ∈ s.store.memberIds c) :
    (typingStart w s c u (s.store.memberIds c)).Honest st := by
  have hexpiry : Truthful s.store
      (expirySent ⟨(s.store.memberIds c).filter (· ≠ u), .stopped ⟨c, u⟩⟩) :=
    truthful_typing rfl hu fun _ hv ↦ hv
  have htask : ∀ envelope, some (Envelope.mk ((s.store.memberIds c).filter (· ≠ u))
      (.stopped ⟨c, u⟩)) = some envelope → Truthful s.store (expirySent envelope) := by
    rintro _ ⟨⟩
    exact hexpiry
  have harmed : Honest st { s with
      typing := Typing.startPipeline w.typingTtl w.env.now (TypingEventData.mk c u).member
        ⟨(s.store.memberIds c).filter (· ≠ u), .stopped ⟨c, u⟩⟩ s.typing } := by
    refine h.typing_update fun m envelope hm ↦ ?_
    rw [Typing.data_startPipeline] at hm
    split at hm
    · exact .inr (htask envelope hm)
    · exact .inl hm
  unfold typingStart
  dsimp only
  split
  · exact .sends (h.setTask _ _ htask) hu rfl
  · exact .sends (h.setTask _ _ htask) hu rfl
  · split
    · exact .publishes harmed hu rfl
    · exact .sends (harmed.setTask _ _ htask) hu rfl

theorem honest_typingStop (h : Honest st s) (hu : u ∈ s.store.memberIds c) :
    (typingStop w s c u (s.store.memberIds c)).Honest st := by
  have hstopped : Honest st (s.setTask w.instanceId (TypingEventData.mk c u).member none) :=
    h.setTask _ _ fun envelope hnone ↦ absurd hnone.symm (Option.some_ne_none _)
  have hcleared : Honest st { s.setTask w.instanceId (TypingEventData.mk c u).member none with
      typing := Typing.stopPipeline (TypingEventData.mk c u).member s.typing } := by
    refine hstopped.typing_update fun m envelope hm ↦ ?_
    rw [Typing.data_stopPipeline] at hm
    split at hm
    · cases hm
    · exact .inl hm
  unfold typingStop
  dsimp only
  split
  · exact .sends hstopped hu rfl
  · exact .sends hstopped hu rfl
  · split
    · exact .publishes hcleared hu rfl
    · exact .sends hcleared hu rfl

end Typing

/-- What is sent by a handler that only changes the database. -/
theorem Outcome.Honest.of_store {o : Outcome} (h : Dispatch.Honest st s)
    (hstate : o.state = { s with store := o.state.store }) (hsound : o.Sound)
    (hrun : ∃ as, exec (Services.step st) s.store as = some o.state.store)
    (htold : ∀ x ∈ o.sent, Told o.state.store x.event ∧ ∀ event, x.event ≠ .typing event) :
    o.Honest st := by
  obtain ⟨as, hrun⟩ := hrun
  refine ⟨hstate ▸ h.move hrun, fun x hx ↦ ?_⟩
  obtain ⟨hx', hother⟩ := htold x hx
  exact ⟨hx', hsound.2 x hx, fun event hevent ↦ absurd hevent (hother event)⟩

/-- What an operation returns is so. -/
theorem told_of_mark {op : Receipts.Operation} {now : Instant}
    {p : Receipts.MessageReceipt × Messages.Message} (hp : p ∈ (Services.mark op now store).1) :
    ∃ q ∈ Receipts.joined (Services.mark op now store).2.messages.rows
      (Services.mark op now store).2.receipts, (toEvent p).Lasts (toEvent q) :=
  ⟨p, Services.mem_joined_of_mark hp, .refl _⟩

theorem told_handleMessageSend (h : Reachable st s.store) (requestId : Option String)
    (content : String) (ids : List UUID) :
    ∀ x ∈ (handleMessageSend st w s u requestId c content ids).sent,
      Told (handleMessageSend st w s u requestId c content ids).state.store x.event ∧
        ∀ event, x.event ≠ .typing event := by
  unfold handleMessageSend
  split
  · exact fun _ hx ↦ absurd hx List.not_mem_nil
  split
  · exact fun _ hx ↦ absurd hx List.not_mem_nil
  rename_i response store hok
  have hcreated : Told store (.messageCreated requestId response) :=
    Services.createMessage_shown h.inv hok
  have hstep : Services.step st s.store (.request w.env u (.createMessage c content ids)) =
      some store := by
    rw [Services.step, Services.serve, hok]
    rfl
  have hrun : exec (Services.step st) s.store [.request w.env u (.createMessage c content ids)] =
      some store := exec_cons_eq_some.mpr ⟨store, hstep, rfl⟩
  have hreach : Reachable st store := h.run hrun
  have hone : ∀ x ∈ sendToUsers (store.memberIds c) (.messageCreated requestId response),
      Told store x.event ∧ ∀ event, x.event ≠ .typing event := by
    intro x hx
    rw [(mem_sendToUsers hx).1]
    exact ⟨hcreated, fun event ↦ by simp⟩
  dsimp only
  split
  · exact hone
  split
  · exact hone
  intro x hx
  rcases List.mem_append.mp hx with hx | hx
  · obtain ⟨htold, hother⟩ := hone x hx
    have hmark : exec (Services.step st) store [.markDelivered w.later response.id
        (((store.memberIds c).filter (· ≠ u)).filter w.online)] = some (markDelivered w.later store
          response.id (((store.memberIds c).filter (· ≠ u)).filter w.online)).2 := rfl
    exact ⟨htold.mono hreach.inv (.run hreach hmark), hother⟩
  · obtain ⟨receipt, hreceipt, hx⟩ := List.mem_flatMap.mp hx
    obtain ⟨p, hp, rfl⟩ := List.mem_map.mp hreceipt
    rw [(mem_sendToUsers hx).1]
    exact ⟨told_of_mark hp, fun event ↦ by simp⟩

theorem told_handleMessageRead (requestId : Option String) (id : UUID) :
    ∀ x ∈ (handleMessageRead w s u requestId c id).sent,
      Told (handleMessageRead w s u requestId c id).state.store x.event ∧
        ∀ event, x.event ≠ .typing event := by
  unfold handleMessageRead
  split
  · exact fun _ hx ↦ absurd hx List.not_mem_nil
  split
  · exact fun _ hx ↦ absurd hx List.not_mem_nil
  rename_i receipts store hok
  obtain ⟨target, -, -, -, rfl, rfl⟩ := Services.markRead_eq_ok hok
  intro x hx
  obtain ⟨receipt, hreceipt, hx⟩ := List.mem_flatMap.mp hx
  obtain ⟨p, hp, rfl⟩ := List.mem_map.mp hreceipt
  rw [(mem_sendToUsers hx).1]
  exact ⟨told_of_mark (List.mem_mergeSort.mp hp), fun event ↦ by simp⟩

theorem honest_handle (h : Honest st s) (hinv : Inv s) : (handle st w s u payload).Honest st := by
  obtain ⟨requestId, event⟩ := payload
  have hnothing : ∀ failure, Outcome.Honest st ⟨s, [], failure⟩ := fun failure ↦
    ⟨h, fun _ hx ↦ absurd hx List.not_mem_nil⟩
  unfold handle
  split
  · exact hnothing _
  · cases event with
    | messageSend c content ids =>
        exact .of_store h state_handleMessageSend (handleMessageSend_sound hinv ..)
          (store_of_handleMessageSend requestId content ids)
          (told_handleMessageSend h.store requestId content ids)
    | messageRead c id =>
        exact .of_store h state_handleMessageRead (handleMessageRead_sound hinv ..)
          (store_of_handleMessageRead requestId id) (told_handleMessageRead requestId id)
    | typingStart c =>
        dsimp only
        unfold handleTyping
        split
        · exact hnothing _
        · split
          · exact hnothing _
          · rename_i hu
            exact honest_typingStart h (not_not.mp hu)
    | typingStop c =>
        dsimp only
        unfold handleTyping
        split
        · exact hnothing _
        · split
          · exact hnothing _
          · rename_i hu
            exact honest_typingStop h (not_not.mp hu)

theorem honest_dispatchEvent (h : Honest st s) (hinv : Inv s) :
    (dispatchEvent st w s u payload).Honest st := by
  have hhandle : (handle st w s u payload).Honest st := honest_handle h hinv
  unfold dispatchEvent
  dsimp only
  split
  · exact hhandle
  · rename_i failure _
    refine ⟨hhandle.1, fun x hx ↦ (List.mem_append.mp hx).elim (hhandle.2 x) fun hx ↦ ?_⟩
    obtain rfl := List.mem_singleton.mp hx
    cases failure <;> exact truthful_error ..

/-- One step keeps what is true, and what it sends is true. -/
theorem Honest.perform (h : Honest st s) (hinv : Inv s) {a : Action} {sent : List Sent}
    (ht : Dispatch.perform st s a = some (t, sent)) :
    Honest st t ∧ Lasts s.store t.store ∧ ∀ x ∈ sent, Truthful t.store x := by
  obtain ⟨as, hrun⟩ := store_of_perform ht
  have hlasts : Lasts s.store t.store := .run h.store hrun
  refine and_left_comm.mp ⟨hlasts, ?_⟩
  cases a with
  | dispatch w userId payload =>
      cases ht
      exact honest_dispatchEvent h hinv
  | sweep now =>
      cases ht
      refine ⟨h.typing_update fun m envelope hm ↦ .inl (Typing.data_of_claim hm), fun x hx ↦ ?_⟩
      obtain ⟨envelope, henvelope, rfl⟩ := List.mem_map.mp hx
      change envelope ∈ (Typing.sweepScript now s.typing).1 at henvelope
      rw [Typing.sweepScript_fst] at henvelope
      obtain ⟨m, -, hm⟩ := List.mem_filterMap.mp henvelope
      exact h.typing m envelope hm
  | expire instanceId member =>
      obtain ⟨envelope, htask, hpair⟩ := Option.map_eq_some_iff.mp ht
      cases hpair
      refine ⟨h.setTask _ _ fun envelope hnone ↦ absurd hnone.symm (Option.some_ne_none _),
        fun x hx ↦ ?_⟩
      obtain ⟨hevent, htargets⟩ := mem_sendToUsers hx
      have htrue := h.tracker instanceId member envelope htask
      obtain ⟨targets, event⟩ := x
      obtain rfl : event = .typing envelope.event := hevent
      exact ⟨htrue.told, fun c hc v hv ↦ htrue.addressed c hc v (htargets v hv),
        fun event hsame hv ↦ htrue.others event hsame (htargets _ hv)⟩
  | transaction a =>
      obtain ⟨store, hstep, hpair⟩ := Option.map_eq_some_iff.mp ht
      cases hpair
      exact ⟨h.move hrun, fun _ hx ↦ absurd hx List.not_mem_nil⟩

/-- **All that is sent is true, and stays so.**  After any run, everything that has been sent at
any time of it is true of the database as it is then. -/
theorem truthful_of_run {as : List Action} {sent : List Sent}
    (hrun : emits (perform st) .initial as = some (s, sent)) :
    Reachable st s.store ∧ ∀ x ∈ sent, Truthful s.store x := by
  have hall := emits_holds (P := fun s ↦ Honest st s ∧ Inv s) (T := fun s ↦ Truthful s.store)
    (fun h ht ↦ ?_) ⟨Honest.initial, Inv.initial⟩ hrun
  · exact ⟨hall.1.1.store, hall.2.2⟩
  · obtain ⟨hhonest, hlasts, hsent⟩ := h.1.perform h.2 ht
    exact ⟨⟨hhonest, (h.2.perform ht).1⟩, fun x hx ↦ hx.mono h.2.store hlasts, hsent⟩

/-! ## New messages -/

/-- Not the event of a message that has been created. -/
def Sent.Other (x : Sent) : Prop := ∀ requestId data, x.event ≠ .messageCreated requestId data

theorem other_sendToUsers {userIds : List UUID}
    (h : ∀ requestId data, event ≠ .messageCreated requestId data)
    (hx : x ∈ sendToUsers userIds event) : x.Other := fun requestId data ↦
  (mem_sendToUsers hx).1 ▸ h requestId data

/-- The row that a message is created with. -/
theorem rows_of_createMessage {env : Env} {content : String} {ids : List UUID}
    {response : MessageResponse} {store store' : Services.Store}
    (hok : createMessage st env store c u content ids = .ok (response, store')) :
    ∃ message, store'.messages.rows = message :: store.messages.rows ∧
      (∀ other ∈ store.messages.rows, message.id ≠ other.id) ∧ message.id = env.draw 0 ∧
        message.conversationId = c ∧ response.id = message.id ∧ response.conversationId = c := by
  obtain ⟨memberIds, ordered, messages, -, -, hinserted, -, rfl, rfl⟩ :=
    Services.createMessage_eq_ok hok
  refine ⟨⟨env.draw 0, c, u, st.text.strip content, env.now, none⟩, ?_,
    fun other hother ↦ Services.ne_of_insert hinserted hother, rfl, rfl, rfl, rfl⟩
  rw [Services.addMessage, Messages.MessageTable.rows_insert hinserted]

/-- A message is created and the members are told, in front of all else. -/
def Announced (s t : State) (sent : List Sent) : Prop :=
  ∃ message requestId response rest, t.store.messages.rows = message :: s.store.messages.rows ∧
    (∀ other ∈ s.store.messages.rows, message.id ≠ other.id) ∧ response.id = message.id ∧
      response.conversationId = message.conversationId ∧
        sent = sendToUsers (t.store.memberIds message.conversationId)
          (.messageCreated requestId response) ++ rest ∧ ∀ x ∈ rest, x.Other

/-- No message is created, and nobody is told of one. -/
def Unannounced (s t : State) (sent : List Sent) : Prop :=
  t.store.messages = s.store.messages ∧ ∀ x ∈ sent, x.Other

/-- A message is created by a request, which sends nothing. -/
def Quiet (s t : State) (a : Action) (sent : List Sent) : Prop :=
  sent = [] ∧ ∃ message env u c content ids,
    t.store.messages.rows = message :: s.store.messages.rows ∧ env.draw 0 = message.id ∧
      a = .transaction (.request env u (.createMessage c content ids))

theorem announced_handleMessageSend (requestId : Option String) (content : String)
    (ids : List UUID) :
    let o := handleMessageSend st w s u requestId c content ids
    Announced s o.state o.sent ∨ Unannounced s o.state o.sent := by
  unfold handleMessageSend
  split
  · exact .inr ⟨rfl, fun _ hx ↦ absurd hx List.not_mem_nil⟩
  split
  · exact .inr ⟨rfl, fun _ hx ↦ absurd hx List.not_mem_nil⟩
  rename_i response store hok
  obtain ⟨message, hrows, hfresh, -, rfl, hid, hresponse⟩ := rows_of_createMessage hok
  have hnone : ∀ x ∈ ([] : List Sent), x.Other := fun _ hx ↦ absurd hx List.not_mem_nil
  dsimp only
  split
  · exact .inl ⟨message, requestId, response, [], hrows, hfresh, hid, hresponse,
      (List.append_nil _).symm, hnone⟩
  split
  · exact .inl ⟨message, requestId, response, [], hrows, hfresh, hid, hresponse,
      (List.append_nil _).symm, hnone⟩
  refine .inl ⟨message, requestId, response, _, hrows, hfresh, hid, hresponse, rfl, fun x hx ↦ ?_⟩
  obtain ⟨receipt, -, hx⟩ := List.mem_flatMap.mp hx
  exact other_sendToUsers (fun _ _ ↦ by simp) hx

theorem unannounced_handleMessageRead (requestId : Option String) (id : UUID) :
    let o := handleMessageRead w s u requestId c id
    Unannounced s o.state o.sent := by
  unfold handleMessageRead
  split
  · exact ⟨rfl, fun _ hx ↦ absurd hx List.not_mem_nil⟩
  split
  · exact ⟨rfl, fun _ hx ↦ absurd hx List.not_mem_nil⟩
  rename_i receipts store hok
  obtain ⟨target, -, -, -, rfl, -⟩ := Services.markRead_eq_ok hok
  refine ⟨rfl, fun x hx ↦ ?_⟩
  obtain ⟨receipt, -, hx⟩ := List.mem_flatMap.mp hx
  exact other_sendToUsers (fun _ _ ↦ by simp) hx

theorem other_typingStart (users : List UUID) :
    ∀ x ∈ (typingStart w s c u users).sent, x.Other := by
  have hone : ∀ userIds, ∀ x ∈ sendToUsers userIds (.typing (.started ⟨c, u⟩)), x.Other :=
    fun _ _ hx ↦ other_sendToUsers (fun _ _ ↦ by simp) hx
  unfold typingStart
  dsimp only
  split
  · exact hone _
  · exact hone _
  · split
    · exact List.forall_mem_singleton.mpr fun _ _ ↦ by simp
    · exact hone _

theorem other_typingStop (users : List UUID) :
    ∀ x ∈ (typingStop w s c u users).sent, x.Other := by
  have hone : ∀ userIds, ∀ x ∈ sendToUsers userIds (.typing (.stopped ⟨c, u⟩)), x.Other :=
    fun _ _ hx ↦ other_sendToUsers (fun _ _ ↦ by simp) hx
  unfold typingStop
  dsimp only
  split
  · exact hone _
  · exact hone _
  · split
    · exact List.forall_mem_singleton.mpr fun _ _ ↦ by simp
    · exact hone _

theorem unannounced_handleTyping {forward : World → State → UUID → UUID → List UUID → Outcome}
    (hstore : ∀ users, (forward w s c u users).state.store = s.store)
    (hother : ∀ users, ∀ x ∈ (forward w s c u users).sent, x.Other) :
    Unannounced s (handleTyping w s u c forward).state (handleTyping w s u c forward).sent := by
  refine ⟨congrArg Services.Store.messages (store_of_handleTyping hstore), ?_⟩
  unfold handleTyping
  split
  · exact fun _ hx ↦ absurd hx List.not_mem_nil
  split
  · exact fun _ hx ↦ absurd hx List.not_mem_nil
  · exact hother _

/-- **Who is told of a new message.**  A step creates one message at most.  If an event has asked
for it, the members are told before they are told anything else; if a request has, nobody is. -/
theorem messages_of_perform {a : Action} {sent : List Sent} (ht : perform st s a = some (t, sent)) :
    Announced s t sent ∨ Unannounced s t sent ∨ Quiet s t a sent := by
  cases a with
  | dispatch w userId payload =>
      cases ht
      have hhandle : Announced s (handle st w s userId payload).state
          (handle st w s userId payload).sent ∨ Unannounced s (handle st w s userId payload).state
            (handle st w s userId payload).sent := by
        obtain ⟨requestId, event⟩ := payload
        unfold handle
        split
        · exact .inr ⟨rfl, fun _ hx ↦ absurd hx List.not_mem_nil⟩
        · cases event with
          | messageSend c content ids => exact announced_handleMessageSend requestId content ids
          | messageRead c id => exact .inr (unannounced_handleMessageRead requestId id)
          | typingStart c =>
              exact .inr (unannounced_handleTyping store_typingStart other_typingStart)
          | typingStop c =>
              exact .inr (unannounced_handleTyping store_typingStop other_typingStop)
      unfold dispatchEvent
      dsimp only
      split
      · exact hhandle.imp_right .inl
      · rename_i failure _
        have hother : ∀ x ∈ sendToUsers [userId] (errorEvent payload.requestId failure), x.Other :=
          fun x hx ↦ other_sendToUsers (fun _ _ ↦ by cases failure <;> simp [errorEvent]) hx
        rcases hhandle with ⟨message, requestId, response, rest, hrows, hfresh, hid, hresponse,
          hsent, hrest⟩ | ⟨hmessages, hsent⟩
        · refine .inl ⟨message, requestId, response, _, hrows, hfresh, hid, hresponse,
            (congrArg (· ++ _) hsent).trans (List.append_assoc ..), fun x hx ↦ ?_⟩
          exact (List.mem_append.mp hx).elim (hrest x) (hother x)
        · exact .inr (.inl ⟨hmessages, fun x hx ↦
            (List.mem_append.mp hx).elim (hsent x) (hother x)⟩)
  | sweep now =>
      cases ht
      refine .inr (.inl ⟨rfl, fun x hx ↦ ?_⟩)
      obtain ⟨envelope, -, rfl⟩ := List.mem_map.mp hx
      exact fun _ _ ↦ by simp [expirySent]
  | expire instanceId member =>
      obtain ⟨envelope, -, hpair⟩ := Option.map_eq_some_iff.mp ht
      cases hpair
      exact .inr (.inl ⟨rfl, fun x hx ↦ other_sendToUsers (fun _ _ ↦ by simp) hx⟩)
  | transaction a =>
      obtain ⟨store, hstep, hpair⟩ := Option.map_eq_some_iff.mp ht
      cases hpair
      have hnone : ∀ x ∈ ([] : List Sent), x.Other := fun _ hx ↦ absurd hx List.not_mem_nil
      rcases Services.step_cases hstep with ⟨response, env, u, c, content, ids, rfl, hok⟩ |
        ⟨response, env, u, v, rfl, hok⟩ | ⟨hkept, -⟩
      · obtain ⟨message, hrows, -, hid, -⟩ := rows_of_createMessage hok
        exact .inr (.inr ⟨rfl, message, env, u, c, content, ids, hrows, hid.symm, rfl⟩)
      · obtain ⟨-, -, ⟨x, -, rfl, -⟩ | ⟨-, -, rfl, -⟩⟩ := Services.createDirect_eq_ok hok
        · exact .inr (.inl ⟨rfl, hnone⟩)
        · exact .inr (.inl ⟨rfl, hnone⟩)
      · exact .inr (.inl ⟨hkept.messages, hnone⟩)

end Chatterbox.Realtime.Dispatch
