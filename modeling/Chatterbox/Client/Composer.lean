import Chatterbox.Realtime.Dispatch

/-!
# Typing, from the composer to the peer

A user types into the composer of a conversation, and the peer sees it.  Three timers
have to agree on what that means:

| timer | set | when it ends |
|---|---|---|
| `typingTimerRef` of `ChatPage` | at every keystroke, to 1.5 seconds | `typing.stop` is sent |
| the deadline in Redis | by `typing.start`, to the TTL | the next sweep publishes `typing.stop` |
| the `TypingTracker`'s, without Redis | by `typing.start`, to its TTL | it sends `typing.stop` |

The client sends `typing.start` once for a burst of keystrokes: it remembers the
conversation in `typingConversationRef` and says nothing more until it has stopped.  So
the deadline is that of the first keystroke, however long the burst is, and the peer
sees the user typing until that deadline has been noticed (`keeps_showing_iff`).

The machine below is one client whose socket is open, the server with its typing state
as `Dispatch` has it, and the peer's `typingUsers`; events arrive at once, and nothing is
rate limited.  Every step carries the time, in milliseconds, and times do not go back.
-/

namespace Chatterbox.Client.Composer

open Realtime Dispatch
open Typing (Member TypingEvent TypingEventData Envelope expired)

/-! ## The peer -/

/-- `ChatState.typingUsers`, by conversation. -/
abbrev TypingUsers := UUID → List UUID

/-- `setTyping`. -/
def setTyping (users : TypingUsers) (conversationId userId : UUID) (typing : Bool) : TypingUsers :=
  Function.update users conversationId
    (if typing then
      if userId ∈ users conversationId then users conversationId
      else users conversationId ++ [userId]
    else (users conversationId).filter (· ≠ userId))

/-- `handleEvent`, as far as it is about typing. -/
def handleEvent (users : TypingUsers) : ServerEvent → TypingUsers
  | .typing (.started data) => setTyping users data.conversationId data.userId true
  | .typing (.stopped data) => setTyping users data.conversationId data.userId false
  | _ => users

/-- What a user makes of the events that are sent to them. -/
def receive (peerId : UUID) (users : TypingUsers) (sent : List Sent) : TypingUsers :=
  (sent.filter (peerId ∈ ·.targets)).foldl (fun users x ↦ handleEvent users x.event) users

/-! ## The machine -/

/-- The conversation, the user and the peer; the two TTLs; whether there is Redis, and the
instance the user is connected to; `String.prototype.trim`. -/
structure Setting where
  app : Services.Settings
  conversationId : UUID
  userId : UUID
  peerId : UUID
  ttl : Instant
  fallbackTtl : Instant
  distributed : Bool
  instanceId : ℕ
  trim : String → String

/-- The client, the server and the peer. -/
structure State where
  clock : Instant
  /-- `typingConversationRef`. -/
  typingConversation : Option UUID
  /-- `typingTimerRef`, by the time at which it is to fire. -/
  typingTimer : Option Instant
  server : Dispatch.State
  /-- When the task of the `TypingTracker` is to wake up. -/
  wakeup : Option Instant
  typingUsers : TypingUsers

variable (g : Setting)

/-- What the server finds when an event of the user arrives. -/
def world (now : Instant) : World where
  instanceId := g.instanceId
  allowed := true
  env := ⟨now, fun _ ↦ 0, true⟩
  later := now
  fails := false
  failsLater := false
  online := fun _ ↦ true
  typingTtl := g.ttl
  backend := if g.distributed then .performed true else .absent

/-- The key of the user's typing state. -/
def Setting.member : Member := Typing.typingMember g.conversationId g.userId

/-- `sendTyping`, on an open socket: the server handles the event, and the peer what comes of it. -/
def sendTyping (now : Instant) (s : State) (conversationId : UUID) (isTyping : Bool) : State :=
  let event :=
    if isTyping then ClientEvent.typingStart conversationId else .typingStop conversationId
  let outcome := dispatchEvent g.app (world g now) s.server g.userId ⟨none, event⟩
  { s with
    server := outcome.state
    wakeup :=
      if isTyping then if g.distributed then s.wakeup else some (now + g.fallbackTtl) else none
    typingUsers := receive g.peerId s.typingUsers outcome.sent }

/-- `stopTyping`. -/
def stopTyping (now : Instant) (s : State) : State :=
  let s := { s with typingTimer := none }
  match s.typingConversation with
  | none => s
  | some conversationId =>
      { sendTyping g now s conversationId false with typingConversation := none }

/-- `updateDraft`, while the connection is up. -/
def updateDraft (now : Instant) (value : String) (s : State) : State :=
  if g.trim value = "" then stopTyping g now s
  else
    let s :=
      if s.typingConversation ≠ some g.conversationId then
        { sendTyping g now (stopTyping g now s) g.conversationId true with
          typingConversation := some g.conversationId }
      else s
    { s with typingTimer := some (now + 1500) }

/-- A step, and when it is taken. -/
inductive Action where
  | draft (now : Instant) (value : String)
  /-- The timer of the composer fires, at its time or later. -/
  | idle (now : Instant)
  /-- An instance sweeps. -/
  | sweep (now : Instant)
  /-- The task of the tracker wakes up, at its time or later. -/
  | wake (now : Instant)
deriving DecidableEq, Repr

def Action.now : Action → Instant
  | .draft now _ | .idle now | .sweep now | .wake now => now

/-- A step of the server by itself. -/
def serve (s : State) (a : Dispatch.Action) : Option State :=
  (perform g.app s.server a).map fun (server, sent) ↦
    { s with server, typingUsers := receive g.peerId s.typingUsers sent }

/-- What a step does. -/
def act (s : State) : Action → Option State
  | .draft now value => some (updateDraft g now value s)
  | .idle now => if ∃ due ∈ s.typingTimer, due ≤ now then some (stopTyping g now s) else none
  | .sweep now => if g.distributed then serve g s (.sweep now) else none
  | .wake now =>
      if ∃ due ∈ s.wakeup, due ≤ now then
        serve g { s with wakeup := none } (.expire g.instanceId g.member)
      else none

/-- One step. -/
def step (s : State) (a : Action) : Option State :=
  if s.clock ≤ a.now then act g { s with clock := a.now } a else none

/-! ## Bursts -/

/-- When there were keystrokes. -/
def draftTimes (as : List Action) : List Instant :=
  as.filterMap fun a ↦ match a with
    | .draft now _ => some now
    | _ => none

/-- A run up to the last keystroke of a burst: none is blank, and each comes less than 1.5
seconds after the one before. -/
structure Burst (as : List Action) : Prop where
  last : ∃ rest now value, as = rest ++ [.draft now value]
  text : ∀ now value, .draft now value ∈ as → g.trim value ≠ ""
  steady : (draftTimes as).IsChain fun before now ↦ now < before + 1500

/-- The peer sees the user typing. -/
def Shown (s : State) : Prop := g.userId ∈ s.typingUsers g.conversationId

/-- A step notices that the deadline of the keystroke at `first` has passed: a sweep that has
the user's entry among those it takes, or the task of the tracker. -/
def Notices (first : Instant) (s : State) : Action → Prop
  | .sweep now => first + g.ttl ≤ now ∧ g.member ∈ expired now s.server.typing
  | .wake now => first + g.fallbackTtl ≤ now
  | .draft .. | .idle _ => False

instance (first : Instant) (s : State) : DecidablePred (Notices g first s)
  | .sweep _ => inferInstanceAs (Decidable (_ ∧ _))
  | .wake _ => inferInstanceAs (Decidable (_ ≤ _))
  | .draft .. | .idle _ => .isFalse id

instance (s : State) : Decidable (Shown g s) := inferInstanceAs (Decidable (_ ∈ _))

/-- Nothing is typed, and nothing is left of an earlier burst. -/
structure Ready (s : State) : Prop where
  reachable : ∃ past, exec (Dispatch.step g.app) .initial past = some s.server
  user : g.userId ∈ s.server.store.memberIds g.conversationId
  peer : g.peerId ∈ s.server.store.memberIds g.conversationId
  distinct : g.peerId ≠ g.userId
  conversation : s.typingConversation = none
  wakeup : s.wakeup = none

variable {g} {s t : State} {first last now : Instant} {users : TypingUsers} {c u v : UUID}

/-! ## What the peer sees -/

theorem mem_setTyping_true : u ∈ setTyping users c u true c := by
  rw [setTyping, Function.update_self, if_pos rfl]
  split
  · assumption
  · exact List.mem_append_right _ List.mem_cons_self

theorem mem_setTyping_false {c' u' : UUID} :
    u ∈ setTyping users c' u' false c ↔ u ∈ users c ∧ ¬ (c' = c ∧ u' = u) := by
  rw [setTyping, if_neg Bool.false_ne_true]
  by_cases h : c = c'
  · subst h
    rw [Function.update_self, List.mem_filter, decide_eq_true_iff]
    simp [eq_comm]
  · rw [Function.update_of_ne h]
    simp [Ne.symm h]

/-- Events that say that somebody has stopped: the user is still shown unless it is them. -/
theorem mem_receive_stopped {sent : List Sent}
    (hstopped : ∀ x ∈ sent, ∃ data, x.event = .typing (.stopped data)) :
    u ∈ receive v users sent c ↔
      u ∈ users c ∧ ∀ x ∈ sent, v ∈ x.targets → x.event ≠ .typing (.stopped ⟨c, u⟩) := by
  induction sent generalizing users with
  | nil => simp [receive]
  | cons x sent ih =>
      obtain ⟨data, hdata⟩ := hstopped x List.mem_cons_self
      have hrest : ∀ y ∈ sent, ∃ data, y.event = .typing (.stopped data) := fun y hy ↦
        hstopped y (List.mem_cons_of_mem _ hy)
      rw [List.forall_mem_cons, hdata]
      by_cases hv : v ∈ x.targets
      · have hstep : receive v users (x :: sent) =
            receive v (setTyping users data.conversationId data.userId false) sent := by
          simp only [receive, List.filter_cons, hv, decide_true, if_true, List.foldl_cons]
          rw [hdata]
          rfl
        rw [hstep, ih hrest, mem_setTyping_false, and_assoc]
        refine and_congr_right fun _ ↦ and_congr_left fun _ ↦ ?_
        obtain ⟨c', u'⟩ := data
        simp [hv]
      · have hstep : receive v users (x :: sent) = receive v users sent := by
          rw [receive, List.filter_cons_of_neg (by simpa using hv), receive]
        rw [hstep, ih hrest]
        simp [hv]

/-! ## What the typing state is about -/

/-- What Redis keeps for a member is the event that the member has stopped. -/
def Labelled (server : Dispatch.State) : Prop :=
  ∀ m envelope, server.typing.data m = some envelope →
    ∃ data : TypingEventData, envelope.event = .stopped data ∧ data.member = m

/-- What an event of a user does to the typing state: nothing, or one member is started or
stopped. -/
def Touches (w : World) (before after : Typing.Store Envelope) : Prop :=
  after = before ∨
    (∃ (data : TypingEventData) (targets : List UUID),
      after = Typing.startPipeline w.typingTtl w.env.now data.member ⟨targets, .stopped data⟩
        before) ∨
    ∃ data : TypingEventData, after = Typing.stopPipeline data.member before

theorem typing_handleMessageSend {st : Services.Settings} {w : World} {server : Dispatch.State}
    {requestId : Option String} {content : String} {ids : List UUID} :
    (handleMessageSend st w server u requestId c content ids).state.typing = server.typing := by
  rw [handleMessageSend]
  split
  · rfl
  split
  · rfl
  dsimp only
  split_ifs <;> rfl

theorem typing_handleMessageRead {w : World} {server : Dispatch.State} {requestId : Option String}
    {id : UUID} : (handleMessageRead w server u requestId c id).state.typing = server.typing := by
  rw [handleMessageRead]
  split
  · rfl
  split <;> rfl

theorem touches_typingStart {w : World} {server : Dispatch.State} {memberIds : List UUID} :
    Touches w server.typing (typingStart w server c u memberIds).state.typing := by
  rw [typingStart]
  dsimp only
  split
  · exact .inl rfl
  · exact .inl rfl
  · refine .inr (.inl ⟨⟨c, u⟩, memberIds.filter (· ≠ u), ?_⟩)
    split_ifs <;> rfl

theorem touches_typingStop {w : World} {server : Dispatch.State} {memberIds : List UUID} :
    Touches w server.typing (typingStop w server c u memberIds).state.typing := by
  rw [typingStop]
  dsimp only
  split
  · exact .inl rfl
  · exact .inl rfl
  · refine .inr (.inr ⟨⟨c, u⟩, ?_⟩)
    split_ifs <;> rfl

theorem touches_handleTyping {w : World} {server : Dispatch.State}
    {forward : World → Dispatch.State → UUID → UUID → List UUID → Outcome}
    (h : Touches w server.typing
      (forward w server c u (server.store.memberIds c)).state.typing) :
    Touches w server.typing (handleTyping w server u c forward).state.typing := by
  rw [handleTyping]
  split
  · exact .inl rfl
  split
  · exact .inl rfl
  · exact h

theorem touches_dispatchEvent (st : Services.Settings) (w : World) (server : Dispatch.State)
    (u : UUID) (payload : Payload) :
    Touches w server.typing (dispatchEvent st w server u payload).state.typing := by
  have hstate : (dispatchEvent st w server u payload).state =
      (handle st w server u payload).state := by
    rw [dispatchEvent]
    split <;> rfl
  rw [hstate, handle]
  split
  · exact .inl rfl
  split
  · exact .inl typing_handleMessageSend
  · exact .inl typing_handleMessageRead
  · exact touches_handleTyping touches_typingStart
  · exact touches_handleTyping touches_typingStop

/-- Every step of the server keeps the labels. -/
theorem Labelled.perform {st : Services.Settings} {server after : Dispatch.State}
    {a : Dispatch.Action} {sent : List Sent} (h : Labelled server)
    (ha : Dispatch.perform st server a = some (after, sent)) : Labelled after := by
  intro m envelope hm
  cases a with
  | dispatch w userId payload =>
      cases ha
      obtain hsame | ⟨data, targets, hstart⟩ | ⟨data, hstop⟩ :=
        touches_dispatchEvent st w server userId payload
      · rw [hsame] at hm
        exact h m envelope hm
      · rw [hstart, Typing.data_startPipeline] at hm
        split at hm
        · next hmember =>
            cases hm
            exact ⟨data, rfl, hmember.symm⟩
        · exact h m envelope hm
      · rw [hstop, Typing.data_stopPipeline] at hm
        split at hm
        · cases hm
        · exact h m envelope hm
  | sweep now =>
      cases ha
      exact h m envelope (Typing.data_of_claim hm)
  | expire instanceId member =>
      obtain ⟨_, -, hpair⟩ := Option.map_eq_some_iff.mp ha
      cases hpair
      exact h m envelope hm
  | transaction a =>
      obtain ⟨_, -, hpair⟩ := Option.map_eq_some_iff.mp ha
      cases hpair
      exact h m envelope hm

theorem Labelled.initial : Labelled .initial := nofun

theorem Labelled.of_exec {st : Services.Settings} {server : Dispatch.State}
    {past : List Dispatch.Action} (hrun : exec (Dispatch.step st) .initial past = some server) :
    Labelled server := by
  refine exec_invariant (fun hs ht ↦ ?_) Labelled.initial hrun
  obtain ⟨⟨after, sent⟩, hperform, rfl⟩ := Option.map_eq_some_iff.mp ht
  exact hs.perform hperform

/-! ## While the user is typing -/

/-- What is kept for the user, and is sent to the peer at the deadline. -/
def Setting.expiry (g : Setting) (targets : List UUID) : Envelope :=
  ⟨targets, .stopped ⟨g.conversationId, g.userId⟩⟩

/-- After a burst that began at `first` and whose last keystroke was at `last`, as long as
nobody has noticed that the deadline has passed. -/
structure Writing (g : Setting) (first last : Instant) (s : State) : Prop where
  clock : last ≤ s.clock
  conversation : s.typingConversation = some g.conversationId
  timer : s.typingTimer = some (last + 1500)
  shown : Shown g s
  labelled : Labelled s.server
  deadline : g.distributed = true → s.wakeup = none ∧
    s.server.typing.expirations.score g.member = some (first + g.ttl) ∧
    ∃ targets, g.peerId ∈ targets ∧ s.server.typing.data g.member = some (g.expiry targets)
  task : g.distributed = false → s.wakeup = some (first + g.fallbackTtl) ∧
    ∃ targets, g.peerId ∈ targets ∧
      s.server.tracker g.instanceId g.member = some (g.expiry targets)

theorem step_eq_some {a : Action} : step g s a = some t ↔
    s.clock ≤ a.now ∧ act g { s with clock := a.now } a = some t := by
  rw [step]
  split
  · next h => exact ⟨fun ht ↦ ⟨h, ht⟩, fun ht ↦ ht.2⟩
  · next h => exact iff_of_false nofun fun ht ↦ h ht.1

theorem clock_stopTyping : (stopTyping g now s).clock = s.clock := by
  rw [stopTyping]
  split <;> rfl

theorem sendToUsers_eq {targets : List UUID} {event : ServerEvent} (hv : v ∈ targets) :
    sendToUsers targets event = [⟨targets.eraseDups, event⟩] := by
  refine if_neg fun hnil ↦ ?_
  exact List.not_mem_nil (hnil ▸ List.mem_eraseDups.mpr hv)

/-- A started event reaches its target. -/
theorem mem_receive_started {targets : List UUID} (hv : v ∈ targets) :
    u ∈ receive v users [⟨targets, .typing (.started ⟨c, u⟩)⟩] c := by
  rw [receive, List.filter_cons_of_pos (by simpa using hv)]
  exact mem_setTyping_true

/-- What `typing.start` of the user does: the expiry is kept, in Redis or by the tracker, and
the others are told. -/
theorem dispatchEvent_typingStart {server : Dispatch.State} {targets : List UUID}
    (hu : g.userId ∈ server.store.memberIds g.conversationId)
    (htargets : (server.store.memberIds g.conversationId).filter (· ≠ g.userId) = targets) :
    dispatchEvent g.app (world g now) server g.userId ⟨none, .typingStart g.conversationId⟩ =
      if g.distributed then
        ⟨{ server with
            typing := Typing.startPipeline g.ttl now g.member (g.expiry targets) server.typing },
          [⟨targets, .typing (.started ⟨g.conversationId, g.userId⟩)⟩], none⟩
      else
        ⟨server.setTask g.instanceId g.member (some (g.expiry targets)),
          sendToUsers targets (.typing (.started ⟨g.conversationId, g.userId⟩)), none⟩ := by
  have hhandle :
      handle g.app (world g now) server g.userId ⟨none, .typingStart g.conversationId⟩ =
        handleTyping (world g now) server g.userId g.conversationId typingStart := rfl
  have hfails : ¬ (world g now).fails = true := Bool.false_ne_true
  rw [dispatchEvent, hhandle, handleTyping, if_neg hfails, if_neg (not_not.mpr hu), typingStart,
    htargets]
  dsimp only [world]
  cases g.distributed <;> rfl

/-- The first keystroke of a burst. -/
theorem Ready.draft {value : String} (h : Ready g s) (hvalue : g.trim value ≠ "")
    (ht : step g s (.draft now value) = some t) : Writing g now now t := by
  obtain ⟨past, hpast⟩ := h.reachable
  have hlabelled := Labelled.of_exec hpast
  obtain ⟨-, hact⟩ := step_eq_some.mp ht
  have hpeer : g.peerId ∈ (s.server.store.memberIds g.conversationId).filter (· ≠ g.userId) :=
    List.mem_filter.mpr ⟨h.peer, decide_eq_true h.distinct⟩
  have hstop : stopTyping g now { s with clock := now } =
      { s with clock := now, typingTimer := none } := by
    simp [stopTyping, h.conversation]
  obtain rfl := Option.some.inj hact
  rw [updateDraft, if_neg hvalue, if_pos (by simp [h.conversation]), Action.now, hstop,
    sendTyping]
  dsimp only
  rw [if_pos rfl, dispatchEvent_typingStart h.user rfl]
  generalize (s.server.store.memberIds g.conversationId).filter (· ≠ g.userId) = targets at hpeer
  cases hd : g.distributed with
  | true =>
      exact {
        clock := le_rfl
        conversation := rfl
        timer := rfl
        shown := mem_receive_started hpeer
        labelled := by
          intro m envelope hm
          rw [if_pos rfl, Typing.data_startPipeline] at hm
          split at hm
          · next hmember =>
              cases hm
              exact ⟨_, rfl, hmember.symm⟩
          · exact hlabelled m envelope hm
        deadline := fun _ ↦
          ⟨h.wakeup, Typing.score_startPipeline.trans (if_pos rfl), targets, hpeer,
            Typing.data_startPipeline.trans (if_pos rfl)⟩
        task := fun hd' ↦ absurd (hd.symm.trans hd') (by decide) }
  | false =>
      exact {
        clock := le_rfl
        conversation := rfl
        timer := rfl
        shown := by
          simp only [Shown, if_neg Bool.false_ne_true]
          rw [sendToUsers_eq hpeer]
          exact mem_receive_started (List.mem_eraseDups.mpr hpeer)
        labelled := hlabelled
        deadline := fun hd' ↦ absurd (hd.symm.trans hd') (by decide)
        task := fun _ ↦ ⟨rfl, targets, hpeer, by simp [State.setTask]⟩ }

/-- Another keystroke: only the timer of the composer is set again. -/
theorem Writing.draft (h : Writing g first last s) {value : String} (hvalue : g.trim value ≠ "")
    (ht : step g s (.draft now value) = some t) : Writing g first now t := by
  obtain ⟨-, hact⟩ := step_eq_some.mp ht
  obtain rfl := Option.some.inj hact
  rw [updateDraft, if_neg hvalue, if_neg (not_not.mpr h.conversation)]
  exact { h with clock := le_rfl, timer := rfl }

/-- The timer of the composer fires no sooner than 1.5 seconds after the last keystroke. -/
theorem Writing.idle (h : Writing g first last s) (ht : step g s (.idle now) = some t) :
    last + 1500 ≤ now ∧ t.clock = now := by
  obtain ⟨-, hact⟩ := step_eq_some.mp ht
  rw [act] at hact
  split at hact
  · next hdue =>
      obtain ⟨due, htimer, hdue⟩ := hdue
      obtain rfl : last + 1500 = due := Option.some.inj (h.timer.symm.trans htimer)
      obtain rfl := Option.some.inj hact
      exact ⟨hdue, clock_stopTyping⟩
  · cases hact

/-- What a sweep publishes says that somebody has stopped. -/
theorem Labelled.stopped_of_sweep {server : Dispatch.State} (h : Labelled server) :
    ∀ x ∈ (Typing.sweepScript now server.typing).1.map expirySent,
      ∃ data, x.event = .typing (.stopped data) := by
  intro x hx
  obtain ⟨envelope, henvelope, rfl⟩ := List.mem_map.mp hx
  rw [Typing.sweepScript_fst] at henvelope
  obtain ⟨m, -, hm⟩ := List.mem_filterMap.mp henvelope
  obtain ⟨data, hevent, -⟩ := h m envelope hm
  exact ⟨data, congrArg ServerEvent.typing hevent⟩

/-- A sweep shows the peer that the user has stopped just when it takes the user's entry. -/
theorem Writing.sweep (h : Writing g first last s) (ht : step g s (.sweep now) = some t) :
    (Notices g first s (.sweep now) → ¬ Shown g t) ∧
      (¬ Notices g first s (.sweep now) → Writing g first last t) := by
  obtain ⟨hclock, hact⟩ := step_eq_some.mp ht
  rw [act] at hact
  split at hact
  on_goal 2 => cases hact
  rename_i hd
  obtain ⟨hwakeup, hscore, targets, hpeer, hdata⟩ := h.deadline hd
  obtain ⟨⟨server, sent⟩, hperform, rfl⟩ := Option.map_eq_some_iff.mp hact
  have hkept : Labelled server := h.labelled.perform hperform
  cases hperform
  have hseen : g.userId ∈ receive g.peerId s.typingUsers
      ((Typing.sweepScript now s.server.typing).1.map expirySent) g.conversationId ↔ _ :=
    mem_receive_stopped h.labelled.stopped_of_sweep
  constructor
  · rintro ⟨-, hexpired⟩ hshown
    have hsent : expirySent (g.expiry targets) ∈
        (Typing.sweepScript now s.server.typing).1.map expirySent := by
      rw [Typing.sweepScript_fst]
      exact List.mem_map_of_mem (List.mem_filterMap.mpr ⟨g.member, hexpired, hdata⟩)
    exact (hseen.mp hshown).2 _ hsent hpeer rfl
  · intro hunnoticed
    -- An entry that is due but not taken stays; one that is not due is not taken.
    have hexpired : g.member ∉ Typing.expired now s.server.typing := by
      intro hmem
      obtain ⟨x, hx, hdue⟩ := Typing.score_of_mem_expired hmem
      obtain rfl : first + g.ttl = x := Option.some.inj (hscore.symm.trans hx)
      exact hunnoticed ⟨hdue, hmem⟩
    refine {
      clock := h.clock.trans hclock
      conversation := h.conversation
      timer := h.timer
      shown := hseen.mpr ⟨h.shown, ?_⟩
      labelled := hkept
      deadline := fun _ ↦ ⟨hwakeup, ?_, targets, hpeer, ?_⟩
      task := h.task }
    · intro x hx _ hevent
      obtain ⟨envelope, henvelope, rfl⟩ := List.mem_map.mp hx
      rw [Typing.sweepScript_fst] at henvelope
      obtain ⟨m, hm, henvelope⟩ := List.mem_filterMap.mp henvelope
      obtain ⟨data, hstopped, hmember⟩ := h.labelled m envelope henvelope
      have hdata : ServerEvent.typing (.stopped data) =
          .typing (.stopped ⟨g.conversationId, g.userId⟩) := by
        rw [← hstopped]
        exact hevent
      cases hdata
      obtain rfl : g.member = m := hmember
      exact hexpired hm
    · exact (Typing.score_claim _ _).trans ((if_neg hexpired).trans hscore)
    · exact (Typing.data_claim_of_notMem hexpired).trans hdata

/-- The task of the tracker shows the peer that the user has stopped. -/
theorem Writing.wake (h : Writing g first last s) (ht : step g s (.wake now) = some t) :
    Notices g first s (.wake now) ∧ ¬ Shown g t := by
  obtain ⟨-, hact⟩ := step_eq_some.mp ht
  rw [act] at hact
  split at hact
  on_goal 2 => cases hact
  rename_i hdue
  obtain ⟨due, hwakeup, hdue⟩ := hdue
  cases hd : g.distributed with
  | true => exact absurd (hwakeup.symm.trans (h.deadline hd).1) nofun
  | false =>
      obtain ⟨hset, targets, hpeer, htask⟩ := h.task hd
      obtain rfl : first + g.fallbackTtl = due := Option.some.inj (hset.symm.trans hwakeup)
      obtain ⟨⟨server, sent⟩, hperform, rfl⟩ := Option.map_eq_some_iff.mp hact
      obtain ⟨envelope, henvelope, hpair⟩ := Option.map_eq_some_iff.mp hperform
      obtain rfl : g.expiry targets = envelope := Option.some.inj (htask.symm.trans henvelope)
      cases hpair
      refine ⟨hdue, fun hshown ↦ ?_⟩
      have hsent : g.userId ∈ receive g.peerId s.typingUsers
          (sendToUsers targets (.typing (g.expiry targets).event)) g.conversationId := hshown
      rw [sendToUsers_eq hpeer, mem_receive_stopped (by simp [Setting.expiry])] at hsent
      exact hsent.2 _ List.mem_cons_self (List.mem_eraseDups.mpr hpeer) rfl

theorem clock_act {a : Action} (ht : act g s a = some t) : t.clock = s.clock := by
  cases a with
  | draft now value =>
      obtain rfl := Option.some.inj ht
      rw [updateDraft]
      split_ifs
      · exact clock_stopTyping
      · exact clock_stopTyping
      · rfl
  | idle now =>
      rw [act] at ht
      split at ht
      · obtain rfl := Option.some.inj ht
        exact clock_stopTyping
      · cases ht
  | sweep now =>
      rw [act] at ht
      split at ht
      · obtain ⟨_, -, rfl⟩ := Option.map_eq_some_iff.mp ht
        rfl
      · cases ht
  | wake now =>
      rw [act] at ht
      split at ht
      · obtain ⟨_, -, rfl⟩ := Option.map_eq_some_iff.mp ht
        rfl
      · cases ht

/-- Times do not go back. -/
theorem clock_le_of_exec {as : List Action} (hrun : exec (step g) s as = some t) :
    ∀ a ∈ as, s.clock ≤ a.now := by
  induction as generalizing s with
  | nil => exact nofun
  | cons a as ih =>
      obtain ⟨m, hm, hrest⟩ := exec_cons_eq_some.mp hrun
      obtain ⟨hle, hact⟩ := step_eq_some.mp hm
      intro b hb
      rcases List.mem_cons.mp hb with rfl | hb
      · exact hle
      · have hclock : m.clock = a.now := clock_act hact
        exact hle.trans (hclock ▸ ih hrest b hb)

/-! ## Bursts -/

/-- The step leads to a state in which the peer sees the user typing. -/
def Shows (g : Setting) (s : State) (a : Action) : Prop := ∀ t, step g s a = some t → Shown g t

/-- A run ends with a keystroke, unless there is nothing left of it. -/
def Ends (as : List Action) : Prop :=
  as = [] ∨ ∃ rest now value, as = rest ++ [.draft now value]

theorem Ends.of_cons {a : Action} {as : List Action} (h : Ends (a :: as)) : Ends as := by
  obtain hnil | ⟨rest, now, value, heq⟩ := h
  · cases hnil
  · cases rest with
    | nil => exact .inl (List.cons.inj heq).2
    | cons _ rest => exact .inr ⟨rest, now, value, (List.cons.inj heq).2⟩

/-- The next keystroke of a run that ends with one. -/
theorem Ends.exists_draft {as : List Action} (h : Ends as) (hne : as ≠ []) :
    ∃ next times value, draftTimes as = next :: times ∧ .draft next value ∈ as := by
  obtain ⟨rest, now, value, rfl⟩ := h.resolve_left hne
  cases htimes : draftTimes (rest ++ [.draft now value]) with
  | nil => simp [draftTimes] at htimes
  | cons next times =>
      have hnext : next ∈ draftTimes (rest ++ [.draft now value]) := htimes ▸ List.mem_cons_self
      obtain ⟨a, ha, hsome⟩ := List.mem_filterMap.mp hnext
      cases a with
      | draft now value =>
          obtain rfl := Option.some.inj hsome
          exact ⟨now, times, value, rfl, ha⟩
      | idle now => cases hsome
      | sweep now => cases hsome
      | wake now => cases hsome

/-- While keystrokes are to come, the timer of the composer does not fire. -/
theorem Writing.not_idle (h : Writing g first last s) {as : List Action}
    (hends : Ends (.idle now :: as))
    (hsteady : (last :: draftTimes as).IsChain fun before now ↦ now < before + 1500) :
    exec (step g) s (.idle now :: as) ≠ some t := by
  intro hrun
  obtain ⟨m, hm, hrest⟩ := exec_cons_eq_some.mp hrun
  obtain ⟨hdue, hclock⟩ := h.idle hm
  have hne : as ≠ [] := by
    rintro rfl
    obtain hnil | ⟨rest, now, value, heq⟩ := hends
    · cases hnil
    · cases rest with
      | nil => cases heq
      | cons _ rest => exact absurd (List.cons.inj heq).2.symm (by simp)
  obtain ⟨next, times, value, htimes, hnext⟩ := hends.of_cons.exists_draft hne
  rw [htimes] at hsteady
  have hlt : next < last + 1500 := (List.isChain_cons_cons.mp hsteady).1
  have hle : m.clock ≤ next := clock_le_of_exec hrest _ hnext
  exact absurd (hdue.trans (hclock ▸ hle)) (not_le.mpr hlt)

/-- What is left of a burst: the user stays shown unless a step notices the deadline. -/
theorem Writing.along (h : Writing g first last s) {as : List Action}
    (htext : ∀ now value, .draft now value ∈ as → g.trim value ≠ "") (hends : Ends as)
    (hsteady : (last :: draftTimes as).IsChain fun before now ↦ now < before + 1500)
    (hrun : exec (step g) s as = some t) :
    Along (step g) (Shows g) s as ↔ Along (step g) (fun s a ↦ ¬ Notices g first s a) s as := by
  induction as generalizing s last with
  | nil => exact Iff.rfl
  | cons a as ih =>
      obtain ⟨m, hm, hrest⟩ := exec_cons_eq_some.mp hrun
      have htext' : ∀ now value, .draft now value ∈ as → g.trim value ≠ "" :=
        fun now value hmem ↦ htext now value (List.mem_cons_of_mem a hmem)
      have hshows : Shows g s a ↔ Shown g m :=
        ⟨fun hall ↦ hall m hm, fun hshown t ht ↦ Option.some.inj (hm.symm.trans ht) ▸ hshown⟩
      rw [along_cons_iff hm, along_cons_iff hm, hshows]
      cases a with
      | draft now value =>
          have hkept := h.draft (htext now value List.mem_cons_self) hm
          refine and_congr (iff_of_true hkept.shown id) ?_
          exact ih hkept htext' hends.of_cons (List.isChain_cons_cons.mp hsteady).2 hrest
      | idle now => exact absurd hrun (h.not_idle hends hsteady)
      | sweep now =>
          obtain ⟨hnoticed, hkept⟩ := h.sweep hm
          by_cases hnotices : Notices g first s (.sweep now)
          · exact iff_of_false (fun hall ↦ hnoticed hnotices hall.1) fun hall ↦ hall.1 hnotices
          · have hwriting := hkept hnotices
            refine and_congr (iff_of_true hwriting.shown hnotices) ?_
            exact ih hwriting htext' hends.of_cons hsteady hrest
      | wake now =>
          obtain ⟨hnotices, hhidden⟩ := h.wake hm
          exact iff_of_false (fun hall ↦ hhidden hall.1) fun hall ↦ hall.1 hnotices

/-- **The peer sees the user typing until the deadline of the first keystroke is noticed.**
From the first to the last keystroke of a burst, every state shows the user typing if and
only if no step is a sweep that takes the user's entry, or the task of the tracker, the TTL
or more after the first keystroke. -/
theorem keeps_showing_iff {value : String} {rest : List Action} (hready : Ready g s)
    (hburst : Burst g (.draft first value :: rest))
    (hrun : exec (step g) s (.draft first value :: rest) = some t) :
    Along (step g) (Shows g) s (.draft first value :: rest) ↔
      Along (step g) (fun s a ↦ ¬ Notices g first s a) s (.draft first value :: rest) := by
  obtain ⟨m, hm, hrest⟩ := exec_cons_eq_some.mp hrun
  have hwriting := hready.draft (hburst.text first value List.mem_cons_self) hm
  have hends : Ends (.draft first value :: rest) := .inr hburst.last
  rw [along_cons_iff hm, along_cons_iff hm]
  refine and_congr (iff_of_true (fun t ht ↦ ?_) id) ?_
  · exact Option.some.inj (hm.symm.trans ht) ▸ hwriting.shown
  · exact hwriting.along (fun now v hv ↦ hburst.text now v (List.mem_cons_of_mem _ hv))
      hends.of_cons hburst.steady hrest

/-- A burst that is over before the deadline of its first keystroke is shown throughout. -/
theorem not_notices_of_short {as : List Action}
    (hshort : ∀ a ∈ as, a.now < first + g.ttl ∧ a.now < first + g.fallbackTtl) :
    Along (step g) (fun s a ↦ ¬ Notices g first s a) s as := by
  induction as generalizing s with
  | nil => trivial
  | cons a as ih =>
      obtain ⟨hserver, htracker⟩ := hshort a List.mem_cons_self
      refine ⟨?_, fun t _ ↦ ih fun b hb ↦ hshort b (List.mem_cons_of_mem a hb)⟩
      cases a with
      | draft now value => exact id
      | idle now => exact id
      | sweep now => exact fun hnotices ↦ absurd hnotices.1 (not_le.mpr hserver)
      | wake now => exact not_le.mpr htracker

/-! ## A long burst -/

/-- Two users who have a conversation, and a TTL of five seconds. -/
def pair : Setting := ⟨Services.plain, 10, 1, 2, 5000, 5000, true, 0, id⟩

/-- Nobody is typing. -/
def desk (server : Dispatch.State) : State := ⟨0, none, none, server, none, fun _ ↦ []⟩

/-- A keystroke, and another one second later; an instance sweeps in between. -/
def shortBurst : List Action := [.draft 0 "h", .sweep 500, .draft 1000 "hi"]

/-- A keystroke every 1.4 seconds, and a sweep after five. -/
def longBurst : List Action :=
  [.draft 0 "h", .draft 1400 "he", .draft 2800 "hel", .draft 4200 "hell", .sweep 5000,
    .draft 5600 "hello"]

theorem burst_shortBurst : Burst pair shortBurst where
  last := ⟨[.draft 0 "h", .sweep 500], 1000, "hi", rfl⟩
  text now value h := by
    simp only [shortBurst, List.mem_cons, Action.draft.injEq, reduceCtorEq, List.not_mem_nil,
      or_false, false_or] at h
    obtain ⟨-, rfl⟩ | ⟨-, rfl⟩ := h <;> decide
  steady := by decide

theorem burst_longBurst : Burst pair longBurst where
  last := ⟨longBurst.take 5, 5600, "hello", rfl⟩
  text now value h := by
    simp only [longBurst, List.mem_cons, Action.draft.injEq, reduceCtorEq, List.not_mem_nil,
      or_false, false_or] at h
    obtain ⟨-, rfl⟩ | ⟨-, rfl⟩ | ⟨-, rfl⟩ | ⟨-, rfl⟩ | ⟨-, rfl⟩ := h <;> decide
  steady := by decide

/-- A short burst is shown throughout. -/
theorem keeps_showing_shortBurst : ∃ server, Ready pair (desk server) ∧ Burst pair shortBurst ∧
    Along (step pair) (Shows pair) (desk server) shortBurst := by
  obtain ⟨server, hready, t, hrun⟩ : ∃ server, Ready pair (desk server) ∧
      ∃ t, exec (step pair) (desk server) shortBurst = some t :=
    ⟨_, ⟨⟨typed.take 4, rfl⟩, by decide, by decide, by decide, rfl, rfl⟩, _, rfl⟩
  refine ⟨server, hready, burst_shortBurst, ?_⟩
  refine (keeps_showing_iff hready burst_shortBurst hrun).mpr (not_notices_of_short ?_)
  decide

/-- The sweep hides the user from the peer, although the next keystroke is in time. -/
theorem long_burst_hidden : ∃ server t, Ready pair (desk server) ∧ Burst pair longBurst ∧
    exec (step pair) (desk server) longBurst = some t ∧
    ¬ Along (step pair) (Shows pair) (desk server) longBurst := by
  obtain ⟨server, t, m, hready, hrun, hm, hhidden⟩ : ∃ server t m, Ready pair (desk server) ∧
      exec (step pair) (desk server) longBurst = some t ∧
      exec (step pair) (desk server) (longBurst.take 5) = some m ∧ ¬ Shown pair m :=
    ⟨_, _, _, ⟨⟨typed.take 4, rfl⟩, by decide, by decide, by decide, rfl, rfl⟩, rfl, rfl,
      by decide⟩
  refine ⟨server, t, hready, burst_longBurst, hrun, fun hall ↦ hhidden ?_⟩
  obtain ⟨n, hn, hsweep⟩ := exec_append_eq_some.mp
    (show exec (step pair) (desk server) (longBurst.take 4 ++ [.sweep 5000]) = some m from hm)
  obtain ⟨_, hlast, hnil⟩ := exec_cons_eq_some.mp hsweep
  cases hnil
  exact along_iff_forall.mp hall (longBurst.take 4) (.sweep 5000) [.draft 5600 "hello"] n rfl hn m
    hlast

end Chatterbox.Client.Composer
