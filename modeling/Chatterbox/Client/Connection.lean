import Chatterbox.Base
import Chatterbox.Run
import Mathlib.Data.Set.Subsingleton

/-!
# The connection of the realtime client

`RealtimeClient` keeps one socket, reopens it after a delay when it closes, and can be
stopped and started again.  It decides by two things that all its sockets share: the
flag `stopped`, and the slot of one retry timer.  A socket that `disconnect` has given
up still has its handlers, and its close event arrives some time after `close()`; when
the client has been started again by then, the handler takes that event for the end of
the connection and arms a timer while the new socket is there.

`Current` says that this does not happen: a close event is that of the client's socket,
or comes while the client is stopped.  In runs whose steps all meet it there is one
connection (`one_connection`), and a close event that does not meet it can always be
followed by a second one (`second_of_late_close`).

| label | what happens |
|---|---|
| `connect`, `disconnect` | the method is called |
| `opened`, `message`, `error`, `closed` | an event of one of the sockets |
| `fire` | a retry timer |

The model keeps every socket and every timer there has been.  An event comes whenever
the state of its socket allows it, and a timer fires at any time after it was set.
-/

namespace Chatterbox.Client.Connection

/-- `WebSocket.readyState`. -/
inductive ReadyState where
  | connecting
  | opened
  | closing
  | closed
deriving DecidableEq, Repr

/-- `ConnectionStatus`. -/
inductive ConnectionStatus where
  | disconnected
  | connecting
  | connected
  | reconnecting
deriving DecidableEq, Repr

/-- The fields of `RealtimeClient`, the sockets it has created, the timers that are
pending with their delays, and what it has reported: the last status, and the argument
of every call of `onOpen`. -/
structure State where
  socket : Option ℕ
  retryTimer : Option ℕ
  retryAttempt : ℕ
  stopped : Bool
  hasConnected : Bool
  sockets : ℕ → Option ReadyState
  created : ℕ
  timers : ℕ → Option ℕ
  armed : ℕ
  status : ConnectionStatus
  opens : List Bool

/-- A client that has been constructed. -/
def initial : State where
  socket := none
  retryTimer := none
  retryAttempt := 0
  stopped := true
  hasConnected := false
  sockets := fun _ ↦ none
  created := 0
  timers := fun _ ↦ none
  armed := 0
  status := .disconnected
  opens := []

inductive Action where
  | connect
  | disconnect
  | opened (socket : ℕ)
  | message (socket : ℕ)
  | error (socket : ℕ)
  | closed (socket : ℕ) (code : ℕ)
  | fire (timer : ℕ)
deriving DecidableEq, Repr

namespace State

/-- `WebSocket.close`. -/
def close (s : State) (socket : ℕ) : State :=
  match s.sockets socket with
  | some .connecting | some .opened =>
      { s with sockets := Function.update s.sockets socket (some .closing) }
  | _ => s

/-- `RealtimeClient.open`, up to the handlers. -/
def openSocket (s : State) : State :=
  { s with
    status := if s.hasConnected then .reconnecting else .connecting
    socket := some s.created
    sockets := Function.update s.sockets s.created (some .connecting)
    created := s.created + 1 }

/-- `RealtimeClient.connect`. -/
def connect (s : State) : State :=
  if ¬ s.stopped then s else openSocket { s with stopped := false }

/-- `clearTimeout` of the timer in the slot, which is emptied. -/
def clearRetryTimer (s : State) : State :=
  { s with
    retryTimer := none
    timers := match s.retryTimer with
      | some timer => Function.update s.timers timer none
      | none => s.timers }

/-- `close` of the client's socket, which is given up. -/
def closeSocket (s : State) : State :=
  match s.socket with
  | some socket => { s.close socket with socket := none }
  | none => s

/-- `RealtimeClient.disconnect`. -/
def disconnect (s : State) : State :=
  { s.clearRetryTimer.closeSocket with stopped := true, status := .disconnected }

/-- `socket.onopen`. -/
def onopen (s : State) : State :=
  { s with
    hasConnected := true
    retryAttempt := 0
    status := .connected
    opens := s.hasConnected :: s.opens }

/-- A timer is set; its identifier goes to the slot. -/
def arm (s : State) (delay : ℕ) : State :=
  { s with
    retryTimer := some s.armed
    timers := Function.update s.timers s.armed (some delay)
    armed := s.armed + 1 }

/-- `socket.onclose`. -/
def onclose (s : State) (socket code : ℕ) : State :=
  let s := { s with socket := if s.socket = some socket then none else s.socket }
  if s.stopped then s
  else if code = 1008 then { s with stopped := true, status := .disconnected }
  else
    { s.arm (min (1000 * 2 ^ s.retryAttempt) 30000) with
      status := .reconnecting, retryAttempt := s.retryAttempt + 1 }

/-- The state of one of the sockets changes. -/
def setReady (s : State) (socket : ℕ) (ready : ReadyState) : State :=
  { s with sockets := Function.update s.sockets socket (some ready) }

/-- The socket is connecting or open. -/
def Live (s : State) (socket : ℕ) : Prop :=
  s.sockets socket = some .connecting ∨ s.sockets socket = some .opened

instance (s : State) : DecidablePred s.Live := fun _ ↦ inferInstanceAs (Decidable (_ ∨ _))

/-- The socket has not had its close event. -/
def Pending (s : State) (socket : ℕ) : Prop :=
  s.Live socket ∨ s.sockets socket = some .closing

instance (s : State) : DecidablePred s.Pending := fun _ ↦ inferInstanceAs (Decidable (_ ∨ _))

end State

/-- One step of the client and of its environment.  A frame of the server does not
change the client: it is handed to `onEvent`, or ignored. -/
def step (s : State) : Action → Option State
  | .connect => some s.connect
  | .disconnect => some s.disconnect
  | .opened socket =>
      if s.sockets socket = some .connecting then some (s.setReady socket .opened).onopen else none
  | .message socket => if s.sockets socket = some .opened then some s else none
  | .error socket => if s.Pending socket then some (s.close socket) else none
  | .closed socket code =>
      if s.Pending socket then some ((s.setReady socket .closed).onclose socket code) else none
  | .fire timer =>
      (s.timers timer).map fun _ ↦
        State.openSocket { s with timers := Function.update s.timers timer none }

variable {s t : State} {a : Action} {j k n code d : ℕ}

/-! ## What the methods do -/

namespace State

@[simp] theorem socket_close : (s.close k).socket = s.socket := by unfold close; split <;> rfl
@[simp] theorem stopped_close : (s.close k).stopped = s.stopped := by unfold close; split <;> rfl
@[simp] theorem timers_close : (s.close k).timers = s.timers := by unfold close; split <;> rfl
@[simp] theorem retryTimer_close : (s.close k).retryTimer = s.retryTimer := by
  unfold close; split <;> rfl
@[simp] theorem armed_close : (s.close k).armed = s.armed := by unfold close; split <;> rfl
@[simp] theorem created_close : (s.close k).created = s.created := by unfold close; split <;> rfl

theorem sockets_close_of_ne (h : j ≠ k) : (s.close k).sockets j = s.sockets j := by
  unfold close
  split <;> first | rfl | exact Function.update_of_ne h ..

/-- A socket that is closed stays there, and is not live any more. -/
theorem sockets_close_self : (s.close k).sockets k =
    if s.Live k then some .closing else s.sockets k := by
  unfold close Live
  split <;> simp_all

theorem sockets_close_none (h : s.sockets j = none) : (s.close k).sockets j = none := by
  by_cases e : j = k
  · subst e
    rw [sockets_close_self, if_neg (by simp [Live, h]), h]
  · rw [sockets_close_of_ne e, h]

/-- Closing leaves a socket pending until its close event. -/
theorem pending_close (h : s.Pending j) : (s.close k).Pending j := by
  by_cases e : j = k
  · subst e
    refine .inr ?_
    rw [sockets_close_self]
    split
    · rfl
    · exact h.resolve_left ‹_›
  · unfold Pending Live at h ⊢
    rwa [sockets_close_of_ne e]

theorem live_of_close (h : (s.close k).Live j) : j ≠ k ∧ s.Live j := by
  have hne : j ≠ k := by
    rintro rfl
    unfold Live at h
    rw [sockets_close_self] at h
    split at h
    · simp at h
    · exact absurd h ‹_›
  unfold Live at h ⊢
  rw [sockets_close_of_ne hne] at h
  exact ⟨hne, h⟩

@[simp] theorem timers_closeSocket : s.closeSocket.timers = s.timers := by
  unfold closeSocket; split <;> simp

@[simp] theorem created_closeSocket : s.closeSocket.created = s.created := by
  unfold closeSocket; split <;> simp

@[simp] theorem retryTimer_closeSocket : s.closeSocket.retryTimer = s.retryTimer := by
  unfold closeSocket; split <;> simp

@[simp] theorem socket_closeSocket : s.closeSocket.socket = none := by
  unfold closeSocket; split <;> simp_all

theorem live_of_closeSocket (h : s.closeSocket.Live j) : s.socket ≠ some j ∧ s.Live j := by
  unfold closeSocket at h
  split at h
  · rename_i k hsocket
    obtain ⟨hne, hlive⟩ := live_of_close h
    exact ⟨fun e ↦ hne (Option.some.inj (e.symm.trans hsocket)), hlive⟩
  · rename_i hsocket
    exact ⟨fun e ↦ Option.some_ne_none _ (e.symm.trans hsocket), h⟩

theorem sockets_closeSocket_none (h : s.sockets j = none) : s.closeSocket.sockets j = none := by
  unfold closeSocket
  split
  · exact sockets_close_none h
  · exact h

theorem timers_of_clearRetryTimer (h : s.clearRetryTimer.timers n ≠ none) :
    s.retryTimer ≠ some n ∧ s.timers n ≠ none := by
  cases hslot : s.retryTimer with
  | none =>
      simp only [clearRetryTimer, hslot] at h
      exact ⟨fun e ↦ Option.some_ne_none _ e.symm, h⟩
  | some timer =>
      simp only [clearRetryTimer, hslot] at h
      by_cases e : n = timer
      · rw [e, Function.update_self] at h
        exact absurd rfl h
      · rw [Function.update_of_ne e] at h
        exact ⟨fun e' ↦ e (Option.some.inj e').symm, h⟩

theorem live_of_disconnect (h : s.disconnect.Live j) : s.socket ≠ some j ∧ s.Live j :=
  live_of_closeSocket (s := s.clearRetryTimer) h

theorem timers_of_disconnect (h : s.disconnect.timers n ≠ none) :
    s.retryTimer ≠ some n ∧ s.timers n ≠ none := by
  refine timers_of_clearRetryTimer ?_
  rwa [← timers_closeSocket]

/-- A new socket is the client's, and it is connecting. -/
theorem live_openSocket : s.openSocket.Live j ↔ j = s.created ∨ s.Live j := by
  unfold Live openSocket
  by_cases e : j = s.created
  · simp [e]
  · simp [e]

/-- A socket that was connecting is open; the others are as they were. -/
theorem live_setReady_opened (hk : s.sockets k = some .connecting) :
    (s.setReady k .opened).Live j ↔ s.Live j := by
  unfold Live setReady
  by_cases e : j = k
  · subst e
    simp [hk]
  · simp [e]

theorem pending_setReady_opened (hk : s.sockets k = some .connecting) :
    (s.setReady k .opened).Pending j ↔ s.Pending j := by
  unfold Pending
  rw [live_setReady_opened hk]
  by_cases e : j = k
  · subst e
    simp [setReady, hk]
  · simp [setReady, e]

theorem live_setReady_closed (h : (s.setReady k .closed).Live j) : j ≠ k ∧ s.Live j := by
  unfold Live setReady at h
  by_cases e : j = k
  · subst e
    simp at h
  · simp only [Function.update_of_ne e] at h
    exact ⟨e, h⟩

end State

/-! ## The invariant -/

/-- A close event is that of the client's socket, or comes while the client is stopped. -/
def Current (s : State) : Action → Prop
  | .closed socket _ => s.stopped = true ∨ s.socket = some socket
  | _ => True

instance : ∀ s, DecidablePred (Current s)
  | _, .closed .. => inferInstanceAs (Decidable (_ ∨ _))
  | _, .connect | _, .disconnect | _, .opened _ | _, .message _ | _, .error _ | _, .fire _ =>
      .isTrue trivial

/-- A running client has a socket, and then no timer, or it has the one timer that is
in the slot.  Every other socket is closing or closed. -/
structure Inv (s : State) : Prop where
  live : ∀ k, s.Live k → s.socket = some k
  current : ∀ k, s.socket = some k → s.stopped = false ∧ s.Pending k
  timer : ∀ n, s.timers n ≠ none → s.retryTimer = some n ∧ s.stopped = false ∧ s.socket = none
  running : s.stopped = false → s.socket ≠ none ∨ ∃ n, s.timers n ≠ none
  fresh : ∀ k, s.created ≤ k → s.sockets k = none
  freshTimer : ∀ n, s.armed ≤ n → s.timers n = none

theorem Inv.initial : Inv initial where
  live k hk := by simp [Connection.initial, State.Live] at hk
  current k hk := by cases hk
  timer n hn := absurd rfl hn
  running h := by cases h
  fresh k _ := rfl
  freshTimer n _ := rfl

/-- A stopped client has no live socket and no timer. -/
theorem Inv.of_stopped (h : Inv s) (hs : s.stopped = true) :
    s.socket = none ∧ (∀ k, ¬ s.Live k) ∧ ∀ n, s.timers n = none := by
  have hrunning : s.stopped ≠ false := by rw [hs]; exact Bool.noConfusion
  refine ⟨?_, fun k hk ↦ hrunning (h.current k (h.live k hk)).1, fun n ↦ ?_⟩
  · by_contra hne
    obtain ⟨k, hk⟩ := Option.ne_none_iff_exists'.mp hne
    exact hrunning (h.current k hk).1
  · by_contra hne
    exact hrunning (h.timer n hne).2.1

/-- A socket that is not closed was created. -/
theorem Inv.lt_created (h : Inv s) (hk : s.Pending k) : k < s.created := by
  by_contra hle
  have hnone := h.fresh k (not_lt.mp hle)
  simp [State.Pending, State.Live, hnone] at hk

/-- A client with no live socket and no timer opens a socket. -/
theorem Inv.openSocket (hlive : ∀ k, ¬ s.Live k) (htimers : ∀ n, s.timers n = none)
    (hstopped : s.stopped = false) (hfresh : ∀ k, s.created ≤ k → s.sockets k = none) :
    Inv s.openSocket where
  live k hk := by
    rcases State.live_openSocket.mp hk with rfl | hk
    · rfl
    · exact absurd hk (hlive k)
  current k hk := by
    obtain rfl := Option.some.inj hk
    exact ⟨hstopped, .inl (State.live_openSocket.mpr (.inl rfl))⟩
  timer n hn := absurd (htimers n) hn
  running _ := .inl (Option.some_ne_none _)
  fresh k hk := by
    have hlt : s.created < k := hk
    exact (Function.update_of_ne hlt.ne' ..).trans (hfresh k hlt.le)
  freshTimer n _ := htimers n

/-- A client without a live socket that has no timer sets one. -/
theorem Inv.arm (hlive : ∀ k, ¬ s.Live k) (htimers : ∀ n, s.timers n = none)
    (hstopped : s.stopped = false) (hsocket : s.socket = none)
    (hfresh : ∀ k, s.created ≤ k → s.sockets k = none) : Inv (s.arm d) where
  live k hk := absurd hk (hlive k)
  current k hk := by
    rw [show (s.arm d).socket = none from hsocket] at hk
    cases hk
  timer n hn := by
    by_cases e : n = s.armed
    · exact ⟨congrArg some e.symm, hstopped, hsocket⟩
    · exact absurd ((Function.update_of_ne e ..).trans (htimers n)) hn
  running _ := .inr ⟨s.armed, by simp [State.arm]⟩
  fresh := hfresh
  freshTimer n hn := by
    have hlt : s.armed < n := hn
    exact (Function.update_of_ne hlt.ne' ..).trans (htimers n)

/-- A client that is stopped, with no live socket and no timer. -/
theorem Inv.stop (hlive : ∀ k, ¬ s.Live k) (htimers : ∀ n, s.timers n = none)
    (hstopped : s.stopped = true) (hsocket : s.socket = none)
    (hfresh : ∀ k, s.created ≤ k → s.sockets k = none) : Inv s where
  live k hk := absurd hk (hlive k)
  current k hk := by
    rw [hsocket] at hk
    cases hk
  timer n hn := absurd (htimers n) hn
  running h := by
    rw [hstopped] at h
    cases h
  fresh := hfresh
  freshTimer n _ := htimers n

theorem Inv.connect (h : Inv s) : Inv s.connect := by
  unfold State.connect
  split
  · exact h
  · rename_i hs
    obtain ⟨-, hlive, htimers⟩ := h.of_stopped (not_not.mp hs)
    exact .openSocket hlive htimers rfl h.fresh

theorem Inv.disconnect (h : Inv s) : Inv s.disconnect := by
  refine .stop (fun k hk ↦ ?_) (fun n ↦ ?_) rfl State.socket_closeSocket fun k hk ↦ ?_
  · obtain ⟨hne, hlive⟩ := State.live_of_disconnect hk
    exact hne (h.live k hlive)
  · by_contra hn
    obtain ⟨hne, htimer⟩ := State.timers_of_disconnect hn
    exact hne (h.timer n htimer).1
  · have hle : s.created ≤ k := (State.created_closeSocket (s := s.clearRetryTimer)).symm.trans_le hk
    exact State.sockets_closeSocket_none (s := s.clearRetryTimer) (h.fresh k hle)

theorem Inv.opened (h : Inv s) (hk : s.sockets k = some .connecting) :
    Inv (s.setReady k .opened).onopen where
  live j hj := h.live j ((State.live_setReady_opened hk).mp hj)
  current j hj := ⟨(h.current j hj).1, (State.pending_setReady_opened hk).mpr (h.current j hj).2⟩
  timer := h.timer
  running := h.running
  fresh j hj := by
    have hne : j ≠ k := by
      rintro rfl
      rw [h.fresh j hj] at hk
      cases hk
    exact (Function.update_of_ne hne ..).trans (h.fresh j hj)
  freshTimer := h.freshTimer

theorem Inv.error (h : Inv s) : Inv (s.close k) where
  live j hj := by
    rw [State.socket_close]
    exact h.live j (State.live_of_close hj).2
  current j hj := by
    rw [State.socket_close] at hj
    rw [State.stopped_close]
    exact ⟨(h.current j hj).1, State.pending_close (h.current j hj).2⟩
  timer n hn := by
    rw [State.timers_close] at hn
    rw [State.retryTimer_close, State.stopped_close, State.socket_close]
    exact h.timer n hn
  running hs := by
    rw [State.stopped_close] at hs
    rw [State.socket_close, State.timers_close]
    exact h.running hs
  fresh j hj := by
    rw [State.created_close] at hj
    exact State.sockets_close_none (h.fresh j hj)
  freshTimer n hn := by
    rw [State.timers_close]
    rw [State.armed_close] at hn
    exact h.freshTimer n hn

/-- Of two sockets that are live the client's is one; so there are no others when the
client's own socket closes, and none when a stopped client hears of a close. -/
theorem Inv.closed (h : Inv s) (hk : s.Pending k)
    (hok : s.stopped = true ∨ s.socket = some k) :
    Inv ((s.setReady k .closed).onclose k code) := by
  have hfresh : ∀ j, s.created ≤ j → (s.setReady k .closed).sockets j = none := fun j hj ↦
    (Function.update_of_ne (hj.trans_lt' (h.lt_created hk)).ne' ..).trans (h.fresh j hj)
  have hsocket : (if s.socket = some k then none else s.socket) = none := by
    rcases hok with hs | hsocket
    · rw [(h.of_stopped hs).1]
      simp
    · exact if_pos hsocket
  have hlive : ∀ j, ¬ (s.setReady k .closed).Live j := by
    intro j hj
    obtain ⟨hne, hj⟩ := State.live_setReady_closed hj
    rcases hok with hs | hsocket
    · exact (h.of_stopped hs).2.1 j hj
    · exact hne (Option.some.inj ((h.live j hj).symm.trans hsocket))
  have htimers : ∀ n, s.timers n = none := by
    intro n
    rcases hok with hs | hsocket
    · exact (h.of_stopped hs).2.2 n
    · by_contra hn
      rw [(h.timer n hn).2.2] at hsocket
      cases hsocket
  unfold State.onclose
  dsimp only
  split
  · exact .stop hlive htimers ‹_› hsocket hfresh
  · rename_i hs
    split
    · exact .stop hlive htimers rfl hsocket hfresh
    · obtain ⟨h₁, h₂, h₃, h₄, h₅, h₆⟩ :=
        Inv.arm (d := min (1000 * 2 ^ s.retryAttempt) 30000)
          (s := { s.setReady k .closed with socket := if s.socket = some k then none else s.socket })
          hlive htimers (Bool.eq_false_of_not_eq_true hs) hsocket hfresh
      exact ⟨h₁, h₂, h₃, h₄, h₅, h₆⟩

theorem Inv.fire (h : Inv s) (hn : s.timers n ≠ none) :
    Inv (State.openSocket { s with timers := Function.update s.timers n none }) := by
  obtain ⟨hslot, hstopped, hsocket⟩ := h.timer n hn
  refine .openSocket (fun k hk ↦ ?_) (fun m ↦ ?_) hstopped h.fresh
  · rw [h.live k hk] at hsocket
    cases hsocket
  · by_contra hm
    by_cases e : m = n
    · exact hm (e ▸ Function.update_self ..)
    · have hm' : s.timers m ≠ none := fun e' ↦ hm ((Function.update_of_ne e ..).trans e')
      exact e (Option.some.inj ((h.timer m hm').1.symm.trans hslot))

/-- **The invariant survives every step** in which no close event comes late. -/
theorem Inv.step (h : Inv s) (hok : Current s a) (ht : Connection.step s a = some t) : Inv t := by
  cases a with
  | connect => exact Option.some.inj ht ▸ h.connect
  | disconnect => exact Option.some.inj ht ▸ h.disconnect
  | opened k =>
      obtain ⟨hk, ⟨⟩⟩ := Option.ite_none_right_eq_some.mp ht
      exact h.opened hk
  | message k =>
      obtain ⟨-, ⟨⟩⟩ := Option.ite_none_right_eq_some.mp ht
      exact h
  | error k =>
      obtain ⟨-, ⟨⟩⟩ := Option.ite_none_right_eq_some.mp ht
      exact h.error
  | closed k code =>
      obtain ⟨hk, ⟨⟩⟩ := Option.ite_none_right_eq_some.mp ht
      exact h.closed hk hok
  | fire n =>
      obtain ⟨delay, hn, rfl⟩ := Option.map_eq_some_iff.mp ht
      exact h.fire (by rw [hn]; exact Option.some_ne_none _)

/-! ## One connection -/

/-- At most one socket is connecting or open, at most one timer is pending, and nothing
has been opened since a `disconnect` that no `connect` has followed. -/
structure OneConnection (as : List Action) (s : State) : Prop where
  sockets : {k | s.Live k}.Subsingleton
  timers : {n | s.timers n ≠ none}.Subsingleton
  quiet : ∀ pre mid m, as = pre ++ .disconnect :: mid → .connect ∉ mid →
    exec step initial (pre ++ [.disconnect]) = some m → s.created = m.created

theorem Inv.sockets (h : Inv s) : {k | s.Live k}.Subsingleton := by
  intro j hj k hk
  exact Option.some.inj ((h.live j hj).symm.trans (h.live k hk))

theorem Inv.timers (h : Inv s) : {n | s.timers n ≠ none}.Subsingleton := by
  intro m hm n hn
  exact Option.some.inj ((h.timer m hm).1.symm.trans (h.timer n hn).1)

/-- A stopped client opens nothing unless `connect` is called. -/
theorem Inv.stays_stopped (h : Inv s) (hs : s.stopped = true) (ha : a ≠ .connect)
    (ht : Connection.step s a = some t) : t.stopped = true ∧ t.created = s.created := by
  cases a with
  | connect => exact absurd rfl ha
  | disconnect =>
      cases ht
      exact ⟨rfl, State.created_closeSocket⟩
  | opened k =>
      obtain ⟨-, ⟨⟩⟩ := Option.ite_none_right_eq_some.mp ht
      exact ⟨hs, rfl⟩
  | message k =>
      obtain ⟨-, ⟨⟩⟩ := Option.ite_none_right_eq_some.mp ht
      exact ⟨hs, rfl⟩
  | error k =>
      obtain ⟨-, ⟨⟩⟩ := Option.ite_none_right_eq_some.mp ht
      exact ⟨State.stopped_close.trans hs, State.created_close⟩
  | closed k code =>
      obtain ⟨-, ⟨⟩⟩ := Option.ite_none_right_eq_some.mp ht
      have hstill : (s.setReady k .closed).stopped = true := hs
      unfold State.onclose
      dsimp only
      rw [if_pos hstill]
      exact ⟨hs, rfl⟩
  | fire n =>
      obtain ⟨delay, hn, -⟩ := Option.map_eq_some_iff.mp ht
      rw [(h.of_stopped hs).2.2 n] at hn
      cases hn

/-- **One connection.**  After a run in which no close event comes late, at most one
socket is connecting or open and at most one timer is pending, and no socket has been
opened since the client was disconnected, unless it was connected again. -/
theorem one_connection {as : List Action} (hrun : exec step initial as = some s)
    (hok : Along step Current initial as) : OneConnection as s := by
  have h : Inv s := exec_induction (P := Inv) Inv.step .initial hrun hok
  refine ⟨h.sockets, h.timers, ?_⟩
  rintro pre mid m rfl hmid hm
  rw [show pre ++ Action.disconnect :: mid = (pre ++ [.disconnect]) ++ mid by simp] at hrun hok
  obtain ⟨m', hm', hrest⟩ := exec_append_eq_some.mp hrun
  obtain rfl : m' = m := Option.some.inj (hm'.symm.trans hm)
  obtain ⟨hfirst, hlater⟩ := hok.of_append hm
  have hinv : Inv m' := exec_induction (P := Inv) Inv.step .initial hm hfirst
  have hstopped : m'.stopped = true := by
    obtain ⟨u, -, hu⟩ := exec_append_eq_some.mp hm
    obtain ⟨v, ⟨⟩, ⟨⟩⟩ := exec_cons_eq_some.mp hu
    rfl
  have hno : Along step (fun _ a ↦ a ≠ .connect) m' mid :=
    along_iff_forall.mpr fun before a after _ he _ e ↦ hmid (by rw [he, e]; simp)
  refine (exec_induction
    (P := fun u ↦ Inv u ∧ u.stopped = true ∧ u.created = m'.created) ?_
    ⟨hinv, hstopped, rfl⟩ hrest (hlater.and hno)).2.2
  rintro u a v ⟨hu, hs, hcreated⟩ ⟨hok', hne⟩ hv
  obtain ⟨hs', hcreated'⟩ := hu.stays_stopped hs hne hv
  exact ⟨hu.step hok' hv, hs', hcreated'.trans hcreated⟩

/-- A client that hangs up and connects again before the close event of its first socket. -/
def restarting : List Action := [.connect, .disconnect, .connect, .closed 0 1006, .fire 0]

theorem restarting_opens_two : ∃ s, exec step initial restarting = some s ∧
    s.Live 1 ∧ s.Live 2 ∧ ¬ OneConnection restarting s := by
  refine ⟨_, rfl, by decide, by decide, fun h ↦ ?_⟩
  have hsame : (1 : ℕ) = 2 := h.sockets (.inl rfl) (.inl rfl)
  cases hsame

/-- A client that reconnects, hangs up, and connects again after the close event. -/
def reconnecting : List Action :=
  [.connect, .opened 0, .closed 0 1006, .fire 0, .error 1, .closed 1 1006, .fire 1, .opened 2,
    .disconnect, .closed 2 1000, .connect]

theorem one_connection_reconnecting :
    ∃ s, exec step initial reconnecting = some s ∧ OneConnection reconnecting s :=
  ⟨_, rfl, one_connection rfl (by decide)⟩

/-! ## The condition is exact -/

/-- A timer fires while the client has a live socket. -/
theorem second_of_timer (hn : s.timers n ≠ none) (hk : s.Live k) (hlt : k < s.created) :
    ∃ u, step s (.fire n) = some u ∧ ¬ {j | u.Live j}.Subsingleton := by
  obtain ⟨delay, hdelay⟩ := Option.ne_none_iff_exists'.mp hn
  refine ⟨_, Option.map_eq_some_iff.mpr ⟨delay, hdelay, rfl⟩, fun hsub ↦ hlt.ne ?_⟩
  exact hsub (State.live_openSocket.mpr (.inr hk)) (State.live_openSocket.mpr (.inl rfl))

/-- A running client with a live socket hears of the close of another one. -/
theorem second_of_pending (hs : s.stopped = false) (hk : s.Live k) (hlt : k < s.created)
    (hj : s.Pending j) (hne : j ≠ k) (hsocket : s.socket ≠ some j) :
    ∃ bs u, exec step s bs = some u ∧ ¬ {j | u.Live j}.Subsingleton := by
  have hstep : step s (.closed j 1006) = some ((s.setReady j .closed).onclose j 1006) := if_pos hj
  have hclose : (s.setReady j .closed).onclose j 1006 =
      { (s.setReady j .closed).arm (min (1000 * 2 ^ s.retryAttempt) 30000) with
        status := .reconnecting, retryAttempt := s.retryAttempt + 1 } := by
    simp [State.onclose, State.setReady, State.arm, hs, hsocket]
  have hlive : (s.setReady j .closed).Live k := by
    simpa only [State.Live, State.setReady, Function.update_of_ne hne.symm] using hk
  obtain ⟨u, hu, hsub⟩ := second_of_timer (n := s.armed) (k := k)
    (s := (s.setReady j .closed).onclose j 1006)
    (by rw [hclose]; simp [State.arm, State.setReady]) (by rw [hclose]; exact hlive)
    (by rw [hclose]; exact hlt)
  exact ⟨[.closed j 1006, .fire s.armed], u,
    exec_cons_eq_some.mpr ⟨_, hstep, exec_cons_eq_some.mpr ⟨u, hu, rfl⟩⟩, hsub⟩

/-- A running client opens a socket while another one is pending. -/
theorem second_of_open (hs : s.stopped = false) (hj : s.Pending j) (hlt : j < s.created) :
    ∃ bs u, exec step s.openSocket bs = some u ∧ ¬ {i | u.Live i}.Subsingleton := by
  have hj' : s.openSocket.Pending j := by
    simpa only [State.Pending, State.Live, State.openSocket, Function.update_of_ne hlt.ne] using hj
  exact second_of_pending hs (State.live_openSocket.mpr (.inl rfl)) (Nat.lt_succ_self _) hj' hlt.ne
    fun e ↦ hlt.ne (Option.some.inj e).symm

/-- What a close event does to a running client whose socket is another one. -/
theorem onclose_of_late (hs : s.stopped = false) (hsocket : s.socket ≠ some k) :
    (s.setReady k .closed).onclose k code =
      if code = 1008 then { s.setReady k .closed with stopped := true, status := .disconnected }
      else { (s.setReady k .closed).arm (min (1000 * 2 ^ s.retryAttempt) 30000) with
        status := .reconnecting, retryAttempt := s.retryAttempt + 1 } := by
  simp [State.onclose, State.setReady, State.arm, hs, hsocket]

/-- The client is stopped with a pending socket or a timer, and connects again. -/
theorem second_of_connect (hs : s.stopped = true)
    (hbusy : (∃ j, s.Pending j ∧ j < s.created) ∨ ∃ n, s.timers n ≠ none) :
    ∃ bs u, exec step s bs = some u ∧ ¬ {j | u.Live j}.Subsingleton := by
  have hconnect : step s .connect = some (State.openSocket { s with stopped := false }) := by
    simp only [step, State.connect]
    rw [if_neg (not_not.mpr hs)]
  rcases hbusy with ⟨j, hj, hlt⟩ | ⟨n, hn⟩
  · obtain ⟨bs, u, hu, hsub⟩ := second_of_open (s := { s with stopped := false }) rfl hj hlt
    exact ⟨.connect :: bs, u, exec_cons_eq_some.mpr ⟨_, hconnect, hu⟩, hsub⟩
  · obtain ⟨u, hu, hsub⟩ := second_of_timer (s := State.openSocket { s with stopped := false }) hn
      (State.live_openSocket.mpr (.inl rfl)) (Nat.lt_succ_self _)
    exact ⟨[.connect, .fire n], u,
      exec_cons_eq_some.mpr ⟨_, hconnect, exec_cons_eq_some.mpr ⟨u, hu, rfl⟩⟩, hsub⟩

/-- The client runs with a pending socket, and its timer fires. -/
theorem second_of_fire (hs : s.stopped = false) (hn : s.timers n ≠ none) (hj : s.Pending j)
    (hlt : j < s.created) :
    ∃ bs u, exec step s bs = some u ∧ ¬ {i | u.Live i}.Subsingleton := by
  obtain ⟨delay, hdelay⟩ := Option.ne_none_iff_exists'.mp hn
  have hfire : step s (.fire n) =
      some (State.openSocket { s with timers := Function.update s.timers n none }) :=
    Option.map_eq_some_iff.mpr ⟨delay, hdelay, rfl⟩
  obtain ⟨bs, u, hu, hsub⟩ :=
    second_of_open (s := { s with timers := Function.update s.timers n none }) hs hj hlt
  exact ⟨.fire n :: bs, u, exec_cons_eq_some.mpr ⟨_, hfire, hu⟩, hsub⟩

/-- **The condition is exact.**  A close event that comes late can be followed by a
second connection, or a second timer is pending at once. -/
theorem second_of_late_close {as : List Action} (hrun : exec step initial as = some s)
    (hok : Along step Current initial as) (ht : step s (.closed k code) = some t)
    (hlate : ¬ Current s (.closed k code)) :
    ∃ bs u, exec step t bs = some u ∧
      ¬ ({j | u.Live j}.Subsingleton ∧ {n | u.timers n ≠ none}.Subsingleton) := by
  have h : Inv s := exec_induction (P := Inv) Inv.step .initial hrun hok
  obtain ⟨hs, hsocket⟩ := not_or.mp hlate
  have hs : s.stopped = false := Bool.eq_false_of_not_eq_true hs
  obtain ⟨-, ⟨⟩⟩ := Option.ite_none_right_eq_some.mp ht
  rw [onclose_of_late hs hsocket]
  -- the client's socket is still pending after the event
  have hpending : ∀ j, s.socket = some j → (s.setReady k .closed).Pending j ∧ j < s.created := by
    intro j hj
    have hne : j ≠ k := fun e ↦ hsocket (e ▸ hj)
    refine ⟨?_, h.lt_created (h.current j hj).2⟩
    simpa only [State.Pending, State.Live, State.setReady, Function.update_of_ne hne]
      using (h.current j hj).2
  split
  · have hbusy : (∃ j, (s.setReady k .closed).Pending j ∧ j < s.created) ∨
        ∃ n, s.timers n ≠ none :=
      (h.running hs).imp_left fun hsome ↦
        let ⟨j, hj⟩ := Option.ne_none_iff_exists'.mp hsome
        ⟨j, hpending j hj⟩
    obtain ⟨bs, u, hu, hsub⟩ := second_of_connect
      (s := { s.setReady k .closed with stopped := true, status := .disconnected }) rfl hbusy
    exact ⟨bs, u, hu, fun e ↦ hsub e.1⟩
  · have harmed : ((s.setReady k .closed).arm
        (min (1000 * 2 ^ s.retryAttempt) 30000)).timers s.armed ≠ none := by
      simp [State.arm, State.setReady]
    rcases h.running hs with hsome | ⟨n, hn⟩
    · obtain ⟨j, hj⟩ := Option.ne_none_iff_exists'.mp hsome
      obtain ⟨hj', hlt⟩ := hpending j hj
      obtain ⟨bs, u, hu, hsub⟩ := second_of_fire
        (s := { (s.setReady k .closed).arm (min (1000 * 2 ^ s.retryAttempt) 30000) with
          status := .reconnecting, retryAttempt := s.retryAttempt + 1 }) hs harmed hj' hlt
      exact ⟨bs, u, hu, fun e ↦ hsub e.1⟩
    · refine ⟨[], _, rfl, fun e ↦ ?_⟩
      have hne : n ≠ s.armed := by
        rintro rfl
        exact hn (h.freshTimer _ le_rfl)
      exact hne (e.2 (fun e' ↦ hn ((Function.update_of_ne hne ..).symm.trans e')) harmed)

end Chatterbox.Client.Connection
