import Chatterbox.Client.Connection

/-!
# What the client reports

`RealtimeClient` tells its page a `ConnectionStatus`, and by `onOpen` whether it has been connected
before: that is what a recovery waits for.  In a run in which no close event comes late
(`Current`) the status is how things are, and a timer that is pending has the delay that
`retryAttempt` says (`Truthful`); `onOpen` is called once for every socket that opens, and only the
first time with `false` (`status_true`).

A socket that has had an error stays `connected` until its close event.
-/

namespace Chatterbox.Client.Connection

/-- `Math.min(1000 * 2 ** retryAttempt, 30_000)`. -/
def delay (retryAttempt : ℕ) : ℕ := min (1000 * 2 ^ retryAttempt) 30000

/-- The status is how things are. -/
structure Truthful (s : State) : Prop where
  disconnected : s.status = .disconnected ↔ s.stopped = true
  opening : ∀ k, s.sockets k = some .connecting →
    s.status = if s.hasConnected then .reconnecting else .connecting
  opened : ∀ k, s.sockets k = some .opened → s.status = .connected
  connected : s.status = .connected →
    ∃ k, s.socket = some k ∧ (s.sockets k = some .opened ∨ s.sockets k = some .closing)
  waiting : ∀ n d, s.timers n = some d →
    s.status = .reconnecting ∧ ∃ attempts, s.retryAttempt = attempts + 1 ∧ d = delay attempts

/-- An event `open`. -/
def Action.isOpened : Action → Bool
  | .opened _ => true
  | _ => false

/-- The arguments of so many calls of `onOpen`, the last one first. -/
def onOpenArguments : ℕ → List Bool
  | 0 => []
  | n + 1 => List.replicate n true ++ [false]

variable {s t : State} {a : Action} {j k n code d : ℕ}

/-! ## The calls of `onOpen` -/

namespace State

@[simp] theorem status_close : (s.close k).status = s.status := by unfold close; split <;> rfl
@[simp] theorem opens_close : (s.close k).opens = s.opens := by unfold close; split <;> rfl
@[simp] theorem retryAttempt_close : (s.close k).retryAttempt = s.retryAttempt := by
  unfold close; split <;> rfl
@[simp] theorem hasConnected_close : (s.close k).hasConnected = s.hasConnected := by
  unfold close; split <;> rfl

theorem opens_disconnect : s.disconnect.opens = s.opens := by
  unfold disconnect closeSocket
  split <;> simp [clearRetryTimer]

theorem hasConnected_disconnect : s.disconnect.hasConnected = s.hasConnected := by
  unfold disconnect closeSocket
  split <;> simp [clearRetryTimer]

theorem opens_onclose : (s.onclose k code).opens = s.opens := by
  unfold onclose
  dsimp only
  split
  · rfl
  · split <;> rfl

theorem hasConnected_onclose : (s.onclose k code).hasConnected = s.hasConnected := by
  unfold onclose
  dsimp only
  split
  · rfl
  · split <;> rfl

end State

/-- What a step reports by `onOpen`. -/
theorem opens_of_step (ht : step s a = some t) :
    t.opens = (if a.isOpened then [s.hasConnected] else []) ++ s.opens ∧
      t.hasConnected = (a.isOpened || s.hasConnected) := by
  cases a with
  | connect =>
      cases ht
      unfold State.connect
      split <;> exact ⟨rfl, rfl⟩
  | disconnect =>
      cases ht
      exact ⟨State.opens_disconnect, State.hasConnected_disconnect⟩
  | opened k =>
      obtain ⟨-, ⟨⟩⟩ := Option.ite_none_right_eq_some.mp ht
      exact ⟨rfl, rfl⟩
  | message k =>
      obtain ⟨-, ⟨⟩⟩ := Option.ite_none_right_eq_some.mp ht
      exact ⟨rfl, rfl⟩
  | error k =>
      obtain ⟨-, ⟨⟩⟩ := Option.ite_none_right_eq_some.mp ht
      exact ⟨State.opens_close, State.hasConnected_close⟩
  | closed k code =>
      obtain ⟨-, ⟨⟩⟩ := Option.ite_none_right_eq_some.mp ht
      exact ⟨State.opens_onclose, State.hasConnected_onclose⟩
  | fire n =>
      obtain ⟨delay, -, rfl⟩ := Option.map_eq_some_iff.mp ht
      exact ⟨rfl, rfl⟩

theorem onOpenArguments_succ (n : ℕ) :
    onOpenArguments (n + 1) = decide (0 < n) :: onOpenArguments n := by
  cases n with
  | zero => rfl
  | succ n => rfl

/-- Every socket that opens is reported, and whether it is the first. -/
theorem opens_of_exec {as : List Action} (hrun : exec step initial as = some s) :
    s.opens = onOpenArguments (as.countP Action.isOpened) ∧
      s.hasConnected = decide (0 < as.countP Action.isOpened) := by
  refine exec_history (P := fun as s ↦ s.opens = onOpenArguments (as.countP Action.isOpened) ∧
    s.hasConnected = decide (0 < as.countP Action.isOpened)) ⟨rfl, rfl⟩ ?_ hrun
  intro as t a u _ ih ht
  obtain ⟨hopens, hconnected⟩ := opens_of_step ht
  obtain ⟨hbefore, hhas⟩ := ih
  rw [List.countP_append, List.countP_singleton, hopens, hconnected, hbefore, hhas]
  cases a.isOpened with
  | false => exact ⟨rfl, rfl⟩
  | true =>
      refine ⟨(onOpenArguments_succ _).symm, ?_⟩
      simp

/-! ## The status -/

theorem Truthful.initial : Truthful initial where
  disconnected := iff_of_true rfl rfl
  opening k hk := by cases hk
  opened k hk := by cases hk
  connected h := by cases h
  waiting n d hn := by cases hn

/-- A client with nothing live that is stopped. -/
theorem Truthful.stop (hstatus : s.status = .disconnected) (hstopped : s.stopped = true)
    (hlive : ∀ k, ¬ s.Live k) (htimers : ∀ n, s.timers n = none) : Truthful s where
  disconnected := iff_of_true hstatus hstopped
  opening k hk := absurd (.inl hk) (hlive k)
  opened k hk := absurd (.inr hk) (hlive k)
  connected h := by
    rw [hstatus] at h
    cases h
  waiting n d hn := by
    rw [htimers n] at hn
    cases hn

/-- A client with nothing live opens a socket. -/
theorem Truthful.openSocket (hstopped : s.stopped = false) (hlive : ∀ k, ¬ s.Live k)
    (htimers : ∀ n, s.timers n = none) : Truthful s.openSocket where
  disconnected := by
    refine iff_of_false ?_ (by rw [show s.openSocket.stopped = false from hstopped]; simp)
    intro h
    change (if s.hasConnected then ConnectionStatus.reconnecting else .connecting) = _ at h
    split at h <;> cases h
  opening k _ := rfl
  opened k hk := by
    have hne : k ≠ s.created := by
      rintro rfl
      rw [show s.openSocket.sockets s.created = some .connecting from Function.update_self ..] at hk
      cases hk
    exact absurd (.inr ((Function.update_of_ne hne ..).symm.trans hk)) (hlive k)
  connected h := by
    change (if s.hasConnected then ConnectionStatus.reconnecting else .connecting) = _ at h
    split at h <;> cases h
  waiting n d hn := by
    rw [show s.openSocket.timers n = none from htimers n] at hn
    cases hn

theorem Truthful.connect (h : Truthful s) (hinv : Inv s) : Truthful s.connect := by
  unfold State.connect
  split
  · exact h
  · rename_i hs
    obtain ⟨-, hlive, htimers⟩ := hinv.of_stopped (not_not.mp hs)
    exact .openSocket rfl hlive htimers

theorem Truthful.disconnect (hinv : Inv s) : Truthful s.disconnect := by
  obtain ⟨-, hlive, htimers⟩ := hinv.disconnect.of_stopped rfl
  exact .stop rfl rfl hlive htimers

theorem Truthful.onopen (hinv : Inv s) (hk : s.sockets k = some .connecting) :
    Truthful (s.setReady k .opened).onopen := by
  have hsocket : s.socket = some k := hinv.live k (.inl hk)
  refine ⟨iff_of_false ConnectionStatus.noConfusion ?_, fun j hj ↦ ?_, fun _ _ ↦ rfl,
    fun _ ↦ ⟨k, hsocket, .inl (Function.update_self ..)⟩, fun n d hn ↦ ?_⟩
  · rw [show (s.setReady k .opened).onopen.stopped = false from (hinv.current k hsocket).1]
    exact Bool.noConfusion
  · -- no other socket is connecting
    have hne : j ≠ k := by
      rintro rfl
      rw [show (s.setReady j .opened).onopen.sockets j = some .opened from
        Function.update_self ..] at hj
      cases hj
    have hconnecting : s.sockets j = some .connecting :=
      (Function.update_of_ne hne ..).symm.trans hj
    exact absurd (Option.some.inj ((hinv.live j (.inl hconnecting)).symm.trans hsocket)) hne
  · have hnone : s.socket = none := (hinv.timer n (Option.ne_none_iff_exists'.mpr ⟨d, hn⟩)).2.2
    rw [hsocket] at hnone
    cases hnone

theorem Truthful.close (h : Truthful s) : Truthful (s.close k) := by
  have hready : ∀ {j : ℕ} {ready : ReadyState}, (s.close k).sockets j = some ready →
      (s.close k).Live j → s.sockets j = some ready := by
    intro j ready hj hlive
    rwa [State.sockets_close_of_ne (State.live_of_close hlive).1] at hj
  refine ⟨?_, fun j hj ↦ ?_, fun j hj ↦ ?_, fun hs ↦ ?_, fun n d hn ↦ ?_⟩
  · rw [State.status_close, State.stopped_close]
    exact h.disconnected
  · rw [State.status_close, State.hasConnected_close]
    exact h.opening j (hready hj (.inl hj))
  · rw [State.status_close]
    exact h.opened j (hready hj (.inr hj))
  · rw [State.status_close] at hs
    obtain ⟨j, hsocket, hj⟩ := h.connected hs
    refine ⟨j, State.socket_close.trans hsocket, ?_⟩
    by_cases e : j = k
    · subst e
      rw [State.sockets_close_self]
      split
      · exact .inr rfl
      · exact hj
    · rwa [State.sockets_close_of_ne e]
  · rw [State.timers_close] at hn
    rw [State.status_close, State.retryAttempt_close]
    exact h.waiting n d hn

/-- The client has nothing live, and sets a timer. -/
theorem Truthful.wait (hinv : Inv t) (hstatus : t.status = .reconnecting)
    (hstopped : t.stopped = false) (hsocket : t.socket = none)
    (hretry : t.retryAttempt = n + 1) (htimers : t.timers k = some (delay n))
    (hslot : t.retryTimer = some k) : Truthful t where
  disconnected := by
    rw [hstatus, hstopped]
    exact iff_of_false ConnectionStatus.noConfusion Bool.noConfusion
  opening j hj := by
    rw [hinv.live j (.inl hj)] at hsocket
    cases hsocket
  opened j hj := by
    rw [hinv.live j (.inr hj)] at hsocket
    cases hsocket
  connected h := by
    rw [hstatus] at h
    cases h
  waiting m d hm := by
    obtain ⟨hother, -, -⟩ := hinv.timer m (Option.ne_none_iff_exists'.mpr ⟨d, hm⟩)
    obtain rfl : k = m := Option.some.inj (hslot.symm.trans hother)
    exact ⟨hstatus, n, hretry, Option.some.inj (hm.symm.trans htimers)⟩

theorem Truthful.onclose (h : Truthful s) (hinv : Inv s) (hk : s.Pending k)
    (hok : s.stopped = true ∨ s.socket = some k) :
    Truthful ((s.setReady k .closed).onclose k code) := by
  have hnext : Inv ((s.setReady k .closed).onclose k code) := hinv.closed hk hok
  by_cases hs : s.stopped = true
  · have hsame : ((s.setReady k .closed).onclose k code).status = s.status ∧
        ((s.setReady k .closed).onclose k code).stopped = s.stopped := by
      simp [State.onclose, State.setReady, hs]
    obtain ⟨-, hlive, htimers⟩ := hnext.of_stopped (hsame.2.trans hs)
    exact .stop (hsame.1.trans (h.disconnected.mpr hs)) (hsame.2.trans hs) hlive htimers
  · have hsocket : s.socket = some k := hok.resolve_left hs
    by_cases hcode : code = 1008
    · have hstop : ((s.setReady k .closed).onclose k code).status = .disconnected ∧
          ((s.setReady k .closed).onclose k code).stopped = true := by
        simp [State.onclose, State.setReady, hs, hcode]
      obtain ⟨-, hlive, htimers⟩ := hnext.of_stopped hstop.2
      exact .stop hstop.1 hstop.2 hlive htimers
    · have heq : (s.setReady k .closed).onclose k code =
          { ({ s.setReady k .closed with socket := none }).arm (delay s.retryAttempt) with
            status := .reconnecting, retryAttempt := s.retryAttempt + 1 } := by
        simp [State.onclose, State.setReady, State.arm, hs, hcode, hsocket, delay]
      rw [heq] at hnext ⊢
      exact .wait hnext rfl (Bool.eq_false_of_not_eq_true hs) rfl rfl (Function.update_self ..) rfl

theorem Truthful.fire (hinv : Inv s) (hn : s.timers n ≠ none) :
    Truthful (State.openSocket { s with timers := Function.update s.timers n none }) := by
  obtain ⟨hslot, hstopped, hsocket⟩ := hinv.timer n hn
  refine .openSocket hstopped (fun k hk ↦ ?_) fun m ↦ ?_
  · rw [hinv.live k hk] at hsocket
    cases hsocket
  · by_cases e : m = n
    · exact e ▸ Function.update_self ..
    · refine (Function.update_of_ne e ..).trans (not_not.mp fun hm ↦ e ?_)
      exact Option.some.inj ((hinv.timer m hm).1.symm.trans hslot)

/-- What is reported stays how things are. -/
theorem Truthful.step (h : Truthful s) (hinv : Inv s) (hok : Current s a)
    (ht : Connection.step s a = some t) : Truthful t := by
  cases a with
  | connect => exact Option.some.inj ht ▸ h.connect hinv
  | disconnect => exact Option.some.inj ht ▸ .disconnect hinv
  | opened k =>
      obtain ⟨hk, ⟨⟩⟩ := Option.ite_none_right_eq_some.mp ht
      exact .onopen hinv hk
  | message k =>
      obtain ⟨-, ⟨⟩⟩ := Option.ite_none_right_eq_some.mp ht
      exact h
  | error k =>
      obtain ⟨-, ⟨⟩⟩ := Option.ite_none_right_eq_some.mp ht
      exact h.close
  | closed k code =>
      obtain ⟨hk, ⟨⟩⟩ := Option.ite_none_right_eq_some.mp ht
      exact h.onclose hinv hk hok
  | fire n =>
      obtain ⟨delay, hn, rfl⟩ := Option.map_eq_some_iff.mp ht
      exact .fire hinv (Option.ne_none_iff_exists'.mpr ⟨delay, hn⟩)

/-- **The status is true**, and `onOpen` is called for every socket that opens, with `false` for
the first one only. -/
theorem status_true {as : List Action} (hrun : exec Connection.step initial as = some s)
    (hok : Along Connection.step Current initial as) :
    Truthful s ∧ s.opens = onOpenArguments (as.countP Action.isOpened) := by
  have h : Inv s ∧ Truthful s :=
    exec_induction (P := fun s ↦ Inv s ∧ Truthful s)
      (fun h hok ht ↦ ⟨h.1.step hok ht, h.2.step h.1 hok ht⟩) ⟨.initial, .initial⟩ hrun hok
  exact ⟨h.2, (opens_of_exec hrun).1⟩

theorem status_true_reconnecting : ∃ s, exec Connection.step initial reconnecting = some s ∧
    s.status = .reconnecting ∧ s.opens = [true, false] := by
  have hrun : exec Connection.step initial reconnecting = some _ := rfl
  obtain ⟨h, hopens⟩ := status_true hrun (by decide)
  exact ⟨_, hrun, h.opening 3 rfl, hopens⟩

end Chatterbox.Client.Connection
