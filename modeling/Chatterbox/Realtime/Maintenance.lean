import Chatterbox.Realtime.Registry
import Chatterbox.Run
import Chatterbox.SortedSet
import Mathlib.Algebra.Order.Floor.Semiring
import Mathlib.Data.Rat.Floor
import Mathlib.Tactic.Linarith

/-!
# The maintenance loop, and the leases it keeps alive

A user who is connected to an instance has a lease in Redis, which lasts for
`presence_ttl_seconds`.  It is granted when the user connects, and granted anew by the
heartbeats of `_maintain`.  The loop wakes every `realtime_sweep_interval_seconds`, and has a
heartbeat when `presence_heartbeat_seconds` have passed since the last one: so the heartbeats
are the least multiple of the sweep interval apart that is not less than that (`period`).

| check of `Settings` | |
|---|---|
| `presence_ttl_seconds` | at least 5 |
| `presence_heartbeat_seconds` | at least 1, and less than the former |
| `realtime_sweep_interval_seconds` | at least 0.1 |

None of them bounds the period.  `leases_last_iff` says that the leases last exactly if the
period is less than the time to live.

The calls to Redis take no time.  Time is of any ordered field, since the sweep interval is.
-/

namespace Chatterbox.Realtime.Maintenance

/-- `instance_id`. -/
abbrev Instance := String

/-- The settings that have passed the checks of `Settings`. -/
structure Settings (K : Type*) [Field K] [LinearOrder K] where
  presenceTtlSeconds : ℤ
  presenceHeartbeatSeconds : ℤ
  realtimeSweepIntervalSeconds : K
  ttl_ge : 5 ≤ presenceTtlSeconds
  heartbeat_ge : 1 ≤ presenceHeartbeatSeconds
  sweep_ge : 1 / 10 ≤ realtimeSweepIntervalSeconds
  /-- `validate_realtime_intervals`. -/
  heartbeat_lt_ttl : presenceHeartbeatSeconds < presenceTtlSeconds

/-- The clock, the loop of the instance, its registry, and the leases. -/
structure State (K : Type*) where
  now : K
  /-- When the loop wakes. -/
  nextWake : K
  nextHeartbeat : K
  registry : Registry
  /-- `presence_key(user_id)`. -/
  leases : UUID → SortedSet Instance K
  /-- When the key of a user's leases is dropped. -/
  deadline : UUID → K

/-- What is done to the leases of a user. -/
inductive Script where
  /-- `PRESENCE_CONNECT_SCRIPT`, for an instance. -/
  | connect (i : Instance)
  /-- `PRESENCE_DISCONNECT_SCRIPT`, for an instance. -/
  | disconnect (i : Instance)
  /-- `ZREMRANGEBYSCORE`, of a look-up or of a sweep. -/
  | prune

/-- The script is one of another instance, or of none. -/
def Script.Foreign (me : Instance) : Script → Prop
  | .connect i | .disconnect i => i ≠ me
  | .prune => True

instance (me : Instance) : DecidablePred (Script.Foreign me)
  | .connect _ | .disconnect _ => inferInstanceAs (Decidable (_ ≠ _))
  | .prune => .isTrue trivial

/-- A step. -/
inductive Action (K : Type*) where
  /-- Time passes, until the loop wakes at most. -/
  | wait (d : K)
  /-- A round of the loop. -/
  | wake
  | connect (u : UUID) (ws : Socket)
  | disconnect (u : UUID) (ws : Socket)
  /-- A script of another instance, or a look-up or a sweep of any. -/
  | elsewhere (u : UUID) (script : Script)
  /-- The key of a user is dropped. -/
  | expire (u : UUID)

variable {K : Type*} [Field K] [LinearOrder K]

section Model

variable (st : Settings K)

/-- The time to live. -/
def Settings.ttl : K := st.presenceTtlSeconds

def Settings.heartbeat : K := st.presenceHeartbeatSeconds

def Settings.sweep : K := st.realtimeSweepIntervalSeconds

/-- A script runs. -/
def State.run (s : State K) (u : UUID) : Script → State K
  | .connect i =>
      { s with
        leases := Function.update s.leases u
          (((s.leases u).zremrangebyscore s.now).zadd (s.now + st.ttl) i)
        deadline := Function.update s.deadline u (s.now + 2 * st.ttl) }
  | .disconnect i =>
      { s with
        leases := Function.update s.leases u (((s.leases u).zrem i).zremrangebyscore s.now) }
  | .prune =>
      { s with leases := Function.update s.leases u ((s.leases u).zremrangebyscore s.now) }

/-- The heartbeat: `user_connected`, for the users of the registry. -/
def State.beat (me : Instance) (s : State K) : State K :=
  s.registry.localUserIds.foldl (fun s u ↦ s.run st u (.connect me)) s

/-- One step. -/
def step (me : Instance) (s : State K) : Action K → Option (State K)
  | .wait d => if 0 ≤ d ∧ s.now + d ≤ s.nextWake then some { s with now := s.now + d } else none
  | .wake =>
      if s.now = s.nextWake then
        let s := if s.nextHeartbeat ≤ s.now then
            { s.beat st me with nextHeartbeat := s.now + st.heartbeat }
          else s
        some { s with nextWake := s.now + st.sweep }
      else none
  | .connect u ws =>
      let (wasLocallyOffline, registry) := s.registry.connect u ws
      let s := { s with registry }
      some (if wasLocallyOffline then s.run st u (.connect me) else s)
  | .disconnect u ws =>
      let (wasLast, registry) := s.registry.disconnect u ws
      let s := { s with registry }
      some (if wasLast then s.run st u (.disconnect me) else s)
  | .elsewhere u script => if script.Foreign me then some (s.run st u script) else none
  | .expire u =>
      if s.deadline u ≤ s.now then
        some { s with leases := Function.update s.leases u .empty }
      else none

/-- The backend is started: nobody is connected to the instance, and the loop is about to go
through its first round. -/
structure Initial (s : State K) : Prop where
  now : 0 ≤ s.now
  nextWake : s.nextWake = s.now
  nextHeartbeat : s.nextHeartbeat = 0
  registry : ∀ u, s.registry.sockets u = ∅

/-- Whoever is connected to the instance has a lease that has not expired. -/
def Lasting (s : State K) : Prop :=
  ∀ u, s.registry.sockets u ≠ ∅ → (s.leases u).Exceeds s.now

variable [FloorSemiring K]

/-- How many rounds a heartbeat is behind the one before. -/
def Settings.rounds : ℕ := ⌈st.heartbeat / st.sweep⌉₊

/-- How far apart the heartbeats are. -/
def Settings.period : K := st.rounds * st.sweep

end Model

variable {st : Settings K} {me : Instance} {s t : State K} {u w : UUID} {a : Action K}

/-! ## What a script does -/

theorem leases_run_of_ne (st : Settings K) (s : State K) (script : Script) (h : w ≠ u) :
    (s.run st u script).leases w = s.leases w ∧ (s.run st u script).deadline w = s.deadline w := by
  cases script with
  | connect i => exact ⟨Function.update_of_ne h .., Function.update_of_ne h ..⟩
  | disconnect i | prune => exact ⟨Function.update_of_ne h .., rfl⟩

theorem score_run_connect (st : Settings K) (me : Instance) (s : State K) (u : UUID) :
    ((s.run st u (.connect me)).leases u).score me = some (s.now + st.ttl) ∧
      (s.run st u (.connect me)).deadline u = s.now + 2 * st.ttl := by
  have hleases : (s.run st u (.connect me)).leases u =
      ((s.leases u).zremrangebyscore s.now).zadd (s.now + st.ttl) me := Function.update_self ..
  refine ⟨?_, Function.update_self ..⟩
  rw [hleases, SortedSet.score_zadd, if_pos rfl]

theorem run_frame (st : Settings K) (s : State K) (u : UUID) (script : Script) :
    (s.run st u script).now = s.now ∧
    (s.run st u script).nextWake = s.nextWake ∧
    (s.run st u script).nextHeartbeat = s.nextHeartbeat ∧
    (s.run st u script).registry = s.registry := by
  cases script <;> exact ⟨rfl, rfl, rfl, rfl⟩

theorem beat_frame (st : Settings K) (me : Instance) (s : State K) :
    (s.beat st me).now = s.now ∧ (s.beat st me).nextWake = s.nextWake ∧
    (s.beat st me).registry = s.registry := by
  unfold State.beat
  generalize s.registry.localUserIds = us
  induction us generalizing s with
  | nil => exact ⟨rfl, rfl, rfl⟩
  | cons u us ih =>
      obtain ⟨hnow, hwake, -, hregistry⟩ := run_frame st s u (.connect me)
      obtain ⟨hnow', hwake', hregistry'⟩ := ih (s.run st u (.connect me))
      exact ⟨hnow'.trans hnow, hwake'.trans hwake, hregistry'.trans hregistry⟩

/-! ## Steps -/

theorem step_wait {d : K} (hd : 0 ≤ d) (hle : s.now + d ≤ s.nextWake) :
    step st me s (.wait d) = some { s with now := s.now + d } := if_pos ⟨hd, hle⟩

theorem step_beat (hwake : s.now = s.nextWake) (hbeat : s.nextHeartbeat ≤ s.now) :
    step st me s .wake = some { s.beat st me with
      nextHeartbeat := s.now + st.heartbeat
      nextWake := (s.beat st me).now + st.sweep } := by
  rw [step, if_pos hwake, if_pos hbeat]

theorem step_skip (hwake : s.now = s.nextWake) (hearly : s.now < s.nextHeartbeat) :
    step st me s .wake = some { s with nextWake := s.now + st.sweep } := by
  rw [step, if_pos hwake, if_neg (not_le.mpr hearly)]

theorem step_connect {ws : Socket} (h : s.registry.sockets u = ∅) :
    step st me s (.connect u ws) =
      some ({ s with registry := (s.registry.connect u ws).2 }.run st u (.connect me)) := by
  have hwas : (s.registry.connect u ws).1 = true := Registry.connect_fst.mpr h
  exact congrArg some (if_pos hwas)

/-- The lease of the instance for a user, and that the key is there as long as it is. -/
def State.Holds (s : State K) (me : Instance) (u : UUID) (e : K) : Prop :=
  (s.leases u).score me = some e ∧ e ≤ s.deadline u

variable [IsStrictOrderedRing K]

theorem Settings.ttl_pos (st : Settings K) : 0 < st.ttl := by
  have h : ((5 : ℤ) : K) ≤ st.ttl := Int.cast_le.mpr st.ttl_ge
  push_cast at h
  linarith

theorem Settings.sweep_pos (st : Settings K) : 0 < st.sweep := by
  have h : (1 / 10 : K) ≤ st.sweep := st.sweep_ge
  linarith

theorem Settings.heartbeat_pos (st : Settings K) : 0 < st.heartbeat := by
  have h : ((1 : ℤ) : K) ≤ st.heartbeat := Int.cast_le.mpr st.heartbeat_ge
  push_cast at h
  linarith

theorem Settings.heartbeat_lt (st : Settings K) : st.heartbeat < st.ttl :=
  Int.cast_lt.mpr st.heartbeat_lt_ttl

/-- CONNECT grants a lease for the time to live. -/
theorem holds_run_connect : (s.run st u (.connect me)).Holds me u (s.now + st.ttl) := by
  obtain ⟨hscore, hdeadline⟩ := score_run_connect st me s u
  refine ⟨hscore, hdeadline ▸ ?_⟩
  linarith [st.ttl_pos]

/-- The scripts of others keep a lease that has not expired. -/
theorem holds_run_foreign {script : Script} (hforeign : script.Foreign me) {e : K}
    (h : s.Holds me w e) (hlive : s.now < e) (hle : e ≤ s.now + st.ttl) :
    (s.run st u script).Holds me w e := by
  by_cases hw : w = u
  · subst hw
    have hkeep : ((s.leases w).zremrangebyscore s.now).score me = some e :=
      SortedSet.score_zremrangebyscore.mpr ⟨h.1, hlive⟩
    cases script with
    | connect i =>
        have hleases : (s.run st w (.connect i)).leases w =
            ((s.leases w).zremrangebyscore s.now).zadd (s.now + st.ttl) i :=
          Function.update_self ..
        have hdeadline : (s.run st w (.connect i)).deadline w = s.now + 2 * st.ttl :=
          Function.update_self ..
        refine ⟨?_, hdeadline ▸ ?_⟩
        · rw [hleases, SortedSet.score_zadd, if_neg (Ne.symm hforeign), hkeep]
        · linarith [st.ttl_pos]
    | disconnect i =>
        have hleases : (s.run st w (.disconnect i)).leases w =
            ((s.leases w).zrem i).zremrangebyscore s.now := Function.update_self ..
        refine ⟨?_, h.2⟩
        rw [hleases, SortedSet.score_zremrangebyscore, SortedSet.score_zrem,
          if_neg (Ne.symm hforeign)]
        exact ⟨h.1, hlive⟩
    | prune =>
        have hleases : (s.run st w .prune).leases w = (s.leases w).zremrangebyscore s.now :=
          Function.update_self ..
        exact ⟨hleases ▸ hkeep, h.2⟩
  · obtain ⟨hleases, hdeadline⟩ := leases_run_of_ne st s script hw
    exact ⟨hleases ▸ h.1, hdeadline ▸ h.2⟩

/-- The heartbeat grants every connected user a lease. -/
theorem holds_beat (h : s.registry.sockets u ≠ ∅) :
    (s.beat st me).Holds me u (s.now + st.ttl) := by
  have hfold : ∀ (us : List UUID) (s : State K),
      u ∈ us ∨ s.Holds me u (s.now + st.ttl) →
        (us.foldl (fun s u ↦ s.run st u (.connect me)) s).Holds me u (s.now + st.ttl) := by
    intro us
    induction us with
    | nil => exact fun s h ↦ h.resolve_left List.not_mem_nil
    | cons w us ih =>
        intro s h
        refine ih (s.run st w (.connect me)) ?_
        by_cases hw : u = w
        · subst hw
          exact .inr holds_run_connect
        · refine h.imp (fun h ↦ (List.mem_cons.mp h).resolve_left hw) fun h ↦ ?_
          obtain ⟨hleases, hdeadline⟩ := leases_run_of_ne st s (.connect me) hw
          exact ⟨hleases ▸ h.1, hdeadline ▸ h.2⟩
  exact hfold _ s (.inl (Registry.mem_localUserIds.mpr h))

/-! ## Leases last -/

variable [FloorSemiring K]

/-- The heartbeats are no nearer than they should be. -/
theorem Settings.heartbeat_le_period (st : Settings K) : st.heartbeat ≤ st.period :=
  (div_le_iff₀ st.sweep_pos).mp (Nat.le_ceil _)

/-- One round less is not enough for a heartbeat. -/
theorem Settings.lt_heartbeat {k : ℕ} (h : k < st.rounds) : k * st.sweep < st.heartbeat :=
  (lt_div_iff₀ st.sweep_pos).mp (Nat.lt_ceil.mp h)

/-- `b` is the time of the last heartbeat, or as early as it can have been; the loop has `j` more
rounds to go through before the one that the next heartbeat is in at the latest. -/
structure Inv (st : Settings K) (me : Instance) (s : State K) (b : K) (j : ℕ) : Prop where
  due : s.nextWake + j * st.sweep = b + st.period
  heartbeat : s.nextHeartbeat ≤ b + st.period
  since : b ≤ s.now
  now_le : s.now ≤ s.nextWake
  leases : ∀ u, s.registry.sockets u ≠ ∅ →
    ∃ e, s.Holds me u e ∧ b + st.ttl ≤ e ∧ e ≤ s.now + st.ttl

section Lasting

variable {b : K} {j : ℕ}

theorem Inv.lasts (h : Inv st me s b j) (hperiod : st.period < st.ttl)
    (hu : s.registry.sockets u ≠ ∅) :
    ∃ e, s.Holds me u e ∧ b + st.ttl ≤ e ∧ e ≤ s.now + st.ttl ∧ s.now < e := by
  obtain ⟨e, hholds, hle, hge⟩ := h.leases u hu
  refine ⟨e, hholds, hle, hge, ?_⟩
  have hj : 0 ≤ j * st.sweep := mul_nonneg j.cast_nonneg st.sweep_pos.le
  linarith [h.due, h.now_le]

omit [IsStrictOrderedRing K] in
/-- Something happens to registry and leases at one moment. -/
theorem Inv.move (h : Inv st me s b j) (ht : t.now = s.now ∧ t.nextWake = s.nextWake ∧
      t.nextHeartbeat = s.nextHeartbeat)
    (hleases : ∀ u, t.registry.sockets u ≠ ∅ →
      (∃ e, t.Holds me u e ∧ b + st.ttl ≤ e ∧ e ≤ s.now + st.ttl)) : Inv st me t b j := by
  obtain ⟨hnow, hwake, hheartbeat⟩ := ht
  exact {
    due := hwake ▸ h.due
    heartbeat := hheartbeat ▸ h.heartbeat
    since := hnow ▸ h.since
    now_le := hnow ▸ hwake ▸ h.now_le
    leases := fun u hu ↦ hnow ▸ hleases u hu }

/-- A round with a heartbeat. -/
theorem Inv.of_beat : Inv st me
    { s.beat st me with
      nextHeartbeat := s.now + st.heartbeat
      nextWake := (s.beat st me).now + st.sweep } s.now (st.rounds - 1) := by
  obtain ⟨hnow, -, hregistry⟩ := beat_frame st me s
  have hrounds : 1 ≤ st.rounds := Nat.ceil_pos.mpr (div_pos st.heartbeat_pos st.sweep_pos)
  have hsweep := st.sweep_pos
  exact {
    due := by
      rw [hnow, Nat.cast_sub hrounds, Settings.period]
      push_cast
      ring
    heartbeat := by
      have hle := st.heartbeat_le_period
      dsimp only
      linarith
    since := hnow.ge
    now_le := by
      dsimp only
      linarith
    leases := fun u hu ↦ by
      change (s.beat st me).registry.sockets u ≠ ∅ at hu
      rw [hregistry] at hu
      exact ⟨s.now + st.ttl, holds_beat hu, le_rfl, hnow.symm ▸ le_rfl⟩ }

/-- A round without one. -/
theorem Inv.skip (h : Inv st me s b j) (hwake : s.now = s.nextWake)
    (hearly : ¬ s.nextHeartbeat ≤ s.now) :
    Inv st me { s with nextWake := s.now + st.sweep } b (j - 1) := by
  have hsweep := st.sweep_pos
  have hdue := h.due
  have hj : 1 ≤ j := by
    -- Otherwise the loop has no more rounds to go through, and it is time for the heartbeat.
    by_contra hzero
    obtain rfl : j = 0 := by omega
    rw [Nat.cast_zero, zero_mul, add_zero] at hdue
    exact hearly (hwake ▸ hdue ▸ h.heartbeat)
  refine { h with due := ?_, now_le := ?_ }
  · rw [Nat.cast_sub hj]
    push_cast
    linarith
  · dsimp only
    linarith

/-- A round of the loop. -/
theorem Inv.wake (h : Inv st me s b j) (ht : step st me s .wake = some t) :
    ∃ b j, Inv st me t b j := by
  rw [Maintenance.step] at ht
  split at ht
  · next hwake =>
      by_cases hbeat : s.nextHeartbeat ≤ s.now
      · rw [if_pos hbeat] at ht
        cases ht
        exact ⟨_, _, .of_beat⟩
      · rw [if_neg hbeat] at ht
        cases ht
        exact ⟨_, _, h.skip hwake hbeat⟩
  · cases ht

omit [IsStrictOrderedRing K] in
/-- The lease of a user whom a script is not about. -/
theorem Inv.leases_run (h : Inv st me s b j) {r : Registry} (script : Script) (hw : w ≠ u)
    (hsockets : s.registry.sockets w ≠ ∅) :
    ∃ e, ({ s with registry := r }.run st u script).Holds me w e ∧ b + st.ttl ≤ e ∧
      e ≤ s.now + st.ttl := by
  obtain ⟨e, hholds, hle, hge⟩ := h.leases w hsockets
  obtain ⟨hleases, hdeadline⟩ :=
    leases_run_of_ne st { s with registry := r } script hw
  exact ⟨e, ⟨hleases ▸ hholds.1, hdeadline ▸ hholds.2⟩, hle, hge⟩

theorem Inv.connect (h : Inv st me s b j) {ws : Socket}
    (ht : step st me s (.connect u ws) = some t) : Inv st me t b j := by
  have ht : (if (s.registry.connect u ws).1 then
      { s with registry := (s.registry.connect u ws).2 }.run st u (.connect me)
    else { s with registry := (s.registry.connect u ws).2 }) = t := Option.some.inj ht
  have hsockets : ∀ w, (s.registry.connect u ws).2.sockets w ≠ ∅ ↔
      w = u ∨ s.registry.sockets w ≠ ∅ := fun _ ↦ Registry.sockets_connect_ne_empty
  cases hwas : (s.registry.connect u ws).1 with
  | true =>
      rw [hwas, if_pos rfl] at ht
      subst ht
      obtain ⟨hnow, hwake, hheartbeat, hregistry⟩ := run_frame st
        { s with registry := (s.registry.connect u ws).2 } u (.connect me)
      refine h.move ⟨hnow, hwake, hheartbeat⟩ fun w hw ↦ ?_
      rw [hregistry] at hw
      by_cases hwu : w = u
      · subst hwu
        refine ⟨s.now + st.ttl, holds_run_connect, ?_, le_rfl⟩
        linarith [h.since]
      · exact h.leases_run (.connect me) hwu (((hsockets w).mp hw).resolve_left hwu)
  | false =>
      rw [hwas, if_neg Bool.false_ne_true] at ht
      subst ht
      have hu : s.registry.sockets u ≠ ∅ := fun hnone ↦
        Bool.false_ne_true (hwas.symm.trans (Registry.connect_fst.mpr hnone))
      refine h.move ⟨rfl, rfl, rfl⟩ fun w hw ↦ h.leases w ?_
      exact ((hsockets w).mp hw).elim (fun e ↦ e ▸ hu) id

omit [IsStrictOrderedRing K] in
theorem Inv.disconnect (h : Inv st me s b j) {ws : Socket}
    (ht : step st me s (.disconnect u ws) = some t) : Inv st me t b j := by
  have ht : (if (s.registry.disconnect u ws).1 then
      { s with registry := (s.registry.disconnect u ws).2 }.run st u (.disconnect me)
    else { s with registry := (s.registry.disconnect u ws).2 }) = t := Option.some.inj ht
  have hsockets : ∀ w, (s.registry.disconnect u ws).2.sockets w ≠ ∅ ↔
      s.registry.sockets w ≠ ∅ ∧ ¬ (w = u ∧ (s.registry.disconnect u ws).1 = true) :=
    fun _ ↦ Registry.sockets_disconnect_ne_empty
  cases hlast : (s.registry.disconnect u ws).1 with
  | true =>
      rw [hlast, if_pos rfl] at ht
      subst ht
      obtain ⟨hnow, hwake, hheartbeat, hregistry⟩ := run_frame st
        { s with registry := (s.registry.disconnect u ws).2 } u (.disconnect me)
      refine h.move ⟨hnow, hwake, hheartbeat⟩ fun w hw ↦ ?_
      rw [hregistry] at hw
      obtain ⟨hbefore, hother⟩ := (hsockets w).mp hw
      exact h.leases_run (.disconnect me) (fun e ↦ hother ⟨e, hlast⟩) hbefore
  | false =>
      rw [hlast, if_neg Bool.false_ne_true] at ht
      subst ht
      exact h.move ⟨rfl, rfl, rfl⟩ fun w hw ↦ h.leases w ((hsockets w).mp hw).1

theorem Inv.elsewhere (h : Inv st me s b j) (hperiod : st.period < st.ttl) {script : Script}
    (ht : step st me s (.elsewhere u script) = some t) : Inv st me t b j := by
  rw [Maintenance.step] at ht
  split at ht
  · next hforeign =>
      cases ht
      obtain ⟨hnow, hwake, hheartbeat, hregistry⟩ := run_frame st s u script
      refine h.move ⟨hnow, hwake, hheartbeat⟩ fun w hw ↦ ?_
      obtain ⟨e, hholds, hle, hge, hlive⟩ := h.lasts hperiod (hregistry ▸ hw)
      exact ⟨e, holds_run_foreign hforeign hholds hlive hge, hle, hge⟩
  · cases ht

theorem Inv.expire (h : Inv st me s b j) (hperiod : st.period < st.ttl)
    (ht : step st me s (.expire u) = some t) : Inv st me t b j := by
  rw [Maintenance.step] at ht
  split at ht
  · next hdeadline =>
      cases ht
      refine h.move ⟨rfl, rfl, rfl⟩ fun w hw ↦ ?_
      obtain ⟨e, hholds, hle, hge, hlive⟩ := h.lasts hperiod hw
      have hwu : w ≠ u := by
        rintro rfl
        exact absurd (hlive.trans_le hholds.2) (not_lt.mpr hdeadline)
      exact ⟨e, ⟨(congrArg (SortedSet.score · me) (Function.update_of_ne hwu ..)).trans hholds.1,
        hholds.2⟩, hle, hge⟩
  · cases ht

theorem Inv.step (h : Inv st me s b j) (hperiod : st.period < st.ttl)
    (ht : step st me s a = some t) : ∃ b j, Inv st me t b j := by
  cases a with
  | wait d =>
      rw [Maintenance.step] at ht
      split at ht
      · next hd =>
          cases ht
          refine ⟨b, j, ⟨h.due, h.heartbeat, h.since.trans ?_, hd.2, fun u hu ↦ ?_⟩⟩
          · linarith [hd.1]
          · obtain ⟨e, hholds, hle, hge⟩ := h.leases u hu
            exact ⟨e, hholds, hle, hge.trans (by linarith [hd.1])⟩
      · cases ht
  | wake => exact h.wake ht
  | connect u ws => exact ⟨b, j, h.connect ht⟩
  | disconnect u ws => exact ⟨b, j, h.disconnect ht⟩
  | elsewhere u script => exact ⟨b, j, h.elsewhere hperiod ht⟩
  | expire u => exact ⟨b, j, h.expire hperiod ht⟩

theorem Inv.initial (h : Initial s) : Inv st me s (s.now - st.period) 0 := by
  have hnonneg : 0 ≤ st.period := st.heartbeat_pos.le.trans st.heartbeat_le_period
  exact {
    due := by
      rw [h.nextWake]
      simp
    heartbeat := by
      rw [h.nextHeartbeat]
      linarith [h.now]
    since := by linarith
    now_le := h.nextWake.ge
    leases := fun u hu ↦ absurd (h.registry u) hu }

/-- Leases last on all runs, if the heartbeats are near enough. -/
theorem lasting_of_period (hperiod : st.period < st.ttl) {s₀ : State K} (h₀ : Initial s₀)
    {as : List (Action K)} (hrun : exec (step st me) s₀ as = some s) : Lasting s := by
  obtain ⟨b, j, h⟩ := exec_invariant (P := fun s ↦ ∃ b j, Inv st me s b j)
    (fun ⟨_, _, h⟩ ht ↦ h.step hperiod ht) ⟨_, _, Inv.initial h₀⟩ hrun
  intro u hu
  obtain ⟨e, hholds, -, -, hlive⟩ := h.lasts hperiod hu
  exact ⟨me, e, hholds.1, hlive⟩

end Lasting

/-! ## Leases lapse -/

/-- Nobody has been connected yet. -/
def fresh : State K := ⟨0, 0, 0, .empty, fun _ ↦ .empty, fun _ ↦ 0⟩

omit [IsStrictOrderedRing K] [FloorSemiring K] in
theorem fresh_initial : Initial (fresh : State K) := ⟨le_rfl, rfl, rfl, fun _ ↦ rfl⟩

/-- A user has connected right after the first heartbeat, and `k` rounds have passed. -/
def granted (st : Settings K) (me : Instance) (k : ℕ) : State K where
  now := k * st.sweep
  nextWake := (k + 1) * st.sweep
  nextHeartbeat := st.heartbeat
  registry := (Registry.empty.connect 1 1).2
  leases := Function.update (fun _ ↦ .empty) 1
    (((.empty : SortedSet Instance K).zremrangebyscore 0).zadd st.ttl me)
  deadline := Function.update (fun _ ↦ 0) 1 (2 * st.ttl)

omit [FloorSemiring K] [IsStrictOrderedRing K] in
theorem exec_granted (st : Settings K) (me : Instance) :
    exec (step st me) fresh [.wake, .connect 1 1] = some (granted st me 0) := by
  have hbeat : (fresh : State K).beat st me = fresh := rfl
  rw [exec_cons, step_beat rfl le_rfl, hbeat, Option.bind_some, exec_cons, step_connect rfl,
    Option.bind_some, exec_nil]
  simp [granted, State.run, fresh]

/-- A round without a heartbeat. -/
theorem exec_round {k : ℕ} (hk : k + 1 < st.rounds) :
    exec (step st me) (granted st me k) [.wait st.sweep, .wake] = some (granted st me (k + 1)) := by
  have hnow : (granted st me k).now + st.sweep = (granted st me k).nextWake := by
    simp only [granted]
    ring
  have hearly : (granted st me k).now + st.sweep < (granted st me k).nextHeartbeat := by
    have hlt := st.lt_heartbeat hk
    rw [hnow]
    simpa only [granted, Nat.cast_add, Nat.cast_one] using hlt
  rw [exec_cons, step_wait st.sweep_pos.le hnow.le, Option.bind_some, exec_cons,
    step_skip hnow hearly, Option.bind_some, exec_nil]
  simp only [granted, Nat.cast_add, Nat.cast_one]
  congr 2
  ring

theorem exec_rounds {k : ℕ} (hk : k < st.rounds) :
    exec (step st me) (granted st me 0) (List.replicate k [.wait st.sweep, .wake]).flatten =
      some (granted st me k) := by
  induction k with
  | zero => rfl
  | succ k ih =>
      rw [List.replicate_succ', List.flatten_append, List.flatten_singleton]
      exact exec_append_eq_some.mpr ⟨_, ih (Nat.lt_of_succ_lt hk), exec_round hk⟩

/-- A user connects right after a heartbeat, and the time to live passes. -/
def lapse (st : Settings K) : List (Action K) :=
  [.wake, .connect 1 1] ++ (List.replicate (st.rounds - 1) [.wait st.sweep, .wake]).flatten ++
    [.wait (st.ttl - (st.rounds - 1 : ℕ) * st.sweep)]

/-- If the next heartbeat is not there before, then the lease has expired. -/
theorem lapse_expired (h : st.ttl ≤ st.period) (me : Instance) :
    ∃ s, exec (step st me) fresh (lapse st) = some s ∧
      s.registry.sockets 1 ≠ ∅ ∧ ¬ (s.leases 1).Exceeds s.now := by
  have hrounds : 1 ≤ st.rounds := Nat.ceil_pos.mpr (div_pos st.heartbeat_pos st.sweep_pos)
  have hlast : st.rounds - 1 < st.rounds := Nat.sub_lt hrounds one_pos
  have hmost := (st.lt_heartbeat hlast).trans st.heartbeat_lt
  set g := granted st me (st.rounds - 1) with hg
  have hnow : g.now + (st.ttl - (st.rounds - 1 : ℕ) * st.sweep) = st.ttl := by
    simp only [hg, granted]
    ring
  have hwake : g.nextWake = st.period := by
    simp only [hg, granted, Settings.period]
    rw [Nat.cast_sub hrounds]
    push_cast
    ring
  have hwait : exec (step st me) g [.wait (st.ttl - (st.rounds - 1 : ℕ) * st.sweep)] =
      some { g with now := st.ttl } := by
    rw [exec_cons, step_wait (sub_nonneg.mpr hmost.le) (by rw [hnow, hwake]; exact h), hnow]
    rfl
  refine ⟨_, exec_append_eq_some.mpr ⟨_, exec_append_eq_some.mpr ⟨_, exec_granted st me,
    exec_rounds hlast⟩, hwait⟩, Registry.sockets_connect_ne_empty.mpr (.inl rfl), ?_⟩
  rintro ⟨i, e, hscore, hlive⟩
  have hleases : g.leases 1 =
      ((.empty : SortedSet Instance K).zremrangebyscore 0).zadd st.ttl me := by
    simp only [hg, granted, Function.update_self]
  change (g.leases 1).score i = some e at hscore
  rw [hleases, SortedSet.score_zadd] at hscore
  split at hscore
  · cases hscore
    exact lt_irrefl _ hlive
  · cases (SortedSet.score_zremrangebyscore.mp hscore).1

/-- **Whoever is connected has an unexpired lease in every state that is reached, exactly if the
heartbeats are less than the time to live apart.** -/
theorem leases_last_iff (st : Settings K) (me : Instance) :
    (∀ s₀ as s, Initial s₀ → exec (step st me) s₀ as = some s → Lasting s) ↔
      st.period < st.ttl := by
  refine ⟨fun h ↦ ?_, fun hperiod s₀ as s h₀ hrun ↦ lasting_of_period hperiod h₀ hrun⟩
  by_contra hnot
  obtain ⟨s, hrun, hsockets, hlapsed⟩ := lapse_expired (not_lt.mp hnot) me
  exact hlapsed (h fresh (lapse st) s fresh_initial hrun 1 hsockets)

/-- The defaults. -/
def defaults : Settings ℚ := ⟨30, 10, 1, by decide, by decide, by norm_num, by decide⟩

theorem defaults_rounds : defaults.rounds = 10 := by
  norm_num [Settings.rounds, Settings.heartbeat, Settings.sweep, defaults]

theorem defaults_period : defaults.period < defaults.ttl := by
  rw [Settings.period, defaults_rounds]
  norm_num [Settings.ttl, Settings.sweep, defaults]

/-- A user connects, and the time until the next heartbeat passes. -/
def heartbeat : List (Action ℚ) :=
  [.wake, .connect 1 1] ++ (List.replicate 9 [.wait defaults.sweep, .wake]).flatten ++
    [.wait defaults.sweep, .wake]

theorem exec_heartbeat : ∃ s, exec (step defaults "a") fresh heartbeat = some s ∧ s.now = 10 ∧
    s.registry = (granted defaults "a" 9).registry := by
  have hlast : 9 < defaults.rounds := by rw [defaults_rounds]; decide
  have hsweep : defaults.sweep = 1 := by norm_num [Settings.sweep, defaults]
  have hheartbeat : defaults.heartbeat = 10 := by norm_num [Settings.heartbeat, defaults]
  set g := granted defaults "a" 9 with hg
  have hnow : g.now + defaults.sweep = 10 := by norm_num [hg, granted, hsweep]
  have hwake : g.nextWake = 10 := by norm_num [hg, granted, hsweep]
  have hbeat : g.nextHeartbeat = 10 := hheartbeat
  set late : State ℚ := { g with now := g.now + defaults.sweep } with hlate
  obtain ⟨hnow', -, hregistry⟩ := beat_frame defaults "a" late
  have hround : exec (step defaults "a") g [.wait defaults.sweep, .wake] =
      some { late.beat defaults "a" with
        nextHeartbeat := late.now + defaults.heartbeat
        nextWake := (late.beat defaults "a").now + defaults.sweep } := by
    rw [exec_cons, step_wait defaults.sweep_pos.le (hnow.trans hwake.symm).le, Option.bind_some,
      ← hlate, exec_cons, step_beat (hnow.trans hwake.symm) (hbeat.trans hnow.symm).le,
      Option.bind_some, exec_nil]
  exact ⟨_, exec_append_eq_some.mpr ⟨_, exec_append_eq_some.mpr ⟨_, exec_granted defaults "a",
    exec_rounds hlast⟩, hround⟩, hnow'.trans hnow, hregistry⟩

/-- With the defaults, a user who has connected still has a lease ten seconds later. -/
theorem defaults_lasting : ∃ s, exec (step defaults "a") fresh heartbeat = some s ∧ s.now = 10 ∧
    s.registry.sockets 1 ≠ ∅ ∧ (s.leases 1).Exceeds s.now := by
  obtain ⟨s, hrun, hnow, hregistry⟩ := exec_heartbeat
  have hsockets : s.registry.sockets 1 ≠ ∅ := by
    rw [hregistry]
    exact Registry.sockets_connect_ne_empty.mpr (.inl rfl)
  exact ⟨s, hrun, hnow, hsockets,
    (leases_last_iff defaults "a").mpr defaults_period fresh _ _ fresh_initial hrun 1 hsockets⟩

/-- Settings that are accepted, with heartbeats 6 seconds apart. -/
def slow : Settings ℚ := ⟨5, 4, 3, by decide, by decide, by norm_num, by decide⟩

/-- The lease expires 5 seconds after the user has connected. -/
theorem slow_lapses : ∃ s, exec (step slow "a") fresh (lapse slow) = some s ∧
    s.registry.sockets 1 ≠ ∅ ∧ ¬ (s.leases 1).Exceeds s.now := by
  have hrounds : slow.rounds = 2 := by
    rw [Settings.rounds, Nat.ceil_eq_iff two_ne_zero]
    norm_num [Settings.heartbeat, Settings.sweep, slow]
  refine lapse_expired ?_ "a"
  rw [Settings.period, hrounds]
  norm_num [Settings.ttl, Settings.sweep, slow]

end Chatterbox.Realtime.Maintenance
