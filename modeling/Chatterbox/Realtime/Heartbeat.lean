import Chatterbox.Presence.Algebra
import Chatterbox.Realtime.Registry

/-!
# Heartbeats, and the calls that keep the leases

`connect` and `disconnect` change the registry under the manager's lock and
release it; only then, if the user has come or gone, do they have Redis run a
script.  The heartbeat takes the connected users of the moment, and has CONNECT
run for one after another.  The scripts of different coroutines run in any order.

So a DISCONNECT may run after the user has come back and their CONNECT has run,
and a CONNECT, above all one of the heartbeat, after the user has gone and their
DISCONNECT has run.  `Orderly` is the condition that a script which contradicts
the registry is followed by one that does not; `lease_agrees` is the result under
it, and `late_script_misleads` says that there is none without it.

Everything else that happens to the store is one action, `elsewhere`: the clock,
the scripts of other instances, look-ups, the expiry of keys and the sweep.  A
lease is taken not to expire during a run (`Lasting`).
-/

namespace Chatterbox.Realtime.Heartbeat

open Presence (Instance Config)

/-- A call of `connect` or of `disconnect`. -/
inductive Call where
  | idle
  /-- The registry is done with, and the CONNECT has still to run. -/
  | connecting (u : UUID)
  | disconnecting (u : UUID)
  | done (answer : Bool)
deriving DecidableEq, Repr

/-- The store of all instances, and one of them. -/
structure State where
  presence : Presence.State
  registry : Registry
  calls : ℕ → Call
  /-- The users whose leases the heartbeat has still to renew. -/
  beating : List UUID

/-- A call moves on. -/
def State.set (s : State) (c : ℕ) (call : Call) : State :=
  { s with calls := Function.update s.calls c call }

/-- Something happens to the store. -/
def State.act (cfg : Config) (s : State) (a : Presence.Action) : Option State :=
  (Presence.step cfg s.presence a).map fun p ↦ { s with presence := p }

/-- A move of a call, of the heartbeat, or of the rest of the world. -/
inductive Action where
  /-- `connect`, up to the release of the lock. -/
  | connect (c : ℕ) (u : UUID) (ws : Socket)
  /-- `disconnect`, up to the release of the lock. -/
  | disconnect (c : ℕ) (u : UUID) (ws : Socket)
  /-- The script of a call runs. -/
  | run (c : ℕ)
  /-- The heartbeat takes the connected users. -/
  | beat
  /-- The heartbeat's next CONNECT runs. -/
  | renew
  | elsewhere (a : Presence.Action)
deriving DecidableEq, Repr

/-- The action is not a script of the instance. -/
def Elsewhere (me : Instance) : Presence.Action → Prop
  | .connect i _ | .disconnect i _ => i ≠ me
  | _ => True

instance (me : Instance) : DecidablePred (Elsewhere me) := fun a ↦ by
  cases a <;> unfold Elsewhere <;> infer_instance

/-- One step. -/
def step (cfg : Config) (me : Instance) (s : State) : Action → Option State
  | .connect c u ws =>
      match s.calls c with
      | .idle =>
          let (wasLocallyOffline, registry) := s.registry.connect u ws
          let call := if wasLocallyOffline then .connecting u else .done false
          some ({ s with registry }.set c call)
      | _ => none
  | .disconnect c u ws =>
      match s.calls c with
      | .idle =>
          let (wasLast, registry) := s.registry.disconnect u ws
          let call := if wasLast then .disconnecting u else .done false
          some ({ s with registry }.set c call)
      | _ => none
  | .run c =>
      match s.calls c with
      | .connecting u =>
          let answer := (Presence.connectScript cfg s.presence.now me u s.presence.store).1
          (s.set c (.done answer)).act cfg (.connect me u)
      | .disconnecting u =>
          let answer := (Presence.disconnectScript s.presence.now me u s.presence.store).1
          (s.set c (.done answer)).act cfg (.disconnect me u)
      | _ => none
  | .beat => if s.beating = [] then some { s with beating := s.registry.localUserIds } else none
  | .renew =>
      match s.beating with
      | u :: todo => { s with beating := todo }.act cfg (.connect me u)
      | [] => none
  | .elsewhere a => if Elsewhere me a then s.act cfg a else none

/-- Nobody has been online yet. -/
def Initial (s : State) : Prop :=
  Presence.Initial s.presence ∧ s.registry = .empty ∧ (∀ c, s.calls c = .idle) ∧ s.beating = []

variable {cfg : Config} {me : Instance} {p q : Presence.State} {b : Presence.Action}
  {s t : State} {a : Action} {u w : UUID}

/-! ## What the store holds of one instance -/

/-- The store holds the instance's lease for the user. -/
def Leased (me : Instance) (p : Presence.State) (u : UUID) : Prop :=
  (p.store.leases u).score me ≠ none

/-- No lease has expired. -/
def Lasting (p : Presence.State) : Prop :=
  ∀ u i e, (p.store.leases u).score i = some e → p.now < e

theorem Lasting.prune (h : Lasting p) (u : UUID) (i : Instance) :
    ((p.store.leases u).zremrangebyscore p.now).score i = (p.store.leases u).score i := by
  ext e
  rw [SortedSet.score_zremrangebyscore, and_iff_left_iff_imp]
  exact h u i e

/-- CONNECT grants its lease, and no other. -/
theorem leased_connect (h : Lasting p) {i : Instance}
    (hq : Presence.step cfg p (.connect i u) = some q) :
    Leased me q w ↔ Leased me p w ∨ me = i ∧ w = u := by
  cases hq
  unfold Leased
  rw [← Presence.view_leases, (Presence.connectScript_view cfg p.now i u p.store).2]
  by_cases hw : w = u
  · subst hw
    rw [Function.update_self, Presence.View.score_connect, Presence.view_leases, h.prune]
    by_cases hi : me = i <;> simp [hi]
  · rw [Function.update_of_ne hw, Presence.view_leases]
    simp [hw]

/-- DISCONNECT withdraws its lease, and no other. -/
theorem leased_disconnect (h : Lasting p) {i : Instance}
    (hq : Presence.step cfg p (.disconnect i u) = some q) :
    Leased me q w ↔ Leased me p w ∧ ¬ (me = i ∧ w = u) := by
  cases hq
  unfold Leased
  rw [← Presence.view_leases, (Presence.disconnectScript_view p.now i u p.store).2]
  by_cases hw : w = u
  · subst hw
    rw [Function.update_self, Option.ne_none_iff_exists', Option.ne_none_iff_exists']
    simp only [Presence.View.score_disconnect, Presence.view_leases, and_true]
    constructor
    · rintro ⟨e, hi, he, -⟩
      exact ⟨⟨e, he⟩, hi⟩
    · rintro ⟨⟨e, he⟩, hi⟩
      exact ⟨e, hi, he, h w me e he⟩
  · rw [Function.update_of_ne hw, Presence.view_leases]
    simp [hw]

/-- A look-up removes no lease that has not expired. -/
theorem leased_lookup (h : Lasting p) {us : List UUID}
    (hq : Presence.step cfg p (.lookup us) = some q) : Leased me q w ↔ Leased me p w := by
  cases hq
  have hsame : ∀ i, ((Presence.onlineUserIds p.now us p.store).2.view w).leases.score i =
      (p.store.leases w).score i := by
    refine Presence.onlineUserIds_view
      (P := fun v ↦ ∀ i, v.leases.score i = (p.store.leases w).score i) (fun v hv i ↦ ?_)
      fun _ ↦ rfl
    ext e
    show (v.leases.zremrangebyscore p.now).score i = some e ↔ _
    rw [SortedSet.score_zremrangebyscore, hv i, and_iff_left_iff_imp]
    exact h w i e
  unfold Leased
  rw [← hsame me]
  exact Iff.rfl

/-- A key whose time is over holds no lease. -/
theorem leased_expireKey (hinv : Presence.Inv cfg p) (h : Lasting p)
    (hq : Presence.step cfg p (.expireKey u) = some q) : Leased me q w ↔ Leased me p w := by
  simp only [Presence.step] at hq
  split at hq
  · cases hq
  · rename_i d hd
    split at hq
    · rename_i hle
      cases hq
      by_cases hw : w = u
      · subst hw
        have hdead := (hinv.ok w).timely.not_exceeds_of_deadline hd hle
        have hnone : (p.store.leases w).score me = none := by
          rw [Option.eq_none_iff_forall_ne_some]
          exact fun e he ↦ hdead ⟨me, e, he, h w me e he⟩
        unfold Leased
        rw [Presence.Store.setLeases_leases, SortedSet.score_empty, hnone]
      · unfold Leased
        rw [← Presence.view_leases, Presence.view_setLeases, Function.update_of_ne hw,
          Presence.view_leases]
    · cases hq

/-- The sweep finds no user with a lease. -/
theorem leased_sweep (hinv : Presence.Inv cfg p) (h : Lasting p) {start : Instant}
    (hq : Presence.step cfg p (.sweep start) = some q) : Leased me q w ↔ Leased me p w := by
  simp only [Presence.step] at hq
  split at hq
  · rename_i hstart
    cases hq
    unfold Leased
    rw [← Presence.view_leases, ← Presence.view_leases]
    rcases Presence.sweepPresence_cases cfg start p.now p.store w with
      ⟨-, hview⟩ | ⟨⟨x, hx, hle⟩, -, hview⟩
    · rw [hview]
    · have hdead : ¬ (p.store.view w).leases.Exceeds p.now := fun hlive ↦ by
        obtain ⟨y, hy, hlt⟩ := (hinv.ok w).lt_listed hlive
        rw [Presence.view_listed, hx] at hy
        cases hy
        exact absurd (hlt.trans_le hle) (not_lt.mpr hstart)
      have hnone : ∀ i, (p.store.view w).leases.score i = none := fun i ↦ by
        rw [Option.eq_none_iff_forall_ne_some]
        exact fun e he ↦ hdead ⟨i, e, he, h w i e he⟩
      have hlatest : ((p.store.view w).leases.zremrangebyscore start).latest = none := by
        rw [SortedSet.latest_eq_none]
        intro i
        rw [Option.eq_none_iff_forall_ne_some]
        intro e he
        have hsome := (p.store.view w).prune_sub start i e he
        rw [hnone i] at hsome
        cases hsome
      have hlisted : (p.store.view w).listed ≠ none := by
        rw [Presence.view_listed, hx]
        exact Option.some_ne_none x
      rw [hview, Presence.View.sweep_of_none hlisted hlatest, hnone me, SortedSet.score_empty]
  · cases hq

/-- **The lease is the instance's own**: nobody else grants or removes it. -/
theorem leased_elsewhere (hinv : Presence.Inv cfg p) (h : Lasting p) {a : Presence.Action}
    (ha : Elsewhere me a) (hq : Presence.step cfg p a = some q) (w : UUID) :
    Leased me q w ↔ Leased me p w := by
  cases a with
  | tick d =>
      cases hq
      exact Iff.rfl
  | connect i u =>
      rw [leased_connect h hq, or_iff_left fun hown ↦ ha hown.1.symm]
  | disconnect i u =>
      rw [leased_disconnect h hq, and_iff_left fun hown ↦ ha hown.1.symm]
  | lookup us => exact leased_lookup h hq
  | expireKey u => exact leased_expireKey hinv h hq
  | sweep start => exact leased_sweep hinv h hq

/-! ## Calls, heartbeat and registry -/

/-- The user has a registered socket. -/
def State.Serves (s : State) (u : UUID) : Prop := s.registry.sockets u ≠ ∅

instance (s : State) : DecidablePred s.Serves :=
  fun u ↦ inferInstanceAs (Decidable (s.registry.sockets u ≠ ∅))

/-- A CONNECT for the user has still to run. -/
def State.Arriving (s : State) (u : UUID) : Prop :=
  (∃ c, s.calls c = .connecting u) ∨ u ∈ s.beating

/-- A DISCONNECT for the user has still to run. -/
def State.Leaving (s : State) (u : UUID) : Prop := ∃ c, s.calls c = .disconnecting u

/-- A CONNECT runs for a user who is connected, or has a DISCONNECT still to run;
a DISCONNECT for one who is not, or has a CONNECT still to run. -/
def Orderly (s : State) : Action → Prop
  | .run c => ∀ u, (s.calls c = .connecting u → s.Serves u ∨ s.Leaving u) ∧
      (s.calls c = .disconnecting u → ¬ s.Serves u ∨ s.Arriving u)
  | .renew => ∀ u todo, s.beating = u :: todo → s.Serves u ∨ s.Leaving u
  | _ => True

/-- No presence call and no heartbeat is under way. -/
def Quiet (s : State) : Prop :=
  (∀ c, s.calls c = .idle ∨ ∃ answer, s.calls c = .done answer) ∧ s.beating = []

theorem arriving_set {c : ℕ} {call : Call} (hc : s.calls c ≠ .connecting u) :
    (s.set c call).Arriving u ↔ call = .connecting u ∨ s.Arriving u := by
  have hcall := exists_update (x := call) (P := fun k ↦ k = Call.connecting u) hc
  exact (or_congr_left hcall).trans or_assoc

theorem leaving_set {c : ℕ} {call : Call} (hc : s.calls c ≠ .disconnecting u) :
    (s.set c call).Leaving u ↔ call = .disconnecting u ∨ s.Leaving u :=
  exists_update (P := fun k ↦ k = Call.disconnecting u) hc

/-- A call that is over is no call that has still to run. -/
theorem arriving_done {c : ℕ} (hc : s.calls c ≠ .connecting u) (answer : Bool) :
    (s.set c (.done answer)).Arriving u ↔ s.Arriving u :=
  (arriving_set hc).trans (or_iff_right nofun)

theorem leaving_done {c : ℕ} (hc : s.calls c ≠ .disconnecting u) (answer : Bool) :
    (s.set c (.done answer)).Leaving u ↔ s.Leaving u :=
  (leaving_set hc).trans (or_iff_right nofun)

/-- What a step makes of one user's lease, registration and outstanding scripts. -/
inductive Effect (me : Instance) (s : State) (a : Action) (t : State) (u : UUID) : Prop
  | stay (leased : Leased me t.presence u ↔ Leased me s.presence u)
      (serves : t.Serves u ↔ s.Serves u) (arriving : t.Arriving u ↔ s.Arriving u)
      (leaving : t.Leaving u ↔ s.Leaving u)
  | come (cause : ∃ c ws, a = .connect c u ws)
      (leased : Leased me t.presence u ↔ Leased me s.presence u) (serves : t.Serves u)
      (arriving : t.Arriving u ↔ ¬ s.Serves u ∨ s.Arriving u)
      (leaving : t.Leaving u ↔ s.Leaving u)
  | go (cause : ∃ c ws, a = .disconnect c u ws)
      (leased : Leased me t.presence u ↔ Leased me s.presence u) (serves : ¬ t.Serves u)
      (arriving : t.Arriving u ↔ s.Arriving u) (leaving : t.Leaving u)
  | beat (cause : a = .beat) (leased : Leased me t.presence u ↔ Leased me s.presence u)
      (serves : t.Serves u ↔ s.Serves u) (arriving : t.Arriving u ↔ s.Serves u ∨ s.Arriving u)
      (leaving : t.Leaving u ↔ s.Leaving u)
  | grant (orderly : Orderly s a → s.Serves u ∨ s.Leaving u) (due : s.Arriving u)
      (leased : Leased me t.presence u) (serves : t.Serves u ↔ s.Serves u)
      (leaving : t.Leaving u ↔ s.Leaving u)
  | withdraw (orderly : Orderly s a → ¬ s.Serves u ∨ s.Arriving u) (due : s.Leaving u)
      (leased : ¬ Leased me t.presence u) (serves : t.Serves u ↔ s.Serves u)
      (arriving : t.Arriving u ↔ s.Arriving u)

theorem exists_of_act (h : s.act cfg b = some t) :
    ∃ p, Presence.step cfg s.presence b = some p ∧ t = { s with presence := p } := by
  obtain ⟨p, hp, rfl⟩ := Option.map_eq_some_iff.mp h
  exact ⟨p, hp, rfl⟩

/-- What it means for the script of a call to run. -/
theorem step_run {c : ℕ} (ht : step cfg me s (.run c) = some t) :
    ∃ answer p, t = { s.set c (.done answer) with presence := p } ∧
      ((∃ u, s.calls c = .connecting u ∧
          Presence.step cfg s.presence (.connect me u) = some p) ∨
        ∃ u, s.calls c = .disconnecting u ∧
          Presence.step cfg s.presence (.disconnect me u) = some p) := by
  simp only [step] at ht
  split at ht
  · rename_i u hc
    obtain ⟨p, hp, rfl⟩ := exists_of_act ht
    exact ⟨_, p, rfl, Or.inl ⟨u, hc, hp⟩⟩
  · rename_i u hc
    obtain ⟨p, hp, rfl⟩ := exists_of_act ht
    exact ⟨_, p, rfl, Or.inr ⟨u, hc, hp⟩⟩
  · cases ht

/-- What it means for a CONNECT of the heartbeat to run. -/
theorem step_renew (ht : step cfg me s .renew = some t) :
    ∃ u todo p, s.beating = u :: todo ∧ Presence.step cfg s.presence (.connect me u) = some p ∧
      t = { s with beating := todo, presence := p } := by
  simp only [step] at ht
  split at ht
  · rename_i u todo hbeating
    obtain ⟨p, hp, rfl⟩ := exists_of_act ht
    exact ⟨u, todo, p, hbeating, hp, rfl⟩
  · cases ht

/-- The store does what it does without the instance. -/
theorem step_presence (ht : step cfg me s a = some t) :
    t.presence = s.presence ∨ ∃ b, Presence.step cfg s.presence b = some t.presence := by
  cases a with
  | connect c u ws | disconnect c u ws =>
      simp only [step] at ht
      split at ht
      · cases ht
        exact Or.inl rfl
      · cases ht
  | run c =>
      obtain ⟨answer, p, rfl, ⟨u, -, hp⟩ | ⟨u, -, hp⟩⟩ := step_run ht
      · exact Or.inr ⟨_, hp⟩
      · exact Or.inr ⟨_, hp⟩
  | beat =>
      simp only [step] at ht
      split at ht
      · cases ht
        exact Or.inl rfl
      · cases ht
  | renew =>
      obtain ⟨u, todo, p, -, hp, rfl⟩ := step_renew ht
      exact Or.inr ⟨_, hp⟩
  | elsewhere b =>
      simp only [step] at ht
      split at ht
      · obtain ⟨p, hp, rfl⟩ := exists_of_act ht
        exact Or.inr ⟨_, hp⟩
      · cases ht

theorem step_inv (hinv : Presence.Inv cfg s.presence) (ht : step cfg me s a = some t) :
    Presence.Inv cfg t.presence := by
  rcases step_presence ht with hsame | ⟨b, hb⟩
  · rwa [hsame]
  · exact hinv.step hb

/-- A call that has not begun is nothing else. -/
theorem calls_ne_of_idle {c : ℕ} (hidle : s.calls c = .idle) {call : Call} (h : call ≠ .idle) :
    s.calls c ≠ call := fun e ↦ h (e.symm.trans hidle)

/-- The registry's half of `connect`. -/
theorem connect_effect {c : ℕ} {ws : Socket} (ht : step cfg me s (.connect c u ws) = some t) :
    Effect me s (.connect c u ws) t w := by
  simp only [step] at ht
  split at ht
  · rename_i hidle
    cases ht
    by_cases hw : w = u
    · subst hw
      refine .come ⟨c, ws, rfl⟩ Iff.rfl (Registry.sockets_connect_ne_empty.mpr (Or.inl rfl)) ?_ ?_
      · refine (arriving_set (calls_ne_of_idle hidle nofun)).trans (or_congr ?_ Iff.rfl)
        have hfst : (s.registry.connect w ws).1 = true ↔ _ := Registry.connect_fst
        unfold State.Serves
        rw [not_not, ← hfst]
        cases (s.registry.connect w ws).1 <;> simp
      · refine (leaving_set (calls_ne_of_idle hidle nofun)).trans (or_iff_right ?_)
        cases (s.registry.connect w ws).1 <;> simp
    · refine .stay Iff.rfl (Registry.sockets_connect_ne_empty.trans (or_iff_right hw)) ?_ ?_
      · refine (arriving_set (calls_ne_of_idle hidle nofun)).trans (or_iff_right ?_)
        cases (s.registry.connect u ws).1 <;> simp [Ne.symm hw]
      · refine (leaving_set (calls_ne_of_idle hidle nofun)).trans (or_iff_right ?_)
        cases (s.registry.connect u ws).1 <;> simp
  · cases ht

/-- The registry's half of `disconnect`. -/
theorem disconnect_effect {c : ℕ} {ws : Socket}
    (ht : step cfg me s (.disconnect c u ws) = some t) :
    Effect me s (.disconnect c u ws) t w := by
  simp only [step] at ht
  split at ht
  · rename_i hidle
    cases ht
    by_cases hw : w = u ∧ (s.registry.disconnect u ws).1 = true
    · obtain ⟨rfl, hlast⟩ := hw
      rw [if_pos hlast]
      refine .go ⟨c, ws, rfl⟩ Iff.rfl (not_not.mpr (Registry.disconnect_fst.mp hlast).2) ?_ ?_
      · exact (arriving_set (calls_ne_of_idle hidle nofun)).trans (or_iff_right nofun)
      · exact (leaving_set (calls_ne_of_idle hidle nofun)).mpr (Or.inl rfl)
    · refine .stay Iff.rfl (Registry.sockets_disconnect_ne_empty.trans (and_iff_left hw)) ?_ ?_
      · refine (arriving_set (calls_ne_of_idle hidle nofun)).trans (or_iff_right ?_)
        split <;> nofun
      · refine (leaving_set (calls_ne_of_idle hidle nofun)).trans (or_iff_right fun h ↦ hw ?_)
        split at h
        · exact ⟨(Call.disconnecting.inj h).symm, ‹_›⟩
        · cases h
  · cases ht

/-- A call's script. -/
theorem run_effect (hlast : Lasting s.presence) {c : ℕ} (ht : step cfg me s (.run c) = some t) :
    Effect me s (.run c) t w := by
  obtain ⟨answer, p, rfl, ⟨u, hc, hp⟩ | ⟨u, hc, hp⟩⟩ := step_run ht
  · have hleaving := leaving_done (s := s) (c := c) (u := w) (by rw [hc]; exact nofun)
    by_cases hw : w = u
    · subst hw
      exact .grant (fun hok ↦ (hok w).1 hc) (Or.inl ⟨c, hc⟩)
        ((leased_connect hlast hp).mpr (Or.inr ⟨rfl, rfl⟩)) Iff.rfl (hleaving _)
    · refine .stay ((leased_connect hlast hp).trans (or_iff_left fun h ↦ hw h.2)) Iff.rfl
        (arriving_done ?_ _) (hleaving _)
      rw [hc]
      exact fun h ↦ hw (Call.connecting.inj h).symm
  · have harriving := arriving_done (s := s) (c := c) (u := w) (by rw [hc]; exact nofun)
    by_cases hw : w = u
    · subst hw
      exact .withdraw (fun hok ↦ (hok w).2 hc) ⟨c, hc⟩
        (fun h ↦ ((leased_disconnect hlast hp).mp h).2 ⟨rfl, rfl⟩) Iff.rfl (harriving _)
    · refine .stay ((leased_disconnect hlast hp).trans (and_iff_left fun h ↦ hw h.2)) Iff.rfl
        (harriving _) (leaving_done ?_ _)
      rw [hc]
      exact fun h ↦ hw (Call.disconnecting.inj h).symm

theorem step_effect (hinv : Presence.Inv cfg s.presence) (hlast : Lasting s.presence)
    (ht : step cfg me s a = some t) (w : UUID) : Effect me s a t w := by
  cases a with
  | connect c u ws => exact connect_effect ht
  | disconnect c u ws => exact disconnect_effect ht
  | run c => exact run_effect hlast ht
  | beat =>
      simp only [step] at ht
      split at ht
      · rename_i hnone
        cases ht
        refine .beat rfl Iff.rfl Iff.rfl ?_ Iff.rfl
        unfold State.Arriving State.Serves
        simp only [Registry.mem_localUserIds, hnone, List.not_mem_nil, or_false]
        exact or_comm
      · cases ht
  | renew =>
      obtain ⟨u, todo, p, hbeating, hp, rfl⟩ := step_renew ht
      by_cases hw : w = u
      · subst hw
        exact .grant (fun hok ↦ hok w todo hbeating) (Or.inr (hbeating ▸ List.mem_cons_self))
          ((leased_connect hlast hp).mpr (Or.inr ⟨rfl, rfl⟩)) Iff.rfl Iff.rfl
      · refine .stay ((leased_connect hlast hp).trans (or_iff_left fun h ↦ hw h.2)) Iff.rfl
          (or_congr Iff.rfl ?_) Iff.rfl
        rw [hbeating, List.mem_cons, or_iff_right hw]
  | elsewhere b =>
      simp only [step] at ht
      split at ht
      · rename_i hb
        obtain ⟨p, hp, rfl⟩ := exists_of_act ht
        exact .stay (leased_elsewhere hinv hlast hb hp w) Iff.rfl Iff.rfl Iff.rfl
      · cases ht

/-- Lease and registry agree but for what has still to run. -/
structure Settling (cfg : Config) (me : Instance) (s : State) : Prop where
  inv : Presence.Inv cfg s.presence
  leased : ∀ u, Leased me s.presence u → s.Serves u ∨ s.Leaving u
  serves : ∀ u, s.Serves u → Leased me s.presence u ∨ s.Arriving u

theorem Settling.initial (h : Initial s) : Settling cfg me s := by
  obtain ⟨hpresence, hregistry, -, -⟩ := h
  refine ⟨.initial hpresence, fun u hu ↦ absurd ?_ hu, fun u hu ↦ absurd ?_ hu⟩
  · rw [hpresence.1]
    rfl
  · rw [hregistry]
    rfl

/-- **The invariant survives every orderly step.** -/
theorem Settling.step (h : Settling cfg me s) (hlast : Lasting s.presence) (hok : Orderly s a)
    (ht : Heartbeat.step cfg me s a = some t) : Settling cfg me t := by
  refine ⟨step_inv h.inv ht, fun u hu ↦ ?_, fun u hu ↦ ?_⟩
  · cases step_effect h.inv hlast ht u with
    | stay leased serves arriving leaving =>
        rw [serves, leaving]
        exact h.leased u (leased.mp hu)
    | come cause leased serves arriving leaving => exact Or.inl serves
    | go cause leased serves arriving leaving => exact Or.inr leaving
    | beat cause leased serves arriving leaving =>
        rw [serves, leaving]
        exact h.leased u (leased.mp hu)
    | grant orderly due leased serves leaving =>
        rw [serves, leaving]
        exact orderly hok
    | withdraw orderly due leased serves arriving => exact absurd hu leased
  · cases step_effect h.inv hlast ht u with
    | stay leased serves arriving leaving =>
        rw [leased, arriving]
        exact h.serves u (serves.mp hu)
    | come cause leased serves arriving leaving =>
        rw [leased, arriving]
        by_cases hbefore : s.Serves u
        · exact (h.serves u hbefore).imp_right Or.inr
        · exact Or.inr (Or.inl hbefore)
    | go cause leased serves arriving leaving => exact absurd hu serves
    | beat cause leased serves arriving leaving =>
        exact Or.inr (arriving.mpr (Or.inl (serves.mp hu)))
    | grant orderly due leased serves leaving => exact Or.inl leased
    | withdraw orderly due leased serves arriving =>
        exact Or.inr (arriving.mpr ((orderly hok).resolve_left fun hnot ↦ hnot (serves.mp hu)))

theorem Quiet.not_leaving (h : Quiet s) : ¬ s.Leaving u := by
  rintro ⟨c, hc⟩
  rcases h.1 c with hidle | ⟨answer, hdone⟩
  · cases hc.symm.trans hidle
  · cases hc.symm.trans hdone

theorem Quiet.not_arriving (h : Quiet s) : ¬ s.Arriving u := by
  rintro (⟨c, hc⟩ | hbeating)
  · rcases h.1 c with hidle | ⟨answer, hdone⟩
    · cases hc.symm.trans hidle
    · cases hc.symm.trans hdone
  · rw [h.2] at hbeating
    cases hbeating

/-- **Lease and registry agree.**  In a run in which no lease expires and whose
scripts run in an orderly way, whenever no presence call and no heartbeat is
under way, the store holds the instance's lease for exactly the users that have
a registered socket. -/
theorem lease_agrees (cfg : Config) (me : Instance) {s₀ s : State} (h₀ : Initial s₀)
    {as : List Action} (hrun : exec (step cfg me) s₀ as = some s)
    (hlast : Along (step cfg me) (fun s _ ↦ Lasting s.presence) s₀ as)
    (horder : Along (step cfg me) Orderly s₀ as) (hquiet : Quiet s) (u : UUID) :
    Leased me s.presence u ↔ s.Serves u := by
  have h : Settling cfg me s := exec_induction (P := Settling cfg me)
    (fun h hok ht ↦ h.step hok.1 hok.2 ht) (.initial h₀) hrun (hlast.and horder)
  exact ⟨fun hleased ↦ (h.leased u hleased).resolve_right hquiet.not_leaving,
    fun hserves ↦ (h.serves u hserves).resolve_right hquiet.not_arriving⟩

/-! ## Late scripts -/

/-- The step starts nothing new. -/
def Finishing : Action → Prop
  | .connect _ _ _ | .disconnect _ _ _ | .beat => False
  | _ => True

/-- The instance holds a lease for a user without sockets, and will not give it up. -/
def Ghost (me : Instance) (s : State) (u : UUID) : Prop :=
  Leased me s.presence u ∧ ¬ s.Serves u ∧ ¬ s.Leaving u

/-- The instance holds no lease for a user with a socket, and will not ask for one. -/
def Unseen (me : Instance) (s : State) (u : UUID) : Prop :=
  ¬ Leased me s.presence u ∧ s.Serves u ∧ ¬ s.Arriving u

theorem Ghost.step (h : Ghost me s u) (hinv : Presence.Inv cfg s.presence)
    (hlast : Lasting s.presence) (hfin : Finishing a)
    (ht : Heartbeat.step cfg me s a = some t) : Ghost me t u := by
  obtain ⟨hleased, hserves, hleaving⟩ := h
  cases step_effect hinv hlast ht u with
  | stay leased serves arriving leaving =>
      exact ⟨leased.mpr hleased, hserves ∘ serves.mp, hleaving ∘ leaving.mp⟩
  | come cause | go cause =>
      obtain ⟨c, ws, rfl⟩ := cause
      cases hfin
  | beat cause =>
      subst cause
      cases hfin
  | grant orderly due leased serves leaving =>
      exact ⟨leased, hserves ∘ serves.mp, hleaving ∘ leaving.mp⟩
  | withdraw orderly due => exact absurd due hleaving

theorem Unseen.step (h : Unseen me s u) (hinv : Presence.Inv cfg s.presence)
    (hlast : Lasting s.presence) (hfin : Finishing a)
    (ht : Heartbeat.step cfg me s a = some t) : Unseen me t u := by
  obtain ⟨hleased, hserves, harriving⟩ := h
  cases step_effect hinv hlast ht u with
  | stay leased serves arriving leaving =>
      exact ⟨hleased ∘ leased.mp, serves.mpr hserves, harriving ∘ arriving.mp⟩
  | come cause | go cause =>
      obtain ⟨c, ws, rfl⟩ := cause
      cases hfin
  | beat cause =>
      subst cause
      cases hfin
  | grant orderly due => exact absurd due harriving
  | withdraw orderly due leased serves arriving =>
      exact ⟨leased, serves.mpr hserves, harriving ∘ arriving.mp⟩

/-- A script that runs out of order leaves a ghost, or a user unseen. -/
theorem exists_of_not_orderly (hlast : Lasting s.presence) (hbad : ¬ Orderly s a)
    (ht : step cfg me s a = some t) : ∃ u, Ghost me t u ∨ Unseen me t u := by
  cases a with
  | run c =>
      obtain ⟨answer, p, rfl, ⟨u, hc, hp⟩ | ⟨u, hc, hp⟩⟩ := step_run ht
      · have hnot : ¬ (s.Serves u ∨ s.Leaving u) := fun hok ↦ hbad fun w ↦ by
          rw [hc]
          exact ⟨fun h ↦ Call.connecting.inj h ▸ hok, nofun⟩
        refine ⟨u, Or.inl ⟨(leased_connect hlast hp).mpr (Or.inr ⟨rfl, rfl⟩),
          fun h ↦ hnot (Or.inl h), fun h ↦ hnot (Or.inr ?_)⟩⟩
        exact (leaving_done (by rw [hc]; exact nofun) answer).mp h
      · have hnot : ¬ (¬ s.Serves u ∨ s.Arriving u) := fun hok ↦ hbad fun w ↦ by
          rw [hc]
          exact ⟨nofun, fun h ↦ Call.disconnecting.inj h ▸ hok⟩
        refine ⟨u, Or.inr ⟨fun h ↦ ((leased_disconnect hlast hp).mp h).2 ⟨rfl, rfl⟩,
          not_not.mp fun h ↦ hnot (Or.inl h), fun h ↦ hnot (Or.inr ?_)⟩⟩
        exact (arriving_done (by rw [hc]; exact nofun) answer).mp h
  | renew =>
      obtain ⟨u, todo, p, hbeating, hp, rfl⟩ := step_renew ht
      have hnot : ¬ (s.Serves u ∨ s.Leaving u) := fun hok ↦ hbad fun w todo' h ↦ by
        rw [hbeating] at h
        cases h
        exact hok
      exact ⟨u, Or.inl ⟨(leased_connect hlast hp).mpr (Or.inr ⟨rfl, rfl⟩),
        fun h ↦ hnot (Or.inl h), fun h ↦ hnot (Or.inr h)⟩⟩
  | connect | disconnect | beat | elsewhere => exact absurd trivial hbad

/-- **The condition is exact**: when a script has run out of order and all that is
under way comes to its end, lease and registry disagree. -/
theorem late_script_misleads (hinv : Presence.Inv cfg s.presence) (hbad : ¬ Orderly s a)
    {as : List Action} (ht : exec (step cfg me) s (a :: as) = some t)
    (hlast : Along (step cfg me) (fun s _ ↦ Lasting s.presence) s (a :: as))
    (hfin : Along (step cfg me) (fun _ b ↦ Finishing b) s (a :: as)) :
    ∃ u, ¬ (Leased me t.presence u ↔ t.Serves u) := by
  obtain ⟨m, hm, hrest⟩ := exec_cons_eq_some.mp ht
  obtain ⟨u, hu⟩ := exists_of_not_orderly hlast.1 hbad hm
  have hend : Presence.Inv cfg t.presence ∧ (Ghost me t u ∨ Unseen me t u) := by
    refine exec_induction
      (P := fun s ↦ Presence.Inv cfg s.presence ∧ (Ghost me s u ∨ Unseen me s u))
      (fun ⟨hinv, hu⟩ hok hstep ↦ ⟨step_inv hinv hstep, ?_⟩) ⟨step_inv hinv hm, hu⟩ hrest
      ((hlast.2 m hm).and (hfin.2 m hm))
    exact hu.imp (fun h ↦ h.step hinv hok.1 hok.2 hstep) fun h ↦ h.step hinv hok.1 hok.2 hstep
  refine ⟨u, fun hagree ↦ ?_⟩
  rcases hend.2 with ⟨hleased, hserves, -⟩ | ⟨hleased, hserves, -⟩
  · exact hserves (hagree.mp hleased)
  · exact hleased (hagree.mpr hserves)

/-! ## Two runs -/

/-- The instance's scripts grant leases that last. -/
theorem Lasting.step (h : Lasting s.presence) (httl : 0 < cfg.ttl) (ha : ∀ b, a ≠ .elsewhere b)
    (ht : Heartbeat.step cfg me s a = some t) : Lasting t.presence := by
  have hconnect : ∀ {u q}, Presence.step cfg s.presence (.connect me u) = some q → Lasting q := by
    rintro u q ⟨⟩ w i e he
    rw [← Presence.view_leases, (Presence.connectScript_view cfg s.presence.now me u _).2] at he
    by_cases hw : w = u
    · subst hw
      rw [Function.update_self, Presence.View.score_connect, Presence.view_leases, h.prune] at he
      split at he
      · cases he
        exact Int.lt_add_of_pos_right _ (by exact_mod_cast httl)
      · exact h w i e he
    · rw [Function.update_of_ne hw] at he
      exact h w i e he
  have hdisconnect : ∀ {u q}, Presence.step cfg s.presence (.disconnect me u) = some q →
      Lasting q := by
    rintro u q ⟨⟩ w i e he
    rw [← Presence.view_leases, (Presence.disconnectScript_view s.presence.now me u _).2] at he
    by_cases hw : w = u
    · subst hw
      rw [Function.update_self, Presence.View.score_disconnect] at he
      exact he.2.2
    · rw [Function.update_of_ne hw] at he
      exact h w i e he
  cases a with
  | run c =>
      obtain ⟨answer, p, rfl, ⟨u, -, hp⟩ | ⟨u, -, hp⟩⟩ := step_run ht
      · exact hconnect hp
      · exact hdisconnect hp
  | renew =>
      obtain ⟨u, todo, p, -, hp, rfl⟩ := step_renew ht
      exact hconnect hp
  | connect | disconnect | beat =>
      simp only [Heartbeat.step] at ht
      split at ht
      · cases ht
        exact h
      · cases ht
  | elsewhere b => exact absurd rfl (ha b)

/-- As long as only the instance moves, no lease expires. -/
theorem along_lasting (httl : 0 < cfg.ttl) {as : List Action}
    (has : ∀ a ∈ as, ∀ b, a ≠ .elsewhere b) (h : Lasting s.presence) :
    Along (step cfg me) (fun s _ ↦ Lasting s.presence) s as := by
  induction as generalizing s with
  | nil => trivial
  | cons a as ih =>
      obtain ⟨ha, has⟩ := List.forall_mem_cons.mp has
      exact ⟨h, fun t ht ↦ ih has (h.step httl ha ht)⟩

/-- Nobody is online, and the time is 0. -/
def nobody : State := ⟨⟨0, .empty, fun _ ↦ 0⟩, .empty, fun _ ↦ .idle, []⟩

theorem lasting_nobody : Lasting nobody.presence := fun _ _ _ he ↦ by cases he

/-- A user's only socket closes and another opens; the CONNECT of the second runs
before the DISCONNECT of the first. -/
def reconnecting : List Action :=
  [.connect 0 7 0, .run 0, .disconnect 1 7 0, .connect 2 7 1, .run 2, .run 1]

/-- The user has a registered socket and no lease. -/
theorem reconnecting_unseen : Initial nobody ∧
    Along (step ⟨5, true⟩ "a") (fun s _ ↦ Lasting s.presence) nobody reconnecting ∧
    ∃ s, exec (step ⟨5, true⟩ "a") nobody reconnecting = some s ∧ Quiet s ∧
      ¬ (Leased "a" s.presence 7 ↔ s.Serves 7) := by
  refine ⟨⟨⟨rfl, fun _ ↦ rfl⟩, rfl, fun _ ↦ rfl, rfl⟩,
    along_lasting (by decide) (by simp [reconnecting]) lasting_nobody, ?_⟩
  obtain ⟨s, hrun, hquiet, hsockets, hscore⟩ : ∃ s, exec (step ⟨5, true⟩ "a") nobody reconnecting =
      some s ∧ Quiet s ∧ s.registry.sockets 7 = {1} ∧ (s.presence.store.leases 7).score "a" = none := by
    refine ⟨_, rfl, ⟨fun c ↦ ?_, rfl⟩, rfl, rfl⟩
    match c with
    | 0 | 1 | 2 => exact Or.inr ⟨_, rfl⟩
    | c + 3 => exact Or.inl rfl
  refine ⟨s, hrun, hquiet, fun hagree ↦ ?_⟩
  have hserves : s.Serves 7 := by
    rw [State.Serves, hsockets]
    exact Finset.singleton_ne_empty 1
  exact hagree.mpr hserves hscore

/-- The same, and a heartbeat, with the scripts in order. -/
def renewing : List Action :=
  [.connect 0 7 0, .run 0, .disconnect 1 7 0, .connect 2 7 1, .run 1, .beat, .renew, .run 2]

theorem lease_agrees_renewing : ∃ s, exec (step ⟨5, true⟩ "a") nobody renewing = some s ∧
    (Leased "a" s.presence 7 ↔ s.Serves 7) := by
  obtain ⟨s, hrun, hquiet⟩ : ∃ s, exec (step ⟨5, true⟩ "a") nobody renewing = some s ∧ Quiet s := by
    refine ⟨_, rfl, fun c ↦ ?_, rfl⟩
    match c with
    | 0 | 1 | 2 => exact Or.inr ⟨_, rfl⟩
    | c + 3 => exact Or.inl rfl
  refine ⟨s, hrun, lease_agrees ⟨5, true⟩ "a" ⟨⟨rfl, fun _ ↦ rfl⟩, rfl, fun _ ↦ rfl, rfl⟩ hrun
    (along_lasting (by decide) (by simp [renewing]) lasting_nobody) ?_ hquiet 7⟩
  refine .cons trivial rfl (.cons ?_ rfl (.cons trivial rfl (.cons trivial rfl (.cons ?_ rfl
    (.cons trivial rfl (.cons ?_ rfl (.cons ?_ rfl trivial)))))))
  · refine fun u ↦ ⟨?_, nofun⟩
    rintro ⟨⟩
    exact Or.inl (by decide)
  · refine fun u ↦ ⟨nofun, ?_⟩
    rintro ⟨⟩
    exact Or.inr (Or.inl ⟨2, rfl⟩)
  · rintro u todo ⟨⟩
    exact Or.inl (by decide)
  · refine fun u ↦ ⟨?_, nofun⟩
    rintro ⟨⟩
    exact Or.inl (by decide)

end Chatterbox.Realtime.Heartbeat
