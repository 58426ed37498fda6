import Chatterbox.Presence.Leases
import Chatterbox.Run

/-!
# The sweep, command by command

CONNECT and DISCONNECT are scripts and run in one go; a pass of `_sweep_presence`
is a sequence of separate commands, and any number of passes run at the same
time.  For every user a pass has found it claims the user (`claim`), removes the
expired leases (`prune`) and reads the last one (`zrange`); if there is one it
lists the user again (`zadd`), otherwise it drops the key (`delete`), looks the
user up once more (`lookup`) and calls `on_presence_expired` (`report`).

A CONNECT may come between `zrange` and `delete`, and the key is dropped with the
new lease in it; or between `lookup` and `report`, and a user who is online is
reported.  `Undisturbed` is the condition that no such CONNECT is still good, and
`live_leases_kept` the result under it.

For each user and instance the state remembers the CONNECT that has not been
followed by a DISCONNECT, with its time and its number.
-/

namespace Chatterbox.Presence.Sweep

/-- How far a pass has got: the time it started with, the user it is about, and
the users still to come.  `since` is the number of CONNECTs there had been when
the pass last read the user's leases. -/
inductive Phase where
  | idle
  | next (start : Instant) (todo : List UUID)
  | claimed (start : Instant) (u : UUID) (todo : List UUID)
  | pruned (start : Instant) (u : UUID) (todo : List UUID)
  | found (start : Instant) (u : UUID) (latest : Instant) (todo : List UUID)
  | emptied (start : Instant) (u : UUID) (todo : List UUID) (since : ℕ)
  | deleted (start : Instant) (u : UUID) (todo : List UUID)
  | reporting (start : Instant) (u : UUID) (todo : List UUID) (since : ℕ)

/-- The clock, the store, the passes and the CONNECTs. -/
structure State where
  now : Instant
  store : Store
  passes : ℕ → Phase
  /-- How many CONNECTs there have been. -/
  connects : ℕ
  /-- Time and number of an instance's last CONNECT for a user, if it is not undone. -/
  renewed : UUID → Instance → Option (Instant × ℕ)

/-- Move one pass on. -/
def State.set (s : State) (p : ℕ) (ph : Phase) : State :=
  { s with passes := Function.update s.passes p ph }

theorem State.set_passes (s : State) (p : ℕ) (ph : Phase) :
    (s.set p ph).passes = Function.update s.passes p ph := rfl

/-- `zrem` of the user, and the test of its result. -/
def claim (s : State) (p : ℕ) : Option State :=
  match s.passes p with
  | .next _ [] => some (s.set p .idle)
  | .next start (u :: todo) =>
      if s.store.users.score u = none then some (s.set p (.next start todo))
      else some { s.set p (.claimed start u todo) with store := s.store.zremUser u }
  | _ => none

/-- `zremrangebyscore` of the user's leases. -/
def prune (s : State) (p : ℕ) : Option State :=
  match s.passes p with
  | .claimed start u todo =>
      some { s.set p (.pruned start u todo) with
        store := s.store.setLeases u ((s.store.leases u).zremrangebyscore start) }
  | _ => none

/-- `zrange` of the last lease. -/
def zrange (s : State) (p : ℕ) : Option State :=
  match s.passes p with
  | .pruned start u todo =>
      match (s.store.leases u).latest with
      | some latest => some (s.set p (.found start u latest todo))
      | none => some (s.set p (.emptied start u todo s.connects))
  | _ => none

/-- `zadd`: the user is listed again. -/
def zadd (s : State) (p : ℕ) : Option State :=
  match s.passes p with
  | .found start u latest todo =>
      some { s.set p (.next start todo) with store := s.store.zaddUser latest u }
  | _ => none

/-- `delete` of the user's leases. -/
def delete (cfg : Config) (s : State) (p : ℕ) : Option State :=
  match s.passes p with
  | .emptied start u todo _ =>
      some { s.set p (if cfg.reports then .deleted start u todo else .next start todo) with
        store := s.store.setLeases u .empty }
  | _ => none

/-- `online_user_ids([user_id])`. -/
def lookup (s : State) (p : ℕ) : Option State :=
  match s.passes p with
  | .deleted start u todo =>
      let (online, store) := isOnline s.now u s.store
      some { s.set p (if online then .next start todo else .reporting start u todo s.connects) with
        store }
  | _ => none

/-- The call of `on_presence_expired`. -/
def report (s : State) (p : ℕ) : Option State :=
  match s.passes p with
  | .reporting start _ todo _ => some (s.set p (.next start todo))
  | _ => none

/-- A move of the clock, of an instance, of Redis or of a pass. -/
inductive Action where
  | tick (d : ℕ)
  | connect (i : Instance) (u : UUID)
  | disconnect (i : Instance) (u : UUID)
  | expireKey (u : UUID)
  | range (p : ℕ) (start : Instant)
  | claim (p : ℕ)
  | prune (p : ℕ)
  | zrange (p : ℕ)
  | zadd (p : ℕ)
  | delete (p : ℕ)
  | lookup (p : ℕ)
  | report (p : ℕ)
deriving DecidableEq, Repr

/-- One step. -/
def step (cfg : Config) (s : State) : Action → Option State
  | .tick d => some { s with now := s.now + d }
  | .connect i u =>
      some { s with
        store := (connectScript cfg s.now i u s.store).2
        connects := s.connects + 1
        renewed := Function.update s.renewed u
          (Function.update (s.renewed u) i (some (s.now, s.connects))) }
  | .disconnect i u =>
      some { s with
        store := (disconnectScript s.now i u s.store).2
        renewed := Function.update s.renewed u (Function.update (s.renewed u) i none) }
  | .expireKey u =>
      match s.store.deadline u with
      | none => none
      | some d => if d ≤ s.now then some { s with store := s.store.setLeases u .empty } else none
  | .range p start =>
      match s.passes p with
      | .idle =>
          if start ≤ s.now then
            some (s.set p (.next start (s.store.users.zrangebyscore start 100)))
          else none
      | _ => none
  | .claim p => claim s p
  | .prune p => prune s p
  | .zrange p => zrange s p
  | .zadd p => zadd s p
  | .delete p => delete cfg s p
  | .lookup p => lookup s p
  | .report p => report s p

/-- Nobody has been online yet, and no pass is under way. -/
def Initial (s : State) : Prop :=
  s.store = .empty ∧ (∀ p, s.passes p = .idle) ∧ ∀ u i, s.renewed u i = none

/-- The instance has connected or renewed the user less than the time to live
ago, with a CONNECT that is not undone and has number `since` or a later one. -/
def HeldSince (cfg : Config) (s : State) (u : UUID) (since : ℕ) : Prop :=
  ∃ i at_ n, s.renewed u i = some (at_, n) ∧ since ≤ n ∧ s.now < at_ + cfg.ttl

/-- No CONNECT for the user that came after the pass has read the leases, before
the key is dropped, is still good; and none that came after the pass has looked
the user up, before the user is reported. -/
def Undisturbed (cfg : Config) (s : State) : Action → Prop
  | .delete p => ∀ start u todo since, s.passes p = .emptied start u todo since →
      ¬ HeldSince cfg s u since
  | .report p => ∀ start u todo since, s.passes p = .reporting start u todo since →
      ¬ HeldSince cfg s u since
  | _ => True

/-- An unexpired lease is removed only by its own instance's DISCONNECT. -/
def KeepsLeases (s t : State) (a : Action) : Prop :=
  ∀ u i e, (s.store.leases u).score i = some e → s.now < e →
    (t.store.leases u).score i = none → a = .disconnect i u

/-- No user is reported whom some instance holds. -/
def ReportsUnheld (cfg : Config) (s : State) (a : Action) : Prop :=
  ∀ p start u todo since, a = .report p → s.passes p = .reporting start u todo since →
    ¬ HeldSince cfg s u 0

/-! ## The leases and the CONNECTs -/

variable {cfg : Config} {s t : State} {a : Action} {p : ℕ} {ph : Phase}

/-- A user's leases are those of the CONNECTs that are not undone, as far as they
have not expired. -/
structure Held (cfg : Config) (now : Instant) (v : View)
    (renewed : Instance → Option (Instant × ℕ)) : Prop where
  timely : v.Timely cfg now
  held : ∀ i e, v.leases.score i = some e → ∃ at_ n, renewed i = some (at_, n) ∧ e = at_ + cfg.ttl
  complete : ∀ i at_ n, renewed i = some (at_, n) → now < at_ + cfg.ttl →
    v.leases.score i = some (at_ + cfg.ttl)

section Held

variable {now : Instant} {v w : View} {renewed : Instance → Option (Instant × ℕ)} {i : Instance}

theorem Held.tick (h : Held cfg now v renewed) {now' : Instant} (hle : now ≤ now') :
    Held cfg now' v renewed :=
   ⟨h.timely.tick hle, h.held,
    fun i at_ n hr hlt ↦ h.complete i at_ n hr (hle.trans_lt hlt)⟩

/-- A command has removed expired leases at most. -/
theorem Held.setLeases (h : Held cfg now v renewed) {z : Leases}
    (hsub : ∀ i e, z.score i = some e → v.leases.score i = some e)
    (hkeep : ∀ i e, v.leases.score i = some e → now < e → z.score i = some e) :
    Held cfg now (v.setLeases z) renewed :=
  ⟨h.timely.setLeases hsub, fun i e he ↦ h.held i e (hsub i e he),
    fun i at_ n hr hlt ↦ hkeep i _ (h.complete i at_ n hr hlt) hlt⟩

theorem Held.prune (h : Held cfg now v renewed) {b : Instant} (hb : b ≤ now) :
    Held cfg now (v.setLeases (v.leases.zremrangebyscore b)) renewed :=
  h.setLeases (v.prune_sub b) fun _ _ he hlt ↦
    SortedSet.score_zremrangebyscore.mpr ⟨he, hb.trans_lt hlt⟩

/-- The leases of a user without unexpired ones are dropped. -/
theorem Held.drop (h : Held cfg now v renewed) (hdead : ¬ v.leases.Exceeds now) :
    Held cfg now (v.setLeases .empty) renewed :=
  h.setLeases (fun _ _ he ↦ by cases he) fun i e he hlt ↦ absurd ⟨i, e, he, hlt⟩ hdead

/-- Whether the user is listed does not matter. -/
theorem Held.congr (h : Held cfg now v renewed) (hleases : w.leases = v.leases)
    (hdeadline : w.deadline = v.deadline) : Held cfg now w renewed := by
  obtain ⟨htimely, hheld, hcomplete⟩ := h
  unfold View.Timely at htimely
  rw [← hleases] at hheld hcomplete htimely
  rw [← hdeadline] at htimely
  exact ⟨htimely, hheld, hcomplete⟩

theorem Held.connect (h : Held cfg now v renewed) (i : Instance) (n : ℕ) :
    Held cfg now (v.connect cfg now i).2 (Function.update renewed i (some (now, n))) := by
  refine ⟨h.timely.connect i, fun j e he ↦ ?_, fun j at_ m hr hlt ↦ ?_⟩
  · rw [View.score_connect] at he
    by_cases hj : j = i
    · rw [if_pos hj] at he
      exact ⟨now, n, by rw [hj, Function.update_self], (Option.some.inj he).symm⟩
    · rw [if_neg hj] at he
      rw [Function.update_of_ne hj]
      exact h.held j e (v.prune_sub now j e he)
  · rw [View.score_connect]
    by_cases hj : j = i
    · rw [hj, Function.update_self, Option.some.injEq, Prod.mk.injEq] at hr
      rw [if_pos hj, hr.1]
    · rw [Function.update_of_ne hj] at hr
      rw [if_neg hj, SortedSet.score_zremrangebyscore]
      exact ⟨h.complete j at_ m hr hlt, hlt⟩

theorem Held.disconnect (h : Held cfg now v renewed) (i : Instance) :
    Held cfg now (v.disconnect now i).2 (Function.update renewed i none) := by
  refine ⟨h.timely.disconnect i, fun j e he ↦ ?_, fun j at_ m hr hlt ↦ ?_⟩
  · obtain ⟨hj, hold, -⟩ := View.score_disconnect.mp he
    rw [Function.update_of_ne hj]
    exact h.held j e hold
  · by_cases hj : j = i
    · rw [hj, Function.update_self] at hr
      cases hr
    · rw [Function.update_of_ne hj] at hr
      exact View.score_disconnect.mpr ⟨hj, h.complete j at_ m hr hlt, hlt⟩

end Held

/-! ## The passes -/

/-- What a pass may rely on: what it has read about leases and CONNECTs is out of
date only as far as there have been CONNECTs since. -/
def Phase.Ok (cfg : Config) (s : State) : Phase → Prop
  | .idle => True
  | .next start _ | .claimed start _ _ | .pruned start _ _ | .found start _ _ _
  | .deleted start _ _ => start ≤ s.now
  | .emptied start u _ since => start ≤ s.now ∧ since ≤ s.connects ∧
      ∀ i e, (s.store.leases u).score i = some e →
        ∃ at_ n, s.renewed u i = some (at_, n) ∧ since ≤ n
  | .reporting start u _ since => start ≤ s.now ∧ since ≤ s.connects ∧
      ∀ i at_ n, s.renewed u i = some (at_, n) → s.now < at_ + cfg.ttl → since ≤ n

/-- What every step leaves of what a pass has read. -/
structure Aged (s t : State) : Prop where
  now : s.now ≤ t.now
  connects : s.connects ≤ t.connects
  leases : ∀ u i e, (t.store.leases u).score i = some e →
    ((s.store.leases u).score i = some e ∧ t.renewed u i = s.renewed u i) ∨
      ∃ at_ n, t.renewed u i = some (at_, n) ∧ s.connects ≤ n
  renewed : ∀ u i at_ n, t.renewed u i = some (at_, n) →
    s.renewed u i = some (at_, n) ∨ s.connects ≤ n

theorem Phase.Ok.aged (h : ph.Ok cfg s) (hst : Aged s t) : ph.Ok cfg t := by
  cases ph with
  | idle => trivial
  | next | claimed | pruned | found | deleted => exact le_trans h hst.now
  | emptied start u todo since =>
      obtain ⟨hstart, hsince, hleases⟩ := h
      refine ⟨hstart.trans hst.now, hsince.trans hst.connects, fun i e he ↦ ?_⟩
      rcases hst.leases u i e he with ⟨hold, hsame⟩ | ⟨at_, n, hr, hn⟩
      · rw [hsame]
        exact hleases i e hold
      · exact ⟨at_, n, hr, hsince.trans hn⟩
  | reporting start u todo since =>
      obtain ⟨hstart, hsince, hrenewed⟩ := h
      refine ⟨hstart.trans hst.now, hsince.trans hst.connects, fun i at_ n hr hlt ↦ ?_⟩
      rcases hst.renewed u i at_ n hr with hold | hn
      · exact hrenewed i at_ n hold (hst.now.trans_lt hlt)
      · exact hsince.trans hn

/-- What every state satisfies that an undisturbed run reaches. -/
structure Inv (cfg : Config) (s : State) : Prop where
  held : ∀ u, Held cfg s.now (s.store.view u) (s.renewed u)
  phases : ∀ p, (s.passes p).Ok cfg s

theorem Inv.initial (h : Initial s) : Inv cfg s := by
  obtain ⟨hstore, hpasses, hrenewed⟩ := h
  refine ⟨fun u ↦ ⟨?_, ?_, ?_⟩, fun p ↦ by rw [hpasses p]; trivial⟩
  · rw [hstore]
    exact .of_empty fun _ ↦ rfl
  · intro i e he
    rw [hstore] at he
    cases he
  · intro i at_ n hr
    rw [hrenewed u i] at hr
    cases hr

/-- No CONNECT or DISCONNECT: only expired leases go. -/
structure Quiet (s t : State) : Prop where
  now : t.now = s.now
  connects : t.connects = s.connects
  renewed : t.renewed = s.renewed
  leases : ∀ u i e, (t.store.leases u).score i = some e → (s.store.leases u).score i = some e

theorem Quiet.aged (h : Quiet s t) : Aged s t :=
  ⟨h.now.ge, h.connects.ge,
    fun u i e he ↦ Or.inl ⟨h.leases u i e he, by rw [h.renewed]⟩,
    fun u i at_ n hr ↦ Or.inl (by rwa [h.renewed] at hr)⟩

/-- A command of a pass replaces one user's part of the store. -/
theorem Inv.command (h : Inv cfg s) {u : UUID} {v : View} (hnow : t.now = s.now)
    (hconnects : t.connects = s.connects) (hrenewed : t.renewed = s.renewed)
    (hpasses : t.passes = Function.update s.passes p ph)
    (hview : t.store.view = Function.update s.store.view u v)
    (hv : Held cfg s.now v (s.renewed u))
    (hsub : ∀ i e, v.leases.score i = some e → (s.store.leases u).score i = some e)
    (hok : Quiet s t → ph.Ok cfg t) : Inv cfg t := by
  have hquiet : Quiet s t := by
    refine ⟨hnow, hconnects, hrenewed, fun w i e he ↦ ?_⟩
    rw [← view_leases, hview] at he
    by_cases hw : w = u
    · rw [hw, Function.update_self] at he
      rw [hw]
      exact hsub i e he
    · rwa [Function.update_of_ne hw] at he
  constructor
  · intro w
    rw [hview, hnow, hrenewed]
    by_cases hw : w = u
    · rwa [hw, Function.update_self]
    · rw [Function.update_of_ne hw]
      exact h.held w
  · intro q
    by_cases hq : q = p
    · rw [hq, hpasses, Function.update_self]
      exact hok hquiet
    · rw [hpasses, Function.update_of_ne hq]
      exact (h.phases q).aged hquiet.aged

/-- A pass goes on without a change of the store. -/
theorem Inv.move (h : Inv cfg s) (hok : ph.Ok cfg s) : Inv cfg (s.set p ph) := by
  have hquiet : Quiet s (s.set p ph) := ⟨rfl, rfl, rfl, fun _ _ _ he ↦ he⟩
  refine ⟨h.held, fun q ↦ ?_⟩
  by_cases hq : q = p
  · rw [hq, State.set_passes, Function.update_self]
    exact hok.aged hquiet.aged
  · rw [State.set_passes, Function.update_of_ne hq]
    exact (h.phases q).aged hquiet.aged

/-- An operation of an instance replaces what is known about one user. -/
theorem Inv.script (h : Inv cfg s) (u : UUID) (v : View)
    (renewed : Instance → Option (Instant × ℕ)) (hnow : t.now = s.now)
    (hpasses : t.passes = s.passes) (hview : t.store.view = Function.update s.store.view u v)
    (hrenewed : t.renewed = Function.update s.renewed u renewed)
    (hv : Held cfg s.now v renewed) (hconnects : s.connects ≤ t.connects)
    (hleases : ∀ i e, v.leases.score i = some e →
      ((s.store.leases u).score i = some e ∧ renewed i = s.renewed u i) ∨
        ∃ at_ n, renewed i = some (at_, n) ∧ s.connects ≤ n)
    (hnew : ∀ i at_ n, renewed i = some (at_, n) →
      s.renewed u i = some (at_, n) ∨ s.connects ≤ n) : Inv cfg t := by
  have haged : Aged s t := by
    refine ⟨hnow.ge, hconnects, fun w i e he ↦ ?_, fun w i at_ n hr ↦ ?_⟩
    · rw [← view_leases, hview] at he
      rw [hrenewed]
      by_cases hw : w = u
      · rw [hw, Function.update_self] at he ⊢
        exact hleases i e he
      · rw [Function.update_of_ne hw] at he ⊢
        exact Or.inl ⟨he, rfl⟩
    · rw [hrenewed] at hr
      by_cases hw : w = u
      · rw [hw, Function.update_self] at hr
        rw [hw]
        exact hnew i at_ n hr
      · rw [Function.update_of_ne hw] at hr
        exact Or.inl hr
  constructor
  · intro w
    rw [hview, hnow, hrenewed]
    by_cases hw : w = u
    · rw [hw, Function.update_self, Function.update_self]
      exact hv
    · rw [Function.update_of_ne hw, Function.update_of_ne hw]
      exact h.held w
  · intro p
    rw [hpasses]
    exact (h.phases p).aged haged

/-! ### Step by step -/

theorem Inv.tick (h : Inv cfg s) {d : ℕ} (ht : Sweep.step cfg s (.tick d) = some t) :
    Inv cfg t := by
  cases ht
  have hle : s.now ≤ s.now + d := by linarith [Int.natCast_nonneg d]
  have haged : Aged s { s with now := s.now + d } :=
    ⟨hle, le_refl _, fun _ _ _ he ↦ Or.inl ⟨he, rfl⟩, fun _ _ _ _ hr ↦ Or.inl hr⟩
  exact ⟨fun u ↦ (h.held u).tick hle, fun p ↦ (h.phases p).aged haged⟩

/-- A CONNECT has the highest number. -/
theorem Inv.connect (h : Inv cfg s) {i : Instance} {u : UUID}
    (ht : Sweep.step cfg s (.connect i u) = some t) : Inv cfg t := by
  cases ht
  refine h.script u _ _ rfl rfl (connectScript_view cfg s.now i u s.store).2 rfl
    ((h.held u).connect i s.connects) (Nat.le_succ _) (fun j e he ↦ ?_) fun j at_ n hr ↦ ?_
  · by_cases hj : j = i
    · rw [hj, Function.update_self]
      exact Or.inr ⟨s.now, s.connects, rfl, le_refl _⟩
    · rw [View.score_connect, if_neg hj] at he
      exact Or.inl ⟨(s.store.view u).prune_sub s.now j e he, Function.update_of_ne hj ..⟩
  · by_cases hj : j = i
    · rw [hj, Function.update_self, Option.some.injEq, Prod.mk.injEq] at hr
      exact Or.inr hr.2.le
    · rw [Function.update_of_ne hj] at hr
      exact Or.inl hr

theorem Inv.disconnect (h : Inv cfg s) {i : Instance} {u : UUID}
    (ht : Sweep.step cfg s (.disconnect i u) = some t) : Inv cfg t := by
  cases ht
  refine h.script u _ _ rfl rfl (disconnectScript_view s.now i u s.store).2 rfl
    ((h.held u).disconnect i) (le_refl _) (fun j e he ↦ ?_) fun j at_ n hr ↦ ?_
  · obtain ⟨hj, hold, -⟩ := View.score_disconnect.mp he
    exact Or.inl ⟨hold, Function.update_of_ne hj ..⟩
  · by_cases hj : j = i
    · rw [hj, Function.update_self] at hr
      cases hr
    · rw [Function.update_of_ne hj] at hr
      exact Or.inl hr

/-- A key whose time is over holds no unexpired lease. -/
theorem Inv.expireKey (h : Inv cfg s) {u : UUID}
    (ht : Sweep.step cfg s (.expireKey u) = some t) : Inv cfg t := by
  simp only [Sweep.step] at ht
  split at ht
  · cases ht
  · rename_i d hd
    split at ht
    · rename_i hle
      cases ht
      have hdead : ¬ (s.store.view u).leases.Exceeds s.now :=
        (h.held u).timely.not_exceeds_of_deadline hd hle
      exact h.script u _ (s.renewed u) rfl rfl (view_setLeases ..)
        (Function.update_eq_self u s.renewed).symm ((h.held u).drop hdead) (le_refl _)
        (fun _ _ he ↦ by cases he) fun _ _ _ hr ↦ Or.inl hr
    · cases ht

/-- What is known of a pass from where it is. -/
theorem Inv.ok_of_phase (h : Inv cfg s) {ph : Phase} (hp : s.passes p = ph) : ph.Ok cfg s :=
  hp ▸ h.phases p

theorem Inv.range (h : Inv cfg s) {start : Instant}
    (ht : Sweep.step cfg s (.range p start) = some t) : Inv cfg t := by
  simp only [Sweep.step] at ht
  split at ht
  · split at ht
    · rename_i hstart
      cases ht
      exact h.move hstart
    · cases ht
  · cases ht

theorem Inv.claim (h : Inv cfg s) (ht : Sweep.claim s p = some t) : Inv cfg t := by
  simp only [Sweep.claim] at ht
  split at ht
  · cases ht
    exact h.move trivial
  · rename_i start u todo hp
    have hstart := h.ok_of_phase hp
    split at ht
    · cases ht
      exact h.move hstart
    · cases ht
      exact h.command rfl rfl rfl rfl (view_zremUser s.store u)
        ((h.held u).congr rfl rfl) (fun _ _ he ↦ he) fun _ ↦ hstart
  · cases ht

/-- The start of the pass is past, so `prune` removes only what has expired. -/
theorem Inv.prune (h : Inv cfg s) (ht : Sweep.prune s p = some t) : Inv cfg t := by
  simp only [Sweep.prune] at ht
  split at ht
  · rename_i start u todo hp
    have hstart := h.ok_of_phase hp
    cases ht
    exact h.command rfl rfl rfl rfl (view_setLeases ..) ((h.held u).prune hstart)
      ((s.store.view u).prune_sub start) fun _ ↦ hstart
  · cases ht

/-- A pass that finds no lease knows of none. -/
theorem Inv.zrange (h : Inv cfg s) (ht : Sweep.zrange s p = some t) : Inv cfg t := by
  simp only [Sweep.zrange] at ht
  split at ht
  · rename_i start u todo hp
    have hstart := h.ok_of_phase hp
    split at ht
    · cases ht
      exact h.move hstart
    · rename_i hnone
      cases ht
      refine h.move ⟨hstart, le_refl _, fun i e he ↦ ?_⟩
      rw [SortedSet.latest_eq_none.mp hnone i] at he
      cases he
  · cases ht

theorem Inv.zadd (h : Inv cfg s) (ht : Sweep.zadd s p = some t) : Inv cfg t := by
  simp only [Sweep.zadd] at ht
  split at ht
  · rename_i start u latest todo hp
    have hstart := h.ok_of_phase hp
    cases ht
    exact h.command rfl rfl rfl rfl (view_zaddUser s.store latest u)
      ((h.held u).congr rfl rfl) (fun _ _ he ↦ he) fun _ ↦ hstart
  · cases ht

/-- A pass that is not disturbed deletes expired leases only. -/
theorem Inv.delete (h : Inv cfg s) (hok : Undisturbed cfg s (.delete p))
    (ht : Sweep.delete cfg s p = some t) : Inv cfg t := by
  simp only [Sweep.delete] at ht
  split at ht
  · rename_i start u todo since hp
    obtain ⟨hstart, -, hleases⟩ : Phase.Ok cfg s (.emptied start u todo since) :=
      hp ▸ h.phases p
    cases ht
    -- every unexpired lease is one the condition speaks of
    have hdead : ¬ (s.store.view u).leases.Exceeds s.now := by
      rintro ⟨i, e, he, hlt⟩
      obtain ⟨at_, n, hr, rfl⟩ := (h.held u).held i e he
      obtain ⟨at', n', hr', hn⟩ := hleases i _ he
      rw [hr] at hr'
      cases hr'
      exact hok start u todo since hp ⟨i, at_, n, hr, hn, hlt⟩
    refine h.command rfl rfl rfl rfl (view_setLeases ..) ((h.held u).drop hdead)
      (fun _ _ he ↦ by cases he) fun _ ↦ ?_
    split <;> exact hstart
  · cases ht

/-- A user who is not online is held by no one, for the moment. -/
theorem Inv.lookup (h : Inv cfg s) (ht : Sweep.lookup s p = some t) : Inv cfg t := by
  simp only [Sweep.lookup] at ht
  split at ht
  · rename_i start u todo hp
    have hstart := h.ok_of_phase hp
    cases ht
    refine h.command rfl rfl rfl rfl (isOnline_view s.now u s.store).2
      ((h.held u).prune (le_refl s.now)) ((s.store.view u).prune_sub s.now) fun hquiet ↦ ?_
    cases honline : (isOnline s.now u s.store).1 with
    | true => exact hstart
    | false =>
        refine ⟨hstart, le_refl _, fun i at_ n hr hlt ↦ ?_⟩
        rw [isOnline_fst, decide_eq_false_iff_not] at honline
        exact absurd ⟨i, _, (h.held u).complete i at_ n hr hlt, hlt⟩ honline
  · cases ht

theorem Inv.report (h : Inv cfg s) (ht : Sweep.report s p = some t) : Inv cfg t := by
  simp only [Sweep.report] at ht
  split at ht
  · rename_i start u todo since hp
    have hstart : Phase.Ok cfg s (.reporting start u todo since) := hp ▸ h.phases p
    cases ht
    exact h.move hstart.1
  · cases ht

/-- **The invariant survives every undisturbed step.** -/
theorem Inv.step (h : Inv cfg s) (hok : Undisturbed cfg s a)
    (ht : Sweep.step cfg s a = some t) : Inv cfg t := by
  cases a with
  | tick d => exact h.tick ht
  | connect i u => exact h.connect ht
  | disconnect i u => exact h.disconnect ht
  | expireKey u => exact h.expireKey ht
  | range p start => exact h.range ht
  | claim p => exact h.claim ht
  | prune p => exact h.prune ht
  | zrange p => exact h.zrange ht
  | zadd p => exact h.zadd ht
  | delete p => exact h.delete hok ht
  | lookup p => exact h.lookup ht
  | report p => exact h.report ht

/-! ## What a step does to leases and reports -/

/-- CONNECTs are recorded and DISCONNECTs undo them; nothing else does. -/
theorem step_renewed (ht : Sweep.step cfg s a = some t) (u : UUID) (i : Instance) :
    t.renewed u i = s.renewed u i ∨ a = .connect i u ∨ a = .disconnect i u := by
  have hother : ∀ {j : Instance} {w : UUID} (r : Option (Instant × ℕ)), ¬ (j = i ∧ w = u) →
      Function.update s.renewed w (Function.update (s.renewed w) j r) u i = s.renewed u i := by
    intro j w r hne
    by_cases hw : u = w
    · subst hw
      rw [Function.update_self, Function.update_of_ne fun hij ↦ hne ⟨hij.symm, rfl⟩]
    · rw [Function.update_of_ne hw]
  cases a with
  | connect j w =>
      cases ht
      by_cases hjw : j = i ∧ w = u
      · obtain ⟨rfl, rfl⟩ := hjw
        exact Or.inr (Or.inl rfl)
      · exact Or.inl (hother _ hjw)
  | disconnect j w =>
      cases ht
      by_cases hjw : j = i ∧ w = u
      · obtain ⟨rfl, rfl⟩ := hjw
        exact Or.inr (Or.inr rfl)
      · exact Or.inl (hother _ hjw)
  | tick | expireKey | range | claim | prune | zrange | zadd | delete | lookup | report =>
      simp only [Sweep.step, claim, prune, zrange, zadd, delete, lookup, report] at ht
      repeat' split at ht
      all_goals cases ht
      all_goals exact Or.inl rfl

/-- The clock moves only when nothing else does. -/
theorem step_now (ht : Sweep.step cfg s a = some t) : t.now = s.now ∨ t.store = s.store := by
  cases a with
  | tick d =>
      cases ht
      exact Or.inr rfl
  | connect | disconnect | expireKey | range | claim | prune | zrange | zadd | delete | lookup
  | report =>
      simp only [Sweep.step, claim, prune, zrange, zadd, delete, lookup, report] at ht
      repeat' split at ht
      all_goals cases ht
      all_goals exact Or.inl rfl

theorem Inv.keepsLeases (h : Inv cfg s) (h' : Inv cfg t) (ht : Sweep.step cfg s a = some t) :
    KeepsLeases s t a := by
  intro u i e he hlt hnone
  rcases step_renewed ht u i with hsame | rfl | rfl
  · obtain ⟨at_, n, hr, rfl⟩ := (h.held u).held i e he
    rcases step_now ht with hnow | hstore
    · have hkept := (h'.held u).complete i at_ n (hsame.trans hr) (by rwa [hnow])
      rw [view_leases, hnone] at hkept
      cases hkept
    · rw [hstore, he] at hnone
      cases hnone
  · cases ht
    rw [← view_leases, (connectScript_view cfg s.now i u s.store).2, Function.update_self,
      View.score_connect, if_pos rfl] at hnone
    cases hnone
  · rfl

theorem Inv.reportsUnheld (h : Inv cfg s) (hok : Undisturbed cfg s a) : ReportsUnheld cfg s a := by
  rintro p start u todo since rfl hp ⟨i, at_, n, hr, -, hlt⟩
  obtain ⟨-, -, hrenewed⟩ : Phase.Ok cfg s (.reporting start u todo since) := hp ▸ h.phases p
  exact hok start u todo since hp ⟨i, at_, n, hr, hrenewed i at_ n hr hlt, hlt⟩

/-- The step destroys no live lease and reports no user who is held. -/
def Harmless (cfg : Config) (s : State) (a : Action) : Prop :=
  ∀ t, Sweep.step cfg s a = some t → KeepsLeases s t a ∧ ReportsUnheld cfg s a

/-- A disturbed step destroys the lease that disturbs it, or reports its user. -/
theorem Inv.undisturbed_of_harmless (h : Inv cfg s) (hgood : Harmless cfg s a) :
    Undisturbed cfg s a := by
  cases a with
  | delete p =>
      rintro start u todo since hp ⟨i, at_, n, hr, -, hlt⟩
      have hlease := (h.held u).complete i at_ n hr hlt
      obtain ⟨hkeeps, -⟩ := hgood _ (by simp only [Sweep.step, Sweep.delete, hp]; rfl)
      have hgone : ((s.store.setLeases u .empty).leases u).score i = none := by
        rw [Store.setLeases_leases, SortedSet.score_empty]
      cases hkeeps u i _ hlease hlt hgone
  | report p =>
      rintro start u todo since hp ⟨i, at_, n, hr, -, hlt⟩
      obtain ⟨-, hunheld⟩ := hgood _ (by simp only [Sweep.step, Sweep.report, hp]; rfl)
      exact hunheld p start u todo since rfl hp ⟨i, at_, n, hr, Nat.zero_le n, hlt⟩
  | tick | connect | disconnect | expireKey | range | claim | prune | zrange | zadd | lookup =>
      trivial

/-- **The sweep is harmless in exactly the undisturbed runs**: in them an
unexpired lease is removed only by its own instance's DISCONNECT, and no user is
reported whom an instance holds that connected or renewed them less than the
time to live ago. -/
theorem live_leases_kept (cfg : Config) {s₀ : State} (h₀ : Initial s₀) (as : List Action) :
    Along (Sweep.step cfg) (Harmless cfg) s₀ as ↔
      Along (Sweep.step cfg) (Undisturbed cfg) s₀ as := by
  symm
  refine along_congr (P := Inv cfg) (fun h hok ht ↦ h.step hok ht) (fun s a h ↦ ?_)
    (.initial h₀) as
  exact ⟨fun hok t ht ↦ ⟨h.keepsLeases (h.step hok ht) ht, h.reportsUnheld hok⟩,
    h.undisturbed_of_harmless⟩

/-! ## A CONNECT that is swept away -/

/-- Nobody is online; leases run for 5. -/
def nobody : State := ⟨0, .empty, fun _ ↦ .idle, 0, fun _ _ ↦ none⟩

/-- The lease of instance "a" has expired, and a pass finds nothing; instance "b"
connects; the pass goes on. -/
def sweptAway : List Action :=
  [.connect "a" 7, .tick 6, .range 0 6, .claim 0, .prune 0, .zrange 0, .connect "b" 7, .delete 0,
    .lookup 0, .report 0]

/-- The pass destroys the new lease, and reports the user. -/
theorem sweep_destroys_live_lease : Initial nobody ∧
    ¬ Along (Sweep.step ⟨5, true⟩) (Harmless ⟨5, true⟩) nobody sweptAway := by
  refine ⟨⟨rfl, fun _ ↦ rfl, fun _ _ ↦ rfl⟩, fun h ↦ ?_⟩
  obtain ⟨-, hdelete⟩ :=
    @Along.of_append _ _ _ _ nobody _ (sweptAway.take 7) (sweptAway.drop 7) h rfl
  obtain ⟨hkeeps, -⟩ := hdelete.1 _ rfl
  cases hkeeps 7 "b" 11 rfl (by decide) rfl

/-- A lease expires and is swept, and nobody connects meanwhile. -/
def lapsing : List Action :=
  [.connect "a" 7, .tick 6, .range 0 6, .claim 0, .prune 0, .zrange 0, .delete 0, .lookup 0,
    .report 0]

theorem live_leases_kept_lapsing :
    Along (Sweep.step ⟨5, true⟩) (Harmless ⟨5, true⟩) nobody lapsing := by
  refine (live_leases_kept ⟨5, true⟩ ⟨rfl, fun _ ↦ rfl, fun _ _ ↦ rfl⟩ lapsing).mpr ?_
  have hnone : ∀ n i, 1 ≤ n → ∀ at_, Function.update (fun _ ↦ none) "a" (some ((0 : Instant), 0)) i ≠
      some (at_, n) := by
    intro n i hn at_ e
    by_cases hi : i = "a"
    · rw [hi, Function.update_self, Option.some.injEq, Prod.mk.injEq] at e
      omega
    · rw [Function.update_of_ne hi] at e
      cases e
  refine .cons trivial rfl (.cons trivial rfl (.cons trivial rfl (.cons trivial rfl
    (.cons trivial rfl (.cons trivial rfl (.cons ?_ rfl (.cons trivial rfl (.cons ?_ rfl
      trivial))))))))
  · rintro start u todo since ⟨⟩ ⟨i, at_, n, hr, hn, -⟩
    exact hnone n i hn at_ hr
  · rintro start u todo since ⟨⟩ ⟨i, at_, n, hr, hn, -⟩
    exact hnone n i hn at_ hr

end Chatterbox.Presence.Sweep
