import Chatterbox.Presence.Store
import Mathlib.Tactic.Linarith

/-!
# The leases of one user

Every operation on the presence store acts on one user's part of it at a time.
The invariant is therefore about one user's part (`View.Ok`): leases do not run
longer than the time to live, the key outlasts them, and a user with an unexpired
lease is listed with the last expiry.  Each operation has one lemma that says
that it keeps the invariant, and one that says what it answers.

The last section lifts the answers of look-ups and sweeps to several users.
-/

namespace Chatterbox.Presence

variable {cfg : Config} {now start : Instant} {v : View} {i : Instance}

/-! ## One user -/

namespace View

/-- No lease runs longer than the time to live, and the key outlasts all its leases. -/
def Timely (cfg : Config) (now : Instant) (v : View) : Prop :=
  ∀ i e, v.leases.score i = some e →
    e ≤ now + cfg.ttl ∧ ∃ d, v.deadline = some d ∧ e + cfg.ttl ≤ d

/-- A user with an unexpired lease is listed with the last expiry. -/
def Listed (now : Instant) (v : View) : Prop :=
  v.leases.Exceeds now → v.listed = v.leases.latest

/-- What is true of every user at any time. -/
structure Ok (cfg : Config) (now : Instant) (v : View) : Prop where
  timely : v.Timely cfg now
  listed : v.Listed now

/-- The user has been reported: no leases, and not listed. -/
def Gone (v : View) : Prop := (∀ i, v.leases.score i = none) ∧ v.listed = none

theorem Timely.setLeases (h : v.Timely cfg now) {z : Leases}
    (hsub : ∀ i e, z.score i = some e → v.leases.score i = some e) :
    (v.setLeases z).Timely cfg now := by
  intro i e he
  obtain ⟨hle, d, hd, hed⟩ := h i e (hsub i e he)
  have hne : z.zcard ≠ 0 := fun hz ↦ by
    rw [setLeases_leases, SortedSet.zcard_eq_zero.mp hz i] at he
    cases he
  exact ⟨hle, d, by rw [View.setLeases, if_neg hne, hd], hed⟩

theorem Timely.of_empty (h : ∀ i, v.leases.score i = none) : v.Timely cfg now := fun i e he ↦ by
  rw [h i] at he
  cases he

theorem Listed.of_empty (h : ∀ i, v.leases.score i = none) : v.Listed now := by
  rintro ⟨i, e, he, -⟩
  rw [h i] at he
  cases he

theorem Ok.of_empty (h : ∀ i, v.leases.score i = none) : v.Ok cfg now :=
  ⟨.of_empty h, .of_empty h⟩

theorem Timely.tick (h : v.Timely cfg now) {now' : Instant} (hle : now ≤ now') :
    v.Timely cfg now' := fun i e he ↦ by
  obtain ⟨hbound, hdeadline⟩ := h i e he
  exact ⟨hbound.trans (by linarith), hdeadline⟩

/-- Time passes. -/
theorem Ok.tick (h : v.Ok cfg now) {now' : Instant} (hle : now ≤ now') : v.Ok cfg now' :=
  ⟨h.timely.tick hle, fun hlive ↦ h.listed (hlive.mono hle)⟩

theorem prune_sub (v : View) (b : Instant) (i : Instance) (e : Instant)
    (he : (v.leases.zremrangebyscore b).score i = some e) : v.leases.score i = some e :=
  (SortedSet.score_zremrangebyscore.mp he).1

theorem Ok.lookup (h : v.Ok cfg now) : (v.lookup now).2.Ok cfg now := by
  refine ⟨h.timely.setLeases (v.prune_sub now), fun hlive ↦ ?_⟩
  have hlive' : v.leases.Exceeds now := (SortedSet.exceeds_zremrangebyscore (le_refl now)).mp hlive
  show v.listed = (v.leases.zremrangebyscore now).latest
  rw [h.listed hlive', SortedSet.latest_zremrangebyscore hlive']

theorem score_connect {j : Instance} : (v.connect cfg now i).2.leases.score j =
    if j = i then some (now + cfg.ttl) else (v.leases.zremrangebyscore now).score j :=
  SortedSet.score_zadd

theorem Timely.le_of_prune (h : v.Timely cfg now) (j : Instance) (e : Instant)
    (he : (v.leases.zremrangebyscore now).score j = some e) : e ≤ now + cfg.ttl :=
  (h j e (v.prune_sub now j e he)).1

theorem Timely.connect (h : v.Timely cfg now) (i : Instance) :
    (v.connect cfg now i).2.Timely cfg now := by
  intro j e he
  have hle : e ≤ now + cfg.ttl := by
    rw [score_connect] at he
    split at he
    · exact (Option.some.inj he).ge
    · exact h.le_of_prune j e he
  exact ⟨hle, now + 2 * cfg.ttl, rfl, by linarith⟩

theorem Ok.connect (h : v.Ok cfg now) (i : Instance) : (v.connect cfg now i).2.Ok cfg now :=
  ⟨h.timely.connect i, fun _ ↦ (SortedSet.latest_zadd h.timely.le_of_prune i).symm⟩

/-- What is left of a user's leases when one is withdrawn. -/
def rest (now : Instant) (i : Instance) (v : View) : Leases :=
  (v.leases.zrem i).zremrangebyscore now

theorem score_rest {j : Instance} {e : Instant} : (v.rest now i).score j = some e ↔
    j ≠ i ∧ v.leases.score j = some e ∧ now < e := by
  rw [rest, SortedSet.score_zremrangebyscore, SortedSet.score_zrem, ← and_assoc]
  by_cases h : j = i <;> simp [h]

theorem disconnect_of_empty (h : (v.rest now i).zcard = 0) :
    v.disconnect now i = (true, ⟨.empty, none, none⟩) := by
  show (if (v.rest now i).zcard = 0 then _ else _) = _
  rw [if_pos h]
  rfl

theorem disconnect_of_nonempty (h : (v.rest now i).zcard ≠ 0) :
    v.disconnect now i = (false, { (v.setLeases (v.leases.zrem i)).setLeases (v.rest now i) with
      listed := (v.rest now i).latest }) := by
  cases hlatest : (v.rest now i).latest with
  | none => exact absurd (SortedSet.zcard_eq_zero.mpr (SortedSet.latest_eq_none.mp hlatest)) h
  | some latest =>
      unfold rest at h hlatest
      simp only [View.disconnect, setLeases_leases, if_neg h, hlatest]
      rfl

/-- The lease of the instance and the expired ones are withdrawn, and no others. -/
theorem score_disconnect {j : Instance} {e : Instant} :
    (v.disconnect now i).2.leases.score j = some e ↔
      j ≠ i ∧ v.leases.score j = some e ∧ now < e := by
  by_cases hcard : (v.rest now i).zcard = 0
  · rw [disconnect_of_empty hcard, ← score_rest, SortedSet.zcard_eq_zero.mp hcard j]
    exact Iff.rfl
  · rw [disconnect_of_nonempty hcard]
    exact score_rest

theorem Timely.disconnect (h : v.Timely cfg now) (i : Instance) :
    (v.disconnect now i).2.Timely cfg now := by
  by_cases hcard : (v.rest now i).zcard = 0
  · rw [disconnect_of_empty hcard]
    exact .of_empty fun _ ↦ rfl
  · rw [disconnect_of_nonempty hcard]
    have hzrem : (v.setLeases (v.leases.zrem i)).Timely cfg now := h.setLeases fun j e he ↦ by
      rw [SortedSet.score_zrem] at he
      split at he
      · cases he
      · exact he
    exact hzrem.setLeases fun j e he ↦ (SortedSet.score_zremrangebyscore.mp he).1

theorem Ok.disconnect (h : v.Ok cfg now) (i : Instance) : (v.disconnect now i).2.Ok cfg now := by
  refine ⟨h.timely.disconnect i, ?_⟩
  by_cases hcard : (v.rest now i).zcard = 0
  · rw [disconnect_of_empty hcard]
    exact .of_empty fun _ ↦ rfl
  · rw [disconnect_of_nonempty hcard]
    exact fun _ ↦ rfl

theorem sweep_of_unlisted (h : v.listed = none) : v.sweep cfg start now = (false, v) := by
  rw [View.sweep, if_pos h]

theorem sweep_of_some (h : v.listed ≠ none) {latest : Instant}
    (hlatest : (v.leases.zremrangebyscore start).latest = some latest) :
    v.sweep cfg start now =
      (false, { v.setLeases (v.leases.zremrangebyscore start) with listed := some latest }) := by
  rw [View.sweep, if_neg h]
  simp only [setLeases_leases, hlatest]
  rfl

theorem sweep_of_none (h : v.listed ≠ none)
    (hlatest : (v.leases.zremrangebyscore start).latest = none) :
    v.sweep cfg start now = (cfg.reports, ⟨.empty, none, none⟩) := by
  rw [View.sweep, if_neg h]
  simp only [setLeases_leases, hlatest]
  cases cfg.reports <;> rfl

theorem Ok.sweep (h : v.Ok cfg now) (start : Instant) : (v.sweep cfg start now).2.Ok cfg now := by
  by_cases hlisted : v.listed = none
  · rw [sweep_of_unlisted hlisted]
    exact h
  · cases hlatest : (v.leases.zremrangebyscore start).latest with
    | some latest =>
        rw [sweep_of_some hlisted hlatest]
        exact ⟨h.timely.setLeases (v.prune_sub start), fun _ ↦ hlatest.symm⟩
    | none =>
        rw [sweep_of_none hlisted hlatest]
        exact .of_empty fun _ ↦ rfl

/-- A key whose time is over has no unexpired lease. -/
theorem Timely.not_exceeds_of_deadline (h : v.Timely cfg now) {d : Instant}
    (hd : v.deadline = some d) (hle : d ≤ now) : ¬ v.leases.Exceeds now := by
  rintro ⟨i, e, he, hlt⟩
  obtain ⟨-, d', hd', hed⟩ := h i e he
  rw [hd] at hd'
  cases hd'
  have httl : (0 : Int) ≤ cfg.ttl := Int.natCast_nonneg _
  linarith

/-- A user with an unexpired lease is listed above all times past. -/
theorem Ok.lt_listed (h : v.Ok cfg now) (hlive : v.leases.Exceeds now) :
    ∃ x, v.listed = some x ∧ now < x := by
  rw [h.listed hlive]
  exact hlive.latest

/-! ### What the operations answer -/

theorem connect_fst : (v.connect cfg now i).1 = true ↔ ¬ v.leases.Exceeds now := by
  rw [← SortedSet.zcard_zremrangebyscore_eq_zero, View.connect]
  exact beq_iff_eq

theorem lookup_fst : (v.lookup now).1 = decide (v.leases.Exceeds now) := by
  rw [Bool.eq_iff_iff, decide_eq_true_iff, ← not_not (a := v.leases.Exceeds now),
    ← SortedSet.zcard_zremrangebyscore_eq_zero, View.lookup]
  exact bne_iff_ne

theorem disconnect_fst :
    (v.disconnect now i).1 = true ↔ ¬ (v.disconnect now i).2.leases.Exceeds now := by
  by_cases hcard : (v.rest now i).zcard = 0
  · rw [disconnect_of_empty hcard]
    refine ⟨fun _ ↦ ?_, fun _ ↦ rfl⟩
    rintro ⟨j, e, he, -⟩
    cases he
  · rw [disconnect_of_nonempty hcard]
    simp only [Bool.false_eq_true, false_iff, not_not]
    rw [rest, SortedSet.zcard_zremrangebyscore_eq_zero, not_not] at hcard
    exact (SortedSet.exceeds_zremrangebyscore (le_refl now)).mpr hcard

/-! ### Reports -/

/-- The sweep reports a user only when nothing of theirs is left. -/
theorem gone_of_sweep (h : (v.sweep cfg start now).1 = true) : (v.sweep cfg start now).2.Gone := by
  by_cases hlisted : v.listed = none
  · rw [sweep_of_unlisted hlisted] at h
    cases h
  · cases hlatest : (v.leases.zremrangebyscore start).latest with
    | some latest =>
        rw [sweep_of_some hlisted hlatest] at h
        cases h
    | none =>
        rw [sweep_of_none hlisted hlatest]
        exact ⟨fun _ ↦ rfl, rfl⟩

theorem Gone.lookup (h : v.Gone) : (v.lookup now).2.Gone := by
  refine ⟨fun i ↦ ?_, h.2⟩
  rw [Option.eq_none_iff_forall_ne_some]
  intro e he
  have hsome := v.prune_sub now i e he
  rw [h.1 i] at hsome
  cases hsome

theorem Gone.disconnect (h : v.Gone) : (v.disconnect now i).2.Gone := by
  have hcard : (v.rest now i).zcard = 0 := by
    rw [SortedSet.zcard_eq_zero]
    intro j
    rw [Option.eq_none_iff_forall_ne_some]
    intro e he
    have hsome := (score_rest.mp he).2.1
    rw [h.1 j] at hsome
    cases hsome
  rw [disconnect_of_empty hcard]
  exact ⟨fun _ ↦ rfl, rfl⟩

/-- A user who is gone is not reported again. -/
theorem Gone.sweep (h : v.Gone) : v.sweep cfg start now = (false, v) := sweep_of_unlisted h.2

end View

/-! ## Look-ups and sweeps of several users -/

variable {s : Store} {us : List UUID}

theorem isOnline_fst (now : Instant) (u : UUID) (s : Store) :
    (isOnline now u s).1 = decide ((s.leases u).Exceeds now) :=
  (isOnline_view now u s).1.trans View.lookup_fst

/-- A look-up does not change who has an unexpired lease. -/
theorem exceeds_isOnline (now : Instant) (u w : UUID) (s : Store) :
    ((isOnline now u s).2.leases w).Exceeds now ↔ (s.leases w).Exceeds now := by
  rw [← view_leases, (isOnline_view now u s).2]
  by_cases h : w = u
  · subst h
    rw [Function.update_self]
    exact SortedSet.exceeds_zremrangebyscore (le_refl now)
  · rw [Function.update_of_ne h, view_leases]

/-- A look-up finds the users with an unexpired lease, in the order of the query. -/
theorem onlineUserIds_fst (now : Instant) (us : List UUID) (s : Store) :
    (onlineUserIds now us s).1 = us.filter fun u ↦ (s.leases u).Exceeds now := by
  induction us generalizing s with
  | nil => rfl
  | cons u us ih =>
      have hrest : (onlineUserIds now us (isOnline now u s).2).1 =
          us.filter fun u ↦ (s.leases u).Exceeds now := by
        rw [ih]
        exact List.filter_congr fun w _ ↦ decide_eq_decide.mpr (exceeds_isOnline now u w s)
      show (if (isOnline now u s).1 then u :: (onlineUserIds now us (isOnline now u s).2).1
        else (onlineUserIds now us (isOnline now u s).2).1) = _
      rw [hrest, isOnline_fst, List.filter_cons]

/-- What looking up a user keeps true of them, looking up several users does. -/
theorem onlineUserIds_view {P : View → Prop} (hP : ∀ v, P v → P (v.lookup now).2) {w : UUID}
    (h : P (s.view w)) : P ((onlineUserIds now us s).2.view w) := by
  induction us generalizing s with
  | nil => exact h
  | cons u us ih =>
      refine ih (s := (isOnline now u s).2) ?_
      rw [(isOnline_view now u s).2]
      by_cases hw : w = u
      · subst hw
        rw [Function.update_self]
        exact hP _ h
      · rwa [Function.update_of_ne hw]

/-- In a sweep of distinct users each has one turn, and the others' do not matter. -/
theorem sweepUsers_view (cfg : Config) (start now : Instant) (hus : us.Nodup) (s : Store)
    (w : UUID) :
    (sweepUsers cfg start now us s).1.count w =
        (if w ∈ us ∧ ((s.view w).sweep cfg start now).1 then 1 else 0) ∧
      (sweepUsers cfg start now us s).2.view w =
        if w ∈ us then ((s.view w).sweep cfg start now).2 else s.view w := by
  induction us generalizing s with
  | nil => simp [sweepUsers]
  | cons u us ih =>
      obtain ⟨hnot, hnodup⟩ := List.nodup_cons.mp hus
      obtain ⟨hfst, hsnd⟩ := sweepUser_view cfg start now u s
      obtain ⟨hcount, hview⟩ := ih hnodup (sweepUser cfg start now u s).2
      have hcons : (sweepUsers cfg start now (u :: us) s).1 =
          if (sweepUser cfg start now u s).1
            then u :: (sweepUsers cfg start now us (sweepUser cfg start now u s).2).1
            else (sweepUsers cfg start now us (sweepUser cfg start now u s).2).1 := rfl
      have hcons' : (sweepUsers cfg start now (u :: us) s).2 =
          (sweepUsers cfg start now us (sweepUser cfg start now u s).2).2 := rfl
      rw [hcons, hcons', hview]
      by_cases hw : w = u
      · subst hw
        rw [if_neg (fun h ↦ hnot h.1)] at hcount
        rw [if_neg hnot, hsnd, Function.update_self, hfst]
        refine ⟨?_, by simp⟩
        cases ((s.view w).sweep cfg start now).1 <;> simp [hcount]
      · have hsame : (sweepUser cfg start now u s).2.view w = s.view w := by
          rw [hsnd, Function.update_of_ne hw]
        rw [hsame] at hcount ⊢
        have hmem : w ∈ u :: us ↔ w ∈ us := by simp [hw]
        simp only [hmem]
        refine ⟨?_, trivial⟩
        rw [← hcount]
        split
        · exact List.count_cons_of_ne (Ne.symm hw)
        · rfl

/-- What a pass of the sweep does about a user. -/
theorem sweepPresence_cases (cfg : Config) (start now : Instant) (s : Store) (w : UUID) :
    ((sweepPresence cfg start now s).1.count w = 0 ∧
        (sweepPresence cfg start now s).2.view w = s.view w) ∨
      (∃ x, s.users.score w = some x ∧ x ≤ start) ∧
        (sweepPresence cfg start now s).1.count w =
          (if ((s.view w).sweep cfg start now).1 then 1 else 0) ∧
        (sweepPresence cfg start now s).2.view w = ((s.view w).sweep cfg start now).2 := by
  unfold sweepPresence
  obtain ⟨hcount, hview⟩ := sweepUsers_view cfg start now
    (s.users.zrangebyscore_nodup start 100) s w
  by_cases h : w ∈ s.users.zrangebyscore start 100
  · refine Or.inr ⟨SortedSet.mem_zrangebyscore h, ?_, ?_⟩
    · simpa [h] using hcount
    · simpa [h] using hview
  · refine Or.inl ⟨?_, ?_⟩
    · simpa [h] using hcount
    · simpa [h] using hview

end Chatterbox.Presence
