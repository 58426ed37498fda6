import Chatterbox.Presence.Leases
import Chatterbox.Run

/-!
# The algebra of presence leases

Instances grant and withdraw leases, look users up and sweep, each in one go and
at the time of the clock; Redis drops a key when its time to live is over.  A
sweep works with the time at which its round of maintenance began, which may lie
in the past.

The state remembers how often each user has been reported since they last
connected.
-/

namespace Chatterbox.Presence

/-- The clock, the store and the reports. -/
structure State where
  now : Instant
  store : Store
  /-- How often `on_presence_expired` has been called since the last CONNECT. -/
  reported : UUID → ℕ

/-- A move of the clock, of an instance or of Redis. -/
inductive Action where
  | tick (d : ℕ)
  | connect (i : Instance) (u : UUID)
  | disconnect (i : Instance) (u : UUID)
  | lookup (us : List UUID)
  | expireKey (u : UUID)
  | sweep (start : Instant)
deriving DecidableEq, Repr

/-- One step. -/
def step (cfg : Config) (s : State) : Action → Option State
  | .tick d => some { s with now := s.now + d }
  | .connect i u =>
      some { s with
        store := (connectScript cfg s.now i u s.store).2
        reported := Function.update s.reported u 0 }
  | .disconnect i u => some { s with store := (disconnectScript s.now i u s.store).2 }
  | .lookup us => some { s with store := (onlineUserIds s.now us s.store).2 }
  | .expireKey u =>
      match s.store.deadline u with
      | none => none
      | some d => if d ≤ s.now then some { s with store := s.store.setLeases u .empty } else none
  | .sweep start =>
      if start ≤ s.now then
        some { s with
          store := (sweepPresence cfg start s.now s.store).2
          reported := fun u ↦
            s.reported u + (sweepPresence cfg start s.now s.store).1.count u }
      else none

/-- Nobody has been online yet. -/
def Initial (s : State) : Prop := s.store = .empty ∧ ∀ u, s.reported u = 0

variable {cfg : Config} {s t : State} {a : Action}

/-- The user has an unexpired lease. -/
def Live (s : State) (u : UUID) : Prop := (s.store.leases u).Exceeds s.now

instance (s : State) : DecidablePred (Live s) :=
  fun u ↦ inferInstanceAs (Decidable ((s.store.leases u).Exceeds s.now))

/-- What every reachable state satisfies. -/
structure Inv (cfg : Config) (s : State) : Prop where
  ok : ∀ u, (s.store.view u).Ok cfg s.now
  /-- A user who has been reported is gone until they connect. -/
  reported : ∀ u, s.reported u = 0 ∨ s.reported u = 1 ∧ (s.store.view u).Gone

theorem Inv.initial (h : Initial s) : Inv cfg s := by
  obtain ⟨hstore, hreported⟩ := h
  refine ⟨fun u ↦ ?_, fun u ↦ Or.inl (hreported u)⟩
  rw [hstore]
  exact .of_empty fun _ ↦ rfl

/-- The invariant after one user's part of the store has been replaced. -/
theorem Inv.of_update (h : Inv cfg s) {u : UUID} {v : View}
    (hnow : t.now = s.now) (hview : t.store.view = Function.update s.store.view u v)
    (hok : v.Ok cfg s.now) (hother : ∀ w, w ≠ u → t.reported w = s.reported w)
    (hreported : t.reported u = 0 ∨ t.reported u = 1 ∧ v.Gone) : Inv cfg t := by
  constructor <;> intro w <;> rw [hview] <;> by_cases hw : w = u
  · rwa [hw, Function.update_self, hnow]
  · rw [Function.update_of_ne hw, hnow]
    exact h.ok w
  · rwa [hw, Function.update_self]
  · rw [Function.update_of_ne hw, hother w hw]
    exact h.reported w

/-- A user with an unexpired lease is not reported. -/
theorem Inv.not_live_of_mem_sweep (h : Inv cfg s) {start : Instant} (hstart : start ≤ s.now)
    {u : UUID} (hu : u ∈ (sweepPresence cfg start s.now s.store).1) : ¬ Live s u := by
  intro hlive
  rcases sweepPresence_cases cfg start s.now s.store u with
    ⟨hcount, -⟩ | ⟨⟨x, hx, hle⟩, -, -⟩
  · exact List.count_eq_zero.mp hcount hu
  · obtain ⟨y, hy, hlt⟩ := (h.ok u).lt_listed hlive
    rw [view_listed, hx] at hy
    cases hy
    exact absurd (hlt.trans_le hle) (not_lt.mpr hstart)

/-- **The invariant survives every step.** -/
theorem Inv.step (h : Inv cfg s) (ht : Presence.step cfg s a = some t) : Inv cfg t := by
  cases a with
  | tick d =>
      cases ht
      have hle : s.now ≤ s.now + d := by linarith [Int.natCast_nonneg d]
      exact ⟨fun u ↦ (h.ok u).tick hle, h.reported⟩
  | connect i u =>
      cases ht
      exact h.of_update rfl (connectScript_view cfg s.now i u s.store).2 ((h.ok u).connect i)
        (fun w hw ↦ Function.update_of_ne hw ..) (Or.inl (Function.update_self ..))
  | disconnect i u =>
      cases ht
      exact h.of_update rfl (disconnectScript_view s.now i u s.store).2 ((h.ok u).disconnect i)
        (fun _ _ ↦ rfl) ((h.reported u).imp_right fun hr ↦ ⟨hr.1, hr.2.disconnect⟩)
  | lookup us =>
      cases ht
      refine ⟨fun u ↦ onlineUserIds_view (fun v hv ↦ hv.lookup) (h.ok u), fun u ↦ ?_⟩
      exact (h.reported u).imp_right fun hr ↦
        ⟨hr.1, onlineUserIds_view (fun v hv ↦ hv.lookup) hr.2⟩
  | expireKey u =>
      simp only [Presence.step] at ht
      split at ht
      · cases ht
      · split at ht
        · cases ht
          refine h.of_update rfl (view_setLeases s.store u .empty) (.of_empty fun _ ↦ rfl)
            (fun _ _ ↦ rfl) ((h.reported u).imp_right fun hr ↦ ⟨hr.1, fun _ ↦ rfl, hr.2.2⟩)
        · cases ht
  | sweep start =>
      simp only [Presence.step] at ht
      split at ht
      · cases ht
        refine ⟨fun u ↦ ?_, fun u ↦ ?_⟩
        · rcases sweepPresence_cases cfg start s.now s.store u with ⟨-, hview⟩ | ⟨-, -, hview⟩
          · exact hview ▸ h.ok u
          · exact hview ▸ (h.ok u).sweep start
        · dsimp only
          rcases sweepPresence_cases cfg start s.now s.store u with
            ⟨hcount, hview⟩ | ⟨⟨x, hx, -⟩, hcount, hview⟩
          · rw [hcount, hview]
            exact h.reported u
          · rw [hcount, hview]
            rcases h.reported u with hzero | ⟨hone, hgone⟩
            · rw [hzero]
              cases hfst : ((s.store.view u).sweep cfg start s.now).1 with
              | false => exact Or.inl rfl
              | true => exact Or.inr ⟨rfl, View.gone_of_sweep hfst⟩
            · rw [show s.store.users.score u = none from hgone.2] at hx
              cases hx
      · cases ht

theorem Inv.of_reachable {s₀ : State} (h₀ : Initial s₀) {as : List Action}
    (hrun : exec (Presence.step cfg) s₀ as = some s) : Inv cfg s :=
  exec_invariant (P := Inv cfg) (fun h ht ↦ h.step ht) (.initial h₀) hrun

/-- **The algebra of presence leases.**  In every reachable state:

* CONNECT answers 1 exactly when the user has no unexpired lease before it;
* DISCONNECT answers 1 exactly when the user has no unexpired lease after it;
* a look-up finds the users with an unexpired lease, in the order of the query;
* a user with an unexpired lease is listed with the last expiry, and the key of
  their leases is not up;
* a sweep reports only users without an unexpired lease, and each at most once
  until they connect again. -/
theorem presence_lease_algebra (cfg : Config) {s₀ s : State} (h₀ : Initial s₀)
    {as : List Action} (hrun : exec (Presence.step cfg) s₀ as = some s) :
    (∀ i u, (connectScript cfg s.now i u s.store).1 = true ↔ ¬ Live s u) ∧
      (∀ i u, (disconnectScript s.now i u s.store).1 = true ↔
        ∀ t, Presence.step cfg s (.disconnect i u) = some t → ¬ Live t u) ∧
      (∀ us, (onlineUserIds s.now us s.store).1 = us.filter fun u ↦ Live s u) ∧
      (∀ u, Live s u →
        (∃ x, s.store.users.score u = some x ∧ (∃ i, (s.store.leases u).score i = some x) ∧
          ∀ i e, (s.store.leases u).score i = some e → e ≤ x) ∧
        ∀ d, s.store.deadline u = some d → s.now < d) ∧
      (∀ start, start ≤ s.now →
        ∀ u ∈ (sweepPresence cfg start s.now s.store).1, ¬ Live s u) ∧
      ∀ u, s.reported u ≤ 1 := by
  have h : Inv cfg s := .of_reachable h₀ hrun
  refine ⟨fun i u ↦ ?_, fun i u ↦ ?_, fun us ↦ onlineUserIds_fst s.now us s.store,
    fun u hlive ↦ ⟨?_, fun d hd ↦ ?_⟩, fun start hstart u hu ↦ h.not_live_of_mem_sweep hstart hu,
    fun u ↦ ?_⟩
  · rw [(connectScript_view cfg s.now i u s.store).1]
    exact View.connect_fst
  · obtain ⟨hfst, hview⟩ := disconnectScript_view s.now i u s.store
    have hleases : (disconnectScript s.now i u s.store).2.leases u =
        ((s.store.view u).disconnect s.now i).2.leases := by
      rw [← view_leases, hview, Function.update_self]
    rw [hfst, View.disconnect_fst, ← hleases]
    constructor
    · rintro hnot t ⟨rfl⟩
      exact hnot
    · intro hall
      exact hall _ rfl
  · obtain ⟨x, hlatest, -⟩ := hlive.latest
    have hlisted : s.store.users.score u = (s.store.leases u).latest := (h.ok u).listed hlive
    exact ⟨x, by rw [hlisted, hlatest], SortedSet.latest_eq_some.mp hlatest⟩
  · by_contra hle
    exact (h.ok u).timely.not_exceeds_of_deadline hd (not_lt.mp hle) hlive
  · rcases h.reported u with hzero | ⟨hone, -⟩ <;> omega

/-- The empty store, at time 0. -/
def nobody : State := ⟨0, .empty, fun _ ↦ 0⟩

/-- Two instances serve user 7; one withdraws, the other is swept away. -/
def passing : List Action :=
  [.connect "a" 7, .tick 2, .connect "b" 7, .disconnect "b" 7, .lookup [7], .tick 4, .sweep 6,
    .sweep 6]

theorem presence_lease_algebra_passing :
    ∃ s, exec (Presence.step ⟨5, true⟩) nobody passing = some s ∧ s.reported 7 ≤ 1 ∧
      (onlineUserIds s.now [7] s.store).1 = [7].filter fun u ↦ Live s u := by
  have h₀ : Initial nobody := ⟨rfl, fun _ ↦ rfl⟩
  obtain ⟨-, -, hlookup, -, -, honce⟩ := @presence_lease_algebra ⟨5, true⟩ nobody _ h₀ passing rfl
  exact ⟨_, rfl, honce 7, hlookup [7]⟩

end Chatterbox.Presence
