import Chatterbox.Realtime.Registry
import Chatterbox.Run

/-!
# Sessions, deliveries and offline transitions

On an instance without Redis a socket leaves the registry in two places: at the
end of its session, and when a delivery to it has failed.

* A session ends with `manager.disconnect` and, if that was the user's last
  socket, `mark_user_offline`.  Without Redis `disconnect` waits for nothing but
  its lock, so the two are one step (`leave`).
* A delivery (`deliver_to_user_local`) takes a snapshot of the user's sockets,
  sends to each in turn, and calls `disconnect` for those that failed.  It does
  not look at the result.

So a user whose last socket a delivery removes is never marked offline.  The
state counts how often each user's set of sockets has become empty, and how often
the user has been marked; `offline_iff_unstolen` says in which runs the counts
agree.
-/

namespace Chatterbox.Realtime.Deliveries

/-- A session, by its socket. -/
inductive Session where
  | idle
  | open_ (u : UUID)
  | closed
deriving DecidableEq, Repr

/-- How far a call of `deliver_to_user_local` has got. -/
inductive Delivery where
  | idle
  /-- The sockets still to be sent to, and those that have failed. -/
  | sending (u : UUID) (todo stale : List Socket)
  /-- The sockets still to be unregistered. -/
  | removing (u : UUID) (stale : List Socket)
  | done
deriving DecidableEq, Repr

/-- The registry, the sessions and deliveries, and the two counts. -/
structure State where
  registry : Registry
  sessions : Socket → Session
  deliveries : ℕ → Delivery
  /-- How often the user's set of sockets has become empty. -/
  emptied : UUID → ℕ
  /-- How often `mark_user_offline` has been called. -/
  marked : UUID → ℕ

/-- Replace the registry, and count the sets of sockets that become empty. -/
def State.register (s : State) (r : Registry) : State :=
  { s with
    registry := r
    emptied := fun u ↦
      s.emptied u + if s.registry.sockets u ≠ ∅ ∧ r.sockets u = ∅ then 1 else 0 }

/-- `mark_user_offline` is called. -/
def State.markUserOffline (s : State) (u : UUID) : State :=
  { s with marked := Function.update s.marked u (s.marked u + 1) }

/-- A move of a session or of a delivery. -/
inductive Action where
  /-- `manager.connect`, at the start of a session. -/
  | connect (ws : Socket) (u : UUID)
  /-- The `finally` block, at its end, however it comes about. -/
  | leave (ws : Socket)
  /-- A delivery starts; `sockets` is its snapshot. -/
  | deliver (d : ℕ) (u : UUID) (sockets : List Socket)
  /-- `send_json` to the next socket, which may raise `RuntimeError`. -/
  | send (d : ℕ) (ok : Bool)
  /-- Nothing is left to send. -/
  | sent (d : ℕ)
  /-- `disconnect` of the next stale socket. -/
  | remove (d : ℕ)
deriving DecidableEq, Repr

/-- One step. -/
def step (s : State) : Action → Option State
  | .connect ws u =>
      match s.sessions ws with
      | .idle =>
          some { s.register (s.registry.connect u ws).2 with
            sessions := Function.update s.sessions ws (.open_ u) }
      | _ => none
  | .leave ws =>
      match s.sessions ws with
      | .open_ u =>
          let (becameOffline, registry) := s.registry.disconnect u ws
          let s := { s.register registry with sessions := Function.update s.sessions ws .closed }
          some (if becameOffline then s.markUserOffline u else s)
      | _ => none
  | .deliver d u sockets =>
      match s.deliveries d with
      | .idle =>
          if sockets.Nodup ∧ sockets.toFinset = s.registry.sockets u then
            some { s with deliveries := Function.update s.deliveries d (.sending u sockets []) }
          else none
      | _ => none
  | .send d ok =>
      match s.deliveries d with
      | .sending u (ws :: todo) stale =>
          let stale := if ok then stale else stale ++ [ws]
          some { s with deliveries := Function.update s.deliveries d (.sending u todo stale) }
      | _ => none
  | .sent d =>
      match s.deliveries d with
      | .sending u [] stale =>
          some { s with deliveries := Function.update s.deliveries d (.removing u stale) }
      | _ => none
  | .remove d =>
      match s.deliveries d with
      | .removing u (ws :: stale) =>
          some { s.register (s.registry.disconnect u ws).2 with
            deliveries := Function.update s.deliveries d (.removing u stale) }
      | .removing _ [] => some { s with deliveries := Function.update s.deliveries d .done }
      | _ => none

/-- Nobody is connected and nothing is under way. -/
def Initial (s : State) : Prop :=
  s.registry = .empty ∧ (∀ ws, s.sessions ws = .idle) ∧ (∀ d, s.deliveries d = .idle) ∧
    ∀ u, s.emptied u = 0 ∧ s.marked u = 0

/-- Every time a user's set of sockets has become empty, the user has been marked
offline, and at no other time. -/
def MarkedOffline (s : State) : Prop := ∀ u, s.marked u = s.emptied u

/-- The delivery does not remove the user's last socket. -/
def Unstolen (s : State) : Action → Prop
  | .remove d => ∀ u ws stale, s.deliveries d = .removing u (ws :: stale) →
      s.registry.sockets u ≠ {ws}
  | _ => True

/-! ## The balance of the counts -/

variable {s t : State} {a : Action}

/-- How many offline transitions of the user the step makes without marking them. -/
def stolen (s : State) (u : UUID) : Action → ℕ
  | .remove d =>
      match s.deliveries d with
      | .removing w (ws :: _) => if w = u ∧ s.registry.sockets u = {ws} then 1 else 0
      | _ => 0
  | _ => 0

theorem unstolen_iff : Unstolen s a ↔ ∀ u, stolen s u a = 0 := by
  cases a with
  | remove d =>
      constructor
      · intro h u
        simp only [stolen]
        split
        · rename_i w ws stale hd
          rw [if_neg]
          rintro ⟨rfl, hlast⟩
          exact h w ws stale hd hlast
        · rfl
      · intro h u ws stale hd hlast
        have hone := h u
        simp only [stolen, hd, hlast, and_self, if_true] at hone
        cases hone
  | connect | leave | deliver | send | sent => simp [Unstolen, stolen]

/-- A set of sockets that is left alone, or not left empty, does not become empty. -/
theorem register_emptied_of_ne {r : Registry} {u : UUID}
    (h : r.sockets u = s.registry.sockets u ∨ r.sockets u ≠ ∅) :
    (s.register r).emptied u = s.emptied u := by
  have hstays : ¬ (s.registry.sockets u ≠ ∅ ∧ r.sockets u = ∅) := by
    rintro ⟨hne, hempty⟩
    rcases h with hsame | hleft
    · exact hne (hsame ▸ hempty)
    · exact hleft hempty
  simp only [State.register, if_neg hstays, Nat.add_zero]

theorem register_connect_emptied (u w : UUID) (ws : Socket) :
    (s.register (s.registry.connect w ws).2).emptied u = s.emptied u := by
  apply register_emptied_of_ne
  rw [Registry.sockets_connect]
  by_cases hu : u = w
  · subst hu
    rw [Function.update_self]
    exact Or.inr (Finset.insert_ne_empty ws _)
  · exact Or.inl (Function.update_of_ne hu _ _)

/-- `disconnect` reports exactly the transitions that are counted. -/
theorem register_disconnect_emptied (u w : UUID) (ws : Socket) :
    (s.register (s.registry.disconnect w ws).2).emptied u =
      s.emptied u + if u = w ∧ (s.registry.disconnect w ws).1 = true then 1 else 0 := by
  by_cases hu : u = w
  · subst hu
    simp only [State.register, Registry.disconnect_fst, true_and]
  · rw [if_neg fun h ↦ hu h.1, Nat.add_zero]
    apply register_emptied_of_ne
    rw [Registry.sockets_disconnect]
    exact Or.inl (Function.update_of_ne hu _ _)

/-- A session marks what `disconnect` reports to it. -/
theorem marked_of_report (u w : UUID) (becameOffline : Bool) :
    (if becameOffline then s.markUserOffline w else s).marked u =
      s.marked u + if u = w ∧ becameOffline = true then 1 else 0 := by
  cases becameOffline with
  | true =>
      change Function.update s.marked w (s.marked w + 1) u = _
      by_cases hu : u = w <;> simp [hu]
  | false => simp

theorem emptied_of_report (u w : UUID) (becameOffline : Bool) :
    (if becameOffline then s.markUserOffline w else s).emptied u = s.emptied u := by
  split <;> rfl

/-- What is reported when a socket is removed is the removal of the last one. -/
theorem disconnect_fst_iff {r : Registry} {u : UUID} {ws : Socket} :
    (r.disconnect u ws).1 = true ↔ r.sockets u = {ws} := by
  rw [Registry.disconnect_fst, Registry.sockets_disconnect, Function.update_self,
    Finset.erase_eq_empty_iff]
  constructor
  · rintro ⟨hne, hempty | hlast⟩
    · exact absurd hempty hne
    · exact hlast
  · intro hlast
    exact ⟨hlast ▸ Finset.singleton_ne_empty ws, Or.inr hlast⟩

/-- What a session ends, it marks. -/
theorem leave_balance {ws : Socket} (ht : step s (.leave ws) = some t) (u : UUID) :
    t.emptied u + s.marked u = s.emptied u + t.marked u := by
  simp only [step] at ht
  split at ht
  · rename_i w _
    cases ht
    have hcount := register_disconnect_emptied (s := s) u w ws
    rw [marked_of_report, emptied_of_report]
    change (s.register _).emptied u + s.marked u = s.emptied u + (s.marked u + _)
    rw [hcount]
    omega
  · cases ht

/-- What a delivery ends, it steals. -/
theorem remove_balance {d : ℕ} (ht : step s (.remove d) = some t) (u : UUID) :
    t.emptied u + s.marked u = s.emptied u + t.marked u + stolen s u (.remove d) := by
  simp only [step] at ht
  split at ht
  · rename_i w ws stale hd
    cases ht
    have hcount := register_disconnect_emptied (s := s) u w ws
    have hstolen : stolen s u (.remove d) =
        if u = w ∧ (s.registry.disconnect w ws).1 = true then 1 else 0 := by
      simp only [stolen, hd, disconnect_fst_iff, eq_comm (a := w)]
      refine if_congr (and_congr_right fun hu ↦ ?_) rfl rfl
      rw [hu]
    change (s.register _).emptied u + s.marked u = s.emptied u + s.marked u + _
    rw [hcount, hstolen]
    omega
  · rename_i w hd
    cases ht
    simp only [stolen, hd, Nat.add_zero]
  · cases ht

/-- **Every step balances**: an offline transition is marked, or stolen. -/
theorem step_balance (ht : step s a = some t) (u : UUID) :
    t.emptied u + s.marked u = s.emptied u + t.marked u + stolen s u a := by
  cases a with
  | connect ws w =>
      simp only [step] at ht
      split at ht
      · cases ht
        change (s.register _).emptied u + s.marked u = s.emptied u + s.marked u + 0
        rw [register_connect_emptied, Nat.add_zero]
      · cases ht
  | leave ws => exact leave_balance ht u
  | deliver d w sockets =>
      simp only [step] at ht
      split at ht
      · split at ht
        · cases ht
          simp only [stolen, Nat.add_zero]
        · cases ht
      · cases ht
  | send d ok | sent d =>
      simp only [step] at ht
      split at ht
      · cases ht
        simp only [stolen, Nat.add_zero]
      · cases ht
  | remove d => exact remove_balance ht u

/-! ## Runs -/

/-- The offline transitions that have not been marked. -/
def Behind (s : State) (u : UUID) (n : ℕ) : Prop := s.emptied u = s.marked u + n

theorem step_behind (ht : step s a = some t) {u : UUID} {n : ℕ} (h : Behind s u n) :
    Behind t u (n + stolen s u a) := by
  have hbalance := step_balance ht u
  simp only [Behind] at h ⊢
  omega

/-- What a run has stolen is never made up for. -/
theorem exec_behind {as : List Action} (ht : exec step s as = some t) {u : UUID} {n : ℕ}
    (h : Behind s u n) : ∃ m, n ≤ m ∧ Behind t u m := by
  refine exec_invariant (P := fun s ↦ ∃ m, n ≤ m ∧ Behind s u m) ?_ ⟨n, le_refl n, h⟩ ht
  rintro s a t ⟨m, hle, hm⟩ hstep
  exact ⟨m + stolen s u a, by omega, step_behind hstep hm⟩

theorem behind_unique {u : UUID} {m n : ℕ} (hm : Behind s u m) (hn : Behind s u n) : m = n :=
  Nat.add_left_cancel (hm.symm.trans hn)

/-- A run that starts with the counts in balance ends so exactly when it steals nothing. -/
theorem balanced_iff {as : List Action} (hs : ∀ u, Behind s u 0)
    (ht : exec step s as = some t) : (∀ u, Behind t u 0) ↔ Along step Unstolen s as := by
  induction as generalizing s with
  | nil =>
      obtain rfl := Option.some.inj ht
      exact ⟨fun _ ↦ trivial, fun _ ↦ hs⟩
  | cons a as ih =>
      obtain ⟨m, hm, hrest⟩ := exec_cons_eq_some.mp ht
      have hafter : ∀ u, Behind m u (stolen s u a) := fun u ↦ by
        have h := step_behind hm (hs u)
        rwa [Nat.zero_add] at h
      constructor
      · intro hend
        have hnone : ∀ u, stolen s u a = 0 := fun u ↦ by
          obtain ⟨k, hle, hk⟩ := exec_behind hrest (hafter u)
          obtain rfl := behind_unique hk (hend u)
          exact Nat.le_zero.mp hle
        exact .cons (unstolen_iff.mpr hnone) hm
          ((ih (fun u ↦ hnone u ▸ hafter u) hrest).mp hend)
      · rintro ⟨hok, halong⟩
        have hnone := unstolen_iff.mp hok
        exact (ih (fun u ↦ hnone u ▸ hafter u) hrest).mpr (halong m hm)

/-- **Offline transitions are marked in exactly the runs that steal none.**  After
such a run, and after no other, every user has been marked offline as often as
their set of sockets has become empty. -/
theorem offline_iff_unstolen {s₀ s : State} (h₀ : Initial s₀) {as : List Action}
    (hrun : exec step s₀ as = some s) : MarkedOffline s ↔ Along step Unstolen s₀ as := by
  obtain ⟨-, -, -, hzero⟩ := h₀
  have hstart : ∀ u, Behind s₀ u 0 := fun u ↦ by
    obtain ⟨hemptied, hmarked⟩ := hzero u
    rw [Behind, hemptied, hmarked]
  exact ⟨fun h ↦ (balanced_iff hstart hrun).mp fun u ↦ (h u).symm,
    fun h u ↦ ((balanced_iff hstart hrun).mpr h u).symm⟩

/-- Nobody has connected yet. -/
def nobody : State := ⟨.empty, fun _ ↦ .idle, fun _ ↦ .idle, fun _ ↦ 0, fun _ ↦ 0⟩

/-- A user's only socket fails a delivery; its session ends after it has been removed. -/
def failing : List Action :=
  [.connect 0 7, .deliver 0 7 [0], .send 0 false, .sent 0, .remove 0, .leave 0]

/-- The user has gone, and is not marked offline. -/
theorem failed_delivery_unmarked :
    Initial nobody ∧ ∃ s, exec step nobody failing = some s ∧ ¬ MarkedOffline s := by
  refine ⟨⟨rfl, fun _ ↦ rfl, fun _ ↦ rfl, fun _ ↦ ⟨rfl, rfl⟩⟩, _, rfl, fun h ↦ ?_⟩
  have hcounts : (0 : ℕ) = 1 := h 7
  cases hcounts

/-- Two sockets, one of which fails a delivery; then both sessions end. -/
def parting : List Action :=
  [.connect 0 7, .connect 1 7, .deliver 0 7 [0, 1], .send 0 true, .send 0 false, .sent 0,
    .remove 0, .leave 1, .leave 0]

theorem offline_iff_unstolen_parting :
    ∃ s, exec step nobody parting = some s ∧ s.emptied 7 = 1 ∧ MarkedOffline s := by
  obtain ⟨s, hrun, hemptied⟩ : ∃ s, exec step nobody parting = some s ∧ s.emptied 7 = 1 :=
    ⟨_, rfl, rfl⟩
  refine ⟨s, hrun, hemptied, (offline_iff_unstolen ⟨rfl, fun _ ↦ rfl, fun _ ↦ rfl,
    fun _ ↦ ⟨rfl, rfl⟩⟩ hrun).mpr ?_⟩
  refine .cons trivial rfl (.cons trivial rfl (.cons trivial rfl (.cons trivial rfl
    (.cons trivial rfl (.cons trivial rfl (.cons ?_ rfl (.cons trivial rfl (.cons trivial rfl
      trivial))))))))
  rintro u ws stale hd
  cases hd
  decide

end Chatterbox.Realtime.Deliveries
