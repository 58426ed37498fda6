import Chatterbox.Realtime.Registry
import Chatterbox.Run

/-!
# One delivery to many sockets

`deliver_to_users_local` runs one coroutine for every user in a `gather`.  Each takes a
snapshot of the user's sockets under the lock, sends the event to one after the other,
and at the end unregisters those whose `send_json` has raised a `RuntimeError`.  The
coroutines wait for their sockets independently, so their steps interleave in any order.

Any other exception leaves the coroutine at once: the sockets behind it get nothing, and
those that had failed before it stay registered.  `gather` passes the exception on, while
the other coroutines run to their end.  So a delivery is as it should be (`Isolated`)
exactly if no `send_json` to a socket of the users raises anything but a `RuntimeError`
(`isolated_iff`), whatever the order of the steps.

A socket is registered for one user; the deliveries are counted by user and socket.
-/

namespace Chatterbox.Realtime.Isolation

/-- What comes of `send_json`. -/
inductive Outcome where
  | success
  | runtimeError
  /-- Another exception, as `WebSocketDisconnect` when the transport is gone. -/
  | otherError
deriving DecidableEq, Repr

/-- How far a coroutine `deliver_to_user_local` has got. -/
inductive Task where
  | created
  /-- The sockets still to be sent to, and those that have failed. -/
  | sending (todo stale : List Socket)
  /-- The sockets still to be unregistered. -/
  | removing (stale : List Socket)
  | done
  | raised
deriving DecidableEq, Repr

/-- The coroutine has come to its end. -/
def Task.IsOver : Task → Prop
  | .done | .raised => True
  | _ => False

instance : DecidablePred Task.IsOver
  | .done | .raised => .isTrue trivial
  | .created | .sending .. | .removing _ => .isFalse id

/-- The registry, the coroutines by their users, and who has received the event. -/
structure State where
  registry : Registry
  tasks : UUID → Task
  received : List (UUID × Socket)

/-- `gather` has been called. -/
def start (users : Finset UUID) (registry : Registry) : State where
  registry := registry
  tasks := fun u ↦ if u ∈ users then .created else .done
  received := []

def State.setTask (s : State) (u : UUID) (task : Task) : State :=
  { s with tasks := Function.update s.tasks u task }

/-- A coroutine moves on. -/
inductive Action where
  /-- `sockets` is the snapshot, in the order of the set. -/
  | snapshot (u : UUID) (sockets : List Socket)
  | send (u : UUID)
  /-- The loop over the snapshot is over. -/
  | sent (u : UUID)
  | remove (u : UUID)
deriving DecidableEq, Repr

/-- One step of one of the coroutines. -/
def step (outcome : Socket → Outcome) (s : State) : Action → Option State
  | .snapshot u sockets =>
      match s.tasks u with
      | .created =>
          if sockets.Nodup ∧ sockets.toFinset = s.registry.sockets u then
            some (s.setTask u (.sending sockets []))
          else none
      | _ => none
  | .send u =>
      match s.tasks u with
      | .sending (ws :: todo) stale =>
          match outcome ws with
          | .success =>
              some { s.setTask u (.sending todo stale) with received := (u, ws) :: s.received }
          | .runtimeError => some (s.setTask u (.sending todo (stale ++ [ws])))
          | .otherError => some (s.setTask u .raised)
      | _ => none
  | .sent u =>
      match s.tasks u with
      | .sending [] stale => some (s.setTask u (.removing stale))
      | _ => none
  | .remove u =>
      match s.tasks u with
      | .removing (ws :: stale) =>
          some { s.setTask u (.removing stale) with registry := (s.registry.disconnect u ws).2 }
      | .removing [] => some (s.setTask u .done)
      | _ => none

/-- All coroutines have come to their end. -/
def Complete (s : State) : Prop := ∀ u, (s.tasks u).IsOver

/-- `gather` has raised. -/
def Raises (s : State) : Prop := ∃ u, s.tasks u = .raised

/-- A delivery of which no failure has spread: nothing is raised, exactly the sockets of
the users to which sending succeeds have received the event, once, and exactly those to
which it failed are unregistered. -/
structure Isolated (users : Finset UUID) (outcome : Socket → Outcome) (before : Registry)
    (s : State) : Prop where
  quiet : ¬ Raises s
  received : ∀ u ws, s.received.count (u, ws) =
    if u ∈ users ∧ ws ∈ before.sockets u ∧ outcome ws = .success then 1 else 0
  registered : ∀ u ws, ws ∈ s.registry.sockets u ↔
    ws ∈ before.sockets u ∧ (u ∈ users → outcome ws = .success)

variable {users : Finset UUID} {outcome : Socket → Outcome} {before : Registry} {s t : State}
  {a : Action} {u w : UUID} {ws : Socket} {task : Task}

/-! ## How far each coroutine has got -/

/-- How often the user's socket has received the event. -/
def State.count (s : State) (u : UUID) (ws : Socket) : ℕ := s.received.count (u, ws)

/-- What is true of a user's sockets, by how far the coroutine has got. -/
inductive Progress (users : Finset UUID) (outcome : Socket → Outcome) (before : Registry)
    (s : State) (u : UUID) : Task → Prop
  | created (target : u ∈ users) (count : ∀ ws, s.count u ws = 0)
      (sockets : s.registry.sockets u = before.sockets u) : Progress users outcome before s u .created
  | sending {p todo stale : List Socket} (target : u ∈ users) (nodup : (p ++ todo).Nodup)
      (snapshot : (p ++ todo).toFinset = before.sockets u)
      (failed : stale = p.filter fun ws ↦ outcome ws = .runtimeError)
      (past_ne : ∀ ws ∈ p, outcome ws ≠ .otherError)
      (count : ∀ ws, s.count u ws = if ws ∈ p ∧ outcome ws = .success then 1 else 0)
      (sockets : s.registry.sockets u = before.sockets u) :
      Progress users outcome before s u (.sending todo stale)
  | removing {stale : List Socket} (target : u ∈ users) (nodup : stale.Nodup)
      (failed : ∀ ws ∈ stale, outcome ws = .runtimeError)
      (all_ne : ∀ ws ∈ before.sockets u, outcome ws ≠ .otherError)
      (count : ∀ ws,
        s.count u ws = if ws ∈ before.sockets u ∧ outcome ws = .success then 1 else 0)
      (sockets : ∀ ws, ws ∈ s.registry.sockets u ↔
        ws ∈ before.sockets u ∧ (outcome ws = .success ∨ ws ∈ stale)) :
      Progress users outcome before s u (.removing stale)
  | done (all_ne : u ∈ users → ∀ ws ∈ before.sockets u, outcome ws ≠ .otherError)
      (count : ∀ ws,
        s.count u ws = if u ∈ users ∧ ws ∈ before.sockets u ∧ outcome ws = .success then 1 else 0)
      (sockets : ∀ ws, ws ∈ s.registry.sockets u ↔
        ws ∈ before.sockets u ∧ (u ∈ users → outcome ws = .success)) :
      Progress users outcome before s u .done
  | raised {x : Socket} (target : u ∈ users) (socket : x ∈ before.sockets u)
      (raises : outcome x = .otherError) : Progress users outcome before s u .raised

/-- What is true of every coroutine. -/
def Inv (users : Finset UUID) (outcome : Socket → Outcome) (before : Registry) (s : State) : Prop :=
  ∀ u, Progress users outcome before s u (s.tasks u)

theorem Inv.start : Inv users outcome before (start users before) := by
  intro u
  by_cases hu : u ∈ users
  · simp only [Isolation.start, if_pos hu]
    exact .created hu (fun _ ↦ rfl) rfl
  · simp only [Isolation.start, if_neg hu]
    exact .done (fun h ↦ absurd h hu) (fun ws ↦ (if_neg fun h ↦ hu h.1).symm)
      fun ws ↦ ⟨fun h ↦ ⟨h, fun h' ↦ absurd h' hu⟩, fun h ↦ h.1⟩

/-- Only the user's own deliveries and sockets matter. -/
theorem Progress.congr (h : Progress users outcome before s u task)
    (hcount : ∀ ws, t.count u ws = s.count u ws)
    (hsockets : t.registry.sockets u = s.registry.sockets u) :
    Progress users outcome before t u task := by
  cases h with
  | created target count sockets =>
      exact .created target (fun ws ↦ (hcount ws).trans (count ws)) (hsockets.trans sockets)
  | sending target nodup snapshot failed past_ne count sockets =>
      exact .sending target nodup snapshot failed past_ne (fun ws ↦ (hcount ws).trans (count ws))
        (hsockets.trans sockets)
  | removing target nodup failed all_ne count sockets =>
      exact .removing target nodup failed all_ne (fun ws ↦ (hcount ws).trans (count ws))
        fun ws ↦ hsockets ▸ sockets ws
  | done all_ne count sockets =>
      exact .done all_ne (fun ws ↦ (hcount ws).trans (count ws)) fun ws ↦ hsockets ▸ sockets ws
  | raised target socket raises => exact .raised target socket raises

/-- One coroutine moves on; the others do not notice. -/
theorem Inv.update (h : Inv users outcome before s)
    (htasks : t.tasks = Function.update s.tasks u task)
    (hcount : ∀ w ws, w ≠ u → t.count w ws = s.count w ws)
    (hsockets : ∀ w, w ≠ u → t.registry.sockets w = s.registry.sockets w)
    (hu : Progress users outcome before t u task) : Inv users outcome before t := by
  intro w
  by_cases e : w = u
  · subst e
    rwa [htasks, Function.update_self]
  · rw [htasks, Function.update_of_ne e]
    exact (h w).congr (fun ws ↦ hcount w ws e) (hsockets w e)

/-- A coroutine moves on without a delivery and without a change of the registry. -/
theorem Inv.move (h : Inv users outcome before s)
    (hu : Progress users outcome before (s.setTask u task) u task) :
    Inv users outcome before (s.setTask u task) :=
  h.update rfl (fun _ _ _ ↦ rfl) (fun _ _ ↦ rfl) hu

/-! ## One step -/

theorem Inv.snapshot (h : Inv users outcome before s) (hu : s.tasks u = .created)
    {sockets : List Socket} (hnodup : sockets.Nodup)
    (hall : sockets.toFinset = s.registry.sockets u) :
    Inv users outcome before (s.setTask u (.sending sockets [])) := by
  have hold := h u
  rw [hu] at hold
  cases hold with
  | created target count hsockets =>
      refine h.move (.sending (p := []) target hnodup (hall.trans hsockets) rfl ?_ ?_ hsockets)
      · simp
      · exact fun ws ↦ (count ws).trans (if_neg fun h ↦ List.not_mem_nil h.1).symm

/-- The counts after a delivery to a socket of the user. -/
theorem count_cons (u w : UUID) (ws y : Socket) (r : Registry) (tasks : UUID → Task) :
    State.count ⟨r, tasks, (u, ws) :: s.received⟩ w y =
      s.count w y + if y = ws ∧ w = u then 1 else 0 := by
  unfold State.count
  rw [List.count_cons]
  by_cases e : y = ws ∧ w = u
  · rw [if_pos e, if_pos (by simp [e])]
  · rw [if_neg e, if_neg]
    intro h
    obtain ⟨rfl, rfl⟩ := Prod.mk.inj (beq_iff_eq.mp h)
    exact e ⟨rfl, rfl⟩

/-- The next socket is sent to, and nothing is wrong. -/
theorem Inv.success (h : Inv users outcome before s) {todo stale : List Socket}
    (hu : s.tasks u = .sending (ws :: todo) stale) (hok : outcome ws = .success) :
    Inv users outcome before
      { s.setTask u (.sending todo stale) with received := (u, ws) :: s.received } := by
  have hold := h u
  rw [hu] at hold
  cases hold with
  | @sending past _ _ target nodup snapshot failed past_ne count hsockets =>
      have hnew : ws ∉ past := fun hmem ↦
        List.disjoint_of_nodup_append nodup hmem List.mem_cons_self
      have hsplit : (past ++ [ws]) ++ todo = past ++ ws :: todo := by simp
      refine h.update rfl (fun w y e ↦ ?_) (fun _ _ ↦ rfl)
        (.sending (p := past ++ [ws]) target (hsplit ▸ nodup) (hsplit ▸ snapshot)
          ?_ (fun y hy ↦ ?_) (fun y ↦ ?_) hsockets)
      · exact (count_cons u w ws y _ _).trans (by rw [if_neg fun h' ↦ e h'.2, Nat.add_zero])
      · simp [failed, hok]
      · rcases List.mem_append.mp hy with hy | hy
        · exact past_ne y hy
        · rw [List.mem_singleton.mp hy, hok]
          exact Outcome.noConfusion
      · refine (count_cons u u ws y _ _).trans ?_
        rw [count]
        by_cases e : y = ws
        · subst e
          simp [hnew, hok]
        · simp [e]

/-- Sending to the next socket raises a `RuntimeError`. -/
theorem Inv.failure (h : Inv users outcome before s) {todo stale : List Socket}
    (hu : s.tasks u = .sending (ws :: todo) stale) (hfail : outcome ws = .runtimeError) :
    Inv users outcome before (s.setTask u (.sending todo (stale ++ [ws]))) := by
  have hold := h u
  rw [hu] at hold
  cases hold with
  | @sending past _ _ target nodup snapshot failed past_ne count hsockets =>
      have hsplit : (past ++ [ws]) ++ todo = past ++ ws :: todo := by simp
      refine h.move (.sending (p := past ++ [ws]) target (hsplit ▸ nodup) (hsplit ▸ snapshot)
        ?_ (fun y hy ↦ ?_) (fun y ↦ (count y).trans ?_) hsockets)
      · simp [failed, hfail]
      · rcases List.mem_append.mp hy with hy | hy
        · exact past_ne y hy
        · rw [List.mem_singleton.mp hy, hfail]
          exact Outcome.noConfusion
      · by_cases e : y = ws
        · subst e
          simp [hfail]
        · simp [e]

/-- Sending to the next socket raises something else. -/
theorem Inv.raise (h : Inv users outcome before s) {todo stale : List Socket}
    (hu : s.tasks u = .sending (ws :: todo) stale) (hraises : outcome ws = .otherError) :
    Inv users outcome before (s.setTask u .raised) := by
  have hold := h u
  rw [hu] at hold
  cases hold with
  | sending target nodup snapshot failed past_ne count hsockets =>
      refine h.move (.raised (x := ws) target ?_ hraises)
      rw [← snapshot]
      simp

/-- The loop over the snapshot is over. -/
theorem Inv.sent (h : Inv users outcome before s) {stale : List Socket}
    (hu : s.tasks u = .sending [] stale) :
    Inv users outcome before (s.setTask u (.removing stale)) := by
  have hold := h u
  rw [hu] at hold
  cases hold with
  | @sending past _ _ target nodup snapshot failed past_ne count hsockets =>
      rw [List.append_nil] at snapshot
      have hmem : ∀ ws, ws ∈ before.sockets u ↔ ws ∈ past := fun ws ↦ by
        rw [← snapshot, List.mem_toFinset]
      rw [List.append_nil] at nodup
      refine h.move (.removing target (failed ▸ nodup.filter _) (fun ws hws ↦ ?_)
        (fun ws hws ↦ past_ne ws ((hmem ws).mp hws)) (fun ws ↦ ?_) fun ws ↦ ?_)
      · rw [failed] at hws
        exact of_decide_eq_true (List.mem_filter.mp hws).2
      · exact (count ws).trans (by simp only [hmem])
      · rw [show (s.setTask u (.removing stale)).registry.sockets u = _ from hsockets]
        refine (and_iff_left_of_imp fun hws ↦ ?_).symm
        have hpast := (hmem ws).mp hws
        cases hout : outcome ws with
        | success => exact .inl rfl
        | runtimeError =>
            rw [failed]
            exact .inr (List.mem_filter.mpr ⟨hpast, decide_eq_true hout⟩)
        | otherError => exact absurd hout (past_ne ws hpast)

/-- The next socket that has failed is unregistered. -/
theorem Inv.remove (h : Inv users outcome before s) {stale : List Socket}
    (hu : s.tasks u = .removing (ws :: stale)) : Inv users outcome before
      { s.setTask u (.removing stale) with registry := (s.registry.disconnect u ws).2 } := by
  have hold := h u
  rw [hu] at hold
  cases hold with
  | removing target nodup failed all_ne count hsockets =>
      obtain ⟨hnew, hnodup⟩ := List.nodup_cons.mp nodup
      refine h.update rfl (fun _ _ _ ↦ rfl) (fun w e ↦ ?_) (.removing target hnodup
        (fun y hy ↦ failed y (List.mem_cons_of_mem _ hy)) all_ne count fun y ↦ ?_)
      · exact (congrFun (Registry.sockets_disconnect u ws s.registry) w).trans
          (Function.update_of_ne e ..)
      · refine Registry.mem_sockets_disconnect.trans ?_
        rw [hsockets, List.mem_cons]
        by_cases e : y = ws
        · subst e
          simp [hnew, failed y List.mem_cons_self]
        · simp [e]

/-- Nothing is left to be unregistered. -/
theorem Inv.finish (h : Inv users outcome before s) (hu : s.tasks u = .removing []) :
    Inv users outcome before (s.setTask u .done) := by
  have hold := h u
  rw [hu] at hold
  cases hold with
  | removing target nodup failed all_ne count hsockets =>
      refine h.move (.done (fun _ ↦ all_ne) (fun ws ↦ ?_) fun ws ↦ (hsockets ws).trans ?_)
      · exact (count ws).trans (by simp only [target, true_and])
      · simp [target]

/-- **Every coroutine gets on as it should**, whichever moves. -/
theorem Inv.step (h : Inv users outcome before s) (ht : Isolation.step outcome s a = some t) :
    Inv users outcome before t := by
  cases a with
  | snapshot u sockets =>
      simp only [Isolation.step] at ht
      split at ht
      · rename_i hu
        split at ht
        · rename_i hsnapshot
          cases ht
          exact h.snapshot hu hsnapshot.1 hsnapshot.2
        · cases ht
      · cases ht
  | send u =>
      simp only [Isolation.step] at ht
      split at ht
      · rename_i ws todo stale hu
        split at ht
        · cases ht
          exact h.success hu ‹_›
        · cases ht
          exact h.failure hu ‹_›
        · cases ht
          exact h.raise hu ‹_›
      · cases ht
  | sent u =>
      simp only [Isolation.step] at ht
      split at ht
      · cases ht
        exact h.sent ‹_›
      · cases ht
  | remove u =>
      simp only [Isolation.step] at ht
      split at ht
      · cases ht
        exact h.remove ‹_›
      · cases ht
        exact h.finish ‹_›
      · cases ht

theorem Inv.of_reachable {as : List Action}
    (hrun : exec (Isolation.step outcome) (Isolation.start users before) as = some s) :
    Inv users outcome before s :=
  exec_invariant (P := Inv users outcome before) Inv.step .start hrun

/-! ## Every delivery comes to its end -/

theorem tasks_setTask (s : State) (u : UUID) (task : Task) : (s.setTask u task).tasks u = task :=
  Function.update_self ..

/-- The coroutine of the user comes to its end, and the others stay where they are. -/
def Finishes (outcome : Socket → Outcome) (s : State) (u : UUID) : Prop :=
  ∃ as t, exec (step outcome) s as = some t ∧ (t.tasks u).IsOver ∧
    ∀ w, w ≠ u → t.tasks w = s.tasks w

theorem Finishes.of_isOver (h : (s.tasks u).IsOver) : Finishes outcome s u :=
  ⟨[], s, rfl, h, fun _ _ ↦ rfl⟩

/-- A coroutine that can take a step after which it comes to its end. -/
theorem Finishes.of_step (ht : step outcome s a = some t) (h : Finishes outcome t u)
    (hothers : ∀ w, w ≠ u → t.tasks w = s.tasks w) : Finishes outcome s u := by
  obtain ⟨as, v, hrun, hover, hsame⟩ := h
  exact ⟨a :: as, v, exec_cons_eq_some.mpr ⟨t, ht, hrun⟩, hover,
    fun w hw ↦ (hsame w hw).trans (hothers w hw)⟩

theorem finishes_removing {stale : List Socket} (hu : s.tasks u = .removing stale) :
    Finishes outcome s u := by
  induction stale generalizing s with
  | nil =>
      have ht : step outcome s (.remove u) = some (s.setTask u .done) := by simp only [step, hu]
      refine .of_step ht (.of_isOver ?_) fun w hw ↦ Function.update_of_ne hw ..
      rw [tasks_setTask]
      trivial
  | cons ws stale ih =>
      have ht : step outcome s (.remove u) = some { s.setTask u (.removing stale) with
          registry := (s.registry.disconnect u ws).2 } := by simp only [step, hu]
      exact .of_step ht (ih (Function.update_self ..)) fun w hw ↦ Function.update_of_ne hw ..

theorem finishes_sending {todo stale : List Socket} (hu : s.tasks u = .sending todo stale) :
    Finishes outcome s u := by
  induction todo generalizing s stale with
  | nil =>
      have ht : step outcome s (.sent u) = some (s.setTask u (.removing stale)) := by
        simp only [step, hu]
      exact .of_step ht (finishes_removing (Function.update_self ..))
        fun w hw ↦ Function.update_of_ne hw ..
  | cons ws todo ih =>
      have hothers : ∀ task w, w ≠ u → (s.setTask u task).tasks w = s.tasks w :=
        fun task w hw ↦ Function.update_of_ne hw ..
      cases hout : outcome ws with
      | success =>
          have ht : step outcome s (.send u) = some { s.setTask u (.sending todo stale) with
              received := (u, ws) :: s.received } := by simp only [step, hu, hout]
          exact .of_step ht (ih (Function.update_self ..)) (hothers _)
      | runtimeError =>
          have ht : step outcome s (.send u) =
              some (s.setTask u (.sending todo (stale ++ [ws]))) := by simp only [step, hu, hout]
          exact .of_step ht (ih (Function.update_self ..)) (hothers _)
      | otherError =>
          have ht : step outcome s (.send u) = some (s.setTask u .raised) := by
            simp only [step, hu, hout]
          refine .of_step ht (.of_isOver ?_) (hothers _)
          rw [tasks_setTask]
          trivial

/-- Every coroutine can come to its end, whatever the others do. -/
theorem finishes (outcome : Socket → Outcome) (s : State) (u : UUID) : Finishes outcome s u := by
  cases hu : s.tasks u with
  | created =>
      have ht : step outcome s (.snapshot u (s.registry.sockets u).toList) =
          some (s.setTask u (.sending (s.registry.sockets u).toList [])) := by
        simp only [step, hu]
        exact if_pos ⟨Finset.nodup_toList _, Finset.toList_toFinset _⟩
      exact .of_step ht (finishes_sending (Function.update_self ..))
        fun w hw ↦ Function.update_of_ne hw ..
  | sending todo stale => exact finishes_sending hu
  | removing stale => exact finishes_removing hu
  | done | raised =>
      refine .of_isOver ?_
      rw [hu]
      trivial

/-- What is still to be done can be done. -/
theorem can_complete (outcome : Socket → Outcome) (users : Finset UUID) :
    ∀ s : State, (∀ u ∉ users, (s.tasks u).IsOver) →
      ∃ as t, exec (step outcome) s as = some t ∧ Complete t := by
  induction users using Finset.induction_on with
  | empty => exact fun s h ↦ ⟨[], s, rfl, fun u ↦ h u (Finset.notMem_empty u)⟩
  | insert u users _ ih =>
      intro s h
      obtain ⟨as, t, hrun, hover, hsame⟩ := finishes outcome s u
      have hothers : ∀ w ∉ users, (t.tasks w).IsOver := by
        intro w hw
        by_cases e : w = u
        · rwa [e]
        · rw [hsame w e]
          exact h w fun hmem ↦ (Finset.mem_insert.mp hmem).elim e hw
      obtain ⟨bs, v, hrest, hend⟩ := ih t hothers
      exact ⟨as ++ bs, v, exec_append_eq_some.mpr ⟨t, hrun, hrest⟩, hend⟩

/-- Nobody but the users has a coroutine. -/
theorem Inv.isOver_of_notMem (h : Inv users outcome before s) (hu : u ∉ users) :
    (s.tasks u).IsOver := by
  have hold := h u
  generalize hph : s.tasks u = task at hold
  cases hold with
  | created target | sending target | removing target | raised target => exact absurd target hu
  | done => trivial

/-! ## When failures stay where they are -/

/-- A coroutine that is over has returned or raised. -/
theorem Inv.done_or_raised (h : Inv users outcome before s) (hover : (s.tasks u).IsOver) :
    Progress users outcome before s u .done ∨ s.tasks u = .raised ∧
      u ∈ users ∧ ∃ ws ∈ before.sockets u, outcome ws = .otherError := by
  have hold := h u
  generalize hph : s.tasks u = task at hold hover
  cases hold with
  | created | sending | removing => exact hover.elim
  | done all_ne count sockets => exact .inl (.done all_ne count sockets)
  | raised target socket raises => exact .inr ⟨rfl, target, _, socket, raises⟩

/-- **Exactly when a delivery is isolated.**  However the coroutines are interleaved, the
delivery can be completed; and when it is complete no failure has spread if and only if
sending to none of the sockets of the users raises anything but a `RuntimeError`. -/
theorem isolated_iff (users : Finset UUID) (outcome : Socket → Outcome) (before : Registry)
    {as : List Action} (hrun : exec (step outcome) (start users before) as = some s) :
    (∃ bs t, exec (step outcome) s bs = some t ∧ Complete t) ∧
      (Complete s → (Isolated users outcome before s ↔
        ∀ u ∈ users, ∀ ws ∈ before.sockets u, outcome ws ≠ .otherError)) := by
  have h : Inv users outcome before s := .of_reachable hrun
  refine ⟨can_complete outcome users s fun u hu ↦ h.isOver_of_notMem hu, fun hend ↦ ⟨?_, ?_⟩⟩
  · intro hisolated u hu ws hws
    rcases h.done_or_raised (hend u) with hdone | ⟨hraised, -⟩
    · cases hdone with
      | done all_ne => exact all_ne hu ws hws
    · exact absurd ⟨u, hraised⟩ hisolated.quiet
  · intro hne
    have hdone : ∀ u, Progress users outcome before s u .done := by
      intro u
      rcases h.done_or_raised (hend u) with hdone | ⟨-, hu, ws, hws, hraises⟩
      · exact hdone
      · exact absurd hraises (hne u hu ws hws)
    refine ⟨?_, fun u ws ↦ ?_, fun u ws ↦ ?_⟩
    · rintro ⟨u, hraised⟩
      have hold := h u
      rw [hraised] at hold
      cases hold with
      | raised target socket raises => exact hne u target _ socket raises
    · cases hdone u with
      | done all_ne count sockets => exact count ws
    · cases hdone u with
      | done all_ne count sockets => exact sockets ws

/-! ## A failure that spreads -/

/-- User 1 with two sockets. -/
def twice : Registry := ((Registry.empty.connect 1 1).2.connect 1 2).2

/-- The transport of socket 1 is gone. -/
def gone (ws : Socket) : Outcome := if ws = 1 then .otherError else .success

theorem gone_spreads :
    ∃ s, exec (step gone) (start {1} twice) [.snapshot 1 [1, 2], .send 1] = some s ∧ Complete s ∧
      Raises s ∧ gone 2 = .success ∧ s.count 1 2 = 0 ∧ 1 ∈ s.registry.sockets 1 ∧
        ¬ Isolated {1} gone twice s := by
  obtain ⟨s, hs, htasks, hcount, hreg⟩ : ∃ s,
      exec (step gone) (start {1} twice) [.snapshot 1 [1, 2], .send 1] = some s ∧
        s.tasks = Function.update (Function.update (start {1} twice).tasks 1 (.sending [1, 2] [])) 1
          .raised ∧ s.received = [] ∧ s.registry = twice := ⟨_, rfl, rfl, rfl, rfl⟩
  have hraises : Raises s := ⟨1, by rw [htasks, Function.update_self]⟩
  refine ⟨s, hs, fun u ↦ ?_, hraises, rfl, ?_, ?_, fun h ↦ h.quiet hraises⟩
  · by_cases e : u = 1
    · rw [e, htasks, Function.update_self]
      trivial
    · rw [htasks, Function.update_of_ne e, Function.update_of_ne e]
      simp only [start, if_neg (fun h ↦ e (Finset.mem_singleton.mp h))]
      trivial
  · rw [State.count, hcount]
    rfl
  · rw [hreg]
    decide

/-- Socket 1 is closed already. -/
def shut (ws : Socket) : Outcome := if ws = 1 then .runtimeError else .success

/-- Both sockets are sent to, and socket 1 is unregistered. -/
def shutting : List Action := [.snapshot 1 [1, 2], .send 1, .send 1, .sent 1, .remove 1, .remove 1]

theorem isolated_shutting :
    ∃ s, exec (step shut) (start {1} twice) shutting = some s ∧ Isolated {1} shut twice s := by
  obtain ⟨s, hs, htasks⟩ : ∃ s, exec (step shut) (start {1} twice) shutting = some s ∧
      (∀ u, s.tasks u = .done) := by
    refine ⟨_, rfl, fun u ↦ ?_⟩
    by_cases e : u = 1
    · subst e
      rfl
    · simp only [State.setTask, Function.update_of_ne e, start,
        if_neg (fun h ↦ e (Finset.mem_singleton.mp h))]
  refine ⟨s, hs, ((isolated_iff {1} shut twice hs).2 fun u ↦ ?_).mpr fun u _ ws _ ↦ ?_⟩
  · rw [htasks]
    trivial
  · unfold shut
    split <;> exact Outcome.noConfusion

end Chatterbox.Realtime.Isolation
