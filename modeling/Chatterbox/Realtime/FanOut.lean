import Chatterbox.Realtime.Envelope
import Chatterbox.Realtime.Registry
import Chatterbox.Run
import Mathlib.Algebra.BigOperators.Group.Multiset.Basic
import Mathlib.Data.Fintype.Basic
import Mathlib.Data.Multiset.Bind

/-!
# One event to many instances

`ConnectionManager.send_to_users` drops the excluded user and the duplicates from its
targets, and then takes one of two paths:

| path | when | what it does |
|---|---|---|
| distributed | the backend is available | publishes an envelope |
| fallback | there is none, or publishing raises | delivers to the sockets of the instance |

Redis hands an envelope to the listener of every instance, the caller's among them, and
each delivers to its own sockets.  A delivery is one coroutine for every target, which takes
a snapshot of the target's sockets and sends the event to one after the other.  The steps of
all coroutines and listeners interleave in any order.  Here no sending fails, the registries
stay as they are, and Redis hands each envelope to every instance once (what a failure does
is in `Isolation`).

What a node has received and what it is still to receive add up to what the calls so far
are to bring (`account`); that is all there is to it.  But `json.dumps` does not write
every event, so the distributed path is one of events that fit (`Fits`).
-/

namespace Chatterbox.Realtime.FanOut

open Envelope Json

/-! ## The machine -/

/-- The members of an event. -/
abbrev Members (F : Type) := List (Str × Value F)

/-- A coroutine `deliver_to_user_local`. -/
inductive Task (F : Type) where
  | created (userId : UUID) (event : Members F)
  /-- The sockets still to be sent to. -/
  | sending (userId : UUID) (event : Members F) (todo : List Socket)

/-- The coroutine has come to its end. -/
def Task.IsOver {F : Type} : Task F → Prop
  | .sending _ _ [] => True
  | _ => False

/-- An instance: what Redis has for its listener, its coroutines, and what its sockets have
received, by user. -/
structure Node (F : Type) where
  inbox : List Text
  tasks : List (Task F)
  received : List (UUID × Socket × Members F)

/-- The instances, with their registries, and whether their backends are available. -/
structure Cluster (ι F : Type) where
  floats : Floats F
  limits : Limits
  name : ι → Str
  registry : ι → Registry
  distributed : ι → Bool

variable {ι F : Type}

/-- The nodes. -/
abbrev State (ι F : Type) := ι → Node F

/-- Nothing has been sent. -/
def State.initial : State ι F := fun _ ↦ ⟨[], [], []⟩

/-- A call, or a step of a listener or of the `k`-th coroutine of an instance. -/
inductive Action (ι F : Type) where
  | send (i : ι) (userIds : List UUID) (event : Event F) (excludeUserId : Option UUID)
  | listen (i : ι)
  /-- `sockets` is the snapshot, in the order of the set. -/
  | snapshot (i : ι) (k : ℕ) (sockets : List Socket)
  | deliver (i : ι) (k : ℕ)

/-- The action is a call. -/
def Action.IsCall : Action ι F → Prop
  | .send .. => True
  | _ => False

/-- `deliver_to_users_local`. -/
def deliverToUsersLocal (userIds : List UUID) (event : Members F) (n : Node F) : Node F :=
  { n with tasks := n.tasks ++ userIds.map (Task.created · event) }

/-- `dict.fromkeys`, of all but the excluded user. -/
def targets (userIds : List UUID) (excludeUserId : Option UUID) : List UUID :=
  (userIds.filter (some · ≠ excludeUserId)).eraseDups

variable (c : Cluster ι F)

/-- `send_to_users`. -/
def sendToUsers [DecidableEq ι] (s : State ι F) (i : ι) (userIds : List UUID) (event : Event F)
    (excludeUserId : Option UUID) : State ι F :=
  let targets := targets userIds excludeUserId
  let fallback := Function.update s i (deliverToUsersLocal targets event.members (s i))
  if targets = [] then s
  else if c.distributed i then
    match publishUsers c.floats c.limits (c.name i) targets event with
    | .ok envelope => fun j ↦ { s j with inbox := (s j).inbox ++ [envelope] }
    | .error _ => fallback
  else fallback

/-- The listener handles a message. -/
def listen (n : Node F) (message : Text) : Node F :=
  match deliverEnvelope c.floats c.limits message with
  | .deliver targets event => deliverToUsersLocal targets event n
  | .ignored | .raised => n

/-- One step. -/
def step [DecidableEq ι] (s : State ι F) : Action ι F → Option (State ι F)
  | .send i userIds event excludeUserId => some (sendToUsers c s i userIds event excludeUserId)
  | .listen i =>
      match (s i).inbox with
      | [] => none
      | message :: inbox => some (Function.update s i (listen c { s i with inbox } message))
  | .snapshot i k sockets =>
      match (s i).tasks[k]? with
      | some (.created u event) =>
          if sockets.Nodup ∧ sockets.toFinset = (c.registry i).sockets u then
            some (Function.update s i
              { s i with tasks := (s i).tasks.set k (.sending u event sockets) })
          else none
      | _ => none
  | .deliver i k =>
      match (s i).tasks[k]? with
      | some (.sending u event (ws :: todo)) =>
          some (Function.update s i
            { s i with
              tasks := (s i).tasks.set k (.sending u event todo)
              received := (u, ws, event) :: (s i).received })
      | _ => none

/-- Nothing is left to be done. -/
def Quiet (s : State ι F) : Prop := ∀ j, (s j).inbox = [] ∧ ∀ task ∈ (s j).tasks, task.IsOver

/-- On every instance, every socket of the users but the excluded one has received the event
once, and no other socket has received anything. -/
def Served (s : State ι F) (userIds : List UUID) (event : Event F) (excludeUserId : Option UUID) :
    Prop :=
  ∀ j, (s j).received.Nodup ∧ ∀ u ws e, (u, ws, e) ∈ (s j).received ↔
    u ∈ userIds ∧ some u ≠ excludeUserId ∧ ws ∈ (c.registry j).sockets u ∧ e = event.members

/-- `json.dumps` writes the event in an envelope: its integers have no more digits than are
allowed, and it is not nested too deeply. -/
def Fits (lim : Limits) (event : Event F) : Prop :=
  (Value.object event.members).fault lim.digits (lim.depth - 1) = none

variable {c} {s t : State ι F} {i j : ι} {n : Node F} {u : UUID} {event : Members F}

/-! ## What can be published -/

/-- An event that fits is published. -/
theorem exists_publishUsers (fl : Floats F) {lim : Limits} {event : Event F} (h : Fits lim event)
    (instanceId : Str) (userIds : List UUID) :
    ∃ text, publishUsers fl lim instanceId userIds event = .ok text := by
  obtain ⟨inner, hdepth, -⟩ := fault_object h
  have hsucc : lim.depth = inner + 1 + 1 := by omega
  rw [Fits, hdepth] at h
  have hfault : (Value.object (envelope instanceId userIds event)).fault lim.digits lim.depth =
      none := by
    rw [hsucc]
    refine membersFault_eq_none.mpr fun m hm ↦ ?_
    obtain rfl | rfl | rfl := mem_envelope.mp hm
    · exact fault_str instanceId
    · refine elementsFault_eq_none.mpr fun v hv ↦ ?_
      obtain ⟨u, -, rfl⟩ := List.mem_map.mp hv
      exact fault_str _
    · exact h
  exact ⟨_, by rw [publishUsers, dumps, hfault]⟩

/-! ## What is still to be received -/

/-- What the sockets of a user are to receive. -/
def owedTo (c : Cluster ι F) (j : ι) (event : Members F) (u : UUID) :
    Multiset (UUID × Socket × Members F) :=
  ((c.registry j).sockets u).val.map fun ws ↦ (u, ws, event)

/-- What a call is to bring to an instance. -/
def brings (c : Cluster ι F) (j : ι) (userIds : List UUID) (event : Members F) :
    Multiset (UUID × Socket × Members F) :=
  (userIds : Multiset UUID).bind (owedTo c j event)

/-- What a coroutine is still to bring. -/
def Task.owed (c : Cluster ι F) (j : ι) : Task F → Multiset (UUID × Socket × Members F)
  | .created u event => owedTo c j event u
  | .sending u event todo => (todo : Multiset Socket).map fun ws ↦ (u, ws, event)

/-- What a message is to bring. -/
def owedBy (c : Cluster ι F) (j : ι) (message : Text) : Multiset (UUID × Socket × Members F) :=
  match deliverEnvelope c.floats c.limits message with
  | .deliver targets event => brings c j targets event
  | .ignored | .raised => 0

/-- What a node has received, and what it is still to receive. -/
def account (c : Cluster ι F) (j : ι) (n : Node F) : Multiset (UUID × Socket × Members F) :=
  n.received + ((n.inbox.map (owedBy c j)).sum + (n.tasks.map (Task.owed c j)).sum)

theorem account_deliverToUsersLocal {userIds : List UUID} :
    account c j (deliverToUsersLocal userIds event n) =
      account c j n + brings c j userIds event := by
  have howed : ((userIds.map (Task.created · event)).map (Task.owed c j)).sum =
      brings c j userIds event := by
    rw [List.map_map, ← Multiset.sum_coe]
    rfl
  rw [account, account, deliverToUsersLocal]
  dsimp only
  rw [List.map_append, List.sum_append, howed]
  simp only [add_assoc]

theorem account_listen {message : Text} {inbox : List Text} (h : n.inbox = message :: inbox) :
    account c j (listen c { n with inbox } message) = account c j n := by
  have hnode : account c j n = account c j { n with inbox } + owedBy c j message := by
    rw [account, account, h, List.map_cons, List.sum_cons]
    ac_rfl
  rw [hnode, owedBy, listen]
  split
  · exact account_deliverToUsersLocal
  · exact (add_zero _).symm
  · exact (add_zero _).symm

/-- Another element in a list. -/
theorem sum_set {α M : Type} [AddCommMonoid M] {f : α → M} {l : List α} {k : ℕ} {x : α}
    (h : l[k]? = some x) (y : α) :
    ((l.set k y).map f).sum + f x = (l.map f).sum + f y := by
  induction l generalizing k with
  | nil => cases h
  | cons z l ih =>
      cases k with
      | zero =>
          obtain rfl : z = x := Option.some.inj h
          simp only [List.set_cons_zero, List.map_cons, List.sum_cons]
          ac_rfl
      | succ k =>
          simp only [List.set_cons_succ, List.map_cons, List.sum_cons, add_assoc]
          rw [ih h]

/-- A coroutine that owes the same. -/
theorem account_set {k : ℕ} {task task' : Task F} (h : n.tasks[k]? = some task)
    (howed : task'.owed c j = task.owed c j) :
    account c j { n with tasks := n.tasks.set k task' } = account c j n := by
  have hsum := sum_set (f := Task.owed c j) h task'
  rw [howed] at hsum
  rw [account, account]
  dsimp only
  rw [add_right_cancel hsum]

/-- A coroutine that has sent the event to a socket. -/
theorem account_deliver {k : ℕ} {ws : Socket} {todo : List Socket}
    (h : n.tasks[k]? = some (.sending u event (ws :: todo))) :
    account c j { n with
      tasks := n.tasks.set k (.sending u event todo)
      received := (u, ws, event) :: n.received } = account c j n := by
  have hsum := sum_set (f := Task.owed c j) h (.sending u event todo)
  have howed : Task.owed c j (.sending u event (ws :: todo)) =
      {(u, ws, event)} + Task.owed c j (.sending u event todo) := by
    rw [Task.owed, Task.owed, ← Multiset.cons_coe, Multiset.map_cons, Multiset.singleton_add]
  rw [howed, ← add_assoc] at hsum
  have htasks := add_right_cancel hsum
  rw [account, account, ← htasks, ← Multiset.cons_coe, ← Multiset.singleton_add]
  dsimp only
  ac_rfl

/-- In the end everything has been received. -/
theorem account_of_quiet (h : Quiet s) (j : ι) : account c j (s j) = (s j).received := by
  obtain ⟨hinbox, htasks⟩ := h j
  have howed : ((s j).tasks.map (Task.owed c j)).sum = 0 := by
    refine List.sum_eq_zero fun m hm ↦ ?_
    obtain ⟨task, htask, rfl⟩ := List.mem_map.mp hm
    have hover := htasks task htask
    match task, hover with
    | .sending u event [], _ => rfl
  rw [account, hinbox, howed]
  exact add_zero _

/-! ## Steps -/

section Steps

variable [DecidableEq ι]

theorem account_update {n' : Node F} (h : account c i n' = account c i (s i)) (j : ι) :
    account c j (Function.update s i n' j) = account c j (s j) := by
  by_cases hj : j = i
  · subst hj
    rw [Function.update_self, h]
  · rw [Function.update_of_ne hj]

/-- **A step that is no call brings nothing that was not owed**, and loses nothing. -/
theorem account_step {a : Action ι F} (ha : ¬ a.IsCall) (ht : step c s a = some t) (j : ι) :
    account c j (t j) = account c j (s j) := by
  cases a with
  | send i userIds event excludeUserId => exact absurd trivial ha
  | listen i =>
      rw [step] at ht
      split at ht
      · cases ht
      · next message inbox hinbox =>
          cases ht
          exact account_update (account_listen hinbox) j
  | snapshot i k sockets =>
      rw [step] at ht
      split at ht
      · next u event hk =>
          split at ht
          · next hsockets =>
              cases ht
              refine account_update (account_set hk ?_) j
              have hval : (sockets : Multiset Socket) = ((c.registry i).sockets u).val := by
                rw [← hsockets.2, List.toFinset_val, hsockets.1.dedup]
              rw [Task.owed, Task.owed, owedTo, hval]
          · cases ht
      · cases ht
  | deliver i k =>
      rw [step] at ht
      split at ht
      · next u event ws todo hk =>
          cases ht
          exact account_update (account_deliver hk) j
      · cases ht

theorem account_exec {as : List (Action ι F)} (has : ∀ a ∈ as, ¬ a.IsCall)
    (hrun : exec (step c) s as = some t) (j : ι) : account c j (t j) = account c j (s j) := by
  induction as generalizing s with
  | nil =>
      obtain rfl := Option.some.inj hrun
      rfl
  | cons a as ih =>
      obtain ⟨m, hm, hrest⟩ := exec_cons_eq_some.mp hrun
      rw [ih (fun b hb ↦ has b (List.mem_cons_of_mem a hb)) hrest,
        account_step (has a List.mem_cons_self) hm]

/-- What a call brings when the backends are available. -/
theorem account_send_distributed (hdistributed : c.distributed i) {event : Event F}
    (hfits : Fits c.limits event) (userIds : List UUID) (excludeUserId : Option UUID) (j : ι) :
    account c j (sendToUsers c s i userIds event excludeUserId j) =
      account c j (s j) + brings c j (targets userIds excludeUserId) event.members := by
  obtain ⟨envelope, henvelope⟩ :=
    exists_publishUsers c.floats hfits (c.name i) (targets userIds excludeUserId)
  rw [sendToUsers]
  dsimp only
  split
  · next hnil =>
      rw [hnil, brings]
      exact (add_zero _).symm
  · rw [henvelope]
    have howed : owedBy c j envelope =
        brings c j (targets userIds excludeUserId) event.members := by
      rw [owedBy, deliverEnvelope_publishUsers henvelope]
    rw [account, account]
    dsimp only
    rw [List.map_append, List.sum_append, List.map_singleton, List.sum_singleton, howed]
    ac_rfl

/-- What a call brings when there is no backend. -/
theorem account_send_fallback (halone : c.distributed i = false) {event : Event F}
    (userIds : List UUID) (excludeUserId : Option UUID) :
    account c i (sendToUsers c s i userIds event excludeUserId i) =
      account c i (s i) + brings c i (targets userIds excludeUserId) event.members := by
  rw [sendToUsers]
  dsimp only
  split
  · next hnil =>
      rw [hnil, brings]
      exact (add_zero _).symm
  · rw [halone, if_neg Bool.false_ne_true, Function.update_self]
    exact account_deliverToUsersLocal

end Steps

/-! ## Exactly once -/

theorem mem_targets {userIds : List UUID} {excludeUserId : Option UUID} :
    u ∈ targets userIds excludeUserId ↔ u ∈ userIds ∧ some u ≠ excludeUserId := by
  rw [targets, List.mem_eraseDups, List.mem_filter, decide_eq_true_iff]

theorem nodup_eraseDups : ∀ l : List UUID, l.eraseDups.Nodup
  | [] => List.nodup_nil
  | a :: l => by
      rw [List.eraseDups_cons, List.nodup_cons, List.mem_eraseDups]
      exact ⟨by simp, nodup_eraseDups _⟩
termination_by l => l.length
decreasing_by exact Nat.lt_succ_of_le (List.length_filter_le ..)

theorem nodup_targets (userIds : List UUID) (excludeUserId : Option UUID) :
    (targets userIds excludeUserId).Nodup := nodup_eraseDups _

theorem mem_brings {userIds : List UUID} {ws : Socket} {e : Members F} :
    (u, ws, e) ∈ brings c j userIds event ↔
      u ∈ userIds ∧ ws ∈ (c.registry j).sockets u ∧ e = event := by
  rw [brings, Multiset.mem_bind]
  constructor
  · rintro ⟨w, hw, hmem⟩
    obtain ⟨y, hy, heq⟩ := Multiset.mem_map.mp hmem
    cases heq
    exact ⟨hw, hy, rfl⟩
  · rintro ⟨hu, hws, rfl⟩
    exact ⟨u, hu, Multiset.mem_map.mpr ⟨ws, hws, rfl⟩⟩

theorem nodup_brings {userIds : List UUID} (h : userIds.Nodup) :
    (brings c j userIds event).Nodup := by
  refine Multiset.nodup_bind.mpr ⟨fun w _ ↦ ?_, ?_⟩
  · refine ((c.registry j).sockets w).nodup.map fun x y hxy ↦ ?_
    exact (Prod.mk.inj (Prod.mk.inj hxy).2).1
  · have hsymm : Std.Symm (Function.onFun Disjoint (owedTo c j event)) := ⟨fun _ _ h ↦ h.symm⟩
    refine Multiset.pairwise_coe_iff_pairwise.mpr (h.imp fun {v w} hne ↦ ?_)
    refine Multiset.disjoint_left.mpr fun hv hw ↦ ?_
    obtain ⟨y, -, rfl⟩ := Multiset.mem_map.mp hv
    obtain ⟨z, -, heq⟩ := Multiset.mem_map.mp hw
    exact hne (Prod.mk.inj heq).1.symm

/-- What a call brings is what the sockets of its targets are to receive, once. -/
theorem served_of_received {event : Event F} {userIds : List UUID} {excludeUserId : Option UUID}
    (h : ∀ j, ((s j).received : Multiset _) =
      brings c j (targets userIds excludeUserId) event.members) :
    Served c s userIds event excludeUserId := by
  intro j
  constructor
  · rw [← Multiset.coe_nodup, h j]
    exact nodup_brings (nodup_targets userIds excludeUserId)
  · intro u ws e
    rw [← Multiset.mem_coe, h j, mem_brings, mem_targets, and_assoc]

/-! ## Every call comes to its end -/

section Progress

variable [DecidableEq ι]

/-- Nothing is left to be done by an instance. -/
def IsDone (n : Node F) : Prop := n.inbox = [] ∧ ∀ task ∈ n.tasks, task.IsOver

/-- The instance can get done, and the others stay as they are. -/
def Finishes (c : Cluster ι F) (s : State ι F) (j : ι) : Prop :=
  ∃ as t, (∀ a ∈ as, ¬ a.IsCall) ∧ exec (step c) s as = some t ∧ IsDone (t j) ∧
    ∀ i, i ≠ j → t i = s i

theorem Finishes.of_step {a : Action ι F} (ha : ¬ a.IsCall) (ht : step c s a = some t)
    (hothers : ∀ i, i ≠ j → t i = s i) (h : Finishes c t j) : Finishes c s j := by
  obtain ⟨as, v, has, hrun, hdone, hsame⟩ := h
  refine ⟨a :: as, v, ?_, exec_cons_eq_some.mpr ⟨t, ht, hrun⟩, hdone, fun i hi ↦ ?_⟩
  · exact List.forall_mem_cons.mpr ⟨ha, has⟩
  · rw [hsame i hi, hothers i hi]

/-- How many steps a coroutine has still to take. -/
def Task.work (c : Cluster ι F) (j : ι) : Task F → ℕ
  | .created u _ => ((c.registry j).sockets u).card + 1
  | .sending _ _ todo => todo.length

/-- A coroutine that is not over can take a step. -/
theorem exists_step {k : ℕ} {task : Task F} (hk : (s j).tasks[k]? = some task)
    (hover : ¬ task.IsOver) : ∃ a n task', ¬ a.IsCall ∧
      step c s a = some (Function.update s j n) ∧ n.inbox = (s j).inbox ∧
      n.tasks = (s j).tasks.set k task' ∧ task'.work c j + 1 = task.work c j := by
  match task, hover with
  | .created u event, _ =>
      have ht : step c s (.snapshot j k ((c.registry j).sockets u).toList) =
          some (Function.update s j { s j with
            tasks := (s j).tasks.set k (.sending u event ((c.registry j).sockets u).toList) }) := by
        rw [step, hk]
        exact if_pos ⟨Finset.nodup_toList _, Finset.toList_toFinset _⟩
      refine ⟨_, _, _, id, ht, rfl, rfl, ?_⟩
      rw [Task.work, Task.work, Finset.length_toList]
  | .sending u event (ws :: todo), _ =>
      have ht : step c s (.deliver j k) =
          some (Function.update s j { s j with
            tasks := (s j).tasks.set k (.sending u event todo)
            received := (u, ws, event) :: (s j).received }) := by
        rw [step, hk]
      exact ⟨_, _, _, id, ht, rfl, rfl, rfl⟩
  | .sending u event [], hover => exact absurd trivial hover

theorem finishes_of_inbox (h : (s j).inbox = []) : Finishes c s j := by
  induction hwork : ((s j).tasks.map (Task.work c j)).sum using Nat.strong_induction_on
    generalizing s with
  | _ work ih =>
      by_cases hover : ∀ task ∈ (s j).tasks, task.IsOver
      · exact ⟨[], s, fun _ ha ↦ absurd ha List.not_mem_nil, rfl, ⟨h, hover⟩, fun _ _ ↦ rfl⟩
      · obtain ⟨task, htask, hnot⟩ : ∃ task ∈ (s j).tasks, ¬ task.IsOver := by
          by_contra hnone
          exact hover fun task htask ↦ by_contra fun hnot ↦ hnone ⟨task, htask, hnot⟩
        obtain ⟨k, hk⟩ := List.getElem?_of_mem htask
        obtain ⟨a, n, task', ha, ht, hinbox, htasks, hless⟩ := exists_step (c := c) hk hnot
        have hsum := sum_set (f := Task.work c j) hk task'
        refine .of_step ha ht (fun i hi ↦ Function.update_of_ne hi ..) (ih _ ?_ ?_ rfl)
        · rw [Function.update_self, htasks]
          omega
        · rw [Function.update_self, hinbox, h]

theorem finishes (c : Cluster ι F) (s : State ι F) (j : ι) : Finishes c s j := by
  induction hinbox : (s j).inbox generalizing s with
  | nil => exact finishes_of_inbox hinbox
  | cons message inbox ih =>
      have ht : step c s (.listen j) =
          some (Function.update s j (listen c { s j with inbox } message)) := by
        rw [step, hinbox]
      refine .of_step id ht (fun i hi ↦ Function.update_of_ne hi ..) (ih _ ?_)
      rw [Function.update_self, listen]
      split <;> rfl

/-- **What is still to be done can be done.** -/
theorem can_complete [Fintype ι] (c : Cluster ι F) (s : State ι F) :
    ∃ as t, (∀ a ∈ as, ¬ a.IsCall) ∧ exec (step c) s as = some t ∧ Quiet t := by
  have hall : ∀ nodes : Finset ι, ∃ as t, (∀ a ∈ as, ¬ a.IsCall) ∧
      exec (step c) s as = some t ∧ ∀ j ∈ nodes, IsDone (t j) := by
    intro nodes
    induction nodes using Finset.induction_on with
    | empty =>
        exact ⟨[], s, fun _ ha ↦ absurd ha List.not_mem_nil, rfl,
          fun j hj ↦ absurd hj (Finset.notMem_empty j)⟩
    | insert j nodes _ ih =>
        obtain ⟨as, t, has, hrun, hdone⟩ := ih
        obtain ⟨bs, v, hbs, hrest, hj, hsame⟩ := finishes c t j
        refine ⟨as ++ bs, v, ?_, exec_append_eq_some.mpr ⟨t, hrun, hrest⟩, fun i hi ↦ ?_⟩
        · exact fun a ha ↦ (List.mem_append.mp ha).elim (has a) (hbs a)
        · by_cases e : i = j
          · rwa [e]
          · rw [hsame i e]
            exact hdone i ((Finset.mem_insert.mp hi).resolve_left e)
  obtain ⟨as, t, has, hrun, hdone⟩ := hall Finset.univ
  exact ⟨as, t, has, hrun, fun j ↦ hdone j (Finset.mem_univ j)⟩

end Progress

/-! ## One call -/

section Call

variable [DecidableEq ι]

/-- The nodes after a call and some steps that are no calls, when nothing is left to be done. -/
theorem received_of_quiet {event : Event F} {userIds : List UUID} {excludeUserId : Option UUID}
    {as : List (Action ι F)} (has : ∀ a ∈ as, ¬ a.IsCall)
    (hrun : exec (step c) .initial (.send i userIds event excludeUserId :: as) = some s)
    (hquiet : Quiet s)
    (hbrings : account c j (sendToUsers c .initial i userIds event excludeUserId j) =
      account c j (State.initial j) +
        brings c j (targets userIds excludeUserId) event.members) :
    ((s j).received : Multiset _) = brings c j (targets userIds excludeUserId) event.members := by
  obtain ⟨m, hm, hrest⟩ := exec_cons_eq_some.mp hrun
  obtain rfl := Option.some.inj hm
  rw [← account_of_quiet (c := c) hquiet, account_exec has hrest, hbrings]
  exact zero_add _

/-- The cluster without its backends. -/
def Cluster.alone (c : Cluster ι F) : Cluster ι F := { c with distributed := fun _ ↦ false }

/-- **Every socket of every target receives the event exactly once**, on every instance, and no
other socket receives anything: however listeners and coroutines are interleaved after a call
whose event fits, what is left to be done can be done, and then that is what has been received.
If the caller is the only instance, then its sockets have received what they receive without
a backend. -/
theorem fan_out_exactly_once [Fintype ι] (hdistributed : ∀ j, c.distributed j)
    {event : Event F} (hfits : Fits c.limits event) {userIds : List UUID}
    {excludeUserId : Option UUID} {as : List (Action ι F)} (has : ∀ a ∈ as, ¬ a.IsCall)
    (hrun : exec (step c) .initial (.send i userIds event excludeUserId :: as) = some s) :
    (∃ bs t, (∀ b ∈ bs, ¬ b.IsCall) ∧ exec (step c) s bs = some t ∧ Quiet t) ∧
      (Quiet s → Served c s userIds event excludeUserId ∧
        ((∀ j, j = i) → ∀ bs t, (∀ b ∈ bs, ¬ b.IsCall) →
          exec (step c.alone) .initial (.send i userIds event excludeUserId :: bs) = some t →
          Quiet t → ∀ j, (s j).received.Perm (t j).received)) := by
  refine ⟨can_complete c s, fun hquiet ↦ ?_⟩
  have hreceived := fun j ↦ received_of_quiet (j := j) has hrun hquiet
    (account_send_distributed (hdistributed i) hfits userIds excludeUserId j)
  refine ⟨served_of_received hreceived, fun honly bs t hbs halone hquiet' j ↦ ?_⟩
  obtain rfl := honly j
  rw [← Multiset.coe_eq_coe, hreceived j]
  exact (received_of_quiet hbs halone hquiet'
    (account_send_fallback (c := c.alone) rfl userIds excludeUserId)).symm

end Call

/-! ## Two instances -/

/-- Two instances; user 1 has a socket on the first, user 2 one on each, user 3 on the second. -/
def pair : Cluster Bool { n : Number // n.Valid ∧ n.IsFloat } where
  floats := .written
  limits := ⟨4300, 900⟩
  name second := if second then key "instance-b" else key "instance-a"
  registry second :=
    if second then ((Registry.empty.connect 2 30).2.connect 3 40).2
    else ((Registry.empty.connect 1 10).2.connect 2 20).2
  distributed _ := true

/-- `{"type": "message.created"}`. -/
def created : Event { n : Number // n.Valid ∧ n.IsFloat } where
  members := [(key "type", .str (key "message.created"))]
  distinct := .object (List.nodup_singleton _) fun m hm ↦ by
    obtain rfl := List.mem_singleton.mp hm
    exact .str _

/-- All are served, although user 2 is named twice, and user 1 is excluded. -/
theorem fan_out_pair : ∃ as s, (∀ a ∈ as, ¬ a.IsCall) ∧
    exec (step pair) .initial (.send false [2, 1, 2] created (some 1) :: as) = some s ∧ Quiet s ∧
    Served pair s [2, 1, 2] created (some 1) := by
  have hfits : Fits pair.limits created := rfl
  obtain ⟨m, hm⟩ : ∃ m,
      exec (step pair) .initial [.send false [2, 1, 2] created (some 1)] = some m := ⟨_, rfl⟩
  obtain ⟨as, s, has, hrun, hquiet⟩ :=
    (fan_out_exactly_once (fun _ ↦ rfl) hfits (fun _ ha ↦ absurd ha List.not_mem_nil) hm).1
  have hall := exec_append_eq_some.mpr ⟨m, hm, hrun⟩
  exact ⟨as, s, has, hall, hquiet, ((fan_out_exactly_once (fun _ ↦ rfl) hfits has hall).2 hquiet).1⟩

/-- `{"n": 10 ** 4300}`, a number with one digit more than are allowed. -/
def huge : Event { n : Number // n.Valid ∧ n.IsFloat } where
  members := [(key "n", .int (10 ^ 4300))]
  distinct := .object (List.nodup_singleton _) fun m hm ↦ by
    obtain rfl := List.mem_singleton.mp hm
    exact .int _

/-- A power of ten has one digit more than zeros. -/
theorem lt_length_toDigits {k : ℕ} (hk : 0 < k) :
    k < (Nat.toDigits 10 (10 ^ k : ℤ).natAbs).length := by
  rw [Int.natAbs_pow, ← not_le, Nat.length_toDigits_le_iff (by decide) hk]
  exact lt_irrefl _

/-- It is not published. -/
theorem publishUsers_huge (instanceId : Str) (userIds : List UUID) :
    publishUsers pair.floats pair.limits instanceId userIds huge = .error .valueError := by
  have htargets : elementsFault (F := { n : Number // n.Valid ∧ n.IsFloat }) 4300 898
      (userIds.map fun u ↦ .str (Json.str (Conversations.str u))) = none := by
    refine elementsFault_eq_none.mpr fun v hv ↦ ?_
    obtain ⟨u, -, rfl⟩ := List.mem_map.mp hv
    exact fault_str _
  have hfault : (Value.object (envelope instanceId userIds huge)).fault pair.limits.digits
      pair.limits.depth = some .valueError := by
    simp only [pair, envelope, huge, Value.fault, membersFault, htargets, Option.none_or,
      Option.or_none]
    exact if_pos (lt_length_toDigits (by decide))
  rw [publishUsers, dumps, hfault]

/-- User 3 does not get it: nothing reaches the second instance. -/
theorem huge_not_fanned_out : ∃ s,
    exec (step pair) .initial [.send false [3] huge none, .snapshot false 0 []] = some s ∧
      Quiet s ∧ ¬ Served pair s [3] huge none := by
  have hsend : sendToUsers pair .initial false [3] huge none =
      Function.update State.initial false ⟨[], [.created 3 huge.members], []⟩ := by
    rw [sendToUsers, publishUsers_huge]
    rfl
  have hsnapshot : step pair (sendToUsers pair .initial false [3] huge none)
      (.snapshot false 0 []) =
        some (Function.update State.initial false ⟨[], [.sending 3 huge.members []], []⟩) := by
    rw [hsend, step, Function.update_self]
    refine (if_pos ⟨List.nodup_nil, rfl⟩).trans ?_
    rw [Function.update_idem]
    rfl
  refine ⟨_, exec_cons_eq_some.mpr ⟨_, rfl, exec_cons_eq_some.mpr ⟨_, hsnapshot, rfl⟩⟩, ?_, ?_⟩
  · intro second
    cases second with
    | false => exact ⟨rfl, fun task htask ↦ by rw [List.mem_singleton.mp htask]; trivial⟩
    | true => exact ⟨rfl, fun _ htask ↦ absurd htask List.not_mem_nil⟩
  · intro hserved
    have hmem := ((hserved true).2 3 40 huge.members).mpr
      ⟨List.mem_singleton_self 3, nofun, by decide, rfl⟩
    exact absurd hmem List.not_mem_nil

end Chatterbox.Realtime.FanOut
