import Chatterbox.Base
import Chatterbox.SortedSet
import Mathlib.Logic.Function.Basic

/-!
# The presence store

What the backends keep in Redis about who is online: for every user a sorted set
of leases, one for each instance that serves the user, scored by its expiry; and
one sorted set of users, scored by the expiry of the user's last lease, from
which the sweep finds the users whose leases have lapsed.

The key of an empty sorted set does not exist, and the time to live of a key goes
with it (`setLeases`).  Redis and the instances are taken to read the same clock.
-/

namespace Chatterbox.Presence

/-- `instance_id`: one process of the backend. -/
abbrev Instance := String

/-- The leases of one user, by instance. -/
abbrev Leases := SortedSet Instance Instant

/-- The keys of the presence store. -/
structure Store where
  /-- `presence_key(user_id)`. -/
  leases : UUID → Leases
  /-- When the key of a user's leases is to be dropped. -/
  deadline : UUID → Option Instant
  /-- `presence_users_key`. -/
  users : SortedSet UUID Instant

namespace Store

/-- Nobody has ever been online. -/
def empty : Store := ⟨fun _ ↦ .empty, fun _ ↦ none, .empty⟩

/-- A command has made `z` of the leases of `u`. -/
def setLeases (s : Store) (u : UUID) (z : Leases) : Store :=
  { s with
    leases := Function.update s.leases u z
    deadline := Function.update s.deadline u (if z.zcard = 0 then none else s.deadline u) }

/-- `EXPIRE`. -/
def expire (s : Store) (u : UUID) (at_ : Instant) : Store :=
  { s with deadline := Function.update s.deadline u (some at_) }

def zaddUser (s : Store) (x : Instant) (u : UUID) : Store := { s with users := s.users.zadd x u }

def zremUser (s : Store) (u : UUID) : Store := { s with users := s.users.zrem u }

end Store

/-- `presence_ttl_seconds`, and whether `on_presence_expired` is set. -/
structure Config where
  ttl : ℕ
  reports : Bool

/-- `PRESENCE_CONNECT_SCRIPT`: whether the user was offline. -/
def connectScript (cfg : Config) (now : Instant) (i : Instance) (u : UUID) (s : Store) :
    Bool × Store :=
  let s := s.setLeases u ((s.leases u).zremrangebyscore now)
  let wasOffline := (s.leases u).zcard == 0
  let s := s.setLeases u ((s.leases u).zadd (now + cfg.ttl) i)
  let s := s.expire u (now + 2 * cfg.ttl)
  (wasOffline, s.zaddUser (now + cfg.ttl) u)

/-- `PRESENCE_DISCONNECT_SCRIPT`: whether the user is offline now. -/
def disconnectScript (now : Instant) (i : Instance) (u : UUID) (s : Store) : Bool × Store :=
  let s := s.setLeases u ((s.leases u).zrem i)
  let s := s.setLeases u ((s.leases u).zremrangebyscore now)
  if (s.leases u).zcard = 0 then (true, (s.setLeases u .empty).zremUser u)
  else
    match (s.leases u).latest with
    | some latest => (false, s.zaddUser latest u)
    | none => (false, s)

/-- One user's turn in `online_user_ids`. -/
def isOnline (now : Instant) (u : UUID) (s : Store) : Bool × Store :=
  let s := s.setLeases u ((s.leases u).zremrangebyscore now)
  ((s.leases u).zcard != 0, s)

/-- `online_user_ids`. -/
def onlineUserIds (now : Instant) : List UUID → Store → List UUID × Store
  | [], s => ([], s)
  | u :: us, s =>
      let (online, s) := isOnline now u s
      let (rest, s) := onlineUserIds now us s
      (if online then u :: rest else rest, s)

/-- One user's turn in `_sweep_presence`, started at `start`: whether
`on_presence_expired` is called. -/
def sweepUser (cfg : Config) (start now : Instant) (u : UUID) (s : Store) : Bool × Store :=
  if s.users.score u = none then (false, s)
  else
    let s := s.zremUser u
    let s := s.setLeases u ((s.leases u).zremrangebyscore start)
    match (s.leases u).latest with
    | some latest => (false, s.zaddUser latest u)
    | none =>
        let s := s.setLeases u .empty
        if cfg.reports then
          let (online, s) := onlineUserIds now [u] s
          (online.isEmpty, s)
        else (false, s)

/-- The users that `_sweep_presence` calls `on_presence_expired` for, one after another. -/
def sweepUsers (cfg : Config) (start now : Instant) : List UUID → Store → List UUID × Store
  | [], s => ([], s)
  | u :: us, s =>
      let (reported, s) := sweepUser cfg start now u s
      let (rest, s) := sweepUsers cfg start now us s
      (if reported then u :: rest else rest, s)

/-- `_sweep_presence`. -/
def sweepPresence (cfg : Config) (start now : Instant) (s : Store) : List UUID × Store :=
  sweepUsers cfg start now (s.users.zrangebyscore start 100) s

/-! ## One user's part of the store -/

/-- What the store holds about one user. -/
structure View where
  leases : Leases
  deadline : Option Instant
  /-- The score of the user among the users. -/
  listed : Option Instant

namespace View

def setLeases (v : View) (z : Leases) : View :=
  { v with leases := z, deadline := if z.zcard = 0 then none else v.deadline }

def connect (cfg : Config) (now : Instant) (i : Instance) (v : View) : Bool × View :=
  let v := v.setLeases (v.leases.zremrangebyscore now)
  let wasOffline := v.leases.zcard == 0
  let v := v.setLeases (v.leases.zadd (now + cfg.ttl) i)
  (wasOffline, { v with deadline := some (now + 2 * cfg.ttl), listed := some (now + cfg.ttl) })

def disconnect (now : Instant) (i : Instance) (v : View) : Bool × View :=
  let v := v.setLeases (v.leases.zrem i)
  let v := v.setLeases (v.leases.zremrangebyscore now)
  if v.leases.zcard = 0 then (true, { v.setLeases .empty with listed := none })
  else
    match v.leases.latest with
    | some latest => (false, { v with listed := some latest })
    | none => (false, v)

def lookup (now : Instant) (v : View) : Bool × View :=
  let v := v.setLeases (v.leases.zremrangebyscore now)
  (v.leases.zcard != 0, v)

def sweep (cfg : Config) (start now : Instant) (v : View) : Bool × View :=
  if v.listed = none then (false, v)
  else
    let v := { v with listed := none }
    let v := v.setLeases (v.leases.zremrangebyscore start)
    match v.leases.latest with
    | some latest => (false, { v with listed := some latest })
    | none =>
        let v := v.setLeases .empty
        if cfg.reports then ((!(v.lookup now).1), (v.lookup now).2) else (false, v)

end View

/-- One user's part of the store. -/
def Store.view (s : Store) (u : UUID) : View := ⟨s.leases u, s.deadline u, s.users.score u⟩

variable {s : Store} {u w : UUID}

@[simp] theorem view_leases (s : Store) (u : UUID) : (s.view u).leases = s.leases u := rfl
@[simp] theorem view_deadline (s : Store) (u : UUID) : (s.view u).deadline = s.deadline u := rfl
@[simp] theorem view_listed (s : Store) (u : UUID) : (s.view u).listed = s.users.score u := rfl

@[simp] theorem view_setLeases (s : Store) (u : UUID) (z : Leases) :
    (s.setLeases u z).view = Function.update s.view u ((s.view u).setLeases z) := by
  funext w
  by_cases h : w = u
  · subst h
    simp [Store.view, Store.setLeases, View.setLeases]
  · simp [Store.view, Store.setLeases, h]

@[simp] theorem view_expire (s : Store) (u : UUID) (d : Instant) :
    (s.expire u d).view = Function.update s.view u { s.view u with deadline := some d } := by
  funext w
  by_cases h : w = u
  · subst h
    simp [Store.view, Store.expire]
  · simp [Store.view, Store.expire, h]

@[simp] theorem view_zaddUser (s : Store) (x : Instant) (u : UUID) :
    (s.zaddUser x u).view = Function.update s.view u { s.view u with listed := some x } := by
  funext w
  by_cases h : w = u
  · subst h
    simp [Store.view, Store.zaddUser, SortedSet.score_zadd]
  · simp [Store.view, Store.zaddUser, SortedSet.score_zadd, h]

@[simp] theorem view_zremUser (s : Store) (u : UUID) :
    (s.zremUser u).view = Function.update s.view u { s.view u with listed := none } := by
  funext w
  by_cases h : w = u
  · subst h
    simp [Store.view, Store.zremUser, SortedSet.score_zrem]
  · simp [Store.view, Store.zremUser, SortedSet.score_zrem, h]

@[simp] theorem Store.setLeases_leases (s : Store) (u : UUID) (z : Leases) :
    (s.setLeases u z).leases u = z := Function.update_self ..

@[simp] theorem Store.expire_leases (s : Store) (u : UUID) (d : Instant) :
    (s.expire u d).leases = s.leases := rfl

@[simp] theorem Store.zremUser_leases (s : Store) (u : UUID) :
    (s.zremUser u).leases = s.leases := rfl

@[simp] theorem View.setLeases_leases (v : View) (z : Leases) : (v.setLeases z).leases = z := rfl

/-! ## The scripts act on one user at a time -/

theorem connectScript_view (cfg : Config) (now : Instant) (i : Instance) (u : UUID) (s : Store) :
    (connectScript cfg now i u s).1 = ((s.view u).connect cfg now i).1 ∧
      (connectScript cfg now i u s).2.view =
        Function.update s.view u ((s.view u).connect cfg now i).2 := by
  simp [connectScript, View.connect]

theorem disconnectScript_view (now : Instant) (i : Instance) (u : UUID) (s : Store) :
    (disconnectScript now i u s).1 = ((s.view u).disconnect now i).1 ∧
      (disconnectScript now i u s).2.view =
        Function.update s.view u ((s.view u).disconnect now i).2 := by
  simp only [disconnectScript, View.disconnect, Store.setLeases_leases, View.setLeases_leases,
    view_leases]
  by_cases h : (((s.leases u).zrem i).zremrangebyscore now).zcard = 0
  · simp [h]
  · cases (((s.leases u).zrem i).zremrangebyscore now).latest <;> simp [h]

theorem isOnline_view (now : Instant) (u : UUID) (s : Store) :
    (isOnline now u s).1 = ((s.view u).lookup now).1 ∧
      (isOnline now u s).2.view = Function.update s.view u ((s.view u).lookup now).2 := by
  simp [isOnline, View.lookup]

/-- The look-up of one user: nobody is found exactly when the user is not. -/
theorem onlineUserIds_singleton (now : Instant) (u : UUID) (s : Store) :
    (onlineUserIds now [u] s).1.isEmpty = !(isOnline now u s).1 ∧
      (onlineUserIds now [u] s).2 = (isOnline now u s).2 := by
  refine ⟨?_, rfl⟩
  show (if (isOnline now u s).1 then [u] else []).isEmpty = !(isOnline now u s).1
  cases (isOnline now u s).1 <;> rfl

theorem sweepUser_view (cfg : Config) (start now : Instant) (u : UUID) (s : Store) :
    (sweepUser cfg start now u s).1 = ((s.view u).sweep cfg start now).1 ∧
      (sweepUser cfg start now u s).2.view =
        Function.update s.view u ((s.view u).sweep cfg start now).2 := by
  simp only [sweepUser, View.sweep, Store.setLeases_leases, View.setLeases_leases,
    Store.zremUser_leases, view_leases, view_listed, onlineUserIds_singleton, isOnline_view]
  by_cases h : s.users.score u = none
  · simp [h]
  · cases ((s.leases u).zremrangebyscore start).latest with
    | some latest => simp [h]
    | none => cases cfg.reports <;> simp [h, isOnline_view]

end Chatterbox.Presence
