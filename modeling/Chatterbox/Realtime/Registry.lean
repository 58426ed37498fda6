import Chatterbox.Base
import Mathlib.Data.Finset.Basic
import Mathlib.Data.List.AList

/-!
# The connection registry

`ConnectionManager._connections`: the sockets of every user that is connected to
this instance.  It is only touched under the manager's lock, so `connect` and
`disconnect` are single steps as far as the registry goes; what they do after the
lock is released is left to the components that use them.

A user without sockets has no entry.  All that is used of the registry further
on is `sockets`, and what the two operations make of it.
-/

namespace Chatterbox.Realtime

/-- One accepted WebSocket. -/
abbrev Socket := ℕ

/-- The connected users, each with at least one socket. -/
structure Registry where
  connections : AList fun _ : UUID ↦ Finset Socket
  nonempty : ∀ u sockets, connections.lookup u = some sockets → sockets.Nonempty

namespace Registry

/-- No user is connected. -/
def empty : Registry := ⟨∅, fun _ _ h ↦ by cases h⟩

/-- The sockets of a user. -/
def sockets (r : Registry) (u : UUID) : Finset Socket := (r.connections.lookup u).getD ∅

/-- `connect`, under the lock: whether the user was offline here. -/
def connect (u : UUID) (ws : Socket) (r : Registry) : Bool × Registry :=
  let wasLocallyOffline := decide (r.sockets u = ∅)
  (wasLocallyOffline,
    { connections := r.connections.insert u (insert ws (r.sockets u))
      nonempty := fun w found h ↦ by
        by_cases hw : w = u
        · subst hw
          rw [AList.lookup_insert, Option.some.injEq] at h
          exact h ▸ Finset.insert_nonempty ..
        · rw [AList.lookup_insert_ne hw] at h
          exact r.nonempty w found h })

/-- `disconnect`, under the lock: whether this was the user's last socket here. -/
def disconnect (u : UUID) (ws : Socket) (r : Registry) : Bool × Registry :=
  match r.connections.lookup u with
  | none => (false, r)
  | some found =>
      if hleft : (found.erase ws).Nonempty then
        (false,
          { connections := r.connections.insert u (found.erase ws)
            nonempty := fun w left h ↦ by
              by_cases hw : w = u
              · subst hw
                rw [AList.lookup_insert, Option.some.injEq] at h
                exact h ▸ hleft
              · rw [AList.lookup_insert_ne hw] at h
                exact r.nonempty w left h })
      else
        (true,
          { connections := r.connections.erase u
            nonempty := fun w left h ↦ by
              by_cases hw : w = u
              · subst hw
                rw [AList.lookup_erase] at h
                cases h
              · rw [AList.lookup_erase_ne hw] at h
                exact r.nonempty w left h })

/-- `local_user_ids`. -/
def localUserIds (r : Registry) : List UUID := r.connections.keys

/-- `online_user_ids`, on an instance without Redis. -/
def onlineUserIds (r : Registry) (us : List UUID) : List UUID := us.filter fun u ↦ r.sockets u ≠ ∅

/-! ## What the operations make of the sockets -/

variable {r : Registry} {u w : UUID} {ws : Socket}

theorem connect_fst : (r.connect u ws).1 = true ↔ r.sockets u = ∅ := decide_eq_true_iff

theorem sockets_connect (u : UUID) (ws : Socket) (r : Registry) :
    (r.connect u ws).2.sockets = Function.update r.sockets u (insert ws (r.sockets u)) := by
  funext w
  by_cases hw : w = u
  · subst hw
    rw [Function.update_self, connect, sockets, AList.lookup_insert, Option.getD_some]
  · rw [Function.update_of_ne hw, connect, sockets, AList.lookup_insert_ne hw, ← sockets]

theorem sockets_of_lookup {found : Finset Socket} (h : r.connections.lookup u = some found) :
    r.sockets u = found := by rw [sockets, h, Option.getD_some]

theorem lookup_eq_none : r.connections.lookup u = none ↔ r.sockets u = ∅ := by
  constructor
  · intro h
    rw [sockets, h, Option.getD_none]
  · intro h
    cases hlookup : r.connections.lookup u with
    | none => rfl
    | some found =>
        have hne := r.nonempty u found hlookup
        rw [← sockets_of_lookup hlookup, h] at hne
        exact absurd hne Finset.not_nonempty_empty

theorem sockets_disconnect (u : UUID) (ws : Socket) (r : Registry) :
    (r.disconnect u ws).2.sockets = Function.update r.sockets u ((r.sockets u).erase ws) := by
  unfold disconnect
  split
  · rename_i hlookup
    have hempty := lookup_eq_none.mp hlookup
    rw [hempty, Finset.erase_empty, ← hempty, Function.update_eq_self]
  · rename_i found hlookup
    have hfound := sockets_of_lookup hlookup
    funext w
    split
    · by_cases hw : w = u
      · subst hw
        rw [Function.update_self, sockets, AList.lookup_insert, Option.getD_some, hfound]
      · rw [Function.update_of_ne hw, sockets, AList.lookup_insert_ne hw, ← sockets]
    · rename_i hleft
      by_cases hw : w = u
      · subst hw
        rw [Function.update_self, sockets, AList.lookup_erase, Option.getD_none, hfound,
          Finset.not_nonempty_iff_eq_empty.mp hleft]
      · rw [Function.update_of_ne hw, sockets, AList.lookup_erase_ne hw, ← sockets]

/-- `disconnect` reports that a user has gone exactly when the last socket has. -/
theorem disconnect_fst : (r.disconnect u ws).1 = true ↔
    r.sockets u ≠ ∅ ∧ (r.disconnect u ws).2.sockets u = ∅ := by
  rw [sockets_disconnect, Function.update_self]
  unfold disconnect
  split
  · rename_i hlookup
    simp [lookup_eq_none.mp hlookup]
  · rename_i found hlookup
    have hfound := sockets_of_lookup hlookup
    have hne := (r.nonempty u found hlookup).ne_empty
    rw [hfound]
    split
    · rename_i hleft
      simp [hleft.ne_empty]
    · rename_i hleft
      simp [hne, Finset.not_nonempty_iff_eq_empty.mp hleft]

theorem mem_sockets_connect {y : Socket} : y ∈ (r.connect u ws).2.sockets w ↔
    y = ws ∧ w = u ∨ y ∈ r.sockets w := by
  rw [sockets_connect]
  by_cases hw : w = u
  · subst hw
    simp
  · rw [Function.update_of_ne hw]
    simp [hw]

theorem mem_sockets_disconnect {y : Socket} : y ∈ (r.disconnect u ws).2.sockets w ↔
    ¬ (y = ws ∧ w = u) ∧ y ∈ r.sockets w := by
  rw [sockets_disconnect]
  by_cases hw : w = u
  · subst hw
    simp
  · rw [Function.update_of_ne hw]
    simp [hw]

/-- `connect` makes the user present, and no one else. -/
theorem sockets_connect_ne_empty :
    (r.connect u ws).2.sockets w ≠ ∅ ↔ w = u ∨ r.sockets w ≠ ∅ := by
  rw [sockets_connect]
  by_cases hw : w = u
  · subst hw
    simp
  · rw [Function.update_of_ne hw]
    simp [hw]

/-- `disconnect` makes no one absent but the user whose departure it reports. -/
theorem sockets_disconnect_ne_empty : (r.disconnect u ws).2.sockets w ≠ ∅ ↔
    r.sockets w ≠ ∅ ∧ ¬ (w = u ∧ (r.disconnect u ws).1 = true) := by
  by_cases hw : w = u
  · subst hw
    rw [disconnect_fst]
    constructor
    · intro hafter
      refine ⟨fun hnone ↦ hafter ?_, fun hgone ↦ hafter hgone.2.2⟩
      rw [sockets_disconnect, Function.update_self, hnone, Finset.erase_empty]
    · rintro ⟨hbefore, hstays⟩ hnone
      exact hstays ⟨rfl, hbefore, hnone⟩
  · rw [sockets_disconnect, Function.update_of_ne hw, and_iff_left fun h ↦ hw h.1]

theorem mem_localUserIds : u ∈ r.localUserIds ↔ r.sockets u ≠ ∅ := by
  rw [localUserIds, ← AList.mem_keys, ← AList.lookup_isSome, Option.isSome_iff_ne_none, Ne,
    lookup_eq_none]

end Registry

end Chatterbox.Realtime
