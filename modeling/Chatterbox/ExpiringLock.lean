import Mathlib.Algebra.Order.Group.Int
import Mathlib.Data.Option.Basic
import Mathlib.Order.Defs.LinearOrder

/-!
# Locks that expire

A lock is a key of a store that one party sets, if it is not there yet, to a value of its own and
with a time to live.  To release the lock, a party deletes the key if it still has this value: so a
lock that has expired, and has been taken by someone else, stays.

The key is there until the clock is past its time.  `holder` is whose value it has; `acquire` and
`release` are told what they do to it, and the clock does the rest (`holder_of_le`).
-/

namespace Chatterbox

variable {κ T : Type*} [DecidableEq κ] [LinearOrder T]

/-- The value of the key, if it is set, and the time until which it is. -/
abbrev ExpiringLock (κ T : Type*) := Option (κ × T)

namespace ExpiringLock

/-- The value that the key has. -/
def holder (l : ExpiringLock κ T) (now : T) : Option κ :=
  (l.filter fun e ↦ now ≤ e.2).map Prod.fst

/-- Set the key until a time, if it is not set. -/
def acquire (l : ExpiringLock κ T) (now deadline : T) (x : κ) : Option (ExpiringLock κ T) :=
  match l.holder now with
  | none => some (some (x, deadline))
  | some _ => none

/-- Delete the key if it has a value. -/
def release (l : ExpiringLock κ T) (now : T) (x : κ) : ExpiringLock κ T :=
  if l.holder now = some x then none else l

variable {l l' : ExpiringLock κ T} {now later deadline : T} {x y : κ}

omit [DecidableEq κ] in
theorem holder_eq_some : l.holder now = some x ↔ ∃ d, l = some (x, d) ∧ now ≤ d := by
  rw [holder, Option.map_eq_some_iff]
  constructor
  · rintro ⟨⟨x, d⟩, h, rfl⟩
    obtain ⟨hl, hd⟩ := Option.filter_eq_some_iff.mp h
    exact ⟨d, hl, of_decide_eq_true hd⟩
  · rintro ⟨d, rfl, hd⟩
    exact ⟨(x, d), Option.filter_eq_some_iff.mpr ⟨rfl, decide_eq_true hd⟩, rfl⟩

omit [DecidableEq κ] in
/-- Only its time ends a lock that nobody releases. -/
theorem holder_of_le (h : l.holder now = some x) (hexpired : l.holder later ≠ some x) :
    ∃ d, l = some (x, d) ∧ d < later := by
  obtain ⟨d, hl, -⟩ := holder_eq_some.mp h
  refine ⟨d, hl, lt_of_not_ge fun hle ↦ hexpired ?_⟩
  exact holder_eq_some.mpr ⟨d, hl, hle⟩

omit [DecidableEq κ] in
theorem acquire_eq_some :
    l.acquire now deadline x = some l' ↔ l.holder now = none ∧ l' = some (x, deadline) := by
  rw [acquire]
  cases l.holder now with
  | none => simp [eq_comm]
  | some y => simp

omit [DecidableEq κ] in
theorem acquire_eq_none : l.acquire now deadline x = none ↔ ∃ y, l.holder now = some y := by
  rw [acquire]
  cases l.holder now with
  | none => simp
  | some y => simp

/-- A release leaves the locks of others. -/
theorem holder_release_of_ne (h : l.holder now = some y) (hne : y ≠ x) : l.release now x = l := by
  refine if_neg fun hx ↦ hne ?_
  exact Option.some.inj (h.symm.trans hx)

theorem release_eq_some {d : T} (h : l.release now x = some (y, d)) : l = some (y, d) := by
  rw [release] at h
  split_ifs at h
  exact h

end ExpiringLock

end Chatterbox
