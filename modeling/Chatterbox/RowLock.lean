import Mathlib.Logic.Function.Basic
import Mathlib.Data.Option.Basic

/-!
# A table with row locks under READ COMMITTED

`Table κ τ ρ` is a database table as concurrent transactions see it: the last
committed version of every row, and the transaction that holds its row lock.
A transaction keeps its own uncommitted changes to itself and hands them over
when it commits, so a plain `SELECT` reads `row`, and

* `lock` is `SELECT … FOR UPDATE` or the locking half of an `UPDATE`: it is not
  enabled while another transaction holds the row, and what the statement then
  sees is the row committed last;
* `commit` makes a list of writes visible and drops every lock of the
  transaction; `release` is the rollback, which only drops the locks.

The whole discipline is one fact, `Holds.commit`: a row that one transaction
holds is not changed by the commit of another, provided that the other writes
only rows it holds itself and rows that do not exist yet.
-/

namespace Chatterbox

variable {κ τ ρ : Type} [DecidableEq κ] [DecidableEq τ]

/-- The committed rows of a table and the holders of its row locks. -/
structure Table (κ τ ρ : Type) where
  /-- The last committed version of a row. -/
  row : κ → Option ρ
  /-- The transaction that holds the row lock. -/
  owner : κ → Option τ

namespace Table

/-- Take the row lock; not enabled while another transaction holds it. -/
def lock (t : Table κ τ ρ) (x : τ) (k : κ) : Option (Table κ τ ρ) :=
  if t.owner k = none ∨ t.owner k = some x then
    some { t with owner := Function.update t.owner k (some x) }
  else none

/-- Drop every lock of a transaction. -/
def release (t : Table κ τ ρ) (x : τ) : Table κ τ ρ :=
  { t with owner := fun k ↦ if t.owner k = some x then none else t.owner k }

/-- Make the writes of a transaction visible and end it.  A write pairs a key
with the new version of its row, `none` for a deleted one. -/
def commit (t : Table κ τ ρ) (x : τ) (ws : List (κ × Option ρ)) : Table κ τ ρ :=
  { t.release x with row := fun k ↦ (ws.lookup k).getD (t.row k) }

/-- Transaction `x` holds the lock of row `k`, whose committed version is `r`. -/
def Holds (t : Table κ τ ρ) (x : τ) (k : κ) (r : ρ) : Prop :=
  t.owner k = some x ∧ t.row k = some r

/-- The writes touch only rows that `x` holds and rows that do not exist. -/
def Owns (t : Table κ τ ρ) (x : τ) (ws : List (κ × Option ρ)) : Prop :=
  ∀ w ∈ ws, t.owner w.1 = some x ∨ t.row w.1 = none

variable {t t' : Table κ τ ρ} {x y : τ} {k j : κ} {r : ρ} {ws : List (κ × Option ρ)}

theorem lock_eq_some : t.lock x k = some t' ↔
    (t.owner k = none ∨ t.owner k = some x) ∧
      { t with owner := Function.update t.owner k (some x) } = t' := by
  simp [lock]

theorem lock_row (h : t.lock x k = some t') : t'.row = t.row := by
  obtain ⟨-, rfl⟩ := lock_eq_some.mp h
  rfl

theorem lock_owner_self (h : t.lock x k = some t') : t'.owner k = some x := by
  obtain ⟨-, rfl⟩ := lock_eq_some.mp h
  exact Function.update_self ..

theorem lock_owner_of_ne (h : t.lock x k = some t') (hj : j ≠ k) : t'.owner j = t.owner j := by
  obtain ⟨-, rfl⟩ := lock_eq_some.mp h
  exact Function.update_of_ne hj ..

/-- A lock that is held stays held when a transaction takes another one. -/
theorem lock_owner_of_some (h : t.lock x k = some t') (hj : t.owner j = some y) :
    t'.owner j = some y := by
  by_cases e : j = k
  · subst e
    obtain ⟨ho, -⟩ := lock_eq_some.mp h
    rcases ho with ho | ho
    · rw [ho] at hj; cases hj
    · rw [lock_owner_self h, ← ho, hj]
  · rw [lock_owner_of_ne h e, hj]

@[simp] theorem commit_row (k : κ) : (t.commit x ws).row k = (ws.lookup k).getD (t.row k) := rfl

omit [DecidableEq κ] in
/-- Releasing the locks of one transaction leaves the others' alone. -/
theorem release_owner_of_ne (hxy : x ≠ y) (h : t.owner k = some x) :
    (t.release y).owner k = some x := by
  simp only [release]
  rw [if_neg (by rw [h]; exact fun e ↦ hxy (Option.some.inj e)), h]

omit [DecidableEq κ] [DecidableEq τ] in
/-- Two transactions cannot hold the same row. -/
theorem Holds.unique {r' : ρ} (h : t.Holds x k r) (h' : t.Holds y k r') : x = y :=
  Option.some.inj (h.1.symm.trans h'.1)

theorem Holds.lock (h : t.Holds x k r) (hl : t.lock y j = some t') : t'.Holds x k r :=
  ⟨lock_owner_of_some hl h.1, by rw [lock_row hl]; exact h.2⟩

omit [DecidableEq κ] in
theorem Holds.release (h : t.Holds x k r) (hxy : x ≠ y) : (t.release y).Holds x k r :=
  ⟨release_owner_of_ne hxy h.1, h.2⟩

/-- A key that is not written keeps its row. -/
theorem commit_row_of_notMem (h : ∀ w ∈ ws, w.1 ≠ k) : (t.commit x ws).row k = t.row k := by
  have : ws.lookup k = none := by
    rw [List.lookup_eq_none_iff]
    intro w hw
    simpa using (h w hw).symm
  rw [commit_row, this]
  rfl

/-- A key is either written, and then holds what is written to it, or keeps its row. -/
theorem commit_row_cases (t : Table κ τ ρ) (x : τ) (ws : List (κ × Option ρ)) (k : κ) :
    (∃ v, (k, v) ∈ ws ∧ (t.commit x ws).row k = v) ∨
      (∀ w ∈ ws, w.1 ≠ k) ∧ (t.commit x ws).row k = t.row k := by
  induction ws with
  | nil => exact Or.inr ⟨by simp, rfl⟩
  | cons w ws ih =>
      obtain ⟨i, v⟩ := w
      by_cases e : k = i
      · subst e
        exact Or.inl ⟨v, List.mem_cons_self, by rw [commit_row, List.lookup_cons_self]; rfl⟩
      · have hlk : (t.commit x ((i, v) :: ws)).row k = (t.commit x ws).row k := by
          simp only [commit_row, List.lookup_cons, beq_eq_false_iff_ne.mpr e]
        rcases ih with ⟨v', hmem, hv⟩ | ⟨hne, hrow⟩
        · exact Or.inl ⟨v', List.mem_cons_of_mem _ hmem, by rw [hlk, hv]⟩
        · refine Or.inr ⟨?_, by rw [hlk, hrow]⟩
          exact List.forall_mem_cons.mpr ⟨Ne.symm e, hne⟩

/-- **The row-lock discipline.**  A held row survives the commit of another
transaction that writes only what it owns. -/
theorem Holds.commit (h : t.Holds x k r) (hxy : x ≠ y) (hw : t.Owns y ws) :
    (t.commit y ws).Holds x k r := by
  refine ⟨release_owner_of_ne hxy h.1, ?_⟩
  rw [commit_row_of_notMem, h.2]
  rintro w hmem rfl
  rcases hw w hmem with ho | hn
  · exact hxy (Option.some.inj (h.1.symm.trans ho))
  · rw [h.2] at hn; cases hn

end Table

end Chatterbox
