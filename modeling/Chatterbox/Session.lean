import Mathlib.Logic.Basic

/-!
# Sessions of a database

A session sees the committed store together with its own changes, which are not
committed yet.  A program runs statements in it one after the other; each of them may
raise, and then what has been changed since the last commit is gone.  `runOn` is what a
program makes of a store when its session is closed at the end.

`Quiet` programs commit nothing, whatever becomes of them.  They are closed under
sequencing, so a program that only commits in its last line leaves the store alone if it
raises before that.
-/

universe u

namespace Chatterbox

variable {σ ε α β : Type u}

/-- The committed store, and what the session sees of it. -/
structure Session (σ : Type u) where
  committed : σ
  working : σ

/-- A program: what it returns or raises, and the session as it leaves it. -/
def Program (σ ε α : Type u) : Type u := Session σ → Except ε α × Session σ

namespace Program

/-- The second program runs if the first one returns. -/
protected def bind (m : Program σ ε α) (f : α → Program σ ε β) : Program σ ε β := fun s ↦
  match m s with
  | (.ok a, t) => f a t
  | (.error e, t) => (.error e, t)

instance : Monad (Program σ ε) where
  pure a := fun s ↦ (.ok a, s)
  bind := Program.bind

/-- An exception of the program itself. -/
def raise (e : ε) : Program σ ε α := fun s ↦ (.error e, s)

/-- A statement, which raises the fault if there is one. -/
def statement (fault : Option ε) (f : σ → Except ε (α × σ)) : Program σ ε α := fun s ↦
  match fault with
  | some e => (.error e, s)
  | none =>
      match f s.working with
      | .ok (a, working) => (.ok a, { s with working })
      | .error e => (.error e, s)

/-- A query. -/
def read (fault : Option ε) (f : σ → α) : Program σ ε α :=
  statement fault fun s ↦ .ok (f s, s)

/-- The changes of the session are committed. -/
def commit (fault : Option ε) : Program σ ε PUnit := fun s ↦
  match fault with
  | some e => (.error e, s)
  | none => (.ok ⟨⟩, { s with committed := s.working })

/-- Run a program in a session of its own. -/
def runOn (m : Program σ ε α) (s : σ) : Except ε α × σ :=
  let (result, session) := m ⟨s, s⟩
  (result, session.committed)

variable {m : Program σ ε α} {f : α → Program σ ε β} {s t : Session σ} {a : α} {e : ε}
  {x y : σ}

/-- A program that returns is followed by the rest. -/
theorem bind_ok (h : m s = (.ok a, t)) : (m >>= f) s = f a t := by
  change Program.bind m f s = _
  rw [Program.bind, h]

/-- A program that raises is not. -/
theorem bind_error (h : m s = (.error e, t)) : (m >>= f) s = (.error e, t) := by
  change Program.bind m f s = _
  rw [Program.bind, h]

theorem runOn_eq {r : Except ε α} (h : m ⟨x, x⟩ = (r, t)) : m.runOn x = (r, t.committed) := by
  rw [runOn, h]

/-- The program commits nothing. -/
def Quiet (m : Program σ ε α) : Prop := ∀ s, (m s).2.committed = s.committed

theorem Quiet.pure (a : α) : Quiet (pure a : Program σ ε α) := fun _ ↦ rfl

theorem Quiet.raise (e : ε) : Quiet (raise e : Program σ ε α) := fun _ ↦ rfl

theorem Quiet.statement (fault : Option ε) (g : σ → Except ε (α × σ)) :
    Quiet (statement fault g) := by
  intro s
  unfold Program.statement
  split
  · rfl
  · split <;> rfl

theorem Quiet.read (fault : Option ε) (g : σ → α) : Quiet (read fault g) := .statement fault _

theorem Quiet.bind (hm : Quiet m) (hf : ∀ a, Quiet (f a)) : Quiet (m >>= f) := by
  intro s
  cases h : m s with
  | mk r t =>
      have ht : t.committed = s.committed := by
        have hs := hm s
        rwa [h] at hs
      cases r with
      | ok a => rw [bind_ok h, hf a t, ht]
      | error e => rw [bind_error h, ht]

theorem Quiet.ite {c : Prop} [Decidable c] {n : Program σ ε α} (hm : Quiet m) (hn : Quiet n) :
    Quiet (if c then m else n) := by
  split
  · exact hm
  · exact hn

end Program

end Chatterbox
