import Chatterbox.ExpiringLock
import Chatterbox.Run
import Chatterbox.Services.Cleanup

/-!
# The lock of the cleanup worker

Every instance of the backend has an `AttachmentCleanupWorker`, and all of them run `run_once` over
and over.  `Cleanup` is one `run_once` alone; here there are any number of them, each of which is
known by its token, and what matters of the loop is when it is left.

| source | model |
|---|---|
| `SET NX EX` | `Action.runOnce` |
| one turn of the loop | `Action.batch`: the rows that it has removed, or an exception |
| `finally`: `RELEASE_LOCK_SCRIPT` | `Action.release` |
| the process is killed | `Action.kill` |
| time passes | `Action.tick` |

A run may take so long that its lock expires.  Another run takes the lock then, and the first one
still releases later.  `cleanup_lock_safe` says what holds nevertheless.
-/

namespace Chatterbox.Services.CleanupLock

open Cleanup (limit)

/-- How a turn of the loop ends. -/
inductive Batch where
  | removed (batch : ℕ)
  | raised
deriving DecidableEq, Repr

/-- How far a `run_once` has got, and when it has acquired the lock. -/
inductive Phase where
  | idle
  /-- Somebody else has the lock, and 0 is returned. -/
  | skipped
  | looping (acquired : Instant)
  /-- In `finally`. -/
  | releasing (acquired : Instant)
  | released (acquired : Instant)
  | killed (acquired : Instant)
deriving DecidableEq, Repr

/-- When the lock was acquired. -/
def Phase.acquired : Phase → Option Instant
  | .idle | .skipped => none
  | .looping since | .releasing since | .released since | .killed since => some since

/-- When the lock was acquired, if it has not been given back. -/
def Phase.holding : Phase → Option Instant
  | .looping since | .releasing since => some since
  | .idle | .skipped | .released _ | .killed _ => none

/-- The clock of Redis, the key of the lock and the runs. -/
structure State where
  now : Instant
  lock : ExpiringLock UUID Instant
  runs : UUID → Phase

/-- No run has begun. -/
def State.initial (now : Instant) : State := ⟨now, none, fun _ ↦ .idle⟩

/-- The token that the key has. -/
def State.holder (s : State) : Option UUID := s.lock.holder s.now

def State.setRun (s : State) (token : UUID) (phase : Phase) : State :=
  { s with runs := Function.update s.runs token phase }

@[simp] theorem setRun_runs_self (s : State) (token : UUID) (phase : Phase) :
    (s.setRun token phase).runs token = phase :=
  Function.update_self ..

theorem setRun_runs_of_ne (s : State) {token x : UUID} (phase : Phase) (h : x ≠ token) :
    (s.setRun token phase).runs x = s.runs x :=
  Function.update_of_ne h ..

inductive Action where
  | runOnce (token : UUID)
  | batch (token : UUID) (result : Batch)
  | release (token : UUID)
  | kill (token : UUID)
  | tick (ticks : ℕ)
deriving DecidableEq, Repr

/-- Where a turn of the loop leads. -/
def Phase.afterBatch (since : Instant) : Batch → Phase
  | .removed batch => if batch < limit then .releasing since else .looping since
  | .raised => .releasing since

/-- `run_once`, by any number of workers; `ttl` is `attachment_cleanup_interval_seconds`. -/
def step (ttl : ℕ) (s : State) : Action → Option State
  | .runOnce token =>
      match s.runs token with
      | .idle =>
          match s.lock.acquire s.now (s.now + ttl) token with
          | some lock => some { s.setRun token (.looping s.now) with lock := lock }
          | none => some (s.setRun token .skipped)
      | _ => none
  | .batch token result =>
      match s.runs token with
      | .looping since => some (s.setRun token (.afterBatch since result))
      | _ => none
  | .release token =>
      match s.runs token with
      | .releasing since =>
          some { s.setRun token (.released since) with lock := s.lock.release s.now token }
      | _ => none
  | .kill token =>
      match s.runs token with
      | .looping since | .releasing since => some (s.setRun token (.killed since))
      | _ => none
  | .tick ticks => some { s with now := s.now + ticks }

/-! ## What a step can do -/

variable {ttl : ℕ} {s t : State} {a : Action} {as : List Action} {x y token : UUID}
  {since : Instant}

/-- The steps by what they do to the lock. -/
inductive Move (ttl : ℕ) (s : State) : Action → State → Prop
  | acquired (token : UUID) (hrun : s.runs token = .idle) (hfree : s.holder = none) :
      Move ttl s (.runOnce token)
        { s.setRun token (.looping s.now) with lock := some (token, s.now + ttl) }
  | skipped (token : UUID) (hrun : s.runs token = .idle) (hheld : s.holder ≠ none) :
      Move ttl s (.runOnce token) (s.setRun token .skipped)
  | batch (token : UUID) (result : Batch) (since : Instant)
      (hrun : s.runs token = .looping since) :
      Move ttl s (.batch token result) (s.setRun token (.afterBatch since result))
  | released (token : UUID) (since : Instant) (hrun : s.runs token = .releasing since) :
      Move ttl s (.release token)
        { s.setRun token (.released since) with lock := s.lock.release s.now token }
  | killed (token : UUID) (since : Instant) (hrun : (s.runs token).holding = some since) :
      Move ttl s (.kill token) (s.setRun token (.killed since))
  | tick (ticks : ℕ) : Move ttl s (.tick ticks) { s with now := s.now + ticks }

theorem move_of_step (h : step ttl s a = some t) : Move ttl s a t := by
  cases a with
  | runOnce token =>
      rw [step] at h
      split at h
      next hrun =>
        split at h
        next lock hlock =>
          obtain ⟨hfree, rfl⟩ := ExpiringLock.acquire_eq_some.mp hlock
          cases h
          exact .acquired token hrun hfree
        next hlock =>
          obtain ⟨y, hy⟩ := ExpiringLock.acquire_eq_none.mp hlock
          cases h
          exact .skipped token hrun (Option.ne_none_iff_exists'.mpr ⟨y, hy⟩)
      next => cases h
  | batch token result =>
      rw [step] at h
      split at h
      next since hrun =>
        cases h
        exact .batch token result since hrun
      next => cases h
  | release token =>
      rw [step] at h
      split at h
      next since hrun =>
        cases h
        exact .released token since hrun
      next => cases h
  | kill token =>
      rw [step] at h
      split at h
      next since hrun =>
        cases h
        exact .killed token since (by rw [hrun, Phase.holding])
      next since hrun =>
        cases h
        exact .killed token since (by rw [hrun, Phase.holding])
      next => cases h
  | tick ticks =>
      cases h
      exact .tick ticks

/-! ## Who has the lock -/

/-- What holds of the lock and of those that have acquired it. -/
structure LockInv (ttl : ℕ) (s : State) : Prop where
  /-- The key is a run's, for as long as the run was granted. -/
  owned : ∀ x d, s.lock = some (x, d) →
    ∃ since, (s.runs x).acquired = some since ∧ d = since + ttl
  past : ∀ x since, (s.runs x).acquired = some since → since ≤ s.now
  /-- A run has the lock until it gives it back or its time is over. -/
  held : ∀ x since, (s.runs x).holding = some since → s.now ≤ since + ttl →
    s.lock = some (x, since + ttl)
  /-- Of two runs one came when the time of the other was over. -/
  apart : ∀ x y a b, x ≠ y → (s.runs x).holding = some a → (s.runs y).holding = some b →
    a + ttl < b ∨ b + ttl < a

theorem Phase.acquired_of_holding {p : Phase} (h : p.holding = some since) :
    p.acquired = some since := by
  cases p <;> first | exact h | cases h

@[simp] theorem acquired_afterBatch (since : Instant) (result : Batch) :
    (Phase.afterBatch since result).acquired = some since := by
  cases result with
  | removed batch =>
      rw [Phase.afterBatch]
      split_ifs <;> rfl
  | raised => rfl

@[simp] theorem holding_afterBatch (since : Instant) (result : Batch) :
    (Phase.afterBatch since result).holding = some since := by
  cases result with
  | removed batch =>
      rw [Phase.afterBatch]
      split_ifs <;> rfl
  | raised => rfl

/-- A run that goes on without the key, or leaves it. -/
theorem LockInv.setRun (h : LockInv ttl s) {p : Phase}
    (hacquired : p.acquired = (s.runs token).acquired)
    (hholding : ∀ since, p.holding = some since → (s.runs token).holding = some since) :
    LockInv ttl (s.setRun token p) := by
  have hacquired' : ∀ x, ((s.setRun token p).runs x).acquired = (s.runs x).acquired := by
    intro x
    by_cases hx : x = token
    · rw [hx, setRun_runs_self, hacquired]
    · rw [setRun_runs_of_ne s p hx]
  have hholding' : ∀ x since, ((s.setRun token p).runs x).holding = some since →
      (s.runs x).holding = some since := by
    intro x since hx
    by_cases hxt : x = token
    · rw [hxt, setRun_runs_self] at hx
      exact hxt ▸ hholding since hx
    · rwa [setRun_runs_of_ne s p hxt] at hx
  refine ⟨fun x d hlock ↦ ?_, fun x since hx ↦ ?_, fun x since hx ↦ ?_, fun x y a b hne hx hy ↦ ?_⟩
  · obtain ⟨since, hsince, hd⟩ := h.owned x d hlock
    exact ⟨since, (hacquired' x).trans hsince, hd⟩
  · exact h.past x since ((hacquired' x).symm.trans hx)
  · exact h.held x since (hholding' x since hx)
  · exact h.apart x y a b hne (hholding' x a hx) (hholding' y b hy)

/-- If the key is free, then nobody's time lasts. -/
theorem LockInv.over_of_free (h : LockInv ttl s) (hfree : s.holder = none)
    (hx : (s.runs x).holding = some since) : since + ttl < s.now := by
  by_contra hlive
  have hlock := h.held x since hx (not_lt.mp hlive)
  have hholder : s.holder = some x :=
    ExpiringLock.holder_eq_some.mpr ⟨_, hlock, not_lt.mp hlive⟩
  exact Option.some_ne_none x (hholder.symm.trans hfree)

theorem LockInv.acquire (h : LockInv ttl s) (hfree : s.holder = none) :
    LockInv ttl { s.setRun token (.looping s.now) with lock := some (token, s.now + ttl) } := by
  have hcases : ∀ x since, ((s.setRun token (.looping s.now)).runs x).holding = some since →
      x = token ∧ since = s.now ∨ x ≠ token ∧ (s.runs x).holding = some since := by
    intro x since hx
    by_cases hxt : x = token
    · rw [hxt, setRun_runs_self] at hx
      exact .inl ⟨hxt, (Option.some.inj hx).symm⟩
    · rw [setRun_runs_of_ne _ _ hxt] at hx
      exact .inr ⟨hxt, hx⟩
  refine ⟨fun x d hlock ↦ ?_, fun x since hx ↦ ?_, fun x since hx hlive ↦ ?_,
    fun x y a b hne hx hy ↦ ?_⟩
  · cases hlock
    exact ⟨s.now, by rw [setRun_runs_self, Phase.acquired], rfl⟩
  · by_cases hxt : x = token
    · rw [hxt, setRun_runs_self] at hx
      exact (Option.some.inj hx).ge
    · rw [setRun_runs_of_ne _ _ hxt] at hx
      exact h.past x since hx
  · rcases hcases x since hx with ⟨rfl, rfl⟩ | ⟨-, hx⟩
    · rfl
    · exact absurd hlive (not_le.mpr (h.over_of_free hfree hx))
  · rcases hcases x a hx with ⟨rfl, rfl⟩ | ⟨-, hx'⟩
    · rcases hcases y b hy with ⟨rfl, rfl⟩ | ⟨-, hy'⟩
      · exact absurd rfl hne
      · exact .inr (h.over_of_free hfree hy')
    · rcases hcases y b hy with ⟨rfl, rfl⟩ | ⟨-, hy'⟩
      · exact .inl (h.over_of_free hfree hx')
      · exact h.apart x y a b hne hx' hy'

/-- A release, late or not, leaves the key to a run whose time lasts. -/
theorem LockInv.release (h : LockInv ttl s) (hrun : s.runs token = .releasing since) :
    LockInv ttl
      { s.setRun token (.released since) with lock := s.lock.release s.now token } := by
  have hset : LockInv ttl (s.setRun token (.released since)) :=
    h.setRun (by rw [hrun]; rfl) (by rintro _ ⟨⟩)
  refine ⟨fun x d hlock ↦ ?_, hset.past, fun x a hx hlive ↦ ?_, hset.apart⟩
  · exact hset.owned x d (ExpiringLock.release_eq_some hlock)
  · have hlock : s.lock = some (x, a + ttl) := hset.held x a hx hlive
    have hne : x ≠ token := by
      rintro rfl
      rw [setRun_runs_self] at hx
      cases hx
    have hholder : s.lock.holder s.now = some x :=
      ExpiringLock.holder_eq_some.mpr ⟨_, hlock, hlive⟩
    exact (ExpiringLock.holder_release_of_ne hholder hne).trans hlock

theorem LockInv.tick (h : LockInv ttl s) (ticks : ℕ) :
    LockInv ttl { s with now := s.now + ticks } := by
  have hle : s.now ≤ s.now + ticks := Int.le_add_of_nonneg_right (Int.natCast_nonneg ticks)
  exact ⟨h.owned, fun x since hx ↦ (h.past x since hx).trans hle,
    fun x since hx hlive ↦ h.held x since hx (hle.trans hlive), h.apart⟩

/-- **Every step preserves the invariant.** -/
theorem LockInv.step (h : LockInv ttl s) (hstep : CleanupLock.step ttl s a = some t) :
    LockInv ttl t := by
  cases move_of_step hstep with
  | acquired token hrun hfree => exact h.acquire hfree
  | skipped token hrun hheld => exact h.setRun (by rw [hrun]; rfl) (by rintro _ ⟨⟩)
  | batch token result since hrun =>
      refine h.setRun ?_ ?_
      · rw [hrun, acquired_afterBatch, Phase.acquired]
      · rw [hrun, holding_afterBatch, Phase.holding]
        exact fun _ h ↦ h
  | released token since hrun => exact h.release hrun
  | killed token since hrun =>
      exact h.setRun (Phase.acquired_of_holding hrun).symm (by rintro _ ⟨⟩)
  | tick ticks => exact h.tick ticks

/-- A run that has the lock to release: it is in the loop, every turn of which leads to another one
or to `finally`, or it is there, and releases the lock next. -/
inductive Pending (ttl : ℕ) (s : State) (x : UUID) : Prop
  | looping (since : Instant) (hrun : s.runs x = .looping since)
      (next : ∀ result, ∃ t, step ttl s (.batch x result) = some t ∧
        (t.runs x = .looping since ∨ t.runs x = .releasing since))
  | releasing (since : Instant) (hrun : s.runs x = .releasing since)
      (next : ∃ t, step ttl s (.release x) = some t)

/-- The key changes hands when it is released, or when its time is over. -/
theorem LockInv.removed (h : LockInv ttl s) (hstep : CleanupLock.step ttl s a = some t)
    (hheld : s.holder = some x) (hlost : t.holder ≠ some x) :
    a = .release x ∨ ∃ since, (s.runs x).acquired = some since ∧ since + ttl < t.now := by
  cases move_of_step hstep with
  | acquired token hrun hfree => exact absurd (hheld.symm.trans hfree) (Option.some_ne_none x)
  | skipped token hrun => exact absurd hheld hlost
  | batch token result since hrun => exact absurd hheld hlost
  | released token since hrun =>
      by_cases hx : x = token
      · exact .inl (congrArg Action.release hx.symm)
      · have hkept : s.lock.release s.now token = s.lock :=
          ExpiringLock.holder_release_of_ne hheld hx
        exact absurd ((congrArg (·.holder s.now) hkept).trans hheld) hlost
  | killed token since hrun => exact absurd hheld hlost
  | tick ticks =>
      obtain ⟨d, hlock, hover⟩ := ExpiringLock.holder_of_le hheld hlost
      obtain ⟨since, hsince, rfl⟩ := h.owned x d hlock
      exact .inr ⟨since, hsince, hover⟩

end Chatterbox.Services.CleanupLock
