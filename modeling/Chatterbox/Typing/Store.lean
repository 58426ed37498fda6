import Chatterbox.Base
import Chatterbox.SortedSet
import Mathlib.Data.Prod.Lex

/-!
# Typing state in Redis

For every (conversation, user) that is typing Redis holds a deadline, in the
sorted set `typing:expirations`, and the message to publish when it passes, in
the hash `typing:data`.  Three commands touch them, and each is atomic: the
pipelines of `typing_started` and `typing_stopped` are transactions, and
`TYPING_SWEEP_SCRIPT` is a script.

A member of the sorted set is the string `"{conversation_id}:{user_id}"`.  All
UUIDs are written with the same number of hexadecimal digits, so these strings
are equal and ordered as the pairs are.  What the hash holds for a member is left
open here (`δ`): Redis does not look into it.

`entry` is what the two structures say of a member together, and the reasoning
about the commands is about `entry`.
-/

namespace Chatterbox.Typing

/-- A member of the sorted set, and a field of the hash. -/
abbrev Member := UUID ×ₗ UUID

/-- `RedisRealtimeBackend.typing_member`. -/
def typingMember (conversationId userId : UUID) : Member := toLex (conversationId, userId)

/-- The keys `typing:expirations` and `typing:data`. -/
structure Store (δ : Type*) where
  expirations : SortedSet Member Instant
  data : Member → Option δ

variable {δ : Type*}

namespace Store

/-- Before anybody types. -/
def empty : Store δ := ⟨.empty, fun _ ↦ none⟩

def hset (s : Store δ) (m : Member) (d : δ) : Store δ :=
  { s with data := Function.update s.data m (some d) }

def hdel (s : Store δ) (m : Member) : Store δ :=
  { s with data := Function.update s.data m none }

def zadd (s : Store δ) (deadline : Instant) (m : Member) : Store δ :=
  { s with expirations := s.expirations.zadd deadline m }

def zrem (s : Store δ) (m : Member) : Store δ :=
  { s with expirations := s.expirations.zrem m }

end Store

/-- The pipeline of `typing_started`. -/
def startPipeline (ttl now : Instant) (m : Member) (d : δ) (s : Store δ) : Store δ :=
  (s.hset m d).zadd (now + ttl) m

/-- The pipeline of `typing_stopped`. -/
def stopPipeline (m : Member) (s : Store δ) : Store δ := (s.zrem m).hdel m

/-- The loop of `TYPING_SWEEP_SCRIPT` over the members it has found. -/
def claim (s : Store δ) : List Member → List δ × Store δ
  | [] => ([], s)
  | m :: expired =>
      if s.expirations.score m = none then claim s expired
      else
        let (result, t) := claim ((s.zrem m).hdel m) expired
        ((s.data m).toList ++ result, t)

/-- The members a sweep finds. -/
def expired (now : Instant) (s : Store δ) : List Member := s.expirations.zrangebyscore now 100

/-- `TYPING_SWEEP_SCRIPT`: the data it returns, and what it leaves. -/
def sweepScript (now : Instant) (s : Store δ) : List δ × Store δ := claim s (expired now s)

/-- One of the three commands, with the clock of the instance that issues it. -/
inductive Command (δ : Type*) where
  | start (now : Instant) (m : Member) (d : δ)
  | stop (m : Member)
  | sweep (now : Instant)

/-- Redis performs a command. -/
def Store.perform (ttl : Instant) (s : Store δ) : Command δ → Store δ
  | .start now m d => startPipeline ttl now m d s
  | .stop m => stopPipeline m s
  | .sweep now => (sweepScript now s).2

/-! ## The two structures together -/

/-- The members of the sorted set are the fields of the hash. -/
def Store.LockStep (s : Store δ) : Prop := ∀ m, s.expirations.score m = none ↔ s.data m = none

/-- Deadline and data of a member that is armed. -/
def Store.entry (s : Store δ) (m : Member) : Option (Instant × δ) :=
  (s.expirations.score m).bind fun deadline ↦ (s.data m).map fun d ↦ (deadline, d)

variable {s : Store δ} {m m' : Member} {d : δ} {x : Instant}

theorem Store.entry_eq_some :
    s.entry m = some (x, d) ↔ s.expirations.score m = some x ∧ s.data m = some d := by
  simp [entry, Option.bind_eq_some_iff]

theorem Store.LockStep.exists_entry (h : s.LockStep) (hx : s.expirations.score m = some x) :
    ∃ d, s.data m = some d := by
  rw [← Option.ne_none_iff_exists', Ne, ← h m, hx]
  exact Option.some_ne_none x

theorem Store.LockStep.empty : (Store.empty : Store δ).LockStep := fun m ↦ by
  simp [Store.empty]

/-! ## What the commands make of the entries -/

theorem score_startPipeline {ttl now : Instant} :
    (startPipeline ttl now m d s).expirations.score m' =
      if m' = m then some (now + ttl) else s.expirations.score m' :=
  SortedSet.score_zadd

theorem data_startPipeline {ttl now : Instant} :
    (startPipeline ttl now m d s).data m' = if m' = m then some d else s.data m' :=
  Function.update_apply ..

theorem score_stopPipeline : (stopPipeline m s).expirations.score m' =
    if m' = m then none else s.expirations.score m' :=
  SortedSet.score_zrem

theorem data_stopPipeline : (stopPipeline m s).data m' = if m' = m then none else s.data m' :=
  Function.update_apply ..

/-- The loop disarms the members it goes through. -/
theorem score_claim (ms : List Member) (s : Store δ) :
    (claim s ms).2.expirations.score m = if m ∈ ms then none else s.expirations.score m := by
  induction ms generalizing s with
  | nil => simp [claim]
  | cons i ms ih =>
      rw [claim]
      by_cases hi : s.expirations.score i = none
      · rw [if_pos hi, ih]
        by_cases hm : m = i
        · subst hm
          simp [hi]
        · simp [hm]
      · rw [if_neg hi]
        show (claim (stopPipeline i s) ms).2.expirations.score m = _
        rw [ih, score_stopPipeline]
        by_cases hm : m = i
        · simp [hm]
        · simp [hm]

/-- The loop drops the data of the members it goes through. -/
theorem data_claim (ms : List Member) {s : Store δ} (h : s.LockStep) :
    (claim s ms).2.data m = if m ∈ ms then none else s.data m := by
  induction ms generalizing s with
  | nil => simp [claim]
  | cons i ms ih =>
      rw [claim]
      by_cases hi : s.expirations.score i = none
      · rw [if_pos hi, ih h]
        by_cases hm : m = i
        · subst hm
          simp [(h m).mp hi]
        · simp [hm]
      · rw [if_neg hi]
        have hstop : (stopPipeline i s).LockStep := fun m ↦ by
          rw [score_stopPipeline, data_stopPipeline]
          split
          · exact iff_of_true rfl rfl
          · exact h m
        show (claim (stopPipeline i s) ms).2.data m = _
        rw [ih hstop, data_stopPipeline]
        by_cases hm : m = i
        · simp [hm]
        · simp [hm]

/-- The loop adds no data. -/
theorem data_of_claim {ms : List Member} {s : Store δ} (h : (claim s ms).2.data m = some d) :
    s.data m = some d := by
  induction ms generalizing s with
  | nil => exact h
  | cons i ms ih =>
      rw [claim] at h
      split at h
      · exact ih h
      · have hstop : (stopPipeline i s).data m = some d := ih h
        rw [data_stopPipeline] at hstop
        split at hstop
        · cases hstop
        · exact hstop

/-- The loop leaves the data of the other members. -/
theorem data_claim_of_notMem {ms : List Member} {s : Store δ} (hm : m ∉ ms) :
    (claim s ms).2.data m = s.data m := by
  induction ms generalizing s with
  | nil => rfl
  | cons i ms ih =>
      obtain ⟨hne, hms⟩ := not_or.mp (mt List.mem_cons.mpr hm)
      rw [claim]
      split
      · exact ih hms
      · show (claim (stopPipeline i s) ms).2.data m = s.data m
        rw [ih hms, data_stopPipeline, if_neg hne]

/-- The loop returns the data of the members it goes through, in their order. -/
theorem claim_fst {ms : List Member} (hnodup : ms.Nodup)
    (hms : ∀ m ∈ ms, s.expirations.score m ≠ none) : (claim s ms).1 = ms.filterMap s.data := by
  induction ms generalizing s with
  | nil => rfl
  | cons i ms ih =>
      obtain ⟨hi, hnodup⟩ := List.nodup_cons.mp hnodup
      have hne : ∀ m ∈ ms, m ≠ i := fun m hm e ↦ hi (e ▸ hm)
      have hrest : (claim (stopPipeline i s) ms).1 = ms.filterMap s.data := by
        rw [ih hnodup fun m hm ↦ ?_]
        · exact List.filterMap_congr fun m hm ↦ by rw [data_stopPipeline, if_neg (hne m hm)]
        · rw [score_stopPipeline, if_neg (hne m hm)]
          exact hms m (List.mem_cons_of_mem i hm)
      rw [claim, if_neg (hms i List.mem_cons_self)]
      show (s.data i).toList ++ (claim (stopPipeline i s) ms).1 = _
      rw [hrest]
      cases hd : s.data i with
      | none => rw [List.filterMap_cons_none hd]; rfl
      | some d => rw [List.filterMap_cons_some hd]; rfl

/-- What a sweep finds is armed, and due. -/
theorem score_of_mem_expired {now : Instant} (h : m ∈ expired now s) :
    ∃ x, s.expirations.score m = some x ∧ x ≤ now :=
  SortedSet.mem_zrangebyscore h

/-- A sweep returns the data of the members it finds. -/
theorem sweepScript_fst (now : Instant) (s : Store δ) :
    (sweepScript now s).1 = (expired now s).filterMap s.data := by
  refine claim_fst (SortedSet.zrangebyscore_nodup ..) fun m hm ↦ ?_
  obtain ⟨x, hx, -⟩ := score_of_mem_expired hm
  exact hx ▸ Option.some_ne_none x

/-- What is due is found, unless the sweep has found as many as it takes. -/
theorem mem_expired_or_length {now : Instant} (hx : s.expirations.score m = some x)
    (hdue : x ≤ now) : m ∈ expired now s ∨ (expired now s).length = 100 :=
  SortedSet.mem_zrangebyscore_or_length hx hdue

/-- The two structures stay in lock step. -/
theorem Store.LockStep.perform (h : s.LockStep) (ttl : Instant) (c : Command δ) :
    (s.perform ttl c).LockStep := by
  intro m
  cases c with
  | start now i d =>
      show (startPipeline ttl now i d s).expirations.score m = none ↔ _ = none
      rw [score_startPipeline, Store.perform, data_startPipeline]
      split
      · exact iff_of_false (Option.some_ne_none _) (Option.some_ne_none _)
      · exact h m
  | stop i =>
      show (stopPipeline i s).expirations.score m = none ↔ _ = none
      rw [score_stopPipeline, Store.perform, data_stopPipeline]
      split
      · exact iff_of_true rfl rfl
      · exact h m
  | sweep now =>
      show (claim s (expired now s)).2.expirations.score m = none ↔
        (claim s (expired now s)).2.data m = none
      rw [score_claim, data_claim _ h]
      split
      · exact iff_of_true rfl rfl
      · exact h m

theorem entry_startPipeline {ttl now : Instant} :
    (startPipeline ttl now m d s).entry m' =
      if m' = m then some (now + ttl, d) else s.entry m' := by
  unfold Store.entry
  rw [score_startPipeline, data_startPipeline]
  split
  · rfl
  · rfl

theorem entry_stopPipeline :
    (stopPipeline m s).entry m' = if m' = m then none else s.entry m' := by
  unfold Store.entry
  rw [score_stopPipeline, data_stopPipeline]
  split
  · rfl
  · rfl

theorem Store.LockStep.entry_sweepScript (h : s.LockStep) {now : Instant} :
    (sweepScript now s).2.entry m = if m ∈ expired now s then none else s.entry m := by
  unfold Store.entry sweepScript
  rw [score_claim, data_claim _ h]
  split
  · rfl
  · rfl

/-- A function that is defined along a list relates it to its values. -/
theorem forall₂_filterMap {α β : Type*} {R : α → β → Prop} {f : α → Option β} {l : List α}
    (h : ∀ a ∈ l, ∃ b, f a = some b ∧ R a b) : List.Forall₂ R l (l.filterMap f) := by
  induction l with
  | nil => exact .nil
  | cons a l ih =>
      obtain ⟨b, hb, hR⟩ := h a List.mem_cons_self
      rw [List.filterMap_cons_some hb]
      exact .cons hR (ih fun a' ha' ↦ h a' (List.mem_cons_of_mem a ha'))

/-- What a sweep finds has an entry, and its deadline has passed. -/
theorem Store.LockStep.entry_of_mem_expired (h : s.LockStep) {now : Instant}
    (hm : m ∈ expired now s) : ∃ x d, s.entry m = some (x, d) ∧ x ≤ now := by
  obtain ⟨x, hx, hdue⟩ := score_of_mem_expired hm
  obtain ⟨d, hd⟩ := h.exists_entry hx
  exact ⟨x, d, Store.entry_eq_some.mpr ⟨hx, hd⟩, hdue⟩

/-- A sweep returns one message for every member it finds. -/
theorem Store.LockStep.sweepScript_length (h : s.LockStep) (now : Instant) :
    (sweepScript now s).1.length = (expired now s).length := by
  rw [sweepScript_fst]
  have hpairs : List.Forall₂ (fun _ _ ↦ True) (expired now s) ((expired now s).filterMap s.data) :=
    forall₂_filterMap fun m hm ↦ by
      obtain ⟨x, d, hentry, -⟩ := h.entry_of_mem_expired hm
      exact ⟨d, (Store.entry_eq_some.mp hentry).2, trivial⟩
  exact hpairs.length_eq.symm

end Chatterbox.Typing
