import Chatterbox.Typing.Store
import Mathlib.Data.List.Induction
import Mathlib.Order.Nat

/-!
# A typing deadline is consumed once

Any number of instances issue the three commands, each with its own clock; Redis
performs them one after the other, so what it sees is one list.  A start at some
position of the list arms its member, and the entry it writes can end in three
ways: a later start of the member replaces it, a stop removes it, or a sweep
claims it.  `endingAt` says what the command at a position is to a member, and
`Ends` that the entry of one position ends at another.

`entry_run` ties the state to the list: what is armed after the list was armed by
a start that nothing has ended.  `typing_expiry_exactly_once` is read off it.
-/

namespace Chatterbox.Typing

variable {δ : Type*}

/-- The store after a list of commands. -/
def run (ttl : Instant) (cs : List (Command δ)) : Store δ := cs.foldl (Store.perform ttl) .empty

/-- How the entry of a start ends. -/
inductive Ending where
  | replaced
  | removed
  | claimed (now : Instant)
deriving DecidableEq, Repr

/-- What a command performed in `s` is to the entry of a member. -/
def Store.ending (s : Store δ) (m : Member) : Command δ → Option Ending
  | .start _ i _ => if i = m then some .replaced else none
  | .stop i => if i = m then some .removed else none
  | .sweep now => if m ∈ expired now s then some (.claimed now) else none

/-- What the command at position `j` of a list is to the entry of a member. -/
def endingAt (ttl : Instant) (cs : List (Command δ)) (j : ℕ) (m : Member) : Option Ending :=
  cs[j]?.bind ((run ttl (cs.take j)).ending m)

/-- The entry that the command at position `i` writes for `m` ends at position `j`. -/
structure Ends (ttl : Instant) (cs : List (Command δ)) (i j : ℕ) (m : Member) (e : Ending) :
    Prop where
  later : i < j
  ending : endingAt ttl cs j m = some e
  first : ∀ k, i < k → k < j → endingAt ttl cs k m = none

variable {ttl : Instant} {cs : List (Command δ)} {m : Member} {i j : ℕ}

/-! ## One more command -/

theorem run_concat (cs : List (Command δ)) (c : Command δ) :
    run ttl (cs ++ [c]) = (run ttl cs).perform ttl c := by
  simp [run]

theorem lockStep_run (ttl : Instant) (cs : List (Command δ)) : (run ttl cs).LockStep := by
  induction cs using List.reverseRecOn with
  | nil => exact Store.LockStep.empty
  | append_singleton cs c ih => exact run_concat cs c ▸ ih.perform ttl c

theorem endingAt_of_le (h : cs.length ≤ j) : endingAt ttl cs j m = none := by
  rw [endingAt, List.getElem?_eq_none h, Option.bind_none]

theorem endingAt_append (cs' : List (Command δ)) (h : j < cs.length) :
    endingAt ttl (cs ++ cs') j m = endingAt ttl cs j m := by
  rw [endingAt, endingAt, List.getElem?_append_left h, List.take_append_of_le_length h.le]

theorem endingAt_concat (cs : List (Command δ)) (c : Command δ) :
    endingAt ttl (cs ++ [c]) cs.length m = (run ttl cs).ending m c := by
  rw [endingAt, List.getElem?_concat_length, List.take_left]
  rfl

/-- A list with one more command ends nothing after position `i` exactly when the
list did not, and the new command does not. -/
theorem endingAt_concat_eq_none (c : Command δ) (hi : i < cs.length) :
    (∀ k, i < k → endingAt ttl (cs ++ [c]) k m = none) ↔
      (∀ k, i < k → endingAt ttl cs k m = none) ∧ (run ttl cs).ending m c = none := by
  rw [← endingAt_concat]
  constructor
  · refine fun h ↦ ⟨fun k hk ↦ ?_, h _ hi⟩
    by_cases hlt : k < cs.length
    · exact endingAt_append [c] hlt ▸ h k hk
    · exact endingAt_of_le (not_lt.mp hlt)
  · rintro ⟨h, hlast⟩ k hk
    rcases lt_trichotomy k cs.length with hlt | rfl | hgt
    · exact (endingAt_append [c] hlt).trans (h k hk)
    · exact hlast
    · exact endingAt_of_le (List.length_append.trans_le hgt)

/-- A command that is nothing to a member leaves its entry. -/
theorem Store.LockStep.entry_perform {s : Store δ} (h : s.LockStep) {c : Command δ}
    (hc : s.ending m c = none) : (s.perform ttl c).entry m = s.entry m := by
  cases c with
  | start now i d =>
      have hne : m ≠ i := fun e ↦ by simp [Store.ending, e] at hc
      exact entry_startPipeline.trans (if_neg hne)
  | stop i =>
      have hne : m ≠ i := fun e ↦ by simp [Store.ending, e] at hc
      exact entry_stopPipeline.trans (if_neg hne)
  | sweep now =>
      have hnot : m ∉ expired now s := fun hm ↦ by simp [Store.ending, hm] at hc
      exact h.entry_sweepScript.trans (if_neg hnot)

/-- A command that ends an entry is the next start, or leaves none. -/
theorem Store.LockStep.perform_of_ending {s : Store δ} (h : s.LockStep) {c : Command δ}
    {e : Ending} (hc : s.ending m c = some e) :
    (∃ now d, c = .start now m d) ∨
      (∀ now d, c ≠ .start now m d) ∧ (s.perform ttl c).entry m = none := by
  cases c with
  | start now i d =>
      have hi : i = m := by
        by_contra hne
        simp [Store.ending, hne] at hc
      exact Or.inl ⟨now, d, by rw [hi]⟩
  | stop i =>
      have hi : m = i := by
        by_contra hne
        simp [Store.ending, Ne.symm hne] at hc
      exact Or.inr ⟨fun _ _ ↦ nofun, entry_stopPipeline.trans (if_pos hi)⟩
  | sweep now =>
      have hm : m ∈ expired now s := by
        by_contra hnot
        simp [Store.ending, hnot] at hc
      exact Or.inr ⟨fun _ _ ↦ nofun, h.entry_sweepScript.trans (if_pos hm)⟩

/-! ## The state and the list -/

/-- What is armed was armed by a start of the list, and nothing has ended that. -/
theorem entry_run {x : Instant} {d : δ} : (run ttl cs).entry m = some (x, d) ↔
    ∃ i now, cs[i]? = some (.start now m d) ∧ x = now + ttl ∧
      ∀ k, i < k → endingAt ttl cs k m = none := by
  induction cs using List.reverseRecOn with
  | nil => simp [run, Store.entry, Store.empty]
  | append_singleton cs c ih =>
      have hlock := lockStep_run ttl cs
      -- A start of the longer list is the last command, or one of the list.
      have hold : ∀ i now, (cs ++ [c])[i]? = some (.start now m d) → i ≠ cs.length →
          i < cs.length ∧ cs[i]? = some (.start now m d) := by
        intro i now hi hne
        have hlt : i < cs.length := by
          have := (List.getElem?_eq_some_iff.mp hi).1
          simp only [List.length_append, List.length_singleton] at this
          omega
        exact ⟨hlt, by rwa [List.getElem?_append_left hlt] at hi⟩
      rw [run_concat]
      cases hc : (run ttl cs).ending m c with
      | none =>
          rw [hlock.entry_perform hc, ih]
          constructor
          · rintro ⟨i, now, hi, hx, hafter⟩
            have hlt := (List.getElem?_eq_some_iff.mp hi).1
            refine ⟨i, now, ?_, hx, (endingAt_concat_eq_none c hlt).mpr ⟨hafter, hc⟩⟩
            rwa [List.getElem?_append_left hlt]
          · rintro ⟨i, now, hi, hx, hafter⟩
            have hne : i ≠ cs.length := by
              rintro rfl
              rw [List.getElem?_concat_length, Option.some.injEq] at hi
              simp [hi, Store.ending] at hc
            obtain ⟨hlt, hi⟩ := hold i now hi hne
            exact ⟨i, now, hi, hx, ((endingAt_concat_eq_none c hlt).mp hafter).1⟩
      | some e =>
          have hlast : ∀ i now, (cs ++ [c])[i]? = some (.start now m d) →
              (∀ k, i < k → endingAt ttl (cs ++ [c]) k m = none) → c = .start now m d := by
            intro i now hi hafter
            by_cases hne : i = cs.length
            · subst hne
              rwa [List.getElem?_concat_length, Option.some.injEq] at hi
            · have hnone := ((endingAt_concat_eq_none c (hold i now hi hne).1).mp hafter).2
              rw [hc] at hnone
              cases hnone
          rcases hlock.perform_of_ending hc with ⟨now, d', rfl⟩ | ⟨hnot, hnone⟩
          · rw [show ((run ttl cs).perform ttl (.start now m d')).entry m = some (now + ttl, d')
              from entry_startPipeline.trans (if_pos rfl)]
            constructor
            · rintro ⟨⟩
              refine ⟨cs.length, now, List.getElem?_concat_length, rfl, fun k hk ↦ ?_⟩
              exact endingAt_of_le (List.length_append.trans_le hk)
            · rintro ⟨i, now', hi, rfl, hafter⟩
              cases hlast i now' hi hafter
              rfl
          · rw [hnone]
            refine iff_of_false (Option.some_ne_none _).symm ?_
            rintro ⟨i, now, hi, -, hafter⟩
            exact hnot now d (hlast i now hi hafter)

/-- The entry of a start that ends at `j` is there when the command at `j` comes. -/
theorem Ends.entry {e : Ending} {now : Instant} {d : δ} (h : Ends ttl cs i j m e)
    (hi : cs[i]? = some (.start now m d)) :
    (run ttl (cs.take j)).entry m = some (now + ttl, d) := by
  refine entry_run.mpr ⟨i, now, by rwa [List.getElem?_take_of_lt h.later], rfl, fun k hk ↦ ?_⟩
  by_cases hkj : k < (cs.take j).length
  · rw [← endingAt_append (cs.drop j) hkj, List.take_append_drop]
    exact h.first k hk (hkj.trans_le (List.length_take_le j cs))
  · exact endingAt_of_le (not_lt.mp hkj)

/-- A command claims what a sweep finds. -/
theorem endingAt_eq_claimed {now : Instant} : endingAt ttl cs j m = some (.claimed now) ↔
    cs[j]? = some (.sweep now) ∧ m ∈ expired now (run ttl (cs.take j)) := by
  rw [endingAt, Option.bind_eq_some_iff]
  constructor
  · rintro ⟨c, hc, hend⟩
    cases c with
    | start now i d => simp [Store.ending] at hend
    | stop i => simp [Store.ending] at hend
    | sweep now' =>
        simp only [Store.ending, Option.ite_none_right_eq_some, Option.some.injEq,
          Ending.claimed.injEq] at hend
        exact hend.2 ▸ ⟨hc, hend.1⟩
  · rintro ⟨hc, hm⟩
    exact ⟨_, hc, if_pos hm⟩

/-- An entry ends at one position, in one way. -/
theorem Ends.unique {j' : ℕ} {e e' : Ending} (h : Ends ttl cs i j m e)
    (h' : Ends ttl cs i j' m e') : (j', e') = (j, e) := by
  rcases lt_trichotomy j j' with hlt | rfl | hgt
  · exact absurd (h.ending.symm.trans (h'.first j h.later hlt)) (Option.some_ne_none e)
  · rw [Option.some.inj (h.ending.symm.trans h'.ending)]
  · exact absurd (h'.ending.symm.trans (h.first j' h'.later hgt)) (Option.some_ne_none e')

/-- One entry ends at a position: a start of the member in between ends it first. -/
theorem Ends.start_unique {i' : ℕ} {e e' : Ending} {now now' : Instant} {d d' : δ}
    (h : Ends ttl cs i j m e) (h' : Ends ttl cs i' j m e') (hi : cs[i]? = some (.start now m d))
    (hi' : cs[i']? = some (.start now' m d')) : i' = i := by
  have hstart : ∀ k now d, cs[k]? = some (.start now m d) →
      endingAt ttl cs k m = some .replaced := fun k now d hk ↦ by
    simp [endingAt, hk, Store.ending]
  rcases lt_trichotomy i i' with hlt | heq | hgt
  · exact absurd ((hstart i' _ _ hi').symm.trans (h.first i' hlt h'.later)) (Option.some_ne_none _)
  · exact heq.symm
  · exact absurd ((hstart i _ _ hi).symm.trans (h'.first i hgt h.later)) (Option.some_ne_none _)

/-- What comes of a start: it is armed, or its entry has ended. -/
theorem armed_or_ends {now : Instant} {d : δ} (hi : cs[i]? = some (.start now m d)) :
    ((run ttl cs).entry m = some (now + ttl, d) ∧ ∀ j e, ¬ Ends ttl cs i j m e) ∨
      ∃ j e, Ends ttl cs i j m e := by
  by_cases hafter : ∀ k, i < k → endingAt ttl cs k m = none
  · refine Or.inl ⟨entry_run.mpr ⟨i, now, hi, rfl, hafter⟩, fun j e h ↦ ?_⟩
    exact absurd (h.ending.symm.trans (hafter j h.later)) (Option.some_ne_none e)
  · refine Or.inr ?_
    have hsome : ∃ k, i < k ∧ endingAt ttl cs k m ≠ none := by simpa using hafter
    obtain ⟨hlt, hne⟩ := Nat.find_spec hsome
    obtain ⟨e, he⟩ := Option.ne_none_iff_exists'.mp hne
    refine ⟨Nat.find hsome, e, hlt, he, fun k hk hkj ↦ ?_⟩
    by_contra hnone
    exact Nat.find_min hsome hkj ⟨hk, hnone⟩

/-- **Typing expiries are consumed exactly once.**  After any list of commands,
issued by whichever instances and with whatever clocks:

* the members of the sorted set are the fields of the hash;
* every start is armed still, with its own deadline and data, or its entry has
  ended, at one position and in one of the three ways;
* if a sweep has claimed it, the clock of the sweep was at or past its deadline;
* a sweep returns, for the members it claims one by one, the data of the one
  start whose entry it ends: the last start of that member before the sweep. -/
theorem typing_expiry_exactly_once (ttl : Instant) (cs : List (Command δ)) :
    (∀ m, (run ttl cs).expirations.score m = none ↔ (run ttl cs).data m = none) ∧
    (∀ i now m d, cs[i]? = some (.start now m d) →
      ((run ttl cs).entry m = some (now + ttl, d) ∧ ∀ j e, ¬ Ends ttl cs i j m e) ∨
        ∃! p : ℕ × Ending, Ends ttl cs i p.1 m p.2) ∧
    (∀ i now m d j now', cs[i]? = some (.start now m d) →
      Ends ttl cs i j m (.claimed now') → now + ttl ≤ now') ∧
    (∀ j now, cs[j]? = some (.sweep now) →
      List.Forall₂ (fun m d ↦ ∃! i, ∃ time, cs[i]? = some (.start time m d) ∧
          Ends ttl cs i j m (.claimed now))
        (expired now (run ttl (cs.take j))) (sweepScript now (run ttl (cs.take j))).1) := by
  refine ⟨lockStep_run ttl cs, fun i now m d hi ↦ ?_, fun i now m d j now' hi h ↦ ?_,
    fun j now hj ↦ ?_⟩
  · rcases armed_or_ends hi with harmed | ⟨j, e, h⟩
    · exact Or.inl harmed
    · exact Or.inr ⟨(j, e), h, fun p hp ↦ h.unique hp⟩
  · obtain ⟨x, hx, hdue⟩ := score_of_mem_expired (endingAt_eq_claimed.mp h.ending).2
    rw [(Store.entry_eq_some.mp (h.entry hi)).1, Option.some.injEq] at hx
    exact hx ▸ hdue
  · rw [sweepScript_fst]
    refine forall₂_filterMap fun m hm ↦ ?_
    obtain ⟨x, d, hentry, -⟩ := (lockStep_run ttl _).entry_of_mem_expired hm
    obtain ⟨i, time, hi, -, hafter⟩ := entry_run.mp hentry
    have hlt : i < j := by
      have := (List.getElem?_eq_some_iff.mp hi).1
      exact this.trans_le (List.length_take_le j cs)
    have hends : Ends ttl cs i j m (.claimed now) := by
      refine ⟨hlt, endingAt_eq_claimed.mpr ⟨hj, hm⟩, fun k hk hkj ↦ ?_⟩
      have hlen : j < cs.length := (List.getElem?_eq_some_iff.mp hj).1
      have hk' : k < (cs.take j).length := by rwa [List.length_take_of_le hlen.le]
      have happ : endingAt ttl cs k m = endingAt ttl (cs.take j) k m := by
        rw [← endingAt_append (cs.drop j) hk', List.take_append_drop]
      exact happ.trans (hafter k hk)
    rw [List.getElem?_take_of_lt hlt] at hi
    refine ⟨d, (Store.entry_eq_some.mp hentry).2, i, ⟨time, hi, hends⟩, ?_⟩
    rintro i' ⟨time', hi', hends'⟩
    exact hends.start_unique hends' hi hi'

end Chatterbox.Typing
