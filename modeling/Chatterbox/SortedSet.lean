import Mathlib.Data.List.Nodup
import Mathlib.Data.List.Sort
import Mathlib.Data.List.MinMax

/-!
# Sorted sets

Members with scores, and the commands a key-value store offers on them.  Each
command has a lemma that says what it makes of the scores, and all further
reasoning is about `score`: the entries and their order are not mentioned again.

| command | here |
|---|---|
| `ZSCORE z m` | `score` |
| `ZADD z x m` | `zadd` |
| `ZREM z m` | `zrem` |
| `ZREMRANGEBYSCORE z -inf b` | `zremrangebyscore` |
| `ZCARD z` | `zcard` |
| `ZRANGE z -1 -1 WITHSCORES` | `latest`, of which only the score is kept |
| `ZRANGEBYSCORE z -inf b LIMIT 0 n` | `zrangebyscore` |
-/

namespace Chatterbox

/-- A sorted set: distinct members, each with a score. -/
structure SortedSet (α σ : Type*) where
  entries : List (α × σ)
  nodup : (entries.map Prod.fst).Nodup

namespace SortedSet

variable {α σ : Type*}

/-- The sorted set of a key that does not exist. -/
def empty : SortedSet α σ := ⟨[], List.nodup_nil⟩

/-- Keep the entries with a property. -/
def filter (z : SortedSet α σ) (p : α × σ → Bool) : SortedSet α σ :=
  ⟨z.entries.filter p, z.nodup.sublist (List.filter_sublist.map Prod.fst)⟩

def zcard (z : SortedSet α σ) : ℕ := z.entries.length

section Members

variable [DecidableEq α]

def score (z : SortedSet α σ) (m : α) : Option σ := z.entries.lookup m

def zrem (z : SortedSet α σ) (m : α) : SortedSet α σ := z.filter fun e ↦ e.1 ≠ m

def zadd (z : SortedSet α σ) (x : σ) (m : α) : SortedSet α σ where
  entries := (m, x) :: (z.zrem m).entries
  nodup := by
    refine List.nodup_cons.mpr ⟨fun h ↦ ?_, (z.zrem m).nodup⟩
    obtain ⟨e, he, rfl⟩ := List.mem_map.mp h
    simpa using (List.mem_filter.mp he).2

end Members

section Scores

variable [LinearOrder σ]

def zremrangebyscore (z : SortedSet α σ) (b : σ) : SortedSet α σ := z.filter fun e ↦ b < e.2

def latest (z : SortedSet α σ) : Option σ := (z.entries.map Prod.snd).max?

def zrangebyscore [LinearOrder α] (z : SortedSet α σ) (b : σ) (n : ℕ) : List α :=
  (((z.filter fun e ↦ e.2 ≤ b).entries.insertionSort fun e f ↦
    e.2 < f.2 ∨ e.2 = f.2 ∧ e.1 ≤ f.1).map Prod.fst).take n

end Scores

/-! ## What the commands make of the scores -/

variable [DecidableEq α] {z : SortedSet α σ} {m m' : α} {x y : σ}

theorem score_eq_some : z.score m = some x ↔ (m, x) ∈ z.entries := by
  obtain ⟨l, hl⟩ := z
  show l.lookup m = some x ↔ (m, x) ∈ l
  induction l with
  | nil => simp
  | cons e l ih =>
      obtain ⟨i, y⟩ := e
      obtain ⟨hnot, hrest⟩ := List.nodup_cons.mp hl
      rw [List.lookup_cons]
      by_cases h : m = i
      · subst h
        simp only [beq_self_eq_true, Option.some.injEq, List.mem_cons, Prod.mk.injEq, true_and]
        constructor
        · exact fun e ↦ Or.inl e.symm
        · rintro (e | hmem)
          · exact e.symm
          · exact absurd (List.mem_map_of_mem hmem) hnot
      · rw [beq_eq_false_iff_ne.mpr h]
        simp only [List.mem_cons, Prod.mk.injEq, h, false_and, false_or]
        exact ih hrest

theorem score_eq_none : z.score m = none ↔ ∀ x, (m, x) ∉ z.entries := by
  rw [Option.eq_none_iff_forall_ne_some]
  exact forall_congr' fun x ↦ not_congr score_eq_some

@[simp] theorem score_empty (m : α) : (empty : SortedSet α σ).score m = none := rfl

theorem score_filter {p : α × σ → Bool} :
    (z.filter p).score m = (z.score m).filter fun x ↦ p (m, x) := by
  ext x
  rw [score_eq_some, Option.filter_eq_some_iff, score_eq_some]
  exact List.mem_filter

theorem score_zrem : (z.zrem m).score m' = if m' = m then none else z.score m' := by
  rw [zrem, score_filter]
  by_cases h : m' = m
  · simp [h]
  · rw [if_neg h]
    cases z.score m' with
    | none => rfl
    | some x => simp [Option.filter_some, h]

theorem score_zadd : (z.zadd x m).score m' = if m' = m then some x else z.score m' := by
  by_cases h : m' = m
  · subst h
    rw [if_pos rfl, score_eq_some]
    exact List.mem_cons_self
  · have hne : (m' == m) = false := beq_eq_false_iff_ne.mpr h
    rw [if_neg h, ← (score_zrem (z := z) (m := m)).trans (if_neg h)]
    show List.lookup m' ((m, x) :: (z.zrem m).entries) = (z.zrem m).entries.lookup m'
    rw [List.lookup_cons, hne]

theorem zcard_eq_zero : z.zcard = 0 ↔ ∀ m, z.score m = none := by
  simp only [zcard, List.length_eq_zero_iff, List.eq_nil_iff_forall_not_mem, score_eq_none,
    Prod.forall]

variable [LinearOrder σ] {b : σ}

theorem score_zremrangebyscore : (z.zremrangebyscore b).score m = some x ↔
    z.score m = some x ∧ b < x := by
  rw [zremrangebyscore, score_filter, Option.filter_eq_some_iff]
  simp

/-- The highest score is a score, and none is higher. -/
theorem latest_eq_some : z.latest = some x ↔
    (∃ m, z.score m = some x) ∧ ∀ m y, z.score m = some y → y ≤ x := by
  rw [latest, List.max?_eq_some_iff]
  simp only [List.mem_map, Prod.exists, exists_eq_right, forall_exists_index, score_eq_some]
  exact and_congr_right fun _ ↦ forall_comm

theorem latest_eq_none : z.latest = none ↔ ∀ m, z.score m = none := by
  rw [latest, List.max?_eq_none_iff, List.map_eq_nil_iff, List.eq_nil_iff_forall_not_mem]
  simp only [score_eq_none, Prod.forall]

/-- Some score is above `b`. -/
def Exceeds (z : SortedSet α σ) (b : σ) : Prop := ∃ m x, z.score m = some x ∧ b < x

theorem not_exceeds : ¬ z.Exceeds b ↔ ∀ m x, z.score m = some x → x ≤ b := by
  simp only [Exceeds, not_exists, not_and, not_lt]

theorem Exceeds.mono {c : σ} (h : z.Exceeds c) (hbc : b ≤ c) : z.Exceeds b := by
  obtain ⟨m, x, hx, hc⟩ := h
  exact ⟨m, x, hx, hbc.trans_lt hc⟩

theorem Exceeds.latest (h : z.Exceeds b) : ∃ x, z.latest = some x ∧ b < x := by
  obtain ⟨m, x, hx, hb⟩ := h
  cases hlatest : z.latest with
  | none =>
      rw [latest_eq_none.mp hlatest m] at hx
      cases hx
  | some y => exact ⟨y, rfl, hb.trans_le ((latest_eq_some.mp hlatest).2 m x hx)⟩

/-- Removing low scores empties the set exactly when there is no other. -/
theorem zcard_zremrangebyscore_eq_zero : (z.zremrangebyscore b).zcard = 0 ↔ ¬ z.Exceeds b := by
  rw [zcard_eq_zero, not_exceeds]
  refine forall_congr' fun m ↦ ?_
  rw [Option.eq_none_iff_forall_ne_some]
  refine forall_congr' fun x ↦ ?_
  rw [Ne, score_zremrangebyscore, not_and, not_lt]

instance (z : SortedSet α σ) (b : σ) : Decidable (z.Exceeds b) :=
  decidable_of_iff (¬ (z.zremrangebyscore b).zcard = 0) (by
    rw [zcard_zremrangebyscore_eq_zero, not_not])

theorem exceeds_zremrangebyscore {c : σ} (hbc : b ≤ c) :
    (z.zremrangebyscore b).Exceeds c ↔ z.Exceeds c := by
  simp only [Exceeds, score_zremrangebyscore]
  constructor
  · rintro ⟨m, x, ⟨hx, -⟩, hc⟩
    exact ⟨m, x, hx, hc⟩
  · rintro ⟨m, x, hx, hc⟩
    exact ⟨m, x, ⟨hx, hbc.trans_lt hc⟩, hc⟩

/-- Removing low scores leaves the highest one, if it is not low itself. -/
theorem latest_zremrangebyscore (h : z.Exceeds b) : (z.zremrangebyscore b).latest = z.latest := by
  obtain ⟨x, hx, hb⟩ := h.latest
  obtain ⟨⟨m, hm⟩, hmax⟩ := latest_eq_some.mp hx
  rw [hx, latest_eq_some]
  exact ⟨⟨m, score_zremrangebyscore.mpr ⟨hm, hb⟩⟩,
    fun m' y hy ↦ hmax m' y (score_zremrangebyscore.mp hy).1⟩

/-- A score added above all others is the highest. -/
theorem latest_zadd (h : ∀ m' y, z.score m' = some y → y ≤ x) (m : α) :
    (z.zadd x m).latest = some x := by
  rw [latest_eq_some]
  refine ⟨⟨m, by rw [score_zadd, if_pos rfl]⟩, fun m' y hy ↦ ?_⟩
  rw [score_zadd] at hy
  split at hy
  · exact (Option.some.inj hy).ge
  · exact h m' y hy

/-- The members listed by a range are members, with scores in the range. -/
theorem mem_zrangebyscore {α : Type*} [LinearOrder α] {z : SortedSet α σ} {m : α} {n : ℕ}
    (h : m ∈ z.zrangebyscore b n) : ∃ x, z.score m = some x ∧ x ≤ b := by
  obtain ⟨⟨i, x⟩, he, rfl⟩ := List.mem_map.mp (List.mem_of_mem_take h)
  obtain ⟨hmem, hx⟩ := List.mem_filter.mp ((List.perm_insertionSort ..).mem_iff.mp he)
  exact ⟨x, score_eq_some.mpr hmem, by simpa using hx⟩

/-- A member with a score in the range is listed, unless the limit is reached. -/
theorem mem_zrangebyscore_or_length {α : Type*} [LinearOrder α] {z : SortedSet α σ} {m : α}
    {x : σ} {n : ℕ} (hx : z.score m = some x) (hb : x ≤ b) :
    m ∈ z.zrangebyscore b n ∨ (z.zrangebyscore b n).length = n := by
  set all := (((z.filter fun e ↦ e.2 ≤ b).entries.insertionSort fun e f ↦
    e.2 < f.2 ∨ e.2 = f.2 ∧ e.1 ≤ f.1).map Prod.fst) with hall
  have hmem : m ∈ all := by
    rw [hall, List.mem_map]
    refine ⟨(m, x), (List.perm_insertionSort ..).mem_iff.mpr ?_, rfl⟩
    exact List.mem_filter.mpr ⟨score_eq_some.mp hx, by simpa using hb⟩
  show m ∈ all.take n ∨ (all.take n).length = n
  by_cases hn : all.length ≤ n
  · rw [List.take_of_length_le hn]
    exact Or.inl hmem
  · exact Or.inr (List.length_take_of_le (not_le.mp hn).le)

/-- A range lists no member twice. -/
theorem zrangebyscore_nodup {α : Type*} [LinearOrder α] (z : SortedSet α σ) (b : σ) (n : ℕ) :
    (z.zrangebyscore b n).Nodup := by
  refine List.Nodup.sublist (List.take_sublist ..) ?_
  exact ((List.perm_insertionSort ..).map Prod.fst).nodup_iff.mpr (filter z _).nodup

end SortedSet

end Chatterbox
