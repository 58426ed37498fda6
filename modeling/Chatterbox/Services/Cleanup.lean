import Chatterbox.Services.Requests

/-!
# The cleanup worker

`AttachmentCleanupWorker.run_once` takes a lock in Redis and calls
`cleanup_abandoned` until a call removes fewer rows than it lists at most.  The model
is a machine that runs alone: nothing else touches the table, the bucket or the lock.

| source | model |
|---|---|
| `SET NX`, the computation of the cutoff | `Action.start` |
| one turn of the loop: a session, `cleanup_abandoned`, the exit test | `Action.batch` |
| `finally`: `RELEASE_LOCK_SCRIPT` | `Action.finish` |

The keys whose removal raises are fixed for the run.  `ORDER BY created_at` leaves
open how rows of one instant are ordered, and two queries may order them
differently: a label carries what the query returns, and `Listed` says when it may.

**What is proved.**  `run_once` always comes to an end, never touches a row that is
not abandoned, and returns the number of rows it deleted.  That no row is left whose
key can be removed holds exactly if none is listed in a later batch than a row whose
key cannot (`complete_iff`): one removal that raises makes the batch count as the
last one.
-/

namespace Chatterbox.Services.Cleanup

open Attachments (Attachment StorageKey Object abandoned)

/-- A row of `attachments`, next to its `id`. -/
abbrev Row := UUID × Attachment

-- Named here, as in `Base`.
instance lawfulBEqRow : LawfulBEq Row := inferInstance

/-- The table `attachments`; `id` is its primary key. -/
structure AttachmentTable where
  rows : List Row
  ids : (rows.map Prod.fst).Nodup

namespace AttachmentTable

/-- `AttachmentRepository.delete`. -/
def delete (table : AttachmentTable) (id : UUID) : AttachmentTable where
  rows := table.rows.filter fun row ↦ row.1 ≠ id
  ids := table.ids.sublist (List.filter_sublist.map _)

/-- The rows that the `WHERE` clause of `list_abandoned` selects. -/
def abandonedRows (table : AttachmentTable) (cutoff : Instant) : List Row :=
  table.rows.filter fun row ↦ abandoned cutoff row.2

end AttachmentTable

/-- The table and the bucket. -/
structure Stored where
  table : AttachmentTable
  bucket : StorageKey → Option Object

/-- What `list_abandoned` may return. -/
structure Listed (table : AttachmentTable) (cutoff : Instant) (limit : ℕ) (found : List Row) :
    Prop where
  nodup : found.Nodup
  selected : ∀ row ∈ found, row ∈ table.abandonedRows cutoff
  sorted : found.Pairwise fun x y ↦ x.2.createdAt ≤ y.2.createdAt
  oldest : ∀ row ∈ table.abandonedRows cutoff, row ∈ found ∨
    ∀ x ∈ found, x.2.createdAt ≤ row.2.createdAt
  length : found.length = min limit (table.abandonedRows cutoff).length

instance (table : AttachmentTable) (cutoff : Instant) (limit : ℕ) (found : List Row) :
    Decidable (Listed table cutoff limit found) :=
  decidable_of_iff
    (found.Nodup ∧ (∀ row ∈ found, row ∈ table.abandonedRows cutoff) ∧
      found.Pairwise (fun x y ↦ x.2.createdAt ≤ y.2.createdAt) ∧
      (∀ row ∈ table.abandonedRows cutoff, row ∈ found ∨
        ∀ x ∈ found, x.2.createdAt ≤ row.2.createdAt) ∧
      found.length = min limit (table.abandonedRows cutoff).length)
    ⟨fun h ↦ ⟨h.1, h.2.1, h.2.2.1, h.2.2.2.1, h.2.2.2.2⟩, fun h ↦ ⟨h.1, h.2, h.3, h.4, h.5⟩⟩

/-- The loop of `cleanup_abandoned`, with the number of rows removed so far. -/
def removeAll (raises : StorageKey → Bool) : List Row → Stored × ℕ → Stored × ℕ
  | [], r => r
  | row :: rows, (s, removed) =>
      if raises row.2.storageKey then removeAll raises rows (s, removed)
      else
        removeAll raises rows
          (⟨s.table.delete row.1, Function.update s.bucket row.2.storageKey none⟩, removed + 1)

/-- The default `limit` of `cleanup_abandoned`, and the number with which `run_once`
compares what a call has removed. -/
def limit : ℕ := 100

/-! ## The worker -/

/-- How far `run_once` has got. -/
inductive Phase where
  | idle
  | sweeping (token : UUID) (cutoff : Instant) (removed : ℕ)
  /-- The loop is over; the lock is still to be released. -/
  | finished (token : UUID) (removed : ℕ)
  | returned (removed : ℕ)
deriving DecidableEq, Repr

/-- The number of rows removed so far. -/
@[simp] def Phase.removed : Phase → ℕ
  | .idle => 0
  | .sweeping _ _ removed | .finished _ removed | .returned removed => removed

/-- The stores, the lock in Redis and the worker. -/
structure State where
  stored : Stored
  lock : Option UUID
  phase : Phase

/-- Nobody holds the lock. -/
def State.initial (stored : Stored) : State := ⟨stored, none, .idle⟩

inductive Action where
  | start (token : UUID) (now : Instant)
  | batch (found : List Row)
  | finish

section Machine

variable (ttl : ℕ) (raises : StorageKey → Bool)

/-- `run_once`, one statement at a time. -/
def step (s : State) : Action → Option State
  | .start token now =>
      match s.phase with
      | .idle =>
          if s.lock = none then
            some { s with lock := some token, phase := .sweeping token (now - ttl) 0 }
          else some { s with phase := .returned 0 }
      | _ => none
  | .batch found =>
      match s.phase with
      | .sweeping token cutoff removed =>
          if Listed s.stored.table cutoff limit found then
            let batch := removeAll raises found (s.stored, 0)
            if batch.2 < limit then
              some { s with stored := batch.1, phase := .finished token (removed + batch.2) }
            else
              some { s with stored := batch.1, phase := .sweeping token cutoff (removed + batch.2) }
          else none
      | _ => none
  | .finish =>
      match s.phase with
      | .finished token removed =>
          some { s with
            lock := if s.lock = some token then none else s.lock
            phase := .returned removed }
      | _ => none

end Machine

/-! ## What a run may promise -/

/-- `run_once` comes to an end, whatever the database returns. -/
def Terminates (ttl : ℕ) (raises : StorageKey → Bool) (stored : Stored) : Prop :=
  ∃ bound : ℕ, ∀ as t, exec (step ttl raises) (.initial stored) as = some t →
    as.length ≤ bound ∧
      ((∃ n, t.phase = .returned n) ∨ ∃ a u, step ttl raises t a = some u)

/-- Only abandoned rows have been deleted, `n` of them. -/
structure Kept (cutoff : Instant) (before after : Stored) (n : ℕ) : Prop where
  untouched : after.table.rows.filter (fun row ↦ ¬ abandoned cutoff row.2) =
    before.table.rows.filter fun row ↦ ¬ abandoned cutoff row.2
  deleted : after.table.rows.Sublist before.table.rows
  counted : n + after.table.rows.length = before.table.rows.length

/-- The rows when `run_once` returns `n`: an abandoned one is only left if its object
cannot be removed. -/
structure Complete (cutoff : Instant) (raises : StorageKey → Bool) (before after : Stored)
    (n : ℕ) : Prop extends Kept cutoff before after n where
  cleaned : ∀ row ∈ after.table.abandonedRows cutoff, raises row.2.storageKey

/-- An enumeration of the abandoned rows by `created_at`. -/
structure Ordered (table : AttachmentTable) (cutoff : Instant) (order : List Row) : Prop where
  perm : order.Perm (table.abandonedRows cutoff)
  sorted : order.Pairwise fun x y ↦ x.2.createdAt ≤ y.2.createdAt

/-- Behind the batch of a row whose removal raises there are only such rows. -/
def Trailing (raises : StorageKey → Bool) (order : List Row) : Prop :=
  ∀ i j x y, order[i]? = some x → order[j]? = some y → raises x.2.storageKey →
    i / limit < j / limit → raises y.2.storageKey

/-! ## One call of `cleanup_abandoned` -/

variable {ttl : ℕ} {raises : StorageKey → Bool} {table table' : AttachmentTable}
  {cutoff : Instant} {found order : List Row}

theorem limit_pos : 0 < limit := by decide

/-- The rows of a batch that are removed. -/
def removable (raises : StorageKey → Bool) (found : List Row) : List Row :=
  found.filter fun row ↦ !raises row.2.storageKey

theorem mem_removable {row : Row} :
    row ∈ removable raises found ↔ row ∈ found ∧ raises row.2.storageKey = false := by
  rw [removable, List.mem_filter, Bool.not_eq_true']

theorem removable_cons_of_raises {row : Row} (h : raises row.2.storageKey = true) :
    removable raises (row :: found) = removable raises found :=
  List.filter_cons_of_neg (by simp [h])

theorem removable_cons {row : Row} (h : raises row.2.storageKey = false) :
    removable raises (row :: found) = row :: removable raises found :=
  List.filter_cons_of_pos (by simp [h])

/-- A removal that raises leaves its row, and the loop goes on. -/
theorem removeAll_cons_of_raises {row : Row} (h : raises row.2.storageKey = true)
    (found : List Row) (s : Stored) (n : ℕ) :
    removeAll raises (row :: found) (s, n) = removeAll raises found (s, n) := if_pos h

theorem removeAll_cons {row : Row} (h : raises row.2.storageKey = false) (found : List Row)
    (s : Stored) (n : ℕ) :
    removeAll raises (row :: found) (s, n) = removeAll raises found
      (⟨s.table.delete row.1, Function.update s.bucket row.2.storageKey none⟩, n + 1) :=
  if_neg (h ▸ Bool.false_ne_true)

/-- The loop counts the rows it removes. -/
theorem removeAll_count (found : List Row) (s : Stored) (n : ℕ) :
    (removeAll raises found (s, n)).2 = n + (removable raises found).length := by
  induction found generalizing s n with
  | nil => rfl
  | cons row found ih =>
      cases h : raises row.2.storageKey with
      | true => rw [removeAll_cons_of_raises h, removable_cons_of_raises h, ih]
      | false =>
          rw [removeAll_cons h, removable_cons h, ih, List.length_cons]
          omega

/-- The loop deletes the rows with the identifiers of those it removes. -/
theorem removeAll_rows (found : List Row) (s : Stored) (n : ℕ) :
    (removeAll raises found (s, n)).1.table.rows =
      s.table.rows.filter fun row ↦ row.1 ∉ (removable raises found).map Prod.fst := by
  induction found generalizing s n with
  | nil => simp [removeAll, removable]
  | cons row found ih =>
      cases h : raises row.2.storageKey with
      | true => rw [removeAll_cons_of_raises h, removable_cons_of_raises h, ih]
      | false =>
          rw [removeAll_cons h, removable_cons h, ih, AttachmentTable.delete, List.filter_filter]
          refine List.filter_congr fun x _ ↦ ?_
          rw [Bool.eq_iff_iff, Bool.and_eq_true, decide_eq_true_iff, decide_eq_true_iff,
            decide_eq_true_iff, List.map_cons, List.mem_cons, not_or, and_comm]

/-- The loop empties the keys of the rows it removes. -/
theorem removeAll_bucket (found : List Row) (s : Stored) (n : ℕ) (key : StorageKey) :
    (removeAll raises found (s, n)).1.bucket key =
      if ∃ row ∈ removable raises found, row.2.storageKey = key then none else s.bucket key := by
  induction found generalizing s n with
  | nil => simp [removeAll, removable]
  | cons row found ih =>
      cases h : raises row.2.storageKey with
      | true => rw [removeAll_cons_of_raises h, removable_cons_of_raises h, ih]
      | false =>
          rw [removeAll_cons h, removable_cons h, ih]
          simp only [List.mem_cons, exists_eq_or_imp]
          by_cases hkey : row.2.storageKey = key
          · subst hkey
            rw [Function.update_self, ite_self, if_pos (.inl rfl)]
          · rw [Function.update_of_ne (Ne.symm hkey)]
            simp only [hkey, false_or]

/-! ## What the database lists -/

theorem mem_abandonedRows {row : Row} :
    row ∈ table.abandonedRows cutoff ↔ row ∈ table.rows ∧ abandoned cutoff row.2 := by
  rw [AttachmentTable.abandonedRows, List.mem_filter, decide_eq_true_iff]

theorem abandonedRows_nodup (table : AttachmentTable) (cutoff : Instant) :
    (table.abandonedRows cutoff).Nodup :=
  table.ids.of_map.sublist List.filter_sublist

/-- Sorting enumerates. -/
theorem mergeSort_ordered (table : AttachmentTable) (cutoff : Instant) :
    Ordered table cutoff
      ((table.abandonedRows cutoff).mergeSort fun x y ↦ x.2.createdAt ≤ y.2.createdAt) := by
  refine ⟨List.mergeSort_perm _ _, ?_⟩
  refine (List.pairwise_mergeSort (fun x y z hxy hyz ↦ ?_) (fun x y ↦ ?_) _).imp fun h ↦ ?_
  · exact decide_eq_true ((of_decide_eq_true hxy).trans (of_decide_eq_true hyz))
  · simpa using le_total x.2.createdAt y.2.createdAt
  · exact of_decide_eq_true h

namespace Ordered

theorem nodup (h : Ordered table cutoff order) : order.Nodup :=
  h.perm.nodup_iff.mpr (abandonedRows_nodup table cutoff)

/-- The first rows of an enumeration may be listed. -/
theorem listed (h : Ordered table cutoff order) (limit : ℕ) :
    Listed table cutoff limit (order.take limit) where
  nodup := h.nodup.sublist (List.take_sublist _ _)
  selected _ hrow := h.perm.mem_iff.mp (List.mem_of_mem_take hrow)
  sorted := h.sorted.sublist (List.take_sublist _ _)
  oldest row hrow := by
    have hsorted := h.sorted
    have hmem := h.perm.mem_iff.mpr hrow
    rw [← List.take_append_drop limit order] at hsorted hmem
    refine (List.mem_append.mp hmem).imp_right fun hdrop x hx ↦ ?_
    exact (List.pairwise_append.mp hsorted).2.2 x hx row hdrop
  length := by rw [List.length_take, h.perm.length_eq]

/-- Without its first rows, an enumeration is one of the table without them. -/
theorem drop (h : Ordered table cutoff order) (limit : ℕ)
    (hrows : table'.rows = table.rows.filter (· ∉ order.take limit)) :
    Ordered table' cutoff (order.drop limit) where
  perm := by
    have hdisjoint := List.disjoint_take_drop h.nodup (le_refl limit)
    have hdrop : order.filter (· ∉ order.take limit) = order.drop limit := by
      calc order.filter (· ∉ order.take limit)
          = (order.take limit ++ order.drop limit).filter (· ∉ order.take limit) := by
            rw [List.take_append_drop]
        _ = order.drop limit := by
            rw [List.filter_append, List.filter_eq_nil_iff.mpr (by simp), List.nil_append,
              List.filter_eq_self]
            exact fun row hrow ↦ decide_eq_true fun htake ↦ hdisjoint htake hrow
    rw [← hdrop, AttachmentTable.abandonedRows, hrows, List.filter_comm]
    exact h.perm.filter _
  sorted := h.sorted.sublist (List.drop_sublist _ _)

end Ordered

namespace Listed

/-- What is listed, in front of an enumeration of the rest, is an enumeration. -/
theorem append (h : Listed table cutoff limit found)
    (hrows : table'.rows = table.rows.filter (· ∉ found)) (hrest : Ordered table' cutoff order) :
    Ordered table cutoff (found ++ order) where
  perm := by
    have hmem : ∀ row, row ∈ order ↔ row ∈ table.abandonedRows cutoff ∧ row ∉ found := by
      intro row
      rw [hrest.perm.mem_iff, mem_abandonedRows, hrows, List.mem_filter, decide_eq_true_iff,
        mem_abandonedRows, and_right_comm]
    have hnodup : (found ++ order).Nodup :=
      List.nodup_append.mpr ⟨h.nodup, hrest.nodup, fun x hx y hy hxy ↦
        ((hmem y).mp hy).2 (hxy ▸ hx)⟩
    refine (List.perm_ext_iff_of_nodup hnodup (abandonedRows_nodup table cutoff)).mpr fun row ↦ ?_
    rw [List.mem_append, hmem]
    constructor
    · rintro (hfound | ⟨hrow, -⟩)
      · exact h.selected row hfound
      · exact hrow
    · exact fun hrow ↦ (em (row ∈ found)).imp_right fun hnot ↦ ⟨hrow, hnot⟩
  sorted := by
    refine List.pairwise_append.mpr ⟨h.sorted, hrest.sorted, fun x hx y hy ↦ ?_⟩
    have hy' := hrest.perm.mem_iff.mp hy
    rw [mem_abandonedRows, hrows, List.mem_filter, decide_eq_true_iff] at hy'
    exact (h.oldest y (mem_abandonedRows.mpr ⟨hy'.1.1, hy'.2⟩)).resolve_left hy'.1.2 x hx

/-- What is listed is the beginning of an enumeration, and all of it if there are too few rows. -/
theorem exists_rest (h : Listed table cutoff limit found) :
    ∃ rest, Ordered table cutoff (found ++ rest) ∧ (rest ≠ [] → found.length = limit) := by
  let rest : AttachmentTable :=
    ⟨table.rows.filter (· ∉ found), table.ids.sublist (List.filter_sublist.map _)⟩
  have horder := mergeSort_ordered rest cutoff
  have happend := h.append rfl horder
  refine ⟨_, happend, fun hne ↦ ?_⟩
  have hpos := List.length_pos_of_ne_nil hne
  have hlength := h.length
  rw [← happend.perm.length_eq, List.length_append] at hlength
  omega

/-- Deleting by `id` removes the rows of the batch and no others. -/
theorem rows_removeAll {stored : Stored} (h : Listed stored.table cutoff limit found)
    (raises : StorageKey → Bool) :
    (removeAll raises found (stored, 0)).1.table.rows =
      stored.table.rows.filter (· ∉ removable raises found) := by
  rw [removeAll_rows]
  refine List.filter_congr fun row hrow ↦ ?_
  rw [decide_eq_decide, not_iff_not, List.mem_map]
  constructor
  · rintro ⟨x, hx, hid⟩
    have hselected := mem_abandonedRows.mp (h.selected x (mem_removable.mp hx).1)
    exact List.inj_on_of_nodup_map stored.table.ids hselected.1 hrow hid ▸ hx
  · exact fun hx ↦ ⟨row, hx, rfl⟩

/-- Every removed row has been in the table, once. -/
theorem length_removeAll {stored : Stored} (h : Listed stored.table cutoff limit found)
    (raises : StorageKey → Bool) :
    (removable raises found).length + (removeAll raises found (stored, 0)).1.table.rows.length =
      stored.table.rows.length := by
  rw [h.rows_removeAll raises]
  have hnodup : (removable raises found).Nodup := h.nodup.sublist List.filter_sublist
  have hperm : (stored.table.rows.filter (· ∈ removable raises found)).Perm
      (removable raises found) := by
    refine (List.perm_ext_iff_of_nodup (stored.table.ids.of_map.sublist List.filter_sublist)
      hnodup).mpr fun row ↦ ?_
    rw [List.mem_filter, decide_eq_true_iff, and_iff_right_iff_imp]
    exact fun hrow ↦ (mem_abandonedRows.mp (h.selected row (mem_removable.mp hrow).1)).1
  rw [← hperm.length_eq]
  have hsplit := List.length_eq_length_filter_add (l := stored.table.rows)
    fun row ↦ decide (row ∈ removable raises found)
  rw [hsplit]
  simp

end Listed

/-! ## Runs -/

variable {s t : State} {before : Stored} {bucket : StorageKey → Option Object} {n : ℕ}

/-- What a step can do. -/
inductive Move (ttl : ℕ) (raises : StorageKey → Bool) (s : State) : Action → State → Prop
  | start {token now} (idle : s.phase = .idle) (free : s.lock = none) :
      Move ttl raises s (.start token now)
        { s with lock := some token, phase := .sweeping token (now - ttl) 0 }
  | refused {token now} (idle : s.phase = .idle) (held : s.lock ≠ none) :
      Move ttl raises s (.start token now) { s with phase := .returned 0 }
  /-- A batch was removed as a whole. -/
  | more {found token cutoff removed} (sweeping : s.phase = .sweeping token cutoff removed)
      (listed : Listed s.stored.table cutoff limit found)
      (full : limit ≤ (removable raises found).length) :
      Move ttl raises s (.batch found)
        { s with
          stored := (removeAll raises found (s.stored, 0)).1
          phase := .sweeping token cutoff (removed + (removable raises found).length) }
  | last {found token cutoff removed} (sweeping : s.phase = .sweeping token cutoff removed)
      (listed : Listed s.stored.table cutoff limit found)
      (short : (removable raises found).length < limit) :
      Move ttl raises s (.batch found)
        { s with
          stored := (removeAll raises found (s.stored, 0)).1
          phase := .finished token (removed + (removable raises found).length) }
  | finish {token removed} (finished : s.phase = .finished token removed) :
      Move ttl raises s .finish
        { s with
          lock := if s.lock = some token then none else s.lock
          phase := .returned removed }

theorem step_iff {a : Action} : step ttl raises s a = some t ↔ Move ttl raises s a t := by
  have hcount : ∀ found, (removeAll raises found (s.stored, 0)).2 =
      (removable raises found).length := fun found ↦ by rw [removeAll_count, Nat.zero_add]
  constructor
  · intro h
    cases a with
    | start token now =>
        unfold step at h
        dsimp only at h
        split at h
        · split at h
          · cases h
            exact .start ‹_› ‹_›
          · cases h
            exact .refused ‹_› ‹_›
        · cases h
    | batch found =>
        unfold step at h
        dsimp only at h
        split at h
        · obtain ⟨hlisted, h⟩ := Option.ite_none_right_eq_some.mp h
          rw [hcount] at h
          split at h
          · cases h
            exact .last ‹_› hlisted ‹_›
          · cases h
            exact .more ‹_› hlisted (Nat.le_of_not_lt ‹_›)
        · cases h
    | finish =>
        unfold step at h
        dsimp only at h
        split at h
        · cases h
          exact .finish ‹_›
        · cases h
  · intro h
    cases h with
    | start hidle hfree => simp only [step, hidle, hfree, if_true]
    | refused hidle hheld => simp only [step, hidle, hheld, if_false]
    | more hphase hlisted hfull =>
        simp only [step, hphase, hlisted, hcount, if_true, if_neg (Nat.not_lt.mpr hfull)]
    | last hphase hlisted hshort => simp only [step, hphase, hlisted, hcount, hshort, if_true]
    | finish hphase => simp only [step, hphase]

/-- A batch keeps what has been kept. -/
theorem Kept.batch {after : Stored} (h : Kept cutoff before after n)
    (hl : Listed after.table cutoff limit found) :
    Kept cutoff before (removeAll raises found (after, 0)).1
      (n + (removable raises found).length) where
  untouched := by
    rw [hl.rows_removeAll, List.filter_comm, ← h.untouched, List.filter_eq_self]
    intro row hrow
    have hkept := of_decide_eq_true (List.mem_filter.mp hrow).2
    exact decide_eq_true fun hremoved ↦
      hkept (mem_abandonedRows.mp (hl.selected row (mem_removable.mp hremoved).1)).2
  deleted := (hl.rows_removeAll raises ▸ List.filter_sublist).trans h.deleted
  counted := by
    have hlength := hl.length_removeAll raises
    have hcounted := h.counted
    omega

/-! ## The run comes to an end -/

/-- A bound on the number of steps that are left. -/
def State.fuel (s : State) : ℕ :=
  match s.phase with
  | .idle => s.stored.table.rows.length + 3
  | .sweeping .. => s.stored.table.rows.length + 2
  | .finished .. => 1
  | .returned _ => 0

theorem fuel_step {a : Action} (h : step ttl raises s a = some t) : t.fuel < s.fuel := by
  cases step_iff.mp h with
  | start hidle => simp [State.fuel, hidle]
  | refused hidle => simp [State.fuel, hidle]
  | more hphase hlisted hfull =>
      have hlength := hlisted.length_removeAll raises
      have hpos := limit_pos
      simp only [State.fuel, hphase]
      omega
  | last hphase => simp [State.fuel, hphase]
  | finish hphase => simp [State.fuel, hphase]

/-- A worker that has not returned can go on. -/
theorem step_of_not_returned (h : ∀ n, s.phase ≠ .returned n) :
    ∃ a t, step ttl raises s a = some t := by
  cases hphase : s.phase with
  | idle =>
      by_cases hlock : s.lock = none
      · exact ⟨.start 0 0, _, step_iff.mpr (.start hphase hlock)⟩
      · exact ⟨.start 0 0, _, step_iff.mpr (.refused hphase hlock)⟩
  | sweeping token cutoff removed =>
      have horder := mergeSort_ordered s.stored.table cutoff
      have hlisted := horder.listed limit
      rcases Nat.lt_or_ge (removable raises (List.take limit _)).length limit with hlast | hfull
      · exact ⟨_, _, step_iff.mpr (.last hphase hlisted hlast)⟩
      · exact ⟨_, _, step_iff.mpr (.more hphase hlisted hfull)⟩
  | finished token removed => exact ⟨_, _, step_iff.mpr (.finish hphase)⟩
  | returned n => exact absurd hphase (h n)

/-- **`run_once` terminates.** -/
theorem terminates (ttl : ℕ) (raises : StorageKey → Bool) (stored : Stored) :
    Terminates ttl raises stored := by
  have hbound : ∀ as s t, exec (step ttl raises) s as = some t → as.length ≤ s.fuel := by
    intro as
    induction as with
    | nil => exact fun s t _ ↦ Nat.zero_le _
    | cons a as ih =>
        intro s t h
        obtain ⟨m, hm, hrest⟩ := exec_cons_eq_some.mp h
        exact Nat.lt_of_le_of_lt (ih m t hrest) (fuel_step hm)
  refine ⟨(State.initial stored).fuel, fun as t h ↦ ⟨hbound as _ t h, ?_⟩⟩
  by_cases hreturned : ∃ n, t.phase = .returned n
  · exact .inl hreturned
  · exact .inr (step_of_not_returned (not_exists.mp hreturned))

/-! ## What the run leaves -/

/-- A run under way has only deleted abandoned rows. -/
structure Inv (cutoff : Instant) (before : Stored) (s : State) : Prop where
  started : s.phase ≠ .idle
  sweeps : ∀ token c n, s.phase = .sweeping token c n → c = cutoff
  kept : Kept cutoff before s.stored s.phase.removed

theorem Inv.step {a : Action} (h : Inv cutoff before s) (ht : step ttl raises s a = some t) :
    Inv cutoff before t := by
  have hkept := h.kept
  cases step_iff.mp ht with
  | start hidle => exact absurd hidle h.started
  | refused hidle => exact absurd hidle h.started
  | more hphase hlisted =>
      obtain rfl := h.sweeps _ _ _ hphase
      rw [hphase] at hkept
      refine ⟨by simp, ?_, hkept.batch hlisted⟩
      rintro _ _ _ ⟨⟩
      rfl
  | last hphase hlisted =>
      obtain rfl := h.sweeps _ _ _ hphase
      rw [hphase] at hkept
      exact ⟨by simp, by simp, hkept.batch hlisted⟩
  | finish hphase =>
      rw [hphase] at hkept
      exact ⟨by simp, by simp, hkept⟩

/-- The first step computes the cutoff. -/
theorem Inv.start (ttl : ℕ) (stored : Stored) (token : UUID) (now : Instant) :
    Inv (now - ttl) stored ⟨stored, some token, .sweeping token (now - ttl) 0⟩ where
  started := by simp
  sweeps := by
    rintro _ _ _ ⟨⟩
    rfl
  kept := ⟨rfl, List.Sublist.refl _, Nat.zero_add _⟩

/-- Behind the rows that are left there is nothing that could be removed. -/
def Cleaning (cutoff : Instant) (raises : StorageKey → Bool) (s : State) : Prop :=
  match s.phase with
  | .idle | .sweeping .. => ∀ order, Ordered s.stored.table cutoff order → Trailing raises order
  | .finished .. | .returned _ =>
      ∀ row ∈ s.stored.table.abandonedRows cutoff, raises row.2.storageKey

/-- What holds of an enumeration holds of it without its first batch. -/
theorem Trailing.of_append (h : Trailing raises (found ++ order)) (hlength : found.length = limit) :
    Trailing raises order := by
  intro i j x y hi hj hx hij
  have hget : ∀ k, (found ++ order)[k + limit]? = order[k]? := by
    intro k
    rw [List.getElem?_append_right (by omega), hlength, Nat.add_sub_cancel]
  refine h (i + limit) (j + limit) x y ((hget i).trans hi) ((hget j).trans hj) hx ?_
  rw [Nat.add_div_right _ limit_pos, Nat.add_div_right _ limit_pos]
  omega

/-- A batch of which not everything is removed contains a row whose removal raises. -/
theorem exists_raises (h : (removable raises found).length < found.length) :
    ∃ row ∈ found, raises row.2.storageKey := by
  by_contra hnone
  push Not at hnone
  refine h.ne (congrArg List.length (List.filter_eq_self.mpr fun row hrow ↦ ?_))
  exact (Bool.not_eq_true' _).mpr (Bool.eq_false_iff.mpr (hnone row hrow))

/-- Behind a batch of which not everything is removed, nothing can be. -/
theorem Trailing.of_short (h : Trailing raises (found ++ order)) (hlength : found.length = limit)
    (hshort : (removable raises found).length < limit) {row : Row} (hrow : row ∈ order) :
    raises row.2.storageKey := by
  obtain ⟨x, hx, hraises⟩ := exists_raises (hlength ▸ hshort)
  obtain ⟨i, hi⟩ := List.mem_iff_getElem?.mp hx
  obtain ⟨j, hj⟩ := List.mem_iff_getElem?.mp hrow
  have hlt : i < limit := hlength ▸ (List.getElem?_eq_some_iff.mp hi).1
  refine h i (j + limit) x row ?_ ?_ hraises ?_
  · rw [List.getElem?_append_left (hlength ▸ hlt), hi]
  · rw [List.getElem?_append_right (by omega), hlength, Nat.add_sub_cancel, hj]
  · rw [Nat.div_eq_of_lt hlt, Nat.add_div_right _ limit_pos]
    exact Nat.succ_pos _

/-- If the abandoned rows are as they should be, a batch leaves them so. -/
theorem Cleaning.step {a : Action} (hinv : Inv cutoff before s) (h : Cleaning cutoff raises s)
    (ht : step ttl raises s a = some t) : Cleaning cutoff raises t := by
  cases step_iff.mp ht with
  | start hidle => exact absurd hidle hinv.started
  | refused hidle => exact absurd hidle hinv.started
  | @more found _ _ _ hphase hlisted hfull =>
      obtain rfl := hinv.sweeps _ _ _ hphase
      rw [Cleaning, hphase] at h
      intro order horder
      -- a full batch: every row of it was removed
      have hle : found.length ≤ limit := hlisted.length ▸ Nat.min_le_left _ _
      have hall : removable raises found = found :=
        List.filter_sublist.eq_of_length_le (hle.trans hfull)
      have hrows := hlisted.rows_removeAll raises
      rw [hall] at hrows hfull
      exact (h _ (hlisted.append hrows horder)).of_append (hle.antisymm hfull)
  | @last found _ _ _ hphase hlisted hshort =>
      obtain rfl := hinv.sweeps _ _ _ hphase
      rw [Cleaning, hphase] at h
      intro row hrow
      rw [mem_abandonedRows, hlisted.rows_removeAll, List.mem_filter, decide_eq_true_iff] at hrow
      obtain ⟨rest, horder, hfull⟩ := hlisted.exists_rest
      have hmem := horder.perm.mem_iff.mpr (mem_abandonedRows.mpr ⟨hrow.1.1, hrow.2⟩)
      rcases List.mem_append.mp hmem with hfound | hrest
      · by_contra hraises
        exact hrow.1.2 (mem_removable.mpr ⟨hfound, Bool.eq_false_iff.mpr hraises⟩)
      · exact (h _ horder).of_short (hfull (List.ne_nil_of_mem hrest)) hshort hrest
  | finish hphase =>
      rw [Cleaning, hphase] at h
      exact h

/-- A batch of which too little is removed is the last one. -/
theorem exists_exec_last {token : UUID} (hphase : s.phase = .sweeping token cutoff n)
    (hlisted : Listed s.stored.table cutoff limit found)
    (hshort : (removable raises found).length < limit) :
    ∃ t m, exec (step ttl raises) s [.batch found, .finish] = some t ∧ t.phase = .returned m ∧
      t.stored = (removeAll raises found (s.stored, 0)).1 := by
  let last : State :=
    { s with
      stored := (removeAll raises found (s.stored, 0)).1
      phase := .finished token (n + (removable raises found).length) }
  have hlast : step ttl raises s (.batch found) = some last :=
    step_iff.mpr (.last hphase hlisted hshort)
  have hfinish : step ttl raises last .finish = some _ := step_iff.mpr (.finish rfl)
  exact ⟨_, _, exec_cons_eq_some.mpr ⟨last, hlast, exec_cons_eq_some.mpr ⟨_, hfinish, rfl⟩⟩,
    rfl, rfl⟩

/-- What comes behind such a batch is left behind. -/
theorem exists_left_of_short {token : UUID} {y : Row}
    (hphase : s.phase = .sweeping token cutoff n) (horder : Ordered s.stored.table cutoff order)
    (hshort : (removable raises (order.take limit)).length < limit) (hy : y ∈ order.drop limit) :
    ∃ as t m, exec (step ttl raises) s as = some t ∧ t.phase = .returned m ∧
      y ∈ t.stored.table.abandonedRows cutoff := by
  have hlisted := horder.listed limit
  have habandoned := mem_abandonedRows.mp (horder.perm.mem_iff.mp (List.mem_of_mem_drop hy))
  have hdisjoint := List.disjoint_take_drop horder.nodup (le_refl limit)
  have hleft : y ∉ removable raises (order.take limit) := fun hmem ↦
    hdisjoint (mem_removable.mp hmem).1 hy
  obtain ⟨t, m, hrun, hreturned, hstored⟩ := exists_exec_last hphase hlisted hshort
  refine ⟨_, t, m, hrun, hreturned, mem_abandonedRows.mpr ⟨?_, habandoned.2⟩⟩
  rw [hstored, hlisted.rows_removeAll raises, List.mem_filter]
  exact ⟨habandoned.1, decide_eq_true hleft⟩

/-- A row whose removal raises is not in a batch of which all is removed. -/
theorem limit_le_of_full {i : ℕ} {x : Row}
    (hall : removable raises (order.take limit) = order.take limit) (hi : order[i]? = some x)
    (hx : raises x.2.storageKey) : limit ≤ i := by
  by_contra hlt
  have htake : x ∈ order.take limit := by
    refine List.mem_of_getElem? (i := i) ?_
    rw [List.getElem?_take_of_lt (Nat.lt_of_not_le hlt), hi]
  rw [← hall, mem_removable, hx] at htake
  exact Bool.noConfusion htake.2

/-- A worker that lists the rows in an order in which one that could be removed is in a
later batch than one that cannot leaves the former behind. -/
theorem exists_left {token : UUID} {i j : ℕ} {x y : Row}
    (hphase : s.phase = .sweeping token cutoff n)
    (horder : Ordered s.stored.table cutoff order) (hi : order[i]? = some x)
    (hj : order[j]? = some y) (hx : raises x.2.storageKey) (hij : i / limit < j / limit) :
    ∃ as t m, exec (step ttl raises) s as = some t ∧ t.phase = .returned m ∧
      y ∈ t.stored.table.abandonedRows cutoff := by
  induction hsize : order.length using Nat.strong_induction_on generalizing s order i j n with
  | _ size ih =>
  have hjlimit : limit ≤ j := by
    by_contra hlt
    rw [Nat.div_eq_of_lt (Nat.lt_of_not_le hlt)] at hij
    exact Nat.not_lt_zero _ hij
  obtain ⟨j, rfl⟩ := Nat.exists_eq_add_of_le hjlimit
  rw [← List.getElem?_drop] at hj
  rcases Nat.lt_or_ge (removable raises (order.take limit)).length limit with hshort | hfull
  · -- the removal that raises is in this batch, which is the last one
    exact exists_left_of_short hphase horder hshort (List.mem_of_getElem? hj)
  · have hlisted := horder.listed limit
    have hall : removable raises (order.take limit) = order.take limit :=
      List.filter_sublist.eq_of_length_le ((List.length_take_le _ _).trans hfull)
    obtain ⟨i, rfl⟩ := Nat.exists_eq_add_of_le (limit_le_of_full hall hi hx)
    rw [← List.getElem?_drop] at hi
    have hrows := hlisted.rows_removeAll raises
    rw [hall] at hrows
    have hnext : step ttl raises s (.batch (order.take limit)) = some _ :=
      step_iff.mpr (.more hphase hlisted hfull)
    let next : State :=
      { s with
        stored := (removeAll raises (order.take limit) (s.stored, 0)).1
        phase := .sweeping token cutoff (n + (removable raises (order.take limit)).length) }
    have hrest : Ordered next.stored.table cutoff (order.drop limit) := horder.drop limit hrows
    have hdiv : i / limit < j / limit := by
      rw [Nat.add_div_left _ limit_pos, Nat.add_div_left _ limit_pos] at hij
      exact Nat.lt_of_succ_lt_succ hij
    have hsmaller : (order.drop limit).length < size := by
      have hlength := (List.getElem?_eq_some_iff.mp hj).1
      rw [List.length_drop] at hlength ⊢
      have hpos := limit_pos
      omega
    obtain ⟨as, t, m, hrun, hreturned, hmem⟩ :=
      ih _ hsmaller rfl hrest hi hj hdiv rfl
    exact ⟨_, t, m, exec_cons_eq_some.mpr ⟨next, hnext, hrun⟩, hreturned, hmem⟩

/-! ## When cleanup is complete -/

/-- **Exactly when cleanup is complete**: unless a row that could be removed may be listed
in a later batch than one that cannot. -/
theorem complete_iff (ttl : ℕ) (raises : StorageKey → Bool) (before : Stored) (now : Instant) :
    (Terminates ttl raises before ∧
        ∀ token as t n, exec (step ttl raises) (.initial before) (.start token now :: as) = some t →
          t.phase = .returned n → Complete (now - ttl) raises before t.stored n) ↔
      ∀ order, Ordered before.table (now - ttl) order → Trailing raises order := by
  have hstart : ∀ token, step ttl raises (.initial before) (.start token now) =
      some ⟨before, some token, .sweeping token (now - ttl) 0⟩ :=
    fun token ↦ step_iff.mpr (.start rfl rfl)
  constructor
  · intro ⟨_, hcomplete⟩ order horder i j x y hi hj hx hij
    obtain ⟨as, t, n, hrun, hreturned, hleft⟩ :=
      exists_left (s := ⟨before, some 0, .sweeping 0 (now - ttl) 0⟩) rfl horder hi hj hx hij
    exact (hcomplete 0 as t n (exec_cons_eq_some.mpr ⟨_, hstart 0, hrun⟩) hreturned).cleaned y hleft
  · intro htrailing
    refine ⟨terminates ttl raises before, fun token as t n hrun hreturned ↦ ?_⟩
    obtain ⟨m, hm, hrest⟩ := exec_cons_eq_some.mp hrun
    obtain rfl := Option.some.inj ((hstart token).symm.trans hm)
    have hstep : ∀ {u a v}, Inv (now - ttl) before u ∧ Cleaning (now - ttl) raises u →
        step ttl raises u a = some v → Inv (now - ttl) before v ∧ Cleaning (now - ttl) raises v :=
      fun h hv ↦ ⟨h.1.step hv, h.2.step h.1 hv⟩
    obtain ⟨hinv, hcleaning⟩ :=
      exec_invariant hstep ⟨Inv.start ttl before token now, htrailing⟩ hrest
    have hkept := hinv.kept
    rw [hreturned] at hkept
    rw [Cleaning, hreturned] at hcleaning
    exact ⟨hkept, hcleaning⟩

/-! ## A row left behind -/

/-- The upload number `i`, reserved at the instant `i`. -/
def upload (i : ℕ) : Row :=
  (Fin.ofNat _ i, ⟨1, 2, none, "a.txt", "text/plain", 1, ⟨.pending, 1, 2, Fin.ofNat _ i, ".txt"⟩, i,
    none⟩)

/-- One upload more than a batch has. -/
def uploads : AttachmentTable where
  rows := (List.range 101).map upload
  ids := by
    rw [List.map_map]
    refine List.Nodup.map_on (fun i hi j hj hij ↦ ?_) List.nodup_range
    have hmod : i % 2 ^ 128 = j % 2 ^ 128 := congrArg Fin.val hij
    rw [List.mem_range] at hi hj
    omega

/-- The object of the oldest upload cannot be removed: the youngest row stays. -/
theorem oldest_stuck : ¬ (∀ (ttl : ℕ) (raises : StorageKey → Bool) (before : Stored) (now : Instant)
    (token : UUID) (as : List Action) (t : State) (n : ℕ),
    exec (step ttl raises) (.initial before) (.start token now :: as) = some t →
      t.phase = .returned n → Complete (now - ttl) raises before t.stored n) := by
  intro hcomplete
  let raises : StorageKey → Bool := fun key ↦ key.attachmentId = 0
  have hstuck : raises (upload 0).2.storageKey := rfl
  have hall : uploads.abandonedRows 200 = uploads.rows := by
    refine List.filter_eq_self.mpr fun row hrow ↦ decide_eq_true ?_
    obtain ⟨i, hi, rfl⟩ := List.mem_map.mp hrow
    have hlt := List.mem_range.mp hi
    exact ⟨rfl, show (i : ℤ) < 200 by omega⟩
  have horder : Ordered uploads 200 uploads.rows := by
    refine ⟨hall ▸ List.Perm.refl _, List.pairwise_map.mpr ?_⟩
    exact List.pairwise_lt_range.imp fun hlt ↦ Int.ofNat_le.mpr hlt.le
  obtain ⟨as, t, n, hrun, hreturned, hleft⟩ :=
    exists_left (s := ⟨⟨uploads, fun _ ↦ none⟩, some 0, .sweeping 0 200 0⟩)
      (i := 0) (j := 100) (y := upload 100) rfl horder rfl rfl hstuck (by decide)
  have hstart : step 24 raises (.initial ⟨uploads, fun _ ↦ none⟩) (.start 0 224) =
      some ⟨⟨uploads, fun _ ↦ none⟩, some 0, .sweeping 0 200 0⟩ := step_iff.mpr (.start rfl rfl)
  have hdone := hcomplete 24 raises ⟨uploads, fun _ ↦ none⟩ 224 0 as t n
    (exec_cons_eq_some.mpr ⟨_, hstart, hrun⟩) hreturned
  exact absurd (hdone.cleaned _ hleft) (by decide)

/-! ## One call, as a transaction of the services -/

/-- A transaction of `Services.cleanupAbandoned` is one call of this module's: the database
breaks ties by the order of the table. -/
theorem cleanupAbandoned_eq (s : Store) (ids : (s.attachments.map Prod.fst).Nodup)
    (fails : UUID → Bool) (hfails : ∀ p ∈ s.attachments, fails p.1 = raises p.2.storageKey) :
    ∃ found, Listed ⟨s.attachments, ids⟩ cutoff limit found ∧
      (cleanupAbandoned s cutoff limit fails).attachments =
        (removeAll raises found (⟨⟨s.attachments, ids⟩, s.bucket⟩, 0)).1.table.rows ∧
      (cleanupAbandoned s cutoff limit fails).bucket =
        (removeAll raises found (⟨⟨s.attachments, ids⟩, s.bucket⟩, 0)).1.bucket := by
  let table : AttachmentTable := ⟨s.attachments, ids⟩
  let found := ((table.abandonedRows cutoff).mergeSort
    fun x y ↦ x.2.createdAt ≤ y.2.createdAt).take limit
  have hlisted : Listed (⟨table, s.bucket⟩ : Stored).table cutoff limit found :=
    (mergeSort_ordered table cutoff).listed limit
  have hremoved : found.filter (fun p ↦ !fails p.1) = removable raises found := by
    refine List.filter_congr fun p hp ↦ ?_
    rw [hfails p (mem_abandonedRows.mp (hlisted.selected p hp)).1]
  refine ⟨found, hlisted, ?_, funext fun key ↦ ?_⟩
  · rw [hlisted.rows_removeAll raises, ← hremoved]
    rfl
  · rw [removeAll_bucket, ← hremoved]
    rfl

end Chatterbox.Services.Cleanup
