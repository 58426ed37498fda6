import Mathlib.Data.List.Sort
import Mathlib.Data.List.Lex

/-!
# Keyset pagination

Rows are listed in the order of a key, a page at a time; the cursor of the next
page is the key of the last row of this one.  A query asks for one row more than
the page holds, so that it can tell whether there is a next page.

`slice` is one query and `walk` follows the cursors through a list of snapshots,
one for every query, so that rows may be inserted in between, at any place in
the order.  A cursor is an optional key: `none` stands before all rows.  For the
opposite direction the key is taken in the dual order.

The results about a walk through growing snapshots with distinct keys:

* `walk_strict`: the rows come in the order of their keys, and none comes twice;
* `walk_more`: a page announces another one exactly when its snapshot has a row
  beyond everything returned so far;
* `walk_complete`: a walk that ends has returned every row of the first snapshot;
* `walk_finishes`: a walk ends once the insertions do.
-/

namespace Chatterbox.Keyset

variable {ρ κ : Type*} [LinearOrder κ] (key : ρ → κ)

/-- The row comes after the cursor. -/
def Beyond (cursor : Option κ) (r : ρ) : Prop := ∀ k ∈ cursor, k < key r

instance (cursor : Option κ) : DecidablePred (Beyond key cursor) :=
  fun r ↦ inferInstanceAs (Decidable (∀ k ∈ cursor, k < key r))

/-- `WHERE cursor < key ORDER BY key`. -/
def window (cursor : Option κ) (rows : List ρ) : List ρ :=
  (rows.filter fun r ↦ Beyond key cursor r).mergeSort fun a b ↦ key a ≤ key b

/-- A page of rows, and whether there is another one. -/
structure Slice (ρ : Type*) where
  items : List ρ
  more : Bool

/-- One query: `LIMIT limit + 1`, of which the page takes the first `limit`. -/
def slice (limit : ℕ) (cursor : Option κ) (rows : List ρ) : Slice ρ :=
  let found := (window key cursor rows).take (limit + 1)
  ⟨found.take limit, decide (limit < found.length)⟩

/-- The cursor of the next page. -/
def Slice.next (s : Slice ρ) : Option κ := if s.more then s.items.getLast?.map key else none

/-- Follow the cursors, one snapshot for every query, until there is no next page. -/
def walk (limit : ℕ) : Option κ → List (List ρ) → List (Slice ρ)
  | _, [] => []
  | cursor, rows :: later =>
      let s := slice key limit cursor rows
      s :: match s.next key with
        | none => []
        | some k => walk limit (some k) later

/-- The walk has come to a page without a next one. -/
def Finished (pages : List (Slice ρ)) : Prop := ∃ s, pages.getLast? = some s ∧ s.more = false

variable {key} {limit : ℕ} {cursor : Option κ} {rows : List ρ} {r p : ρ} {k : κ}

theorem beyond_none (r : ρ) : Beyond key none r := nofun

@[simp] theorem beyond_some : Beyond key (some k) r ↔ k < key r := by simp [Beyond]

/-- What comes after a row that comes after the cursor comes after the cursor. -/
theorem Beyond.trans (hp : Beyond key cursor p) (h : key p < key r) : Beyond key cursor r :=
  fun k hk ↦ (hp k hk).trans h

/-! ## One query -/

@[simp] theorem mem_window : r ∈ window key cursor rows ↔ r ∈ rows ∧ Beyond key cursor r := by
  simp [window]

theorem window_length_le : (window key cursor rows).length ≤ rows.length := by
  rw [window, List.length_mergeSort]
  exact List.length_filter_le ..

/-- Rows with distinct keys are sorted in strictly increasing order. -/
theorem mergeSort_strict (hd : (rows.map key).Nodup) :
    (rows.mergeSort fun a b ↦ key a ≤ key b).Pairwise fun a b ↦ key a < key b := by
  have hle : (rows.mergeSort fun a b ↦ key a ≤ key b).Pairwise fun a b ↦ key a ≤ key b := by
    have h := @List.pairwise_mergeSort ρ (fun a b ↦ decide (key a ≤ key b))
      (fun a b c hab hbc ↦ by simp only [decide_eq_true_eq] at *; exact hab.trans hbc)
      (fun a b ↦ by simpa using le_total (key a) (key b)) rows
    exact h.imp fun hab ↦ by simpa using hab
  have hne : (rows.mergeSort fun a b ↦ key a ≤ key b).Pairwise fun a b ↦ key a ≠ key b := by
    have hrows : rows.Pairwise fun a b ↦ key a ≠ key b := List.pairwise_map.mp hd
    exact (List.mergeSort_perm _ _).symm.pairwise hrows fun h ↦ Ne.symm h
  exact hle.imp₂ (fun _ _ h h' ↦ lt_of_le_of_ne h h') hne

theorem window_strict (cursor : Option κ) (hd : (rows.map key).Nodup) :
    (window key cursor rows).Pairwise fun a b ↦ key a < key b :=
  mergeSort_strict (hd.sublist (List.filter_sublist.map key))

theorem slice_items : (slice key limit cursor rows).items =
    (window key cursor rows).take limit := by
  simp [slice, List.take_take]

theorem slice_more : (slice key limit cursor rows).more = true ↔
    limit < (window key cursor rows).length := by
  simp only [slice, List.length_take, decide_eq_true_eq]
  omega

/-- The rows of a page are rows beyond the cursor. -/
theorem mem_of_mem_slice (h : r ∈ (slice key limit cursor rows).items) :
    r ∈ rows ∧ Beyond key cursor r := by
  rw [slice_items] at h
  exact mem_window.mp (List.mem_of_mem_take h)

theorem slice_strict (limit : ℕ) (cursor : Option κ) (hd : (rows.map key).Nodup) :
    (slice key limit cursor rows).items.Pairwise fun a b ↦ key a < key b := by
  rw [slice_items]
  exact (window_strict cursor hd).sublist (List.take_sublist ..)

/-- What is left for later pages comes after this page. -/
theorem slice_lt_rest (hd : (rows.map key).Nodup) (hp : p ∈ (slice key limit cursor rows).items)
    (hr : r ∈ (window key cursor rows).drop limit) : key p < key r := by
  have hstrict := window_strict cursor hd
  rw [← List.take_append_drop limit (window key cursor rows), List.pairwise_append] at hstrict
  rw [slice_items] at hp
  exact hstrict.2.2 p hp r hr

/-- A row beyond the cursor is on the page or left for later ones. -/
theorem mem_slice_or_rest (limit : ℕ) (hr : r ∈ rows) (hbeyond : Beyond key cursor r) :
    r ∈ (slice key limit cursor rows).items ∨ r ∈ (window key cursor rows).drop limit := by
  rw [slice_items, ← List.mem_append, List.take_append_drop]
  exact mem_window.mpr ⟨hr, hbeyond⟩

/-- A page announces another one exactly when a row beyond it is there. -/
theorem slice_more_iff (hd : (rows.map key).Nodup) :
    (slice key limit cursor rows).more = true ↔
      ∃ r ∈ rows, Beyond key cursor r ∧
        ∀ p ∈ (slice key limit cursor rows).items, key p < key r := by
  constructor
  · intro hmore
    have hlt := slice_more.mp hmore
    have hdrop : (window key cursor rows).drop limit ≠ [] := by simpa using hlt
    obtain ⟨r, hr⟩ := List.exists_mem_of_ne_nil _ hdrop
    obtain ⟨hmem, hbeyond⟩ := mem_window.mp (List.mem_of_mem_drop hr)
    exact ⟨r, hmem, hbeyond, fun p hp ↦ slice_lt_rest hd hp hr⟩
  · rintro ⟨r, hmem, hbeyond, hlt⟩
    rw [slice_more]
    rcases mem_slice_or_rest limit hmem hbeyond with hr | hr
    · exact absurd (hlt r hr) (lt_irrefl _)
    · simpa using List.ne_nil_of_mem hr

/-- A page that announces no other one has all rows beyond the cursor. -/
theorem mem_slice_of_last (hd : (rows.map key).Nodup)
    (hmore : (slice key limit cursor rows).more = false) (hr : r ∈ rows)
    (hbeyond : Beyond key cursor r) : r ∈ (slice key limit cursor rows).items := by
  rcases mem_slice_or_rest limit hr hbeyond with hitem | hrest
  · exact hitem
  · have hmore' := (slice_more_iff hd).mpr ⟨r, hr, hbeyond, fun p hp ↦ slice_lt_rest hd hp hrest⟩
    rw [hmore] at hmore'
    cases hmore'

/-- A page that announces another one is full. -/
theorem slice_length_of_more (hmore : (slice key limit cursor rows).more = true) :
    (slice key limit cursor rows).items.length = limit := by
  rw [slice_items, List.length_take_of_le (slice_more.mp hmore).le]

/-- The next cursor is the key of a row of the page that no row of it exceeds. -/
theorem slice_next (hlimit : 1 ≤ limit) (hd : (rows.map key).Nodup)
    (hmore : (slice key limit cursor rows).more = true) :
    ∃ p ∈ (slice key limit cursor rows).items,
      (slice key limit cursor rows).next key = some (key p) ∧
        ∀ q ∈ (slice key limit cursor rows).items, key q ≤ key p := by
  have hne : (slice key limit cursor rows).items ≠ [] := by
    have hlt := slice_more.mp hmore
    rw [slice_items, ← List.length_pos_iff, List.length_take]
    omega
  refine ⟨_, List.getLast_mem hne, ?_, fun q hq ↦ ?_⟩
  · rw [Slice.next, if_pos hmore, List.getLast?_eq_some_getLast hne, Option.map_some]
  · have hstrict := slice_strict limit cursor hd
    rw [← List.dropLast_append_getLast hne] at hq hstrict
    rcases List.mem_append.mp hq with hq | hq
    · exact ((List.pairwise_append.mp hstrict).2.2 q hq _ (List.mem_singleton_self _)).le
    · rw [List.mem_singleton.mp hq]

theorem slice_next_eq_none (hlimit : 1 ≤ limit) (hd : (rows.map key).Nodup) :
    (slice key limit cursor rows).next key = none ↔ (slice key limit cursor rows).more = false := by
  constructor
  · intro hnone
    cases hmore : (slice key limit cursor rows).more with
    | false => rfl
    | true =>
        obtain ⟨p, -, hnext, -⟩ := slice_next hlimit hd hmore
        rw [hnone] at hnext
        cases hnext
  · intro hmore
    rw [Slice.next, hmore]
    rfl

/-- Behind the last row of a page is what the page has left. -/
theorem window_next (hd : (rows.map key).Nodup) (hp : p ∈ (slice key limit cursor rows).items)
    (hle : ∀ q ∈ (slice key limit cursor rows).items, key q ≤ key p) :
    window key (some (key p)) rows = (window key cursor rows).drop limit := by
  have hirrefl : Std.Irrefl fun a b : ρ ↦ key a < key b := ⟨fun a ↦ lt_irrefl (key a)⟩
  refine List.Pairwise.eq_of_mem_iff (window_strict _ hd)
    ((window_strict cursor hd).sublist (List.drop_sublist limit _)) fun r ↦
      ⟨fun hr ↦ ?_, fun hr ↦ ?_⟩
  · obtain ⟨hr, hlt⟩ := mem_window.mp hr
    have hlt : key p < key r := beyond_some.mp hlt
    refine (mem_slice_or_rest limit hr ((mem_of_mem_slice hp).2.trans hlt)).resolve_left fun h ↦ ?_
    exact absurd hlt (not_lt.mpr (hle r h))
  · refine mem_window.mpr ⟨(mem_window.mp (List.mem_of_mem_drop hr)).1, ?_⟩
    exact beyond_some.mpr (slice_lt_rest hd hp hr)

/-! ## A walk -/

theorem walk_cons (later : List (List ρ)) : walk key limit cursor (rows :: later) =
    slice key limit cursor rows :: match (slice key limit cursor rows).next key with
      | none => []
      | some k => walk key limit (some k) later := rfl

/-- A walk stops at a page without a next one. -/
theorem walk_cons_of_last (hlimit : 1 ≤ limit) (hd : (rows.map key).Nodup)
    (hmore : (slice key limit cursor rows).more = false) (later : List (List ρ)) :
    walk key limit cursor (rows :: later) = [slice key limit cursor rows] := by
  rw [walk_cons, (slice_next_eq_none hlimit hd).mpr hmore]

/-- A walk goes on from the last row of a page that announces another one. -/
theorem walk_cons_of_more (hlimit : 1 ≤ limit) (hd : (rows.map key).Nodup)
    (hmore : (slice key limit cursor rows).more = true) (later : List (List ρ)) :
    ∃ p ∈ (slice key limit cursor rows).items,
      (∀ q ∈ (slice key limit cursor rows).items, key q ≤ key p) ∧
        walk key limit cursor (rows :: later) =
          slice key limit cursor rows :: walk key limit (some (key p)) later := by
  obtain ⟨p, hp, hnext, hle⟩ := slice_next hlimit hd hmore
  exact ⟨p, hp, hle, by rw [walk_cons, hnext]⟩

/-- The two ways a walk begins. -/
theorem walk_cons_cases (cursor : Option κ) (hlimit : 1 ≤ limit) (hd : (rows.map key).Nodup)
    (later : List (List ρ)) :
    ((slice key limit cursor rows).more = false ∧
        walk key limit cursor (rows :: later) = [slice key limit cursor rows]) ∨
      ((slice key limit cursor rows).more = true ∧
        ∃ p ∈ (slice key limit cursor rows).items,
          (∀ q ∈ (slice key limit cursor rows).items, key q ≤ key p) ∧
            walk key limit cursor (rows :: later) =
              slice key limit cursor rows :: walk key limit (some (key p)) later) := by
  cases hmore : (slice key limit cursor rows).more with
  | false => exact Or.inl ⟨rfl, walk_cons_of_last hlimit hd hmore later⟩
  | true => exact Or.inr ⟨rfl, walk_cons_of_more hlimit hd hmore later⟩

variable {snaps : List (List ρ)}

/-- The pages of a walk are slices of its snapshots. -/
theorem mem_walk {s : Slice ρ} (hlimit : 1 ≤ limit) (hd : ∀ rows ∈ snaps, (rows.map key).Nodup)
    (hs : s ∈ walk key limit cursor snaps) :
    ∃ rows ∈ snaps, ∃ cursor', s = slice key limit cursor' rows := by
  induction snaps generalizing cursor with
  | nil => simp [walk] at hs
  | cons rows later ih =>
      obtain ⟨hrows, hlater⟩ := List.forall_mem_cons.mp hd
      rcases walk_cons_cases cursor hlimit hrows later with ⟨-, heq⟩ | ⟨-, p, -, -, heq⟩
      · rw [heq, List.mem_singleton] at hs
        exact ⟨rows, List.mem_cons_self, cursor, hs⟩
      · rw [heq, List.mem_cons] at hs
        rcases hs with rfl | hs
        · exact ⟨rows, List.mem_cons_self, cursor, rfl⟩
        · obtain ⟨rows', hrows', hslice⟩ := ih hlater hs
          exact ⟨rows', List.mem_cons_of_mem _ hrows', hslice⟩

/-- A page of a walk lacks a next cursor exactly when it announces no other page. -/
theorem walk_next_eq_none {s : Slice ρ} (hlimit : 1 ≤ limit)
    (hd : ∀ rows ∈ snaps, (rows.map key).Nodup) (hs : s ∈ walk key limit cursor snaps) :
    s.next key = none ↔ s.more = false := by
  obtain ⟨rows, hrows, cursor', rfl⟩ := mem_walk hlimit hd hs
  exact slice_next_eq_none hlimit (hd rows hrows)

/-- A walk returns rows beyond its cursor. -/
theorem walk_beyond (hlimit : 1 ≤ limit) (hd : ∀ rows ∈ snaps, (rows.map key).Nodup)
    (hr : r ∈ (walk key limit cursor snaps).flatMap Slice.items) :
    (∃ rows ∈ snaps, r ∈ rows) ∧ Beyond key cursor r := by
  induction snaps generalizing cursor with
  | nil => simp [walk] at hr
  | cons rows later ih =>
      obtain ⟨hrows, hlater⟩ := List.forall_mem_cons.mp hd
      have hhere : r ∈ (slice key limit cursor rows).items →
          (∃ rows' ∈ rows :: later, r ∈ rows') ∧ Beyond key cursor r := fun h ↦
        ⟨⟨rows, List.mem_cons_self, (mem_of_mem_slice h).1⟩, (mem_of_mem_slice h).2⟩
      rcases walk_cons_cases cursor hlimit hrows later with
        ⟨-, heq⟩ | ⟨-, p, hp, -, heq⟩
      · rw [heq, List.flatMap_singleton] at hr
        exact hhere hr
      · rw [heq, List.flatMap_cons, List.mem_append] at hr
        rcases hr with hr | hr
        · exact hhere hr
        · obtain ⟨⟨rows', hrows', hmem⟩, hbeyond⟩ := ih hlater hr
          exact ⟨⟨rows', List.mem_cons_of_mem _ hrows', hmem⟩,
            (mem_of_mem_slice hp).2.trans (beyond_some.mp hbeyond)⟩

/-- **A walk returns rows in strictly increasing order.** -/
theorem walk_strict (hlimit : 1 ≤ limit) (hd : ∀ rows ∈ snaps, (rows.map key).Nodup) :
    ((walk key limit cursor snaps).flatMap Slice.items).Pairwise fun a b ↦ key a < key b := by
  induction snaps generalizing cursor with
  | nil => simp [walk]
  | cons rows later ih =>
      obtain ⟨hrows, hlater⟩ := List.forall_mem_cons.mp hd
      rcases walk_cons_cases cursor hlimit hrows later with
        ⟨-, heq⟩ | ⟨-, p, -, hle, heq⟩
      · rw [heq, List.flatMap_singleton]
        exact slice_strict limit cursor hrows
      · rw [heq, List.flatMap_cons, List.pairwise_append]
        refine ⟨slice_strict limit cursor hrows, ih hlater, fun q hq r hr ↦ ?_⟩
        exact (hle q hq).trans_lt (beyond_some.mp (walk_beyond hlimit hlater hr).2)

/-- **A page announces another one exactly when one is there**: a row of its
snapshot beyond everything returned so far. -/
theorem walk_more (hlimit : 1 ≤ limit) (hd : ∀ rows ∈ snaps, (rows.map key).Nodup) {i : ℕ}
    {s : Slice ρ} (hs : (walk key limit cursor snaps)[i]? = some s)
    (hrows : snaps[i]? = some rows) :
    s.more = true ↔ ∃ r ∈ rows, Beyond key cursor r ∧
      ∀ p ∈ ((walk key limit cursor snaps).take (i + 1)).flatMap Slice.items, key p < key r := by
  induction snaps generalizing cursor i with
  | nil => simp at hrows
  | cons first later ih =>
      obtain ⟨hfirst, hlater⟩ := List.forall_mem_cons.mp hd
      cases i with
      | zero =>
          obtain rfl : slice key limit cursor first = s := by simpa [walk_cons] using hs
          obtain rfl : first = rows := by simpa using hrows
          simpa [walk_cons] using slice_more_iff hfirst
      | succ i =>
          rcases walk_cons_cases cursor hlimit hfirst later with
            ⟨hmore, heq⟩ | ⟨hmore, p, hp, hle, heq⟩
          · rw [heq] at hs
            simp at hs
          · rw [heq, List.getElem?_cons_succ] at hs
            rw [List.getElem?_cons_succ] at hrows
            rw [heq, ih hlater hs hrows]
            simp only [List.take_succ_cons, List.flatMap_cons, List.mem_append]
            constructor
            · rintro ⟨r, hr, hbeyond, hlt⟩
              rw [beyond_some] at hbeyond
              refine ⟨r, hr, (mem_of_mem_slice hp).2.trans hbeyond, fun q hq ↦ ?_⟩
              rcases hq with hq | hq
              · exact (hle q hq).trans_lt hbeyond
              · exact hlt q hq
            · rintro ⟨r, hr, -, hlt⟩
              exact ⟨r, hr, beyond_some.mpr (hlt p (Or.inl hp)), fun q hq ↦ hlt q (Or.inr hq)⟩

theorem Finished.cons {s : Slice ρ} {pages : List (Slice ρ)} (h : Finished pages) :
    Finished (s :: pages) := by
  obtain ⟨l, hl, hmore⟩ := h
  refine ⟨l, ?_, hmore⟩
  rw [List.getLast?_cons, hl]
  rfl

theorem finished_singleton {s : Slice ρ} : Finished [s] ↔ s.more = false := by
  simp [Finished]

/-- What a finished walk does after a page that announces another one. -/
theorem Finished.of_cons {s : Slice ρ} {pages : List (Slice ρ)} (h : Finished (s :: pages))
    (hmore : s.more = true) : Finished pages := by
  obtain ⟨l, hl, hlast⟩ := h
  cases pages with
  | nil =>
      obtain rfl : s = l := by simpa using hl
      rw [hmore] at hlast
      cases hlast
  | cons q pages => exact ⟨l, by rwa [List.getLast?_cons_cons] at hl, hlast⟩

theorem not_finished_nil : ¬ Finished ([] : List (Slice ρ)) := by simp [Finished]

/-- A page without a next one has every row beyond its cursor. -/
theorem mem_last (hmore : (slice key limit cursor rows).more = false) (hr : r ∈ rows)
    (hbeyond : Beyond key cursor r) : r ∈ (slice key limit cursor rows).items := by
  rcases mem_slice_or_rest limit hr hbeyond with h | h
  · exact h
  · have hlt : limit < (window key cursor rows).length := by simpa using List.ne_nil_of_mem h
    rw [slice_more.mpr hlt] at hmore
    cases hmore

/-- **A finished walk has returned every row of the first snapshot** beyond its
cursor, whatever has been inserted since. -/
theorem walk_complete (hlimit : 1 ≤ limit) {later : List (List ρ)}
    (hd : ∀ rows' ∈ rows :: later, (rows'.map key).Nodup)
    (hgrow : (rows :: later).Pairwise (· ⊆ ·))
    (hfin : Finished (walk key limit cursor (rows :: later))) (hr : r ∈ rows)
    (hbeyond : Beyond key cursor r) :
    r ∈ (walk key limit cursor (rows :: later)).flatMap Slice.items := by
  induction later generalizing cursor rows with
  | nil =>
      rcases walk_cons_cases cursor hlimit (hd rows List.mem_cons_self) [] with
        ⟨hmore, heq⟩ | ⟨hmore, p, -, -, heq⟩
      · rw [heq, List.flatMap_singleton]
        exact mem_last hmore hr hbeyond
      · rw [heq] at hfin
        exact absurd (hfin.of_cons hmore) not_finished_nil
  | cons rows' later ih =>
      have hrows := hd rows List.mem_cons_self
      rcases walk_cons_cases cursor hlimit hrows (rows' :: later) with
        ⟨hmore, heq⟩ | ⟨hmore, p, hp, -, heq⟩
      · rw [heq, List.flatMap_singleton]
        exact mem_last hmore hr hbeyond
      · rw [heq] at hfin ⊢
        rw [List.flatMap_cons, List.mem_append]
        obtain ⟨hsub, hgrow'⟩ := List.pairwise_cons.mp hgrow
        refine (mem_slice_or_rest limit hr hbeyond).imp id fun hrest ↦ ?_
        exact ih (fun q hq ↦ hd q (List.mem_cons_of_mem _ hq)) hgrow' (hfin.of_cons hmore)
          (hsub rows' List.mem_cons_self hr) (beyond_some.mpr (slice_lt_rest hrows hp hrest))

/-- After a page that announces another one, less is left. -/
theorem window_length_lt (hp : p ∈ rows) (hbeyond : Beyond key cursor p) :
    (window key (some (key p)) rows).length < (window key cursor rows).length := by
  have hsub : rows.filter (fun r ↦ Beyond key (some (key p)) r) =
      (rows.filter fun r ↦ Beyond key cursor r).filter fun r ↦ Beyond key (some (key p)) r := by
    rw [List.filter_filter]
    refine List.filter_congr fun r _ ↦ ?_
    have himp : key p < key r → Beyond key cursor r := fun h ↦ hbeyond.trans h
    simp only [beyond_some, ← Bool.decide_and, decide_eq_decide]
    exact ⟨fun h ↦ ⟨h, himp h⟩, fun h ↦ h.1⟩
  simp only [window, List.length_mergeSort]
  rw [hsub, List.length_filter_lt_length_iff_exists]
  exact ⟨p, by simpa using ⟨hp, hbeyond⟩, by simp⟩

theorem walk_replicate_finished (hlimit : 1 ≤ limit) (hd : (rows.map key).Nodup) {n : ℕ}
    (hn : (window key cursor rows).length < n) :
    Finished (walk key limit cursor (List.replicate n rows)) := by
  induction n generalizing cursor with
  | zero => omega
  | succ n ih =>
      rw [List.replicate_succ]
      rcases walk_cons_cases cursor hlimit hd (List.replicate n rows) with
        ⟨hmore, heq⟩ | ⟨-, p, hp, -, heq⟩
      · rw [heq, finished_singleton, hmore]
      · rw [heq]
        obtain ⟨hmem, hbeyond⟩ := mem_of_mem_slice hp
        have hlt := window_length_lt hmem hbeyond
        exact (ih (by omega)).cons

/-- **A walk ends** once no more rows are inserted, after at most as many queries
as there are rows. -/
theorem walk_finishes (hlimit : 1 ≤ limit) (hd : ∀ rows' ∈ rows :: snaps, (rows'.map key).Nodup)
    {n : ℕ} (hn : rows.length < n) :
    Finished (walk key limit cursor (snaps ++ List.replicate n rows)) := by
  induction snaps generalizing cursor with
  | nil =>
      exact walk_replicate_finished hlimit (hd rows List.mem_cons_self)
        (window_length_le.trans_lt hn)
  | cons first later ih =>
      have hfirst := hd first (List.mem_cons_of_mem _ List.mem_cons_self)
      rw [List.cons_append]
      rcases walk_cons_cases cursor hlimit hfirst (later ++ List.replicate n rows) with
        ⟨hmore, heq⟩ | ⟨-, p, -, -, heq⟩
      · rw [heq, finished_singleton, hmore]
      · rw [heq]
        refine (ih fun q hq ↦ hd q ?_).cons
        rcases List.mem_cons.mp hq with rfl | hq
        · exact List.mem_cons_self
        · exact List.mem_cons_of_mem _ (List.mem_cons_of_mem _ hq)

end Chatterbox.Keyset
