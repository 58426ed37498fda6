import Mathlib.Data.List.Lex
import Mathlib.Data.List.Sort

/-!
# Sorting by the last change

Rows have an identifier and the time of their last change.  As long as every change is later
than all before it, the order of the times, the latest first, is a list whose elements are
moved to the front when they change (`touch`), and any sort that goes by the times first finds
it (`Ranked.map_mergeSort`).
-/

namespace Chatterbox.Recency

variable {α β κ : Type*} [DecidableEq β]

/-- Move an element to the front, or put it there. -/
def touch (b : β) (order : List β) : List β := b :: order.filter (· ≠ b)

theorem nodup_touch {order : List β} (h : order.Nodup) (b : β) : (touch b order).Nodup :=
  List.nodup_cons.mpr ⟨fun hmem ↦ of_decide_eq_true (List.mem_filter.mp hmem).2 rfl, h.filter _⟩

variable [LinearOrder κ] (id : α → β) (time : α → κ)

/-- The identifiers of the rows, which are different, those of the latest first. -/
def Ranked (rows : List α) (order : List β) : Prop :=
  order.Nodup ∧ ∃ sorted : List α, sorted.Perm rows ∧ sorted.map id = order ∧
    sorted.Pairwise fun x y ↦ time y < time x

variable {id time} {rows : List α} {order : List β}

omit [DecidableEq β] in
theorem Ranked.nil : Ranked id time [] [] :=
  ⟨List.nodup_nil, [], .refl _, rfl, .nil⟩

/-- A row that is later than all others. -/
theorem Ranked.cons (h : Ranked id time rows order) {x : α} (hid : ∀ y ∈ rows, id y ≠ id x)
    (htime : ∀ y ∈ rows, time y < time x) : Ranked id time (x :: rows) (touch (id x) order) := by
  obtain ⟨hnodup, sorted, hperm, rfl, hsorted⟩ := h
  refine ⟨nodup_touch hnodup _, x :: sorted, hperm.cons x, ?_, ?_⟩
  · have hall : (sorted.map id).filter (· ≠ id x) = sorted.map id := by
      refine List.filter_eq_self.mpr fun b hb ↦ ?_
      obtain ⟨y, hy, rfl⟩ := List.mem_map.mp hb
      exact decide_eq_true (hid y (hperm.mem_iff.mp hy))
    rw [List.map_cons, touch, hall]
  · exact List.pairwise_cons.mpr ⟨fun y hy ↦ htime y (hperm.mem_iff.mp hy), hsorted⟩

/-- A row that is changed, and is later than all others then. -/
theorem Ranked.update (h : Ranked id time rows order) {x : α} (hx : x ∈ rows) {f : α → α}
    (hid : ∀ y, id (f y) = id y) (htime : ∀ y ∈ rows, time y < time (f x)) :
    Ranked id time (rows.map fun y ↦ if id y = id x then f y else y) (touch (id x) order) := by
  obtain ⟨hnodup, sorted, hperm, rfl, hsorted⟩ := h
  have hself : sorted.filter (fun y ↦ id y = id x) = [x] := by
    have hmem : ∀ y, y ∈ sorted.filter (fun y ↦ id y = id x) ↔ y = x := by
      intro y
      rw [List.mem_filter, decide_eq_true_eq]
      constructor
      · rintro ⟨hy, hsame⟩
        exact List.inj_on_of_nodup_map hnodup hy (hperm.mem_iff.mpr hx) hsame
      · rintro rfl
        exact ⟨hperm.mem_iff.mpr hx, rfl⟩
    have hfilter : (sorted.filter fun y ↦ id y = id x).Nodup := hnodup.of_map.filter _
    refine List.perm_singleton.mp ?_
    exact (List.perm_ext_iff_of_nodup hfilter (List.nodup_singleton x)).mpr fun y ↦
      (hmem y).trans List.mem_singleton.symm
  refine ⟨nodup_touch hnodup _, f x :: sorted.filter (id · ≠ id x), ?_, ?_, ?_⟩
  · -- The rows are those with the identifier, which is one, and those without.
    have hsplit : (sorted.filter (fun y ↦ id y = id x) ++ sorted.filter (id · ≠ id x)).Perm
        sorted := by
      simpa using List.filter_append_perm (fun y ↦ decide (id y = id x)) sorted
    have hmap := (hsplit.trans hperm).map fun y ↦ if id y = id x then f y else y
    have hrest : (sorted.filter (id · ≠ id x)).map (fun y ↦ if id y = id x then f y else y) =
        sorted.filter (id · ≠ id x) := by
      refine (List.map_congr_left fun y hy ↦ ?_).trans (List.map_id _)
      exact if_neg (of_decide_eq_true (List.mem_filter.mp hy).2)
    rwa [hself, List.singleton_append, List.map_cons, if_pos rfl, hrest] at hmap
  · rw [List.map_cons, hid, touch, List.filter_map]
    rfl
  · refine List.pairwise_cons.mpr ⟨fun y hy ↦ ?_, hsorted.filter _⟩
    exact htime y (hperm.mem_iff.mp (List.mem_of_mem_filter hy))

omit [DecidableEq β] in
/-- **A sort by the times finds the order**, also of some of the rows. -/
theorem Ranked.map_mergeSort (h : Ranked id time rows order) {le : α → α → Bool}
    (hle : ∀ x y, le x y → time y ≤ time x)
    (htrans : ∀ x y z, le x y → le y z → le x z) (htotal : ∀ x y, le x y || le y x)
    (p : β → Bool) :
    ((rows.filter fun x ↦ p (id x)).mergeSort le).map id = order.filter p := by
  obtain ⟨-, sorted, hperm, rfl, hsorted⟩ := h
  have hfilter : (sorted.filter fun x ↦ p (id x)).Perm
      ((rows.filter fun x ↦ p (id x)).mergeSort le) :=
    (hperm.filter _).trans (List.mergeSort_perm _ _).symm
  have hne : ((rows.filter fun x ↦ p (id x)).mergeSort le).Pairwise fun x y ↦ time x ≠ time y := by
    refine hfilter.pairwise ((hsorted.filter _).imp fun h ↦ ne_of_gt h) fun h ↦ h.symm
  have hstrict : ((rows.filter fun x ↦ p (id x)).mergeSort le).Pairwise fun x y ↦
      time y < time x := by
    refine ((List.pairwise_mergeSort htrans htotal _).and hne).imp ?_
    rintro x y ⟨hxy, hxy'⟩
    exact lt_of_le_of_ne (hle x y hxy) hxy'.symm
  have hsame : (rows.filter fun x ↦ p (id x)).mergeSort le = sorted.filter fun x ↦ p (id x) :=
    List.Perm.eq_of_pairwise (fun _ _ _ _ hxy hyx ↦ absurd hxy (lt_asymm hyx)) hstrict
      (hsorted.filter _) hfilter.symm
  rw [hsame, List.filter_map]
  rfl

end Chatterbox.Recency
