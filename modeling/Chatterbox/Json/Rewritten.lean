import Chatterbox.Json.Dumps

/-!
# What has been read can be written

`json.loads` and `json.dumps` have the same limits: integers of more digits are neither read nor
written, and neither are arrays and objects that lie deeper in each other.  So a value that has been
read is one that can be written (`fault_of_loads`), and a part of one can be written in a place that
is not deeper than its own.
-/

namespace Chatterbox.Json

variable {F α : Type} {fl : Floats F} {lim : Limits} {digits : ℕ} {s t : Text} {v : Value F}

/-! ## Numbers -/

/-- A text of digits is less than the power of ten for its length. -/
theorem ofDigitChars_lt (h : ∀ c ∈ s, c.isDigit) (n : ℕ) :
    Nat.ofDigitChars 10 s n < (n + 1) * 10 ^ s.length := by
  induction s generalizing n with
  | nil => simp
  | cons c s ih =>
      have hc : c.toNat - '0'.toNat < 10 := by
        have hbounds := Char.isDigit_iff_toNat.mp (h c (.head _))
        have hzero : '0'.toNat = 48 := rfl
        have hnine : '9'.toNat = 57 := rfl
        omega
      have hrest := ih (fun d hd ↦ h d (.tail _ hd)) (10 * n + (c.toNat - '0'.toNat))
      rw [Nat.ofDigitChars_cons, List.length_cons, Nat.pow_succ', ← Nat.mul_assoc]
      exact Nat.lt_of_lt_of_le hrest (Nat.mul_le_mul_right _ (by omega))

theorem of_scanInteger {integer : Text} (h : scanInteger s = some (integer, t)) :
    integer ≠ [] ∧ ∀ c ∈ integer, c.isDigit := by
  rw [scanInteger] at h
  split at h
  · cases h
    exact ⟨List.cons_ne_nil _ _, by simp⟩
  · split at h
    · cases h
    · next hne =>
        cases h
        exact ⟨hne, List.all_eq_true.mp List.all_takeWhile⟩

/-- An integer that is read has no more digits than its text. -/
theorem length_toDigits_le {n : Number} (h : lexNumber s = some (n, t)) :
    (Nat.toDigits 10 n.int.natAbs).length ≤ n.integer.length := by
  obtain ⟨⟨integer, rest⟩, hscan, hpair⟩ := Option.map_eq_some_iff.mp h
  obtain ⟨hne, hdigits⟩ := of_scanInteger hscan
  obtain ⟨rfl, -⟩ := Prod.mk.inj hpair
  have habs : ∀ k : ℕ, (if s.head? = some '-' then -(k : ℤ) else k).natAbs = k := by
    intro k
    split
    · rw [Int.natAbs_neg, Int.natAbs_natCast]
    · exact Int.natAbs_natCast k
  rw [Nat.length_toDigits_le_iff (by decide) (List.length_pos_of_ne_nil hne)]
  have hlt := ofDigitChars_lt hdigits 0
  rw [Nat.zero_add, Nat.one_mul] at hlt
  simpa only [Number.int, decide_eq_true_eq, habs] using hlt

/-! ## Scalars -/

theorem fault_scanNumber (h : scanNumber fl lim s = .ok (v, t)) (depth : ℕ) :
    v.fault lim.digits depth = none := by
  rw [scanNumber] at h
  split at h
  · cases h
  · next n rest hlex =>
      split at h
      · cases h
        exact fault_float _
      · split at h
        · cases h
        · next hdigits =>
            cases h
            rw [Value.fault]
            exact if_neg (Nat.not_lt.mpr ((length_toDigits_le hlex).trans (Nat.not_lt.mp hdigits)))

theorem fault_scanScalar (h : scanScalar fl lim s = .ok (v, t)) (depth : ℕ) :
    v.fault lim.digits depth = none := by
  rw [scanScalar] at h
  split at h
  · next word v' hfind =>
      cases h
      have hmem := List.mem_of_find?_eq_some hfind
      simp only [constants, List.mem_cons, Prod.mk.injEq, List.not_mem_nil, or_false] at hmem
      rcases hmem with ⟨-, rfl⟩ | ⟨-, rfl⟩ | ⟨-, rfl⟩ | ⟨-, rfl⟩ | ⟨-, rfl⟩ | ⟨-, rfl⟩ <;>
        cases depth <;> rfl
  · exact fault_scanNumber h depth

/-! ## Arrays and objects -/

variable {close : Char} {item : Scan α} {xs : List α}

/-- What is in a sequence has been read as an item. -/
theorem of_mem_sequence {n : ℕ} (h : sequence close item n s = .ok (xs, t)) :
    ∀ x ∈ xs, ∃ s' t', item s' = .ok (x, t') := by
  induction n generalizing s xs t with
  | zero => cases h
  | succ n ih =>
      rw [sequence] at h
      obtain ⟨⟨x, u⟩, hx, h⟩ := bind_eq_ok.mp h
      dsimp only at h
      split at h
      · cases h
      · split_ifs at h
        · cases h
          intro y hy
          rw [List.mem_singleton.mp hy]
          exact ⟨s, u, hx⟩
        · obtain ⟨ys, hys, rfl⟩ := after_eq_ok.mp h
          exact List.forall_mem_cons.mpr ⟨⟨s, u, hx⟩, ih hys⟩

theorem of_mem_scanItems (h : scanItems close item s = .ok (xs, t)) :
    ∀ x ∈ xs, ∃ s' t', item s' = .ok (x, t') := by
  rw [scanItems] at h
  split at h
  · cases h
    exact fun x hx ↦ absurd hx List.not_mem_nil
  · exact of_mem_sequence h

theorem of_scanMember {value : Scan (Value F)} {m : Str × Value F}
    (h : scanMember value s = .ok (m, t)) : ∃ s' t', value s' = .ok (m.2, t') := by
  rw [scanMember] at h
  split at h
  · obtain ⟨⟨key, u⟩, -, h⟩ := bind_eq_ok.mp h
    dsimp only at h
    split at h
    · obtain ⟨w, hw, rfl⟩ := after_eq_ok.mp h
      exact ⟨_, _, hw⟩
    · cases h
  · cases h

/-- The values of a `dict` are those of its pairs. -/
theorem of_mem_dict {pairs : List (Str × α)} {m : Str × α} (h : m ∈ dict pairs) :
    ∃ p ∈ pairs, p.2 = m.2 := by
  have hfold : ∀ members : List (Str × α),
      m ∈ pairs.foldl (fun members p ↦ setItem members p.1 p.2) members →
        m ∈ members ∨ ∃ p ∈ pairs, p.2 = m.2 := by
    clear h
    induction pairs with
    | nil => exact fun members h ↦ .inl h
    | cons p pairs ih =>
        intro members h
        rw [List.foldl_cons] at h
        rcases ih _ h with h | ⟨q, hq, hvalue⟩
        · unfold setItem at h
          split at h
          · obtain ⟨q, hq, hset⟩ := List.mem_map.mp h
            split at hset
            · exact .inr ⟨p, .head _, by rw [← hset]⟩
            · exact .inl (hset ▸ hq)
          · rcases List.mem_append.mp h with h | h
            · exact .inl h
            · exact .inr ⟨p, .head _, by rw [List.mem_singleton.mp h]⟩
        · exact .inr ⟨q, .tail _ hq, hvalue⟩
  exact (hfold [] h).resolve_left List.not_mem_nil

/-! ## Values -/

theorem fault_scanWith {array object : Scan (Value F)} {depth : ℕ}
    (harray : ∀ s v t, array s = .ok (v, t) → v.fault lim.digits depth = none)
    (hobject : ∀ s v t, object s = .ok (v, t) → v.fault lim.digits depth = none)
    (h : scanWith fl lim array object s = .ok (v, t)) : v.fault lim.digits depth = none := by
  rw [scanWith] at h
  split at h
  · obtain ⟨u, -, rfl⟩ := after_eq_ok.mp h
    exact fault_str u
  · exact harray _ _ _ h
  · exact hobject _ _ _ h
  · exact fault_scanScalar h depth

theorem fault_scanOnce {depth : ℕ} (h : scanOnce fl lim depth s = .ok (v, t)) :
    v.fault lim.digits depth = none := by
  induction depth generalizing s v t with
  | zero => exact fault_scanWith (fun _ _ _ h ↦ by cases h) (fun _ _ _ h ↦ by cases h) h
  | succ depth ih =>
      rw [scanOnce] at h
      refine fault_scanWith (fun s v t h ↦ ?_) (fun s v t h ↦ ?_) h
      · obtain ⟨vs, hvs, rfl⟩ := after_eq_ok.mp h
        refine elementsFault_eq_none.mpr fun w hw ↦ ?_
        obtain ⟨s', t', hitem⟩ := of_mem_scanItems hvs w hw
        exact ih hitem
      · obtain ⟨pairs, hpairs, rfl⟩ := after_eq_ok.mp h
        refine membersFault_eq_none.mpr fun m hm ↦ ?_
        obtain ⟨p, hp, hvalue⟩ := of_mem_dict hm
        obtain ⟨s', t', hmember⟩ := of_mem_scanItems hpairs p hp
        obtain ⟨s'', t'', hitem⟩ := of_scanMember hmember
        rw [← hvalue]
        exact ih hitem

/-- **What has been read can be written.** -/
theorem fault_of_loads (h : loads fl lim s = .ok v) : v.fault lim.digits lim.depth = none := by
  obtain ⟨⟨w, rest⟩, hscan, hrest⟩ := bind_eq_ok.mp h
  dsimp only at hrest
  split at hrest
  · cases hrest
    exact fault_scanOnce hscan
  · cases hrest

end Chatterbox.Json
