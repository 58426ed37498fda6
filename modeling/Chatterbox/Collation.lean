import Chatterbox.Digits
import Mathlib.Order.Compare

/-!
# Comparing texts character by character

A text is compared with another by its first different character, and a text with its
continuations.  What a character counts is given by a `Collation`: all it has to do
is to put the full stop before the digits, the digits before the letters and both into
their usual order.

Numbers that are written with the same number of digits compare as the numbers do
(`compare_digits`).  Everything follows from one fact about comparisons: what compares
by a first component, and among equal ones by a second, compares as `then` says
(`compare_eq_then`).
-/

namespace Chatterbox

/-! ## Lexicographic comparison -/

section Compare

variable {α β γ : Type*} [LinearOrder α] [LinearOrder β]

/-- A comparison that a first component decides, and among equal ones another comparison. -/
theorem compare_eq_then {a a' : α} {n n' : β} {o : Ordering} (hlt : a < a' → n < n')
    (hgt : a' < a → n' < n) (heq : a = a' → compare n n' = o) :
    compare n n' = (compare a a').then o := by
  rcases lt_trichotomy a a' with h | h | h
  · rw [compare_lt_iff_lt.mpr h, compare_lt_iff_lt.mpr (hlt h)]
    rfl
  · rw [compare_eq_iff_eq.mpr h, heq h]
    rfl
  · rw [compare_gt_iff_gt.mpr h, compare_gt_iff_gt.mpr (hgt h)]
    rfl

/-- A strictly monotone function does not change a comparison. -/
theorem compare_strictMonoOn {f : α → β} {s : Set α} (hf : ∀ x ∈ s, ∀ y ∈ s, x < y → f x < f y)
    {a a' : α} (ha : a ∈ s) (ha' : a' ∈ s) : compare (f a) (f a') = compare a a' := by
  rw [compare_eq_then (hf a ha a' ha') (hf a' ha' a ha) fun h ↦ compare_eq_iff_eq.mpr (h ▸ rfl),
    Ordering.then_eq]

/-- Quotient first, then remainder. -/
theorem compare_mul_add {b m m' n n' : ℕ} (hn : n < b) (hn' : n' < b) :
    compare (m * b + n) (m' * b + n') = (compare m m').then (compare n n') := by
  have hlt : ∀ {i j k l : ℕ}, k < b → i < j → i * b + k < j * b + l := by
    intro i j k l hk hij
    calc i * b + k < (i + 1) * b := by rw [Nat.succ_mul]; omega
      _ ≤ j * b := Nat.mul_le_mul_right b hij
      _ ≤ j * b + l := Nat.le_add_right _ _
  refine compare_eq_then (hlt hn) (hlt hn') fun h ↦ ?_
  subst h
  exact compare_strictMonoOn (s := Set.univ) (fun _ _ _ _ h ↦ Nat.add_lt_add_left h _) trivial
    trivial

/-- Texts whose first parts have the same length. -/
theorem compareLex_append {cmp : γ → γ → Ordering} {a a' : List γ} (h : a.length = a'.length)
    (b b' : List γ) : (a ++ b).compareLex cmp (a' ++ b') =
      (a.compareLex cmp a').then (b.compareLex cmp b') := by
  induction a generalizing a' with
  | nil =>
      obtain rfl := List.length_eq_zero_iff.mp h.symm
      rw [List.compareLex_nil_nil]
      rfl
  | cons x a ih =>
      cases a' with
      | nil => cases h
      | cons x' a' =>
          rw [List.cons_append, List.cons_append, List.compareLex_cons_cons,
            List.compareLex_cons_cons, ih (Nat.succ.inj h), Ordering.then_assoc]

end Compare

/-! ## Collations -/

/-- What the characters count. -/
structure Collation where
  weight : Char → ℕ
  injective : Function.Injective weight
  /-- The decimal digits are in order, and the letters a to f behind them. -/
  digit : ∀ m n, m < n → n < 16 → weight (Nat.digitChar m) < weight (Nat.digitChar n)
  stop : ∀ n, n < 10 → weight '.' < weight (Nat.digitChar n)
  letter : ∀ n, n < 10 → weight (Nat.digitChar n) < weight 'Z'

namespace Collation

/-- The order of the ASCII table. -/
def ascii : Collation where
  weight := Char.toNat
  injective _ _ := Char.toNat_inj.mp
  digit m n hmn hn := by
    have hall : ∀ i j : Fin 16, i < j → (Nat.digitChar i).toNat < (Nat.digitChar j).toNat := by
      decide
    exact hall ⟨m, hmn.trans hn⟩ ⟨n, hn⟩ hmn
  stop n hn := by
    have hall : ∀ i : Fin 10, '.'.toNat < (Nat.digitChar i).toNat := by decide
    exact hall ⟨n, hn⟩
  letter n hn := by
    have hall : ∀ i : Fin 10, (Nat.digitChar i).toNat < 'Z'.toNat := by decide
    exact hall ⟨n, hn⟩

variable (c : Collation)

/-- The comparison of texts. -/
def collate (a b : List Char) : Ordering := a.compareLex (compareOn c.weight) b

instance : Std.TransCmp c.collate := inferInstanceAs (Std.TransCmp (List.compareLex _))

@[simp] theorem collate_self (a : List Char) : c.collate a a = .eq := Std.ReflCmp.compare_self

/-- Different texts compare as different. -/
theorem collate_eq_eq {a b : List Char} : c.collate a b = .eq ↔ a = b := by
  have : Std.LawfulEqCmp (compareOn c.weight) :=
    { compare_self := Std.ReflCmp.compare_self
      eq_of_compare := fun h ↦ c.injective (compare_eq_iff_eq.mp h) }
  have : Std.LawfulEqCmp c.collate := inferInstanceAs (Std.LawfulEqCmp (List.compareLex _))
  exact Std.LawfulEqCmp.compare_eq_iff_eq

theorem collate_append {a a' : List Char} (h : a.length = a'.length) (b b' : List Char) :
    c.collate (a ++ b) (a' ++ b') = (c.collate a a').then (c.collate b b') :=
  compareLex_append h b b'

/-- A character that two texts share. -/
@[simp] theorem collate_cons (x : Char) (a b : List Char) :
    c.collate (x :: a) (x :: b) = c.collate a b := by
  have h : c.collate ([x] ++ a) ([x] ++ b) = _ := c.collate_append rfl a b
  rwa [collate_self] at h

theorem collate_of_gt {x y : Char} (h : c.weight y < c.weight x) (a b : List Char) :
    c.collate (x :: a) (y :: b) = .gt := by
  rw [collate, List.compareLex_cons_cons, compareOn, compare_gt_iff_gt.mpr h]
  rfl

/-- The full stop comes before the letter that ends a text. -/
theorem stop_lt_letter : c.weight '.' < c.weight 'Z' :=
  (c.stop 0 (by decide)).trans (c.letter 0 (by decide))

end Collation

/-! ## Numbers -/

/-- **Numbers of one width compare as numbers.** -/
theorem Collation.collate_digits (c : Collation) {base width m n : ℕ} (hpos : 0 < base)
    (hbase : base ≤ 16) (hm : m < base ^ width) (hn : n < base ^ width) :
    c.collate (digits base width m) (digits base width n) = compare m n := by
  induction width generalizing m n with
  | zero =>
      obtain rfl : m = 0 := Nat.lt_one_iff.mp hm
      obtain rfl : n = 0 := Nat.lt_one_iff.mp hn
      rfl
  | succ width ih =>
      have hlast : ∀ k, k % base < base := fun k ↦ Nat.mod_lt k hpos
      have hinit : ∀ {k}, k < base ^ (width + 1) → k / base < base ^ width := fun hk ↦
        Nat.div_lt_of_lt_mul (hk.trans_eq (Nat.pow_succ'))
      have hdigit : c.collate [Nat.digitChar (m % base)] [Nat.digitChar (n % base)] =
          compare (m % base) (n % base) := by
        rw [Collation.collate, List.compareLex_cons_cons, List.compareLex_nil_nil,
          Ordering.then_eq, compareOn]
        refine compare_strictMonoOn (f := fun k ↦ c.weight (Nat.digitChar k)) (s := Set.Iio base)
          (fun i _ j hj hij ↦ c.digit i j hij (Nat.lt_of_lt_of_le hj hbase)) (hlast m) (hlast n)
      rw [digits, digits, c.collate_append ((length_digits ..).trans (length_digits ..).symm),
        ih (hinit hm) (hinit hn), hdigit, ← compare_mul_add (hlast m) (hlast n),
        Nat.div_add_mod', Nat.div_add_mod']

end Chatterbox
