import Mathlib.Algebra.Order.Ring.Nat
import Mathlib.Data.Char
import Mathlib.Data.List.Basic

/-!
# Numbers in digits

A number in a given number of digits, in a base that is not above 16.  The digits determine the
number (`digits_inj`), and each of them is one of `digitChars`.
-/

namespace Chatterbox

/-- A number in `width` digits. -/
def digits (base : ℕ) : ℕ → ℕ → List Char
  | 0, _ => []
  | width + 1, n => digits base width (n / base) ++ [Nat.digitChar (n % base)]

/-- The digits, from zero on. -/
def digitChars : List Char :=
  ['0', '1', '2', '3', '4', '5', '6', '7', '8', '9', 'a', 'b', 'c', 'd', 'e', 'f']

variable {base width m n : ℕ} {c : Char}

theorem digitChar_eq (hn : n < 16) : digitChars[n]? = some (Nat.digitChar n) := by
  have hall : ∀ i : Fin 16, digitChars[i.val]? = some (Nat.digitChar i) := by decide
  exact hall ⟨n, hn⟩

/-- Digits are told apart. -/
theorem digitChar_inj (hm : m < 16) (hn : n < 16) (h : Nat.digitChar m = Nat.digitChar n) :
    m = n := by
  have hall : ∀ i j : Fin 16, Nat.digitChar i = Nat.digitChar j → i = j := by decide
  exact congrArg Fin.val (hall ⟨m, hm⟩ ⟨n, hn⟩ h)

/-- A digit is one of those that there are in its base. -/
theorem digitChar_mem (hbase : base ≤ 16) (hn : n < base) :
    Nat.digitChar n ∈ digitChars.take base := by
  refine List.mem_of_getElem? (i := n) ?_
  rw [List.getElem?_take, if_pos hn, digitChar_eq (hn.trans_le hbase)]

theorem isDigit_digitChar (hn : n < 10) : (Nat.digitChar n).isDigit :=
  List.all_eq_true.mp (by decide : (digitChars.take 10).all Char.isDigit = true) _
    (digitChar_mem (by decide) hn)

theorem length_digits (base width n : ℕ) : (digits base width n).length = width := by
  induction width generalizing n with
  | zero => rfl
  | succ width ih => rw [digits, List.length_append, ih]; rfl

theorem mem_digits (hpos : 0 < base) (hbase : base ≤ 16) (hc : c ∈ digits base width n) :
    c ∈ digitChars.take base := by
  induction width generalizing n with
  | zero => cases hc
  | succ width ih =>
      rcases List.mem_append.mp hc with hc | hc
      · exact ih hc
      · rw [List.mem_singleton.mp hc]
        exact digitChar_mem hbase (Nat.mod_lt n hpos)

/-- Hexadecimal digits. -/
theorem mem_hexDigits (hc : c ∈ digits 16 width n) : c ∈ digitChars :=
  mem_digits (by decide) (by decide) hc

/-- Decimal digits. -/
theorem isDigit_of_mem_digits (hc : c ∈ digits 10 width n) : c.isDigit :=
  List.all_eq_true.mp (by decide : (digitChars.take 10).all Char.isDigit = true) _
    (mem_digits (by decide) (by decide) hc)

/-- **The digits determine the number.** -/
theorem digits_inj (hpos : 0 < base) (hbase : base ≤ 16) (hm : m < base ^ width)
    (hn : n < base ^ width) (h : digits base width m = digits base width n) : m = n := by
  induction width generalizing m n with
  | zero =>
      rw [Nat.pow_zero] at hm hn
      omega
  | succ width ih =>
      rw [digits, digits] at h
      obtain ⟨hinit, hlast⟩ := List.append_inj' h rfl
      have hlt : ∀ {k}, k < base ^ (width + 1) → k / base < base ^ width := fun hk ↦
        Nat.div_lt_of_lt_mul (hk.trans_eq Nat.pow_succ')
      have hdiv : m / base = n / base := ih (hlt hm) (hlt hn) hinit
      have hmod : m % base = n % base :=
        digitChar_inj ((Nat.mod_lt m hpos).trans_le hbase) ((Nat.mod_lt n hpos).trans_le hbase)
          (List.cons.inj hlast).1
      rw [← Nat.div_add_mod m base, ← Nat.div_add_mod n base, hdiv, hmod]

end Chatterbox
