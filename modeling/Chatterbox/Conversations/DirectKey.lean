import Chatterbox.Base
import Chatterbox.Digits
import Mathlib.Data.List.Lex
import Mathlib.Data.List.Sort
import Mathlib.Data.Sym.Sym2

/-!
# The key of a direct conversation

`direct_key` writes both users as strings, sorts the two and joins them with a
colon.  A conversation is looked up by that string and nothing else, so the
string has to determine the two users, and must not depend on who asks.

A string is the list of its characters, compared as Python compares strings.
`str(uuid)` is the value in 32 hexadecimal digits, `"%032x" % n`, with hyphens after the 8th,
12th, 16th and 20th; all such strings have the same length, and the hyphens can
be taken out again.
-/

namespace Chatterbox.Conversations

/-- `str(uuid)`. -/
def str (u : UUID) : List Char :=
  let hex := digits 16 32 u.val
  List.intercalate ['-'] [hex.take 8, (hex.drop 8).take 4, (hex.drop 12).take 4,
    (hex.drop 16).take 4, hex.drop 20]

/-- `direct_key`. -/
@[irreducible] def directKey (firstUserId secondUserId : UUID) : List Char :=
  List.intercalate [':'] ([str firstUserId, str secondUserId].insertionSort (· ≤ ·))

example : String.ofList (str 0x3f2504e04f8911d39a0c0305e82c3301) =
    "3f2504e0-4f89-11d3-9a0c-0305e82c3301" := by decide

/-! ## The string determines the user -/

theorem hyphen_notMem_digits (width n : ℕ) : '-' ∉ digits 16 width n :=
  fun h ↦ absurd (mem_hexDigits h) (by decide)

theorem length_str (u : UUID) : (str u).length = 36 := by
  simp [str, List.intercalate, length_digits]

/-- The five groups of a string, with a hyphen between them. -/
theorem str_eq (u : UUID) : str u =
    (digits 16 32 u.val).take 8 ++ '-' :: (((digits 16 32 u.val).drop 8).take 4 ++ '-' ::
      (((digits 16 32 u.val).drop 12).take 4 ++ '-' :: (((digits 16 32 u.val).drop 16).take 4 ++
        '-' :: (digits 16 32 u.val).drop 20))) := by
  simp [str, List.intercalate]

/-- The five groups are the digits. -/
theorem groups_append (l : List Char) : l.take 8 ++ ((l.drop 8).take 4 ++ ((l.drop 12).take 4 ++
    ((l.drop 16).take 4 ++ l.drop 20))) = l := by
  have hgroup : ∀ i, (l.drop i).take 4 ++ l.drop (i + 4) = l.drop i := fun i ↦ by
    rw [← List.drop_drop, List.take_append_drop]
  rw [hgroup 16, hgroup 12, hgroup 8, List.take_append_drop]

/-- Without its hyphens a string is the list of digits. -/
theorem filter_str (u : UUID) : (str u).filter (· ≠ '-') = digits 16 32 u.val := by
  have hpart : ∀ l : List Char, l.Sublist (digits 16 32 u.val) → l.filter (· ≠ '-') = l :=
    fun l hl ↦
    List.filter_eq_self.mpr fun c hc ↦ by
      have hne : c ≠ '-' := fun e ↦ hyphen_notMem_digits 32 u.val (hl.subset (e ▸ hc))
      simpa using hne
  have hmid : ∀ i, (((digits 16 32 u.val).drop i).take 4).Sublist (digits 16 32 u.val) := fun i ↦
    (List.take_sublist 4 _).trans (List.drop_sublist i _)
  have hhyphen : ∀ l : List Char, ('-' :: l).filter (· ≠ '-') = l.filter (· ≠ '-') := fun l ↦ by
    simp
  simp only [str_eq, List.filter_append, hhyphen]
  rw [hpart _ (List.take_sublist 8 _), hpart _ (hmid 8), hpart _ (hmid 12), hpart _ (hmid 16),
    hpart _ (List.drop_sublist 20 _)]
  exact groups_append _

theorem str_injective : Function.Injective str := by
  intro u v h
  have hhex : digits 16 32 u.val = digits 16 32 v.val := by
    rw [← filter_str, ← filter_str, h]
  have hu : u.val < 16 ^ 32 := u.isLt
  have hv : v.val < 16 ^ 32 := v.isLt
  exact Fin.ext (digits_inj (by decide) (by decide) hu hv hhex)

/-! ## The key determines the two users -/

/-- Sorting two strings. -/
theorem insertionSort_pair (x y : List Char) :
    [x, y].insertionSort (· ≤ ·) = if x ≤ y then [x, y] else [y, x] := by
  simp [List.insertionSort, List.orderedInsert]

theorem directKey_eq (a b : UUID) : directKey a b =
    if str a ≤ str b then str a ++ ':' :: str b else str b ++ ':' :: str a := by
  rw [directKey, insertionSort_pair]
  split
  · simp [List.intercalate]
  · simp [List.intercalate]

/-- The key does not depend on the order of the users. -/
theorem directKey_comm (a b : UUID) : directKey a b = directKey b a := by
  rw [directKey_eq, directKey_eq]
  rcases lt_trichotomy (str a) (str b) with h | h | h
  · rw [if_pos h.le, if_neg (not_le.mpr h)]
  · rw [h]
  · rw [if_neg (not_le.mpr h), if_pos h.le]

/-- Two strings joined by a colon can be told apart again. -/
theorem str_append_inj {a b c d : UUID} (h : str a ++ ':' :: str b = str c ++ ':' :: str d) :
    a = c ∧ b = d := by
  obtain ⟨hfirst, hsecond⟩ := List.append_inj h (by rw [length_str, length_str])
  exact ⟨str_injective hfirst, str_injective (List.cons.inj hsecond).2⟩

/-- **Two pairs of users have the same key exactly when they are the same pair.** -/
theorem directKey_eq_iff {a b c d : UUID} :
    directKey a b = directKey c d ↔ s(a, b) = s(c, d) := by
  rw [Sym2.eq_iff]
  constructor
  · intro h
    rw [directKey_eq, directKey_eq] at h
    split at h
    · split at h
      · exact Or.inl (str_append_inj h)
      · exact Or.inr (str_append_inj h)
    · split at h
      · exact Or.inr (str_append_inj h).symm
      · exact Or.inl (str_append_inj h).symm
  · rintro (⟨rfl, rfl⟩ | ⟨rfl, rfl⟩)
    · rfl
    · exact directKey_comm ..

end Chatterbox.Conversations
