import Mathlib.Data.List.Basic

/-!
# Lower case

`str.lower()`.  Every character is mapped by itself, by the tables of Unicode, but for a capital
sigma, which is a final one at the end of a word.

The tables are a parameter (`CaseMapping`), of which only what they have to do with ASCII is said:
they extend its mapping, and what is not in ASCII may become a letter of it, but no other of its
characters.  So a text in lower case has a slash, or an at sign, only if the text has one
(`mem_lower_iff`).
-/

namespace Chatterbox

/-- The tables of Unicode. -/
structure CaseMapping where
  /-- `Lowercase_Mapping`. -/
  lowercase : Char → List Char
  cased : Char → Bool
  caseIgnorable : Char → Bool
  ascii : ∀ c, c.toNat < 128 → lowercase c = [c.toLower]
  letters : ∀ c, 128 ≤ c.toNat → ∀ d ∈ lowercase c, d.toNat < 128 → 97 ≤ d.toNat ∧ d.toNat ≤ 122

namespace CaseMapping

variable (m : CaseMapping)

/-- A capital sigma is final: behind a letter, and not in front of one. -/
def isFinalSigma (before after : List Char) : Bool :=
  (before.dropWhile m.caseIgnorable).head?.any m.cased &&
    !(after.dropWhile m.caseIgnorable).head?.any m.cased

/-- The characters behind `before`, which is in reverse. -/
def lowerFrom (before : List Char) : List Char → List Char
  | [] => []
  | c :: s =>
      (if c = 'Σ' then [if m.isFinalSigma before s then 'ς' else 'σ'] else m.lowercase c) ++
        lowerFrom (c :: before) s

/-- `s.lower()`. -/
def lower (s : List Char) : List Char := m.lowerFrom [] s

end CaseMapping

/-! ## ASCII -/

variable {c d : Char}

theorem upper_iff : c.val ≥ 'A'.val ∧ c.val ≤ 'Z'.val ↔ 65 ≤ c.toNat ∧ c.toNat ≤ 90 :=
  and_congr UInt32.le_iff_toNat_le UInt32.le_iff_toNat_le

theorem toNat_toLower (h : 65 ≤ c.toNat ∧ c.toNat ≤ 90) : c.toLower.toNat = c.toNat + 32 := by
  have hlower : c.toLower = _ := dif_pos (upper_iff.mpr h)
  have hsmall : c.val.toNat + 32 < 2 ^ 32 :=
    Nat.lt_of_le_of_lt (Nat.add_le_add_right h.2 32) (by decide)
  rw [hlower]
  change (c.val + 32).toNat = c.val.toNat + 32
  rw [UInt32.toNat_add]
  exact Nat.mod_eq_of_lt hsmall

theorem toLower_of_not_upper (h : ¬ (65 ≤ c.toNat ∧ c.toNat ≤ 90)) : c.toLower = c :=
  dif_neg (mt upper_iff.mp h)

/-- Only a letter becomes another character, and that is a letter. -/
theorem toLower_eq_iff (hletter : ¬ (97 ≤ d.toNat ∧ d.toNat ≤ 122))
    (hupper : ¬ (65 ≤ d.toNat ∧ d.toNat ≤ 90)) : c.toLower = d ↔ c = d := by
  by_cases h : 65 ≤ c.toNat ∧ c.toNat ≤ 90
  · refine iff_of_false ?_ ?_
    · rintro rfl
      rw [toNat_toLower h] at hletter
      omega
    · rintro rfl
      exact hupper h
  · rw [toLower_of_not_upper h]

theorem toNat_toLower_lt : c.toLower.toNat < 128 ↔ c.toNat < 128 := by
  by_cases h : 65 ≤ c.toNat ∧ c.toNat ≤ 90
  · rw [toNat_toLower h]
    omega
  · rw [toLower_of_not_upper h]

namespace CaseMapping

variable {m : CaseMapping} {s before : List Char}

theorem mem_lowerFrom_cons : d ∈ m.lowerFrom before (c :: s) ↔
    (if c = 'Σ' then d = if m.isFinalSigma before s then 'ς' else 'σ' else d ∈ m.lowercase c) ∨
      d ∈ m.lowerFrom (c :: before) s := by
  rw [lowerFrom, List.mem_append]
  split
  · rw [List.mem_singleton]
  · rfl

/-- A character of ASCII that is no letter comes from itself only. -/
theorem mem_lowercase_iff (hascii : d.toNat < 128) (hletter : ¬ (97 ≤ d.toNat ∧ d.toNat ≤ 122))
    (hupper : ¬ (65 ≤ d.toNat ∧ d.toNat ≤ 90)) : d ∈ m.lowercase c ↔ d = c := by
  by_cases hc : c.toNat < 128
  · rw [m.ascii c hc, List.mem_singleton, eq_comm, toLower_eq_iff hletter hupper, eq_comm]
  · refine iff_of_false (fun hd ↦ hletter (m.letters c (Nat.not_lt.mp hc) d hd hascii)) ?_
    rintro rfl
    exact hc hascii

theorem mem_lowerFrom_iff (hascii : d.toNat < 128)
    (hletter : ¬ (97 ≤ d.toNat ∧ d.toNat ≤ 122)) (hupper : ¬ (65 ≤ d.toNat ∧ d.toNat ≤ 90)) :
    d ∈ m.lowerFrom before s ↔ d ∈ s := by
  induction s generalizing before with
  | nil => rfl
  | cons c s ih =>
      rw [mem_lowerFrom_cons, List.mem_cons, ih]
      refine or_congr_left ?_
      split
      · next hsigma =>
          have hnot : ∀ e : Char, 128 ≤ e.toNat → d ≠ e := by
            rintro e he rfl
            omega
          rw [hsigma]
          refine iff_of_false ?_ (hnot 'Σ' (by decide))
          split
          · exact hnot 'ς' (by decide)
          · exact hnot 'σ' (by decide)
      · exact mem_lowercase_iff hascii hletter hupper

/-- **Slashes, at signs and so on stay, and there are no new ones.** -/
theorem mem_lower_iff (hascii : d.toNat < 128) (hletter : ¬ (97 ≤ d.toNat ∧ d.toNat ≤ 122))
    (hupper : ¬ (65 ≤ d.toNat ∧ d.toNat ≤ 90)) : d ∈ m.lower s ↔ d ∈ s :=
  mem_lowerFrom_iff hascii hletter hupper

theorem lowerFrom_of_ascii (h : ∀ c ∈ s, c.toNat < 128) :
    m.lowerFrom before s = s.map Char.toLower := by
  induction s generalizing before with
  | nil => rfl
  | cons c s ih =>
      have hc : c.toNat < 128 := h c (.head _)
      have hsigma : c ≠ 'Σ' := by
        rintro rfl
        exact absurd hc (by decide)
      rw [lowerFrom, if_neg hsigma, m.ascii c hc, ih fun d hd ↦ h d (.tail _ hd)]
      rfl

/-- A text of ASCII. -/
theorem lower_of_ascii (h : ∀ c ∈ s, c.toNat < 128) : m.lower s = s.map Char.toLower :=
  lowerFrom_of_ascii h

end CaseMapping

/-- The mapping of ASCII alone. -/
def asciiCase : CaseMapping where
  lowercase c := [c.toLower]
  cased c := c.isAlpha
  caseIgnorable c := c ∈ ['\x27', '.', ':', '^', '\x60']
  ascii _ _ := rfl
  letters c hc d hd hlt := by
    rw [List.mem_singleton.mp hd, toNat_toLower_lt] at hlt
    exact absurd hlt (Nat.not_lt.mpr hc)

end Chatterbox
