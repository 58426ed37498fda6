import Mathlib.Data.List.Induction
import Mathlib.Data.String.Basic

/-!
# UTF-8 with replacement characters

`bytes.decode("utf-8", errors="replace")`: bytes that are the beginning of no character, up to the
first one that shows it, are U+FFFD.

The decoder goes through the bytes one at a time.  Between two of them it is in front of a
character, or it has some bytes of one (`Partial`) and knows in which range the next byte has to
be.  A byte of ASCII is itself, wherever it is, and no other byte becomes a character of ASCII; so a
text ends in a word of ASCII where its bytes do (`suffix_decodeReplace`).

Nothing is replaced of what `encode` has made of a text (`decodeReplace_encode`).
-/

namespace Chatterbox.Utf8

theorem toNat_ofNat {n : ℕ} (h : n.isValidChar) : (Char.ofNat n).toNat = n := by
  rw [Char.ofNat, dif_pos h]
  rfl

/-- Some bytes of a character: how many there are to come behind the next one, the bits so far, and
the range of the next one. -/
structure Partial where
  more : ℕ
  value : ℕ
  lower : ℕ
  upper : ℕ
  lower_ge : 0x80 ≤ lower
  /-- Whatever comes, it is a character, and not one of ASCII. -/
  chars : ∀ v, (value * 64 + (lower - 0x80)) * 64 ^ more ≤ v →
    v < (value * 64 + (upper + 1 - 0x80)) * 64 ^ more → v.isValidChar ∧ 0x80 ≤ v

namespace Partial

/-- The first of two bytes. -/
def ofTwo (b : ℕ) (h : 0xc2 ≤ b ∧ b ≤ 0xdf) : Partial where
  more := 0
  value := b - 0xc0
  lower := 0x80
  upper := 0xbf
  lower_ge := Nat.le_refl _
  chars v hv hv' := by
    simp only [Nat.isValidChar]
    omega

/-- The first of three bytes: nothing that two bytes can say, and no surrogates. -/
def ofThree (b : ℕ) (h : 0xe0 ≤ b ∧ b ≤ 0xef) : Partial where
  more := 1
  value := b - 0xe0
  lower := if b = 0xe0 then 0xa0 else 0x80
  upper := if b = 0xed then 0x9f else 0xbf
  lower_ge := by split <;> omega
  chars v hv hv' := by
    simp only [Nat.isValidChar]
    split at hv <;> split at hv' <;> omega

/-- The first of four bytes: nothing that three bytes can say, and nothing behind U+10FFFF. -/
def ofFour (b : ℕ) (h : 0xf0 ≤ b ∧ b ≤ 0xf4) : Partial where
  more := 2
  value := b - 0xf0
  lower := if b = 0xf0 then 0x90 else 0x80
  upper := if b = 0xf4 then 0x8f else 0xbf
  lower_ge := by split <;> omega
  chars v hv hv' := by
    simp only [Nat.isValidChar]
    split at hv <;> split at hv' <;> omega

variable (p : Partial) (b : ℕ)

/-- The byte goes on with the character. -/
def Continues : Prop := p.lower ≤ b ∧ b ≤ p.upper

instance instDecidableContinues : Decidable (p.Continues b) := inferInstanceAs (Decidable (_ ∧ _))

variable {p b}

/-- The byte is not the last of its character. -/
def next {k : ℕ} (hmore : p.more = k + 1) (h : p.Continues b) : Partial where
  more := k
  value := p.value * 64 + (b - 0x80)
  lower := 0x80
  upper := 0xbf
  lower_ge := Nat.le_refl _
  chars v hv hv' := by
    have hge := p.lower_ge
    obtain ⟨hlower, hupper⟩ := h
    apply p.chars v
    · rw [hmore, Nat.pow_succ', ← Nat.mul_assoc]
      refine Nat.le_trans (Nat.mul_le_mul_right _ ?_) hv
      omega
    · rw [hmore, Nat.pow_succ', ← Nat.mul_assoc]
      refine Nat.lt_of_lt_of_le hv' (Nat.mul_le_mul_right _ ?_)
      omega

/-- The character, of which the byte is the last. -/
def last (p : Partial) (b : ℕ) : Char := Char.ofNat (p.value * 64 + (b - 0x80))

/-- A character that takes more than one byte is not one of ASCII. -/
theorem le_toNat_last (hmore : p.more = 0) (h : p.Continues b) : 0x80 ≤ (p.last b).toNat := by
  have hge := p.lower_ge
  obtain ⟨hlower, hupper⟩ := h
  have hv : (p.value * 64 + (b - 0x80)).isValidChar ∧ 0x80 ≤ p.value * 64 + (b - 0x80) := by
    apply p.chars <;> rw [hmore] <;> omega
  rw [last, toNat_ofNat hv.1]
  exact hv.2

end Partial

/-- U+FFFD, which stands for what is no character. -/
def replacement : Char := '\uFFFD'

/-- A byte in front of which there are whole characters only: what it adds to the text, and what the
decoder has of the next character. -/
def start (b : ℕ) : List Char × Option Partial :=
  if b < 0x80 then ([Char.ofNat b], none)
  else if h : 0xc2 ≤ b ∧ b ≤ 0xdf then ([], some (.ofTwo b h))
  else if h : 0xe0 ≤ b ∧ b ≤ 0xef then ([], some (.ofThree b h))
  else if h : 0xf0 ≤ b ∧ b ≤ 0xf4 then ([], some (.ofFour b h))
  else ([replacement], none)

/-- The next byte.  One that does not go on with the character is the first of another. -/
def step (pending : Option Partial) (b : ℕ) : List Char × Option Partial :=
  match pending with
  | none => start b
  | some p =>
      if h : p.Continues b then
        match hmore : p.more with
        | 0 => ([p.last b], none)
        | _ + 1 => ([], some (p.next hmore h))
      else (replacement :: (start b).1, (start b).2)

/-- The end of the bytes. -/
def finish : Option Partial → List Char
  | none => []
  | some _ => [replacement]

def decodeFrom (pending : Option Partial) : List UInt8 → List Char
  | [] => finish pending
  | b :: bs => (step pending b.toNat).1 ++ decodeFrom (step pending b.toNat).2 bs

/-- `bs.decode("utf-8", errors="replace")`. -/
def decodeReplace (bs : List UInt8) : List Char := decodeFrom none bs

/-! ## Where a text ends -/

variable {pending : Option Partial} {bs : List UInt8} {b : UInt8}

theorem start_of_ascii (hb : b < 0x80) : start b.toNat = ([Char.ofNat b.toNat], none) :=
  if_pos (UInt8.lt_iff_toNat_lt.mp hb)

/-- A byte of ASCII ends whatever has begun, and is itself. -/
theorem step_of_ascii (hb : b < 0x80) :
    step pending b.toNat = (finish pending ++ [Char.ofNat b.toNat], none) := by
  cases pending with
  | none => exact start_of_ascii hb
  | some p =>
      have hnot : ¬ p.Continues b.toNat := by
        have hge := p.lower_ge
        have hlt : b.toNat < 0x80 := UInt8.lt_iff_toNat_lt.mp hb
        exact fun h ↦ absurd h.1 (by omega)
      simp only [step, dif_neg hnot, start_of_ascii hb, finish, List.cons_append, List.nil_append]

/-- No other byte becomes a character of ASCII, at the end of a text. -/
theorem start_of_not_ascii (hb : 0x80 ≤ b) :
    ∃ cs c, (start b.toNat).1 ++ finish (start b.toNat).2 = cs ++ [c] ∧ 0x80 ≤ c.toNat := by
  have hge : ¬ b.toNat < 0x80 := Nat.not_lt.mpr (UInt8.le_iff_toNat_le.mp hb)
  refine ⟨[], replacement, ?_, by decide⟩
  unfold start
  rw [if_neg hge]
  split
  · rfl
  · split
    · rfl
    · split <;> rfl

theorem step_of_not_ascii (hb : 0x80 ≤ b) :
    ∃ cs c, (step pending b.toNat).1 ++ finish (step pending b.toNat).2 = cs ++ [c] ∧
      0x80 ≤ c.toNat := by
  cases pending with
  | none => exact start_of_not_ascii hb
  | some p =>
      by_cases h : p.Continues b.toNat
      · simp only [step, dif_pos h]
        split
        · next hmore => exact ⟨[], p.last b.toNat, rfl, p.le_toNat_last hmore h⟩
        · exact ⟨[], replacement, rfl, by decide⟩
      · obtain ⟨cs, c, hcs, hc⟩ := start_of_not_ascii hb
        refine ⟨replacement :: cs, c, ?_, hc⟩
        simp only [step, dif_neg h, List.cons_append, hcs]

theorem decodeFrom_concat_ascii (hb : b < 0x80) :
    decodeFrom pending (bs ++ [b]) = decodeFrom pending bs ++ [Char.ofNat b.toNat] := by
  induction bs generalizing pending with
  | nil => simp only [List.nil_append, decodeFrom, step_of_ascii hb, finish, List.append_nil]
  | cons a bs ih => simp only [List.cons_append, decodeFrom, ih, List.append_assoc]

theorem decodeFrom_concat_not_ascii (hb : 0x80 ≤ b) :
    ∃ cs c, decodeFrom pending (bs ++ [b]) = cs ++ [c] ∧ 0x80 ≤ c.toNat := by
  induction bs generalizing pending with
  | nil => exact step_of_not_ascii hb
  | cons a bs ih =>
      obtain ⟨cs, c, hcs, hc⟩ := ih
      exact ⟨_, c, by rw [List.cons_append, decodeFrom, hcs, List.append_assoc], hc⟩

theorem toNat_ofNat_ascii (hb : b < 0x80) : (Char.ofNat b.toNat).toNat = b.toNat := by
  have hlt : b.toNat < 0x80 := UInt8.lt_iff_toNat_lt.mp hb
  exact toNat_ofNat (Or.inl (by omega))

theorem ofNat_toNat_inj {a : UInt8} (ha : a < 0x80) (hb : b < 0x80) :
    Char.ofNat a.toNat = Char.ofNat b.toNat ↔ a = b := by
  refine ⟨fun h ↦ ?_, fun h ↦ by rw [h]⟩
  have h := congrArg Char.toNat h
  rw [toNat_ofNat_ascii ha, toNat_ofNat_ascii hb] at h
  exact UInt8.toNat_inj.mp h

theorem suffix_concat_concat {α : Type*} {xs ys : List α} {x y : α} :
    xs ++ [x] <:+ ys ++ [y] ↔ xs <:+ ys ∧ x = y := by
  have hne : xs ++ [x] ≠ [] := by simp
  rw [List.suffix_concat_iff, or_iff_right hne]
  constructor
  · rintro ⟨t, ht, hsuffix⟩
    obtain ⟨rfl, h⟩ := List.append_inj' ht rfl
    exact ⟨hsuffix, List.head_eq_of_cons_eq h⟩
  · rintro ⟨hsuffix, rfl⟩
    exact ⟨xs, rfl, hsuffix⟩

/-- **The text ends in a word of ASCII if the bytes do.** -/
theorem suffix_decodeReplace {word : List UInt8} (hword : ∀ b ∈ word, b < 0x80) :
    word.map (fun b ↦ Char.ofNat b.toNat) <:+ decodeReplace bs ↔ word <:+ bs := by
  induction word using List.reverseRecOn generalizing bs with
  | nil => simp
  | append_singleton word w ih =>
      have hw : w < 0x80 := hword w (by simp)
      cases bs using List.reverseRecOn with
      | nil => simp [decodeReplace, decodeFrom, finish]
      | append_singleton bs b =>
          have ih := @ih bs fun b hb ↦ hword b (List.mem_append_left _ hb)
          rw [List.map_append, List.map_singleton, suffix_concat_concat]
          by_cases hb : b < 0x80
          · rw [decodeReplace, decodeFrom_concat_ascii hb, suffix_concat_concat, ← decodeReplace,
              ih, ofNat_toNat_inj hw hb]
          · obtain ⟨cs, c, hcs, hc⟩ := @decodeFrom_concat_not_ascii none bs b
              (UInt8.not_lt.mp hb)
            have hwb : w ≠ b := by
              rintro rfl
              exact hb hw
            have hwc : Char.ofNat w.toNat ≠ c := by
              rintro rfl
              exact absurd hc (by
                rw [toNat_ofNat_ascii hw]
                exact Nat.not_le.mpr (UInt8.lt_iff_toNat_lt.mp hw))
            rw [decodeReplace, hcs, suffix_concat_concat]
            exact iff_of_false (fun h ↦ hwc h.2) (fun h ↦ hwb h.2)

/-! ## What has been encoded -/

/-- `s.encode("utf-8")`. -/
def encode (s : List Char) : List UInt8 := s.flatMap String.utf8EncodeChar

section Encode

variable {p : Partial} {n k : ℕ} {bs : List UInt8}

theorem step_last (hmore : p.more = 0) (h : p.Continues n) :
    step (some p) n = ([p.last n], none) := by
  simp only [step, dif_pos h]
  split
  · rfl
  · next hk => cases hmore.symm.trans hk

theorem step_next (hmore : p.more = k + 1) (h : p.Continues n) :
    step (some p) n = ([], some (p.next hmore h)) := by
  simp only [step, dif_pos h]
  split
  · next hk => cases hmore.symm.trans hk
  · next hk =>
      obtain rfl := Nat.succ.inj (hmore.symm.trans hk)
      rfl

/-- A byte behind the first two of a character. -/
theorem continues_mod (hlower : p.lower = 0x80) (hupper : p.upper = 0xbf) :
    p.Continues (n % 0x40 + 0x80) := by
  rw [Partial.Continues, hlower, hupper]
  omega

/-- The last byte of a character. -/
theorem decodeFrom_last (hmore : p.more = 0) (h : p.Continues (n % 0x40 + 0x80)) :
    decodeFrom (some p) (.ofNat (n % 0x40 + 0x80) :: bs) =
      Char.ofNat (p.value * 64 + n % 0x40) :: decodeFrom none bs := by
  have hn : n % 0x40 + 0x80 < UInt8.size := Nat.lt_of_lt_of_le
    (Nat.add_lt_add_right (Nat.mod_lt _ (by decide)) _) (by decide)
  rw [decodeFrom, UInt8.toNat_ofNat_of_lt' hn, step_last hmore h, Partial.last,
    Nat.add_sub_cancel]
  rfl

/-- A byte that is neither the first nor the last of a character. -/
theorem decodeFrom_next (hmore : p.more = k + 1) (h : p.Continues (n % 0x40 + 0x80)) :
    decodeFrom (some p) (.ofNat (n % 0x40 + 0x80) :: bs) =
      decodeFrom (some (p.next hmore h)) bs := by
  have hn : n % 0x40 + 0x80 < UInt8.size := Nat.lt_of_lt_of_le
    (Nat.add_lt_add_right (Nat.mod_lt _ (by decide)) _) (by decide)
  rw [decodeFrom, UInt8.toNat_ofNat_of_lt' hn, step_next hmore h]
  rfl

/-- The first byte of a character that takes more than one. -/
theorem decodeFrom_start (hn : n < UInt8.size) (h : start n = ([], some p)) :
    decodeFrom none (.ofNat n :: bs) = decodeFrom (some p) bs := by
  have hstep : step none n = ([], some p) := h
  rw [decodeFrom, UInt8.toNat_ofNat_of_lt' hn, hstep]
  rfl

theorem start_two (h : 0xc2 ≤ n ∧ n ≤ 0xdf) : start n = ([], some (.ofTwo n h)) := by
  rw [start, if_neg (by omega), dif_pos h]

theorem start_three (h : 0xe0 ≤ n ∧ n ≤ 0xef) : start n = ([], some (.ofThree n h)) := by
  rw [start, if_neg (by omega), dif_neg (by omega), dif_pos h]

theorem start_four (h : 0xf0 ≤ n ∧ n ≤ 0xf4) : start n = ([], some (.ofFour n h)) := by
  rw [start, if_neg (by omega), dif_neg (by omega), dif_neg (by omega), dif_pos h]

/-- A character that takes two bytes. -/
theorem decodeFrom_two (hge : 0x80 ≤ n) (hle : n ≤ 0x7ff) :
    decodeFrom none (.ofNat (n / 64 % 0x20 + 0xc0) :: .ofNat (n % 0x40 + 0x80) :: bs) =
      Char.ofNat n :: decodeFrom none bs := by
  have hfirst : 0xc2 ≤ n / 64 % 0x20 + 0xc0 ∧ n / 64 % 0x20 + 0xc0 ≤ 0xdf := by omega
  have hbyte : n / 64 % 0x20 + 0xc0 < UInt8.size := Nat.lt_of_le_of_lt hfirst.2 (by decide)
  have hvalue : (n / 64 % 0x20 + 0xc0 - 0xc0) * 64 + n % 0x40 = n := by omega
  rw [decodeFrom_start hbyte (start_two hfirst), decodeFrom_last rfl (continues_mod rfl rfl)]
  exact congrArg (Char.ofNat · :: _) hvalue

/-- A character that takes three bytes. -/
theorem decodeFrom_three (hge : 0x800 ≤ n) (hvalid : n < 0xd800 ∨ 0xdfff < n) (hle : n ≤ 0xffff) :
    decodeFrom none (.ofNat (n / 4096 % 0x10 + 0xe0) :: .ofNat (n / 64 % 0x40 + 0x80) ::
      .ofNat (n % 0x40 + 0x80) :: bs) = Char.ofNat n :: decodeFrom none bs := by
  have hfirst : 0xe0 ≤ n / 4096 % 0x10 + 0xe0 ∧ n / 4096 % 0x10 + 0xe0 ≤ 0xef := by omega
  have hbyte : n / 4096 % 0x10 + 0xe0 < UInt8.size := Nat.lt_of_le_of_lt hfirst.2 (by decide)
  have hsecond : (Partial.ofThree _ hfirst).Continues (n / 64 % 0x40 + 0x80) := by
    simp only [Partial.Continues, Partial.ofThree]
    split <;> split <;> omega
  have hvalue : ((n / 4096 % 0x10 + 0xe0 - 0xe0) * 64 + (n / 64 % 0x40 + 0x80 - 0x80)) * 64 +
      n % 0x40 = n := by
    omega
  rw [decodeFrom_start hbyte (start_three hfirst), decodeFrom_next rfl hsecond,
    decodeFrom_last rfl (continues_mod rfl rfl)]
  exact congrArg (Char.ofNat · :: _) hvalue

/-- A character that takes four bytes. -/
theorem decodeFrom_four (hge : 0x10000 ≤ n) (hle : n < 0x110000) :
    decodeFrom none (.ofNat (n / 262144 % 0x08 + 0xf0) :: .ofNat (n / 4096 % 0x40 + 0x80) ::
      .ofNat (n / 64 % 0x40 + 0x80) :: .ofNat (n % 0x40 + 0x80) :: bs) =
        Char.ofNat n :: decodeFrom none bs := by
  have hfirst : 0xf0 ≤ n / 262144 % 0x08 + 0xf0 ∧ n / 262144 % 0x08 + 0xf0 ≤ 0xf4 := by omega
  have hbyte : n / 262144 % 0x08 + 0xf0 < UInt8.size :=
    Nat.lt_of_le_of_lt hfirst.2 (by decide)
  have hsecond : (Partial.ofFour _ hfirst).Continues (n / 4096 % 0x40 + 0x80) := by
    simp only [Partial.Continues, Partial.ofFour]
    split <;> split <;> omega
  have hvalue : (((n / 262144 % 0x08 + 0xf0 - 0xf0) * 64 + (n / 4096 % 0x40 + 0x80 - 0x80)) * 64 +
      (n / 64 % 0x40 + 0x80 - 0x80)) * 64 + n % 0x40 = n := by
    omega
  rw [decodeFrom_start hbyte (start_four hfirst), decodeFrom_next rfl hsecond,
    decodeFrom_next rfl (continues_mod rfl rfl), decodeFrom_last rfl (continues_mod rfl rfl)]
  exact congrArg (Char.ofNat · :: _) hvalue

/-- The bytes of a character are read as the character. -/
theorem decodeFrom_utf8EncodeChar (c : Char) :
    decodeFrom none (String.utf8EncodeChar c ++ bs) = c :: decodeFrom none bs := by
  have hvalid : c.toNat < 0xd800 ∨ 0xdfff < c.toNat ∧ c.toNat < 0x110000 := c.valid
  have hofNat : Char.ofNat c.toNat = c := Char.ofNat_toNat c
  have hval : c.val.toNat = c.toNat := rfl
  simp only [String.utf8EncodeChar, hval]
  generalize c.toNat = n at hvalid hofNat
  rw [← hofNat]
  split
  · next h =>
      have hbyte : (UInt8.ofNat n).toNat = n :=
        UInt8.toNat_ofNat_of_lt' (Nat.lt_of_le_of_lt h (by decide))
      have hstep : step none n = ([Char.ofNat n], none) := if_pos (Nat.lt_succ_of_le h)
      rw [List.singleton_append, decodeFrom, hbyte, hstep]
      rfl
  · split
    · exact decodeFrom_two (by omega) (by omega)
    · split
      · exact decodeFrom_three (by omega) (by omega) (by omega)
      · exact decodeFrom_four (by omega) (by omega)

/-- **What has been encoded is decoded.** -/
theorem decodeReplace_encode (s : List Char) : decodeReplace (encode s) = s := by
  induction s with
  | nil => rfl
  | cons c s ih =>
      rw [encode, List.flatMap_cons, decodeReplace, decodeFrom_utf8EncodeChar]
      exact congrArg (c :: ·) ih

end Encode
end Chatterbox.Utf8
