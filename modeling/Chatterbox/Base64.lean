import Mathlib.Data.List.DropRight
import Mathlib.Order.Fin.Basic

/-!
# Base64

`binascii.b2a_base64` and `binascii.a2b_base64`, and the alphabet of `base64` that is safe in a
URL.

Three bytes are four characters.  Of one or two bytes that are left over there are two or three
characters, and as many `=` as make them four.  The decoder goes through the characters one at a
time and knows how many of a group it has seen; it ignores those that are not in the alphabet.

Whoever takes the `=` away can put them back, for their number follows from the length of the rest
(`pad_rstrip`), and what was encoded is decoded (`decode_encode`).
-/

namespace Chatterbox.Base64

/-! ## The alphabet -/

/-- A character of the alphabet, by its six bits. -/
def sextetChar (n : ℕ) : Char :=
  if n < 26 then Char.ofNat ('A'.toNat + n)
  else if n < 52 then Char.ofNat ('a'.toNat + (n - 26))
  else if n < 62 then Char.ofNat ('0'.toNat + (n - 52))
  else if n = 62 then '+'
  else '/'

/-- Its six bits, if it is in the alphabet. -/
def sextet (c : Char) : Option ℕ :=
  if 'A' ≤ c ∧ c ≤ 'Z' then some (c.toNat - 'A'.toNat)
  else if 'a' ≤ c ∧ c ≤ 'z' then some (c.toNat - 'a'.toNat + 26)
  else if '0' ≤ c ∧ c ≤ '9' then some (c.toNat - '0'.toNat + 52)
  else if c = '+' then some 62
  else if c = '/' then some 63
  else none

/-- `_urlsafe_encode_translation`. -/
def toUrlsafe (c : Char) : Char := if c = '+' then '-' else if c = '/' then '_' else c

/-- `_urlsafe_decode_translation`. -/
def ofUrlsafe (c : Char) : Char := if c = '-' then '+' else if c = '_' then '/' else c

/-- The characters that are safe in a URL. -/
def Urlsafe (c : Char) : Prop := c.isAlphanum ∨ c = '-' ∨ c = '_'

instance : DecidablePred Urlsafe := fun _ ↦ inferInstanceAs (Decidable (_ ∨ _ ∨ _))

theorem sextet_sextetChar {n : ℕ} (h : n < 64) : sextet (sextetChar n) = some n := by
  have hall : ∀ i : Fin 64, sextet (sextetChar i) = some i.val := by decide
  exact hall ⟨n, h⟩

theorem sextetChar_ne_pad {n : ℕ} (h : n < 64) : sextetChar n ≠ '=' := by
  have hall : ∀ i : Fin 64, sextetChar i ≠ '=' := by decide
  exact hall ⟨n, h⟩

theorem toUrlsafe_ne_pad {n : ℕ} (h : n < 64) : toUrlsafe (sextetChar n) ≠ '=' := by
  have hall : ∀ i : Fin 64, toUrlsafe (sextetChar i) ≠ '=' := by decide
  exact hall ⟨n, h⟩

theorem urlsafe_sextetChar {n : ℕ} (h : n < 64) : Urlsafe (toUrlsafe (sextetChar n)) := by
  have hall : ∀ i : Fin 64, Urlsafe (toUrlsafe (sextetChar i)) := by decide
  exact hall ⟨n, h⟩

theorem ofUrlsafe_toUrlsafe {n : ℕ} (h : n < 64) :
    ofUrlsafe (toUrlsafe (sextetChar n)) = sextetChar n := by
  have hall : ∀ i : Fin 64, ofUrlsafe (toUrlsafe (sextetChar i)) = sextetChar i := by decide
  exact hall ⟨n, h⟩

/-! ## Encoder and decoder -/

/-- `b2a_base64`, without the newline. -/
def encode : List UInt8 → List Char
  | [] => []
  | [a] => [sextetChar (a.toNat / 4), sextetChar (a.toNat % 4 * 16), '=', '=']
  | [a, b] =>
      [sextetChar (a.toNat / 4), sextetChar (a.toNat % 4 * 16 + b.toNat / 16),
        sextetChar (b.toNat % 16 * 4), '=']
  | a :: b :: c :: bytes =>
      sextetChar (a.toNat / 4) :: sextetChar (a.toNat % 4 * 16 + b.toNat / 16) ::
        sextetChar (b.toNat % 16 * 4 + c.toNat / 64) :: sextetChar (c.toNat % 64) :: encode bytes

/-- How many characters of a group there have been, and the bits of the last one that are left. -/
inductive Quad where
  | zero
  | one (left : ℕ)
  | two (left : ℕ)
  | three (left : ℕ)
deriving DecidableEq, Repr

def Quad.pos : Quad → ℕ
  | .zero => 0
  | .one _ => 1
  | .two _ => 2
  | .three _ => 3

/-- The byte that a character completes, if it does, and the group with it. -/
def Quad.push (v : ℕ) : Quad → List UInt8 × Quad
  | .zero => ([], .one v)
  | .one left => ([.ofNat (left * 4 + v / 16)], .two (v % 16))
  | .two left => ([.ofNat (left * 16 + v / 4)], .three (v % 4))
  | .three left => ([.ofNat (left * 64 + v)], .zero)

/-- The loop of `a2b_base64`, with the number of `=` that there have been in a row; `none` where it
raises a `binascii.Error`. -/
def decodeFrom : Quad → ℕ → List Char → Option (List UInt8)
  | quad, _, [] => if quad = .zero then some [] else none
  | quad, pads, c :: s =>
      if c = '=' then
        if 2 ≤ quad.pos then
          if 4 ≤ quad.pos + (pads + 1) then some [] else decodeFrom quad (pads + 1) s
        else decodeFrom quad pads s
      else
        match sextet c with
        | none => decodeFrom quad pads s
        | some v => (decodeFrom (quad.push v).2 0 s).map ((quad.push v).1 ++ ·)

/-- `a2b_base64`. -/
def decode (s : List Char) : Option (List UInt8) := decodeFrom .zero 0 s

/-- `base64.urlsafe_b64encode`. -/
def urlsafeEncode (bytes : List UInt8) : List Char := (encode bytes).map toUrlsafe

/-- `base64.urlsafe_b64decode` of a text in ASCII. -/
def urlsafeDecode (s : List Char) : Option (List UInt8) := decode (s.map ofUrlsafe)

/-- The `=` that a text without them lacks: `"=" * (-len(s) % 4)`. -/
def pad (s : List Char) : List Char := s ++ List.replicate ((4 - s.length % 4) % 4) '='

/-- `rstrip("=")`. -/
def rstrip (s : List Char) : List Char := s.rdropWhile (· = '=')

/-! ## What was encoded is decoded -/

variable {bytes : List UInt8} {s : List Char} {quad : Quad} {pads n : ℕ}

theorem decodeFrom_sextetChar (h : n < 64) : decodeFrom quad pads (sextetChar n :: s) =
    (decodeFrom (quad.push n).2 0 s).map ((quad.push n).1 ++ ·) := by
  rw [decodeFrom, if_neg (sextetChar_ne_pad h), sextet_sextetChar h]

/-- Two characters are a byte, and the bits that the next one begins with. -/
theorem decodeFrom_first (a : UInt8) {m : ℕ} (hm : m < 16) :
    decodeFrom .zero pads
        (sextetChar (a.toNat / 4) :: sextetChar (a.toNat % 4 * 16 + m) :: s) =
      (decodeFrom (.two m) 0 s).map (a :: ·) := by
  have ha := a.toNat_lt
  have hbyte : a.toNat / 4 * 4 + (a.toNat % 4 * 16 + m) / 16 = a.toNat := by omega
  have hleft : (a.toNat % 4 * 16 + m) % 16 = m := by omega
  rw [decodeFrom_sextetChar (by omega), decodeFrom_sextetChar (by omega)]
  simp [Quad.push, hbyte, hleft, Function.comp_def]

/-- One more character is the second byte. -/
theorem decodeFrom_second (b : UInt8) {m : ℕ} (hm : m < 4) :
    decodeFrom (.two (b.toNat / 16)) pads (sextetChar (b.toNat % 16 * 4 + m) :: s) =
      (decodeFrom (.three m) 0 s).map (b :: ·) := by
  have hb := b.toNat_lt
  have hbyte : b.toNat / 16 * 16 + (b.toNat % 16 * 4 + m) / 4 = b.toNat := by omega
  have hleft : (b.toNat % 16 * 4 + m) % 4 = m := by omega
  rw [decodeFrom_sextetChar (by omega)]
  simp [Quad.push, hbyte, hleft]

/-- And the last one is the third. -/
theorem decodeFrom_third (c : UInt8) :
    decodeFrom (.three (c.toNat / 64)) pads (sextetChar (c.toNat % 64) :: s) =
      (decodeFrom .zero 0 s).map (c :: ·) := by
  have hbyte : c.toNat / 64 * 64 + c.toNat % 64 = c.toNat := by omega
  rw [decodeFrom_sextetChar (by omega)]
  simp [Quad.push, hbyte]

/-- **What was encoded is decoded.** -/
theorem decode_encode (bytes : List UInt8) : decode (encode bytes) = some bytes := by
  rw [decode]
  fun_induction encode bytes with
  | case1 => rfl
  | case2 a =>
      have hfirst : decodeFrom .zero 0 [sextetChar (a.toNat / 4), sextetChar (a.toNat % 4 * 16 + 0),
          '=', '='] = some [a] := decodeFrom_first a (by decide)
      exact hfirst
  | case3 a b =>
      have hb := b.toNat_lt
      have hsecond : decodeFrom (.two (b.toNat / 16)) 0
          [sextetChar (b.toNat % 16 * 4 + 0), '='] = some [b] := decodeFrom_second b (by decide)
      rw [decodeFrom_first a (by omega), ← Nat.add_zero (b.toNat % 16 * 4), hsecond]
      rfl
  | case4 a b c bytes ih =>
      have hb := b.toNat_lt
      have hc := c.toNat_lt
      rw [decodeFrom_first a (by omega), decodeFrom_second b (by omega), decodeFrom_third c, ih]
      rfl

/-! ## The length, and the `=` -/

/-- What is encoded is characters of the alphabet, and `=` up to a multiple of four. -/
theorem encode_eq (bytes : List UInt8) : ∃ (sextets : List ℕ) (pads : ℕ),
    encode bytes = sextets.map sextetChar ++ List.replicate pads '=' ∧
      (∀ n ∈ sextets, n < 64) ∧ pads < 3 ∧ (sextets.length + pads) % 4 = 0 := by
  fun_induction encode bytes with
  | case1 => exact ⟨[], 0, rfl, fun _ h ↦ absurd h List.not_mem_nil, by decide, rfl⟩
  | case2 a =>
      have ha := a.toNat_lt
      refine ⟨[a.toNat / 4, a.toNat % 4 * 16], 2, rfl, ?_, by decide, by simp⟩
      simp only [List.mem_cons, List.not_mem_nil, or_false]
      omega
  | case3 a b =>
      have ha := a.toNat_lt
      have hb := b.toNat_lt
      refine ⟨[a.toNat / 4, a.toNat % 4 * 16 + b.toNat / 16, b.toNat % 16 * 4], 1, rfl, ?_,
        by decide, by simp⟩
      simp only [List.mem_cons, List.not_mem_nil, or_false]
      omega
  | case4 a b c bytes ih =>
      have ha := a.toNat_lt
      have hb := b.toNat_lt
      have hc := c.toNat_lt
      obtain ⟨sextets, pads, heq, hlt, hpads, hlength⟩ := ih
      refine ⟨a.toNat / 4 :: (a.toNat % 4 * 16 + b.toNat / 16) ::
        (b.toNat % 16 * 4 + c.toNat / 64) :: c.toNat % 64 :: sextets, pads, ?_, ?_, hpads, ?_⟩
      · rw [heq]
        rfl
      · simp only [List.mem_cons]
        rintro n (rfl | rfl | rfl | rfl | hn)
        · omega
        · omega
        · omega
        · omega
        · exact hlt n hn
      · simp only [List.length_cons]
        omega

theorem length_encode (bytes : List UInt8) :
    (encode bytes).length = 4 * ((bytes.length + 2) / 3) := by
  fun_induction encode bytes with
  | case1 => rfl
  | case2 a => simp
  | case3 a b => simp
  | case4 a b c bytes ih =>
      simp only [List.length_cons, ih]
      omega

theorem rstrip_append_replicate (hs : ∀ c ∈ s, c ≠ '=') (pads : ℕ) :
    rstrip (s ++ List.replicate pads '=') = s := by
  induction pads with
  | zero =>
      rw [List.replicate_zero, List.append_nil, rstrip, List.rdropWhile_eq_self_iff]
      intro hne h
      exact hs _ (List.getLast_mem hne) (of_decide_eq_true h)
  | succ pads ih =>
      rw [List.replicate_succ', ← List.append_assoc, rstrip, List.rdropWhile_concat_pos _ _ _ rfl]
      exact ih

/-- What is left without the `=` is safe in a URL, and as long as six bits a character have it. -/
theorem rstrip_urlsafeEncode (bytes : List UInt8) : ∃ sextets : List ℕ,
    rstrip (urlsafeEncode bytes) = sextets.map (fun n ↦ toUrlsafe (sextetChar n)) ∧
      (∀ n ∈ sextets, n < 64) ∧ pad (rstrip (urlsafeEncode bytes)) = urlsafeEncode bytes := by
  obtain ⟨sextets, pads, heq, hlt, hpads, hlength⟩ := encode_eq bytes
  have hurlsafe : urlsafeEncode bytes =
      sextets.map (fun n ↦ toUrlsafe (sextetChar n)) ++ List.replicate pads '=' := by
    rw [urlsafeEncode, heq, List.map_append, List.map_map, List.map_replicate]
    rfl
  have hne : ∀ c ∈ sextets.map (fun n ↦ toUrlsafe (sextetChar n)), c ≠ '=' := by
    intro c hc
    obtain ⟨n, hn, rfl⟩ := List.mem_map.mp hc
    exact toUrlsafe_ne_pad (hlt n hn)
  have hcount : (4 - sextets.length % 4) % 4 = pads := by omega
  have hstrip := rstrip_append_replicate hne pads
  rw [hurlsafe, hstrip, pad, List.length_map, hcount]
  exact ⟨sextets, rfl, hlt, rfl⟩

/-- **The `=` that are taken away are put back.** -/
theorem pad_rstrip (bytes : List UInt8) :
    pad (rstrip (urlsafeEncode bytes)) = urlsafeEncode bytes := by
  obtain ⟨-, -, -, h⟩ := rstrip_urlsafeEncode bytes
  exact h

theorem urlsafe_rstrip {bytes : List UInt8} {c : Char} (h : c ∈ rstrip (urlsafeEncode bytes)) :
    Urlsafe c := by
  obtain ⟨sextets, heq, hlt, -⟩ := rstrip_urlsafeEncode bytes
  rw [heq] at h
  obtain ⟨n, hn, rfl⟩ := List.mem_map.mp h
  exact urlsafe_sextetChar (hlt n hn)

theorem length_rstrip_le (bytes : List UInt8) :
    (rstrip (urlsafeEncode bytes)).length ≤ 4 * ((bytes.length + 2) / 3) := by
  refine (List.rdropWhile_prefix _ _).length_le.trans ?_
  rw [urlsafeEncode, List.length_map, length_encode]

/-- **What was encoded is decoded**, in the other alphabet as well. -/
theorem urlsafeDecode_urlsafeEncode (bytes : List UInt8) :
    urlsafeDecode (urlsafeEncode bytes) = some bytes := by
  have hback : (urlsafeEncode bytes).map ofUrlsafe = encode bytes := by
    obtain ⟨sextets, pads, heq, hlt, -, -⟩ := encode_eq bytes
    rw [urlsafeEncode, heq, List.map_map, List.map_append, List.map_map, List.map_replicate]
    congr 1
    exact List.map_congr_left fun n hn ↦ ofUrlsafe_toUrlsafe (hlt n hn)
  rw [urlsafeDecode, hback, decode_encode]

end Chatterbox.Base64
