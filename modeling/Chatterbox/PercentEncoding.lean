import Chatterbox.Json.Loads
import Chatterbox.Utf8
import Mathlib.Data.List.SplitBy

/-!
# Percent encoding

Texts in URLs and headers.  `quote` writes the bytes of a text, those that are safe as the
characters they are and the others with a percent sign and two hexadecimal digits; `unquote` reads
them.  A query is a list of names and values, with characters between them that are not safe
(`query`, `parseQsl`).

| function | of |
|---|---|
| `quote` | `urllib.parse.quote`, `encodeURIComponent` |
| `unquote`, `parseQsl` | `urllib.parse` |
| `requote` | what a URL parser does to the characters that a query may not have |

Whatever the text is, it is read back (`unquote_quote`, `parseQsl_query`): the percent sign itself
is not safe, and the bytes are those of UTF-8, which has no text that is not decoded.
-/

namespace Chatterbox.PercentEncoding

open Json (hexValue)

/-! ## Hexadecimal digits -/

/-- A digit, in upper case. -/
def hexDigit (n : ℕ) : Char :=
  if n < 10 then Char.ofNat ('0'.toNat + n) else Char.ofNat ('A'.toNat + (n - 10))

theorem hexValue_hexDigit {n : ℕ} (h : n < 16) : hexValue (hexDigit n) = some n := by
  have hall : ∀ i : Fin 16, hexValue (hexDigit i) = some i.val := by decide
  exact hall ⟨n, h⟩

/-! ## Quoting -/

/-- A byte that is not safe. -/
def quoteByte (b : UInt8) : List Char := ['%', hexDigit (b.toNat / 16), hexDigit (b.toNat % 16)]

variable (safe : UInt8 → Bool)

/-- A byte. -/
def quoter (b : UInt8) : List Char := if safe b then [Char.ofNat b.toNat] else quoteByte b

/-- `quote(s)`. -/
def quote (s : List Char) : List Char := (Utf8.encode s).flatMap (quoter safe)

/-- Quote more characters of a text that has been quoted. -/
def requote (again : Char → Bool) (s : List Char) : List Char :=
  s.flatMap fun c ↦ if again c then quoteByte (.ofNat c.toNat) else [c]

/-! ## Unquoting -/

/-- `unquote_to_bytes` of a text of ASCII: a percent sign without two digits is itself. -/
def unquoteToBytes : List Char → List UInt8
  | [] => []
  | c :: s =>
      if c = '%' then
        match s with
        | a :: b :: t =>
            match hexValue a, hexValue b with
            | some m, some n => .ofNat (16 * m + n) :: unquoteToBytes t
            | _, _ => .ofNat c.toNat :: unquoteToBytes (a :: b :: t)
        | t => .ofNat c.toNat :: unquoteToBytes t
      else .ofNat c.toNat :: unquoteToBytes s

def isAscii (c : Char) : Bool := c.toNat < 0x80

/-- `unquote(s)`: what is not in ASCII stays, and what is between is decoded by itself. -/
def unquote (s : List Char) : List Char :=
  (s.splitBy fun c d ↦ isAscii c = isAscii d).flatMap fun part ↦
    if part.all isAscii then Utf8.decodeReplace (unquoteToBytes part) else part

/-! ## Queries -/

/-- A query of names and values. -/
def query (pairs : List (List Char × List Char)) : List Char :=
  ['&'].intercalate (pairs.map fun p ↦ quote safe p.1 ++ '=' :: quote safe p.2)

def plusToSpace (s : List Char) : List Char := s.map fun c ↦ if c = '+' then ' ' else c

/-- The name and the value, which is empty if there is none. -/
def splitPair (s : List Char) : List Char × List Char :=
  (s.takeWhile (· ≠ '='), (s.dropWhile (· ≠ '=')).tail)

/-- `parse_qsl(s, keep_blank_values=True)`. -/
def parseQsl (s : List Char) : List (List Char × List Char) :=
  ((s.splitOn '&').filter (· ≠ [])).map fun part ↦
    ((splitPair part).map (unquote ∘ plusToSpace) (unquote ∘ plusToSpace))

variable {safe} {s t : List Char} {b : UInt8} {P : Char → Prop}

/-! ## What has been quoted -/

/-- What is so for each of the 256 bytes. -/
theorem forall_byte {P : UInt8 → Prop} (h : ∀ i : Fin 256, P (.ofNat i)) (b : UInt8) : P b :=
  UInt8.ofNat_toNat (x := b) ▸ h ⟨b.toNat, b.toNat_lt⟩

theorem forall_quoter (hsafe : ∀ b, safe b → P (Char.ofNat b.toNat)) (hpercent : P '%')
    (hdigit : ∀ i : Fin 16, P (hexDigit i)) : ∀ c ∈ quoter safe b, P c := by
  intro c hc
  rw [quoter] at hc
  split at hc
  · next hb => exact List.mem_singleton.mp hc ▸ hsafe b hb
  · have hb := b.toNat_lt
    rw [quoteByte, List.mem_cons, List.mem_cons, List.mem_singleton] at hc
    rcases hc with rfl | rfl | rfl
    · exact hpercent
    · exact hdigit ⟨b.toNat / 16, by omega⟩
    · exact hdigit ⟨b.toNat % 16, by omega⟩

/-- What all that is safe is, and percent signs and digits are, is all that is written. -/
theorem forall_quote (hsafe : ∀ b, safe b → P (Char.ofNat b.toNat)) (hpercent : P '%')
    (hdigit : ∀ i : Fin 16, P (hexDigit i)) (s : List Char) : ∀ c ∈ quote safe s, P c := by
  intro c hc
  obtain ⟨b, -, hb⟩ := List.mem_flatMap.mp hc
  exact forall_quoter hsafe hpercent hdigit c hb

/-- A text is quoted in ASCII. -/
theorem ascii_quote (hsafe : ∀ b, safe b → b < 0x80) : ∀ c ∈ quote safe s, c.toNat < 0x80 := by
  refine forall_quote (fun b hb ↦ ?_) (by decide) (by decide) s
  rw [Utf8.toNat_ofNat_ascii (hsafe b hb)]
  exact UInt8.lt_iff_toNat_lt.mp (hsafe b hb)

/-- Quoting in two passes is quoting in one. -/
theorem requote_quote {again : Char → Bool} (hpercent : again '%' = false)
    (hdigit : ∀ i : Fin 16, again (hexDigit i) = false) (hsafe : ∀ b, safe b → b < 0x80) :
    requote again (quote safe s) =
      quote (fun b ↦ safe b && !again (Char.ofNat b.toNat)) s := by
  rw [requote, quote, List.flatMap_assoc]
  refine List.flatMap_congr fun b _ ↦ ?_
  have hlt := b.toNat_lt
  have hhigh : again (hexDigit (b.toNat / 16)) = false := hdigit ⟨b.toNat / 16, by omega⟩
  have hlow : again (hexDigit (b.toNat % 16)) = false := hdigit ⟨b.toNat % 16, by omega⟩
  rw [quoter, quoter]
  cases hb : safe b with
  | false =>
      simp only [Bool.false_eq_true, if_false, Bool.false_and, quoteByte, List.flatMap_cons,
        hpercent, hhigh, hlow]
      rfl
  | true =>
      have hback : UInt8.ofNat (Char.ofNat b.toNat).toNat = b := by
        rw [Utf8.toNat_ofNat_ascii (hsafe b hb), UInt8.ofNat_toNat]
      rw [if_pos rfl, List.flatMap_singleton, hback, Bool.true_and]
      cases again (Char.ofNat b.toNat) <;> rfl

/-! ## Reading it back -/

theorem unquoteToBytes_quoter (hsafe : ∀ b, safe b → b < 0x80 ∧ Char.ofNat b.toNat ≠ '%') :
    unquoteToBytes (quoter safe b ++ s) = b :: unquoteToBytes s := by
  have hlt := b.toNat_lt
  rw [quoter]
  split
  · next hb =>
      obtain ⟨hascii, hpercent⟩ := hsafe b hb
      rw [List.singleton_append, unquoteToBytes.eq_def]
      simp only [hpercent, if_false, Utf8.toNat_ofNat_ascii hascii, UInt8.ofNat_toNat]
  · rw [quoteByte, List.cons_append, List.cons_append, List.singleton_append,
      unquoteToBytes.eq_def]
    simp only [if_true, hexValue_hexDigit (show b.toNat / 16 < 16 by omega),
      hexValue_hexDigit (show b.toNat % 16 < 16 by omega), Nat.div_add_mod, UInt8.ofNat_toNat]

theorem unquoteToBytes_quote (hsafe : ∀ b, safe b → b < 0x80 ∧ Char.ofNat b.toNat ≠ '%') :
    unquoteToBytes (quote safe s) = Utf8.encode s := by
  rw [quote]
  induction Utf8.encode s with
  | nil => rfl
  | cons b bs ih => rw [List.flatMap_cons, unquoteToBytes_quoter hsafe, ih]

theorem unquote_of_ascii (h : ∀ c ∈ s, c.toNat < 0x80) :
    unquote s = Utf8.decodeReplace (unquoteToBytes s) := by
  have hall : s.all isAscii := List.all_eq_true.mpr fun c hc ↦ decide_eq_true (h c hc)
  rcases eq_or_ne s [] with rfl | hne
  · rfl
  · have hchain : s.IsChain fun c d ↦ decide (isAscii c = isAscii d) := by
      refine (List.pairwise_of_forall_mem_list fun c hc d hd ↦ ?_).isChain
      rw [List.all_eq_true.mp hall c hc, List.all_eq_true.mp hall d hd]
      rfl
    rw [unquote, List.splitBy_of_isChain hne hchain, List.flatMap_singleton, if_pos hall]

/-- **What has been quoted is unquoted.** -/
theorem unquote_quote (hsafe : ∀ b, safe b → b < 0x80 ∧ Char.ofNat b.toNat ≠ '%') :
    unquote (quote safe s) = s := by
  rw [unquote_of_ascii (ascii_quote fun b hb ↦ (hsafe b hb).1), unquoteToBytes_quote hsafe,
    Utf8.decodeReplace_encode]

/-! ## Reading a query -/

theorem splitPair_append (h : '=' ∉ s) : splitPair (s ++ '=' :: t) = (s, t) := by
  have hall : ∀ c ∈ s, decide (c ≠ '=') := fun c hc ↦
    decide_eq_true fun e ↦ h (e ▸ hc)
  rw [splitPair, List.takeWhile_append_of_pos hall, List.dropWhile_append_of_pos hall,
    List.takeWhile_cons_of_neg (by decide), List.dropWhile_cons_of_neg (by decide),
    List.append_nil, List.tail_cons]

theorem plusToSpace_eq_self (h : '+' ∉ s) : plusToSpace s = s := by
  refine (List.map_congr_left fun c hc ↦ if_neg ?_).trans (List.map_id' s)
  rintro rfl
  exact h hc

/-- The bytes that are safe in a query. -/
def QuerySafe (safe : UInt8 → Bool) : Prop :=
  ∀ b, safe b → b < 0x80 ∧ Char.ofNat b.toNat ∉ ['%', '&', '+', '=']

theorem not_mem_quote (hsafe : QuerySafe safe) {c : Char} (hc : c ∈ ['&', '+', '=']) :
    c ∉ quote safe s := by
  intro hmem
  refine forall_quote (P := (· ∉ ['&', '+', '='])) (fun b hb h ↦ ?_) (by decide) (by decide) s c
    hmem hc
  exact (hsafe b hb).2 (.tail _ h)

/-- **A query is read back.** -/
theorem parseQsl_query (hsafe : QuerySafe safe) (pairs : List (List Char × List Char)) :
    parseQsl (query safe pairs) = pairs := by
  have hpercent : ∀ b, safe b → b < 0x80 ∧ Char.ofNat b.toNat ≠ '%' := fun b hb ↦
    ⟨(hsafe b hb).1, fun e ↦ (hsafe b hb).2 (e ▸ .head _)⟩
  have hread : ∀ s, unquote (plusToSpace (quote safe s)) = s := fun s ↦ by
    rw [plusToSpace_eq_self (not_mem_quote hsafe (by decide)), unquote_quote hpercent]
  rcases eq_or_ne pairs [] with rfl | hne
  · rfl
  · have hsplit : (query safe pairs).splitOn '&' =
        pairs.map fun p ↦ quote safe p.1 ++ '=' :: quote safe p.2 := by
      refine List.splitOn_intercalate '&' (fun part hpart ↦ ?_) (by simpa using hne)
      obtain ⟨p, -, rfl⟩ := List.mem_map.mp hpart
      have hkey : '&' ∉ quote safe p.1 := not_mem_quote hsafe (by decide)
      have hvalue : '&' ∉ quote safe p.2 := not_mem_quote hsafe (by decide)
      simp [hkey, hvalue]
    rw [parseQsl, hsplit, List.filter_eq_self.mpr, List.map_map]
    · refine (List.map_congr_left fun p _ ↦ ?_).trans (List.map_id' pairs)
      rw [Function.comp_apply, splitPair_append (not_mem_quote hsafe (by decide))]
      exact Prod.ext (hread p.1) (hread p.2)
    · intro part hpart
      obtain ⟨p, -, rfl⟩ := List.mem_map.mp hpart
      simp

end Chatterbox.PercentEncoding
