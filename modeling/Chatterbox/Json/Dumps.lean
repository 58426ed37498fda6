import Chatterbox.Json.Loads

/-!
# Writing a text, and reading it back

`json.dumps` with the separators `","` and `":"`.  A character that is not in ASCII is
written as the escapes of its code units, so a text that is written is in ASCII.

`loads_dumps` says that what has been written is read back as it was: whatever `dumps`
makes a text of, under the limits of the interpreter, `loads` makes the same value of
again, if the value is one with `dict`s in it, which have no two members with one key.
-/

namespace Chatterbox.Json

variable {F α : Type}

/-! ## The encoder -/

/-- `ESCAPE_DCT`, and `ESCAPE_ASCII` for what is not in it. -/
def escape (u : CodeUnit) : Text :=
  if u = 0x22 then ['\\', '"']
  else if u = 0x5c then ['\\', '\\']
  else if u = 0x0a then ['\\', 'n']
  else if u = 0x0d then ['\\', 'r']
  else if u = 0x09 then ['\\', 't']
  else if u = 0x0c then ['\\', 'f']
  else if u = 0x08 then ['\\', 'b']
  else if 0x20 ≤ u ∧ u ≤ 0x7e then [Char.ofNat u]
  else
    ['\\', 'u', Nat.digitChar (u / 4096), Nat.digitChar (u / 256 % 16),
      Nat.digitChar (u / 16 % 16), Nat.digitChar (u % 16)]

/-- `py_encode_basestring_ascii`. -/
def quote (s : Str) : Text := '"' :: (s.flatMap escape ++ ['"'])

/-- `int.__repr__`. -/
def intNumber (n : ℤ) : Number := ⟨decide (n < 0), Nat.toDigits 10 n.natAbs, [], []⟩

/-- `floatstr`. -/
def floatText (fl : Floats F) : FloatValue F → Text
  | .finite x => (fl.repr x).text
  | .nan => ['N', 'a', 'N']
  | .infinity => ['I', 'n', 'f', 'i', 'n', 'i', 't', 'y']
  | .negInfinity => ['-', 'I', 'n', 'f', 'i', 'n', 'i', 't', 'y']

/-- Texts with commas between them. -/
def joined : List Text → Text
  | [] => []
  | [t] => t
  | t :: ts => t ++ ',' :: joined ts

mutual

/-- What is written. -/
def Value.text (fl : Floats F) : Value F → Text
  | .null => ['n', 'u', 'l', 'l']
  | .bool true => ['t', 'r', 'u', 'e']
  | .bool false => ['f', 'a', 'l', 's', 'e']
  | .int n => (intNumber n).text
  | .float x => floatText fl x
  | .str s => quote s
  | .array elements => '[' :: (joined (elementTexts fl elements) ++ [']'])
  | .object members => '\x7b' :: (joined (memberTexts fl members) ++ ['\x7d'])

def elementTexts (fl : Floats F) : List (Value F) → List Text
  | [] => []
  | v :: vs => v.text fl :: elementTexts fl vs

def memberTexts (fl : Floats F) : List (Str × Value F) → List Text
  | [] => []
  | (key, v) :: ms => (quote key ++ ':' :: v.text fl) :: memberTexts fl ms

end

mutual

/-- The exception that is raised instead, if any: the first on the way through the value. -/
def Value.fault (digits : ℕ) : ℕ → Value F → Option Error
  | _, .int n =>
      if digits < (Nat.toDigits 10 n.natAbs).length then some .valueError else none
  | 0, .array _ | 0, .object _ => some .recursionError
  | depth + 1, .array elements => elementsFault digits depth elements
  | depth + 1, .object members => membersFault digits depth members
  | _, _ => none

def elementsFault (digits depth : ℕ) : List (Value F) → Option Error
  | [] => none
  | v :: vs => (v.fault digits depth).or (elementsFault digits depth vs)

def membersFault (digits depth : ℕ) : List (Str × Value F) → Option Error
  | [] => none
  | (_, v) :: ms => (v.fault digits depth).or (membersFault digits depth ms)

end

/-- `json.dumps`. -/
def dumps (fl : Floats F) (lim : Limits) (v : Value F) : Except Error Text :=
  match v.fault lim.digits lim.depth with
  | none => .ok (v.text fl)
  | some e => .error e

variable {fl : Floats F} {lim : Limits} {digits depth : ℕ} {s rest : Text}

theorem elementTexts_eq (vs : List (Value F)) : elementTexts fl vs = vs.map (Value.text fl) := by
  induction vs with
  | nil => rfl
  | cons v vs ih => rw [elementTexts, ih, List.map_cons]

/-- A member as it is written. -/
def memberText (fl : Floats F) (m : Str × Value F) : Text := quote m.1 ++ ':' :: m.2.text fl

theorem memberTexts_eq (ms : List (Str × Value F)) :
    memberTexts fl ms = ms.map (memberText fl) := by
  induction ms with
  | nil => rfl
  | cons m ms ih => rw [memberTexts, ih, List.map_cons, memberText]

theorem elementsFault_eq_none {vs : List (Value F)} :
    elementsFault digits depth vs = none ↔ ∀ v ∈ vs, v.fault digits depth = none := by
  induction vs with
  | nil => exact iff_of_true rfl fun _ h ↦ absurd h List.not_mem_nil
  | cons v vs ih => rw [elementsFault, Option.or_eq_none_iff, ih, List.forall_mem_cons]

theorem membersFault_eq_none {ms : List (Str × Value F)} :
    membersFault digits depth ms = none ↔ ∀ m ∈ ms, m.2.fault digits depth = none := by
  induction ms with
  | nil => exact iff_of_true rfl fun _ h ↦ absurd h List.not_mem_nil
  | cons m ms ih => rw [membersFault, Option.or_eq_none_iff, ih, List.forall_mem_cons]

theorem fault_str (u : Str) : (Value.str u : Value F).fault digits depth = none := by
  cases depth <;> rfl

theorem fault_float (x : FloatValue F) : (Value.float x).fault digits depth = none := by
  cases depth <;> rfl

/-! ## Strings are read back -/

theorem hexValue_digitChar {n : ℕ} (h : n < 16) : hexValue (Nat.digitChar n) = some n := by
  have hall : ∀ i : Fin 16, hexValue (Nat.digitChar i) = some i.val := by decide
  exact hall ⟨n, h⟩

/-- The four digits of an escape. -/
theorem hexUnit_digits (u : CodeUnit) :
    hexUnit (Nat.digitChar (u / 4096)) (Nat.digitChar (u / 256 % 16))
      (Nat.digitChar (u / 16 % 16)) (Nat.digitChar (u % 16)) = some u := by
  have hu := u.isLt
  have hsum : (u : ℕ) / 4096 * 4096 + u / 256 % 16 * 256 + u / 16 % 16 * 16 + u % 16 = u := by
    omega
  rw [hexUnit, hexValue_digitChar (by omega), hexValue_digitChar (by omega),
    hexValue_digitChar (by omega), hexValue_digitChar (by omega)]
  simp only [Option.bind_eq_bind, Option.bind_some, hsum, Option.pure_def, Option.some.injEq]
  exact Fin.ofNat_val_eq_self u

/-- A character that is neither a quote nor a backslash nor a control character. -/
theorem scanString_cons {c : Char} (hquote : c ≠ '"') (hbackslash : c ≠ '\\')
    (hcontrol : ¬ c.toNat < 0x20) (s : Text) :
    scanString (c :: s) = Scan.after (utf16 c ++ ·) (scanString s) := by
  rw [scanString.eq_def]
  simp only [hquote, hbackslash, hcontrol, if_false]

/-- The characters of ASCII that are written as they are. -/
theorem printable {n : ℕ} (hlow : 0x20 ≤ n) (hhigh : n ≤ 0x7e) (hquote : n ≠ 0x22)
    (hbackslash : n ≠ 0x5c) : Char.ofNat n ≠ '"' ∧ Char.ofNat n ≠ '\\' ∧
      ¬ (Char.ofNat n).toNat < 0x20 ∧ utf16 (Char.ofNat n) = [Fin.ofNat _ n] := by
  have hall : ∀ i : Fin 0x7f, 0x20 ≤ i.val → i.val ≠ 0x22 → i.val ≠ 0x5c →
      Char.ofNat i ≠ '"' ∧ Char.ofNat i ≠ '\\' ∧ ¬ (Char.ofNat i).toNat < 0x20 ∧
        utf16 (Char.ofNat i) = [Fin.ofNat _ i.val] := by decide
  exact hall ⟨n, Nat.lt_succ_of_le hhigh⟩ hlow hquote hbackslash

/-- An escape is read as its code unit. -/
theorem scanString_escape (u : CodeUnit) (s : Text) :
    scanString (escape u ++ s) = Scan.after (u :: ·) (scanString s) := by
  unfold escape
  split_ifs with hquote hbackslash hnewline hreturn htab hfeed hback hprintable
  · rw [hquote]
    rfl
  · rw [hbackslash]
    rfl
  · rw [hnewline]
    rfl
  · rw [hreturn]
    rfl
  · rw [htab]
    rfl
  · rw [hfeed]
    rfl
  · rw [hback]
    rfl
  · obtain ⟨hne, hne', hcontrol, hunit⟩ := printable (n := u) hprintable.1 hprintable.2
      (fun e ↦ hquote (Fin.ext e)) fun e ↦ hbackslash (Fin.ext e)
    rw [List.singleton_append, scanString_cons hne hne' hcontrol, hunit, Fin.ofNat_val_eq_self]
    rfl
  · rw [List.cons_append, List.cons_append, scanString.eq_def]
    simp only [List.cons_append, List.nil_append, hexUnit_digits]
    rfl

/-- **A string is read back.** -/
theorem scanString_quote (u : Str) (rest : Text) :
    scanString (u.flatMap escape ++ '"' :: rest) = .ok (u, rest) := by
  induction u with
  | nil =>
      rw [List.flatMap_nil, List.nil_append, scanString.eq_def]
      exact if_pos rfl
  | cons unit u ih =>
      rw [List.flatMap_cons, List.append_assoc, scanString_escape, ih]
      rfl

/-! ## Numbers are read back -/

/-- No digit follows. -/
def NoDigit (s : Text) : Prop := ∀ c ∈ s.head?, ¬ c.isDigit

/-- What may follow a value. -/
def Stops (s : Text) : Prop := ∀ c ∈ s.head?, c = ',' ∨ c = ']' ∨ c = '\x7d'

theorem Stops.noDigit (h : Stops s) : NoDigit s := by
  intro c hc
  obtain rfl | rfl | rfl := h c hc <;> decide

theorem noDigit_cons {c : Char} (hc : ¬ c.isDigit) (s : Text) : NoDigit (c :: s) := by
  intro d hd
  obtain rfl : c = d := Option.some.inj hd
  exact hc

theorem takeWhile_digits {ds : Text} (hds : ∀ c ∈ ds, c.isDigit) (h : NoDigit s) :
    (ds ++ s).takeWhile Char.isDigit = ds ∧ (ds ++ s).dropWhile Char.isDigit = s := by
  rw [List.takeWhile_append_of_pos hds, List.dropWhile_append_of_pos hds]
  cases s with
  | nil => exact ⟨List.append_nil ds, rfl⟩
  | cons c s =>
      have hc := h c rfl
      rw [List.takeWhile_cons_of_neg hc, List.dropWhile_cons_of_neg hc, List.append_nil]
      exact ⟨rfl, rfl⟩

open Number

theorem scanInteger_append {i : Text} (hi : IsInteger i) (h : NoDigit s) :
    scanInteger (i ++ s) = some (i, s) := by
  obtain rfl | ⟨⟨hne, hdigits⟩, hzero⟩ := hi
  · rfl
  · obtain ⟨htake, hdrop⟩ := takeWhile_digits hdigits h
    have hhead : (i ++ s).head? ≠ some '0' := by
      rwa [List.head?_append_of_ne_nil _ hne]
    rw [scanInteger, if_neg hhead, htake, hdrop]
    split
    · next hnil => exact absurd rfl hne
    · rfl

theorem scanFraction_append {f : Text} (hf : IsFraction f) (h : NoDigit s)
    (hpoint : s.head? ≠ some '.') : scanFraction (f ++ s) = (f, s) := by
  cases f with
  | nil =>
      rw [List.nil_append]
      unfold scanFraction
      split
      · next t => exact absurd rfl hpoint
      · rfl
  | cons c ds =>
      obtain ⟨rfl, hne, hdigits⟩ := hf
      obtain ⟨htake, hdrop⟩ := takeWhile_digits hdigits h
      rw [List.cons_append, scanFraction, htake, hdrop]
      split
      · next hnil => exact absurd rfl hne
      · rfl

theorem splitSign_append {e : Text} (he : (splitSign e).2 ≠ []) (s : Text) :
    splitSign (e ++ s) = ((splitSign e).1, (splitSign e).2 ++ s) := by
  cases e with
  | nil => exact absurd rfl he
  | cons c e =>
      rw [List.cons_append, splitSign, splitSign]
      split <;> rfl

theorem splitSign_eq (s : Text) : (splitSign s).1 ++ (splitSign s).2 = s := by
  cases s with
  | nil => rfl
  | cons c s =>
      rw [splitSign]
      split <;> rfl

theorem scanExponent_append {e : Text} (he : IsExponent e) (h : NoDigit s)
    (hletter : s.head? ≠ some 'e' ∧ s.head? ≠ some 'E') : scanExponent (e ++ s) = (e, s) := by
  cases e with
  | nil =>
      rw [List.nil_append]
      cases s with
      | nil => rfl
      | cons c s =>
          refine if_neg fun hc ↦ ?_
          obtain rfl | rfl := hc
          · exact hletter.1 rfl
          · exact hletter.2 rfl
  | cons c e =>
      obtain ⟨hc, hne, hdigits⟩ := he
      obtain ⟨htake, hdrop⟩ := takeWhile_digits hdigits h
      rw [List.cons_append]
      unfold scanExponent
      dsimp only
      rw [if_pos hc, splitSign_append hne]
      dsimp only
      rw [htake, hdrop]
      split
      · next hnil => exact absurd hnil hne
      · rw [List.cons_append, splitSign_eq]

theorem noDigit_exponent {e : Text} (he : IsExponent e) (h : NoDigit s) : NoDigit (e ++ s) := by
  cases e with
  | nil => exact h
  | cons c e =>
      refine noDigit_cons ?_ (e ++ s)
      obtain ⟨rfl | rfl, -⟩ := he <;> decide

theorem noDigit_fraction {f : Text} (hf : IsFraction f) (h : NoDigit s) : NoDigit (f ++ s) := by
  cases f with
  | nil => exact h
  | cons c f =>
      obtain ⟨rfl, -⟩ := hf
      exact noDigit_cons (by decide) (f ++ s)

theorem Stops.head?_ne (h : Stops s) {c : Char} (hcomma : c ≠ ',') (hbracket : c ≠ ']')
    (hbrace : c ≠ '\x7d') : s.head? ≠ some c := by
  intro hc
  obtain rfl | rfl | rfl := h c hc
  · exact hcomma rfl
  · exact hbracket rfl
  · exact hbrace rfl

/-- The first character of an integer is a digit. -/
theorem exists_digit {i : Text} (hi : IsInteger i) : ∃ c t, i = c :: t ∧ c.isDigit := by
  obtain rfl | ⟨⟨hne, hdigits⟩, -⟩ := hi
  · exact ⟨'0', [], rfl, rfl⟩
  · cases i with
    | nil => exact absurd rfl hne
    | cons c t => exact ⟨c, t, rfl, hdigits c List.mem_cons_self⟩

/-- **A number is read back.** -/
theorem lexNumber_text {n : Number} (hn : n.Valid) (h : Stops rest) :
    lexNumber (n.text ++ rest) = some (n, rest) := by
  obtain ⟨negative, i, f, e⟩ := n
  obtain ⟨hi, hf, he⟩ := hn
  have hletter : rest.head? ≠ some 'e' ∧ rest.head? ≠ some 'E' :=
    ⟨h.head?_ne (by decide) (by decide) (by decide), h.head?_ne (by decide) (by decide) (by decide)⟩
  have hexponent : scanExponent (e ++ rest) = (e, rest) :=
    scanExponent_append he h.noDigit hletter
  have hpoint : (e ++ rest).head? ≠ some '.' := by
    cases e with
    | nil => exact h.head?_ne (by decide) (by decide) (by decide)
    | cons c e =>
        obtain ⟨rfl | rfl, -⟩ := he <;> exact fun hc ↦ absurd (Option.some.inj hc) (by decide)
  have hfraction : scanFraction (f ++ (e ++ rest)) = (f, e ++ rest) :=
    scanFraction_append hf (noDigit_exponent he h.noDigit) hpoint
  have hinteger : scanInteger (i ++ (f ++ (e ++ rest))) = some (i, f ++ (e ++ rest)) :=
    scanInteger_append hi (noDigit_fraction hf (noDigit_exponent he h.noDigit))
  have hunsigned : (i ++ (f ++ (e ++ rest))).head? ≠ some '-' := by
    obtain ⟨c, t, rfl, hc⟩ := exists_digit hi
    intro hminus
    obtain rfl : c = '-' := Option.some.inj hminus
    exact absurd hc (by decide)
  cases negative with
  | true =>
      have htext : Number.text ⟨true, i, f, e⟩ ++ rest = '-' :: (i ++ (f ++ (e ++ rest))) := by
        simp [Number.text, sign]
      rw [htext, lexNumber]
      simp [hinteger, hfraction, hexponent]
  | false =>
      have htext : Number.text ⟨false, i, f, e⟩ ++ rest = i ++ (f ++ (e ++ rest)) := by
        simp [Number.text, sign]
      rw [htext, lexNumber]
      simp only [hunsigned, decide_false, if_false, hinteger, Option.map_some, hfraction, hexponent]

/-- No word that is a value begins as a number does. -/
theorem find?_constants {c : Char} (hc : c.isDigit) (t : Text) :
    (constants (F := F)).find? (fun (word, _) ↦ word.isPrefixOf (c :: t)) = none ∧
      (constants (F := F)).find? (fun (word, _) ↦ word.isPrefixOf ('-' :: c :: t)) = none := by
  have hne : ∀ d ∈ ['n', 't', 'f', 'N', 'I', '-'], d ≠ c := by
    have hall : ∀ d ∈ ['n', 't', 'f', 'N', 'I', '-'], ¬ d.isDigit := by simp
    rintro d hd rfl
    exact hall d hd hc
  simp only [List.mem_cons, List.not_mem_nil, or_false, forall_eq_or_imp, forall_eq] at hne
  obtain ⟨hn, ht, hf, hN, hI, hminus⟩ := hne
  constructor
  · simp [constants, hn, ht, hf, hN, hI, hminus]
  · simp [constants, hI]

/-- A number is none of the words. -/
theorem scanScalar_text {n : Number} (hn : n.Valid) (rest : Text) :
    scanScalar fl lim (n.text ++ rest) = scanNumber fl lim (n.text ++ rest) := by
  obtain ⟨c, t, hi, hc⟩ := exists_digit hn.1
  obtain ⟨hplain, hminus⟩ := find?_constants (F := F) hc (t ++ n.fraction ++ n.exponent ++ rest)
  have htext : n.text ++ rest = n.sign ++ c :: (t ++ n.fraction ++ n.exponent ++ rest) := by
    simp [Number.text, hi]
  rw [htext, scanScalar, sign]
  cases n.negative with
  | true =>
      rw [if_pos rfl, List.singleton_append, hminus]
  | false =>
      rw [if_neg Bool.false_ne_true, List.nil_append, hplain]

theorem scanOnce_scalar {c : Char} (hquote : c ≠ '"') (hbracket : c ≠ '[') (hbrace : c ≠ '\x7b')
    (depth : ℕ) (s : Text) : scanOnce fl lim depth (c :: s) = scanScalar fl lim (c :: s) := by
  have hwith : ∀ array object : Scan (Value F),
      scanWith fl lim array object (c :: s) = scanScalar fl lim (c :: s) := by
    intro array object
    rw [scanWith]
    split
    · next h => exact absurd (Option.some.inj h) hquote
    · next h => exact absurd (Option.some.inj h) hbracket
    · next h => exact absurd (Option.some.inj h) hbrace
    · rfl
  cases depth with
  | zero => exact hwith _ _
  | succ depth => exact hwith _ _

/-- The first character of a number. -/
theorem head_text {n : Number} (hn : n.Valid) :
    ∃ c t, n.text = c :: t ∧ (c = '-' ∨ c.isDigit) := by
  obtain ⟨c, t, hi, hc⟩ := exists_digit hn.1
  rw [Number.text, hi, sign]
  cases n.negative with
  | true => exact ⟨'-', _, rfl, .inl rfl⟩
  | false => exact ⟨c, _, rfl, .inr hc⟩

theorem scanOnce_number {n : Number} (hn : n.Valid) (h : Stops rest) (depth : ℕ) :
    scanOnce fl lim depth (n.text ++ rest) =
      if n.IsFloat then .ok (.float (fl.float n), rest)
      else if lim.digits < n.integer.length then .error .valueError
      else .ok (.int n.int, rest) := by
  obtain ⟨c, t, htext, hc⟩ := head_text hn
  have hne : ∀ d ∈ ['"', '[', '\x7b'], c ≠ d := by
    have hall : ∀ d ∈ ['"', '[', '\x7b'], ¬ (d = '-' ∨ d.isDigit) := by simp
    rintro d hd rfl
    exact hall c hd hc
  have hscalar : scanOnce fl lim depth (n.text ++ rest) = scanScalar fl lim (n.text ++ rest) := by
    rw [htext]
    exact scanOnce_scalar (hne _ (by decide)) (hne _ (by decide)) (hne _ (by decide)) depth _
  rw [hscalar, scanScalar_text hn, scanNumber, lexNumber_text hn h]

/-! ## Integers are read back -/

theorem isInteger_toDigits (n : ℕ) : IsInteger (Nat.toDigits 10 n) := by
  have hdigits : ∀ c ∈ Nat.toDigits 10 n, c.isDigit := fun c hc ↦
    Nat.isDigit_of_mem_toDigits (by decide) le_rfl hc
  have hhead : 0 < n → (Nat.toDigits 10 n).head? ≠ some '0' := by
    induction n using Nat.strong_induction_on with
    | _ n ih =>
        intro hpos
        rw [Nat.toDigits_eq_if (by decide)]
        split
        · next hlt =>
            simp only [List.head?_cons, ne_eq, Option.some.injEq, Nat.digitChar_eq_zero]
            omega
        · next hge =>
            rw [List.head?_append_of_ne_nil _ Nat.toDigits_ne_nil]
            refine ih (n / 10) (by omega) (fun c hc ↦ ?_) (by omega)
            exact Nat.isDigit_of_mem_toDigits (by decide) le_rfl hc
  rcases Nat.eq_zero_or_pos n with rfl | hpos
  · exact .inl (Nat.toDigits_zero 10)
  · exact .inr ⟨⟨Nat.toDigits_ne_nil, hdigits⟩, hhead hpos⟩

theorem valid_intNumber (n : ℤ) : (intNumber n).Valid :=
  ⟨isInteger_toDigits n.natAbs, trivial, trivial⟩

theorem int_intNumber (n : ℤ) : (intNumber n).int = n := by
  rw [Number.int, intNumber]
  dsimp only
  rw [Nat.ofDigitChars_toDigits (by decide) le_rfl]
  by_cases hn : n < 0
  · rw [if_pos (decide_eq_true hn)]
    omega
  · rw [if_neg (by simpa using hn)]
    omega

/-! ## Sequences are read back -/

/-- A text that begins as an item does. -/
def Begins (t : Text) : Prop := ∃ c u, t = c :: u ∧ ¬ isSpace c ∧ c ≠ ']' ∧ c ≠ '\x7d'

theorem skip_cons {c : Char} (hc : ¬ isSpace c) (s : Text) : skip (c :: s) = c :: s :=
  List.dropWhile_cons_of_neg hc

theorem Begins.skip {t : Text} (h : Begins t) (s : Text) : skip (t ++ s) = t ++ s := by
  obtain ⟨c, u, rfl, hc, -⟩ := h
  exact skip_cons hc (u ++ s)

theorem stops_cons {c : Char} (hc : c = ',' ∨ c = ']' ∨ c = '\x7d') (s : Text) :
    Stops (c :: s) := by
  intro d hd
  obtain rfl : c = d := Option.some.inj hd
  exact hc

section Sequence

variable {close : Char} {item : Scan α} {write : α → Text} {xs : List α}

theorem begins_joined (hne : xs ≠ []) (hbegins : ∀ x ∈ xs, Begins (write x)) :
    Begins (joined (xs.map write)) := by
  match xs, hne with
  | [x], _ => exact hbegins x List.mem_cons_self
  | x :: y :: ys, _ =>
      obtain ⟨c, u, hx, hc⟩ := hbegins x List.mem_cons_self
      rw [List.map_cons, List.map_cons, joined, hx]
      · exact ⟨c, _, rfl, hc⟩
      · exact List.cons_ne_nil _ _

theorem sequence_joined (hclose : close = ']' ∨ close = '\x7d') (hne : xs ≠ [])
    (hbegins : ∀ x ∈ xs, Begins (write x))
    (hitem : ∀ x ∈ xs, ∀ rest, Stops rest → item (write x ++ rest) = .ok (x, rest)) {n : ℕ}
    (hn : xs.length ≤ n) (rest : Text) :
    sequence close item n (joined (xs.map write) ++ close :: rest) = .ok (xs, rest) := by
  have hspace : ¬ isSpace close := by obtain rfl | rfl := hclose <;> decide
  have hcomma : ',' ≠ close := by obtain rfl | rfl := hclose <;> decide
  induction xs generalizing n with
  | nil => exact absurd rfl hne
  | cons x xs ih =>
      obtain ⟨n, rfl⟩ := Nat.exists_eq_add_one_of_ne_zero (Nat.ne_zero_of_lt hn)
      cases xs with
      | nil =>
          have hx := hitem x List.mem_cons_self (close :: rest) (stops_cons (.inr hclose) rest)
          rw [List.map_singleton, joined, sequence, hx]
          simp only [Except.bind]
          rw [skip_cons hspace]
          exact if_pos rfl
      | cons y ys =>
          have hbegins' : ∀ z ∈ y :: ys, Begins (write z) := fun z hz ↦
            hbegins z (List.mem_cons_of_mem x hz)
          have hrest := ih (List.cons_ne_nil y ys) hbegins'
            (fun z hz ↦ hitem z (List.mem_cons_of_mem x hz)) (Nat.le_of_succ_le_succ hn)
          have hx := hitem x List.mem_cons_self
            (',' :: (joined ((y :: ys).map write) ++ close :: rest)) (stops_cons (.inl rfl) _)
          have hjoined : joined ((x :: y :: ys).map write) ++ close :: rest =
              write x ++ ',' :: (joined ((y :: ys).map write) ++ close :: rest) := by
            rw [List.map_cons, joined, List.append_assoc, List.cons_append]
            exact List.cons_ne_nil _ _
          rw [hjoined, sequence, hx]
          simp only [Except.bind]
          rw [skip_cons (by decide)]
          dsimp only
          rw [if_neg hcomma, if_pos rfl, (begins_joined (List.cons_ne_nil y ys) hbegins').skip,
            hrest]
          rfl

/-- **Items are read back**, none or some. -/
theorem scanItems_joined (hclose : close = ']' ∨ close = '\x7d') (hleaves : item.Leaves)
    (hbegins : ∀ x ∈ xs, Begins (write x))
    (hitem : ∀ x ∈ xs, ∀ rest, Stops rest → item (write x ++ rest) = .ok (x, rest)) (rest : Text) :
    scanItems close item (joined (xs.map write) ++ close :: rest) = .ok (xs, rest) := by
  have hspace : ¬ isSpace close := by obtain rfl | rfl := hclose <;> decide
  cases hxs : xs with
  | nil =>
      rw [List.map_nil, joined, List.nil_append, scanItems, skip_cons hspace]
      exact if_pos rfl
  | cons x ys =>
      rw [← hxs]
      have hne : xs ≠ [] := hxs ▸ List.cons_ne_nil x ys
      have hbegin := begins_joined hne hbegins
      have hhead : (joined (xs.map write) ++ close :: rest).head? ≠ some close := by
        obtain ⟨c, u, hc, -, hbracket, hbrace⟩ := hbegin
        rw [hc]
        intro h
        obtain rfl : c = close := Option.some.inj h
        exact hclose.elim hbracket hbrace
      rw [scanItems, hbegin.skip, if_neg hhead]
      -- Any number of steps will do, so there are as many as there are items.
      rw [← sequence_of_length_lt hleaves (Nat.lt_of_lt_of_le (Nat.lt_succ_self _)
        (Nat.le_add_right _ xs.length))]
      exact sequence_joined hclose hne hbegins hitem (Nat.le_add_left ..) rest

end Sequence

/-! ## Values are read back -/

theorem begins_text (fl : Floats F) (v : Value F) : Begins (v.text fl) := by
  have hnumber : ∀ n : Number, n.Valid → Begins n.text := by
    intro n hn
    obtain ⟨c, t, htext, hc⟩ := head_text hn
    have hall : ∀ d ∈ [' ', '\t', '\n', '\r', ']', '\x7d'], ¬ (d = '-' ∨ d.isDigit) := by simp
    have hne : ∀ d ∈ [' ', '\t', '\n', '\r', ']', '\x7d'], c ≠ d := by
      rintro d hd rfl
      exact hall c hd hc
    refine ⟨c, t, htext, ?_, hne _ (by decide), hne _ (by decide)⟩
    simp [isSpace, hne]
  cases v with
  | null => exact ⟨'n', _, rfl, by decide⟩
  | bool b => cases b with
    | true => exact ⟨'t', _, rfl, by decide⟩
    | false => exact ⟨'f', _, rfl, by decide⟩
  | int n => exact hnumber _ (valid_intNumber n)
  | float x => cases x with
    | finite x => exact hnumber _ (fl.valid x)
    | nan => exact ⟨'N', _, rfl, by decide⟩
    | infinity => exact ⟨'I', _, rfl, by decide⟩
    | negInfinity => exact ⟨'-', _, rfl, by decide⟩
  | str s => exact ⟨'"', _, rfl, by decide⟩
  | array elements => exact ⟨'[', _, rfl, by decide⟩
  | object members => exact ⟨'\x7b', _, rfl, by decide⟩

theorem begins_memberText (m : Str × Value F) : Begins (memberText fl m) :=
  ⟨'"', _, rfl, by decide⟩

theorem scanOnce_array (depth : ℕ) (s : Text) : scanOnce fl lim (depth + 1) ('[' :: s) =
    Scan.after .array (scanItems ']' (scanOnce fl lim depth) s) := rfl

theorem scanOnce_object (depth : ℕ) (s : Text) : scanOnce fl lim (depth + 1) ('\x7b' :: s) =
    Scan.after (fun pairs ↦ .object (dict pairs))
      (scanItems '\x7d' (scanMember (scanOnce fl lim depth)) s) := rfl

/-- A member is read back, if its value is. -/
theorem scanMember_text {value : Scan (Value F)} {m : Str × Value F}
    (hvalue : value (m.2.text fl ++ rest) = .ok (m.2, rest)) :
    scanMember value (memberText fl m ++ rest) = .ok (m, rest) := by
  have htext : memberText fl m ++ rest =
      '"' :: (m.1.flatMap escape ++ '"' :: (':' :: (m.2.text fl ++ rest))) := by
    simp [memberText, quote]
  rw [htext, scanMember, List.head?_cons, if_pos rfl, List.tail_cons, scanString_quote]
  simp only [Except.bind]
  rw [skip_cons (by decide), List.head?_cons, if_pos rfl, List.tail_cons,
    (begins_text fl m.2).skip, hvalue]
  rfl

theorem fault_int {n : ℤ} (h : (Value.int n : Value F).fault digits depth = none) :
    (Nat.toDigits 10 n.natAbs).length ≤ digits := by
  rw [Value.fault] at h
  split at h
  · cases h
  · next hle => exact not_lt.mp hle

theorem fault_array {vs : List (Value F)} (h : (Value.array vs).fault digits depth = none) :
    ∃ inner, depth = inner + 1 ∧ ∀ v ∈ vs, v.fault digits inner = none := by
  cases depth with
  | zero => cases h
  | succ inner => exact ⟨inner, rfl, elementsFault_eq_none.mp h⟩

theorem fault_object {ms : List (Str × Value F)} (h : (Value.object ms).fault digits depth = none) :
    ∃ inner, depth = inner + 1 ∧ ∀ m ∈ ms, m.2.fault digits inner = none := by
  cases depth with
  | zero => cases h
  | succ inner => exact ⟨inner, rfl, membersFault_eq_none.mp h⟩

/-- A word that is a value is read as it. -/
theorem scanOnce_constant {word : Text} {v : Value F} (h : (word, v) ∈ constants) (rest : Text) :
    scanOnce fl lim depth (word ++ rest) = .ok (v, rest) := by
  simp only [constants, List.mem_cons, List.not_mem_nil, or_false, Prod.mk.injEq] at h
  rcases h with ⟨rfl, rfl⟩ | ⟨rfl, rfl⟩ | ⟨rfl, rfl⟩ | ⟨rfl, rfl⟩ | ⟨rfl, rfl⟩ | ⟨rfl, rfl⟩
  all_goals
    rw [List.cons_append, scanOnce_scalar (by decide) (by decide) (by decide)]
    rfl

/-- **A value is read back**, whatever may follow it. -/
theorem scanOnce_text {v : Value F} (hdistinct : v.Distinct)
    (hfault : v.fault lim.digits depth = none) (h : Stops rest) :
    scanOnce fl lim depth (v.text fl ++ rest) = .ok (v, rest) := by
  induction v using Value.induction generalizing depth rest with
  | null =>
      rw [Value.text]
      exact scanOnce_constant (by simp [constants]) rest
  | bool b =>
      cases b with
      | true =>
          rw [Value.text]
          exact scanOnce_constant (by simp [constants]) rest
      | false =>
          rw [Value.text]
          exact scanOnce_constant (by simp [constants]) rest
  | int n =>
      rw [Value.text, scanOnce_number (valid_intNumber n) h, if_neg (by simp [IsFloat, intNumber]),
        int_intNumber]
      exact if_neg (not_lt.mpr (fault_int hfault))
  | float x =>
      cases x with
      | finite x =>
          rw [Value.text, floatText, scanOnce_number (fl.valid x) h, if_pos (fl.isFloat x),
            fl.float_repr]
      | nan =>
          rw [Value.text, floatText]
          exact scanOnce_constant (by simp [constants]) rest
      | infinity =>
          rw [Value.text, floatText]
          exact scanOnce_constant (by simp [constants]) rest
      | negInfinity =>
          rw [Value.text, floatText]
          exact scanOnce_constant (by simp [constants]) rest
  | str u =>
      have htext : (Value.str u).text fl ++ rest = '"' :: (u.flatMap escape ++ '"' :: rest) := by
        simp [Value.text, quote]
      have hscan : ∀ t, scanOnce fl lim depth ('"' :: t) = Scan.after .str (scanString t) := by
        intro t
        cases depth <;> rfl
      rw [htext, hscan, scanString_quote]
      rfl
  | array elements ih =>
      obtain ⟨inner, rfl, hinner⟩ := fault_array hfault
      cases hdistinct with
      | array hdistinct =>
          have hitem : ∀ v ∈ elements, ∀ rest, Stops rest →
              scanOnce fl lim inner (v.text fl ++ rest) = .ok (v, rest) := fun v hv rest hrest ↦
            ih v hv (hdistinct v hv) (hinner v hv) hrest
          have hscan := scanItems_joined (.inl rfl) (leaves_scanOnce fl lim inner)
            (fun v _ ↦ begins_text fl v) hitem rest
          have htext : (Value.array elements).text fl ++ rest =
              '[' :: (joined (elements.map (Value.text fl)) ++ ']' :: rest) := by
            simp [Value.text, elementTexts_eq]
          rw [htext, scanOnce_array, hscan]
          rfl
  | object members ih =>
      obtain ⟨inner, rfl, hinner⟩ := fault_object hfault
      cases hdistinct with
      | object hkeys hdistinct =>
          have hitem : ∀ m ∈ members, ∀ rest, Stops rest →
              scanMember (scanOnce fl lim inner) (memberText fl m ++ rest) = .ok (m, rest) :=
            fun m hm rest hrest ↦
            scanMember_text (ih m hm (hdistinct m hm) (hinner m hm) hrest)
          have hscan := scanItems_joined (.inr rfl)
            (leaves_scanMember (leaves_scanOnce fl lim inner))
            (fun m _ ↦ begins_memberText m) hitem rest
          have htext : (Value.object members).text fl ++ rest =
              '\x7b' :: (joined (members.map (memberText fl)) ++ '\x7d' :: rest) := by
            simp [Value.text, memberTexts_eq]
          rw [htext, scanOnce_object, hscan]
          show Except.ok (Value.object (dict members), rest) = _
          rw [dict_eq hkeys]

/-- **What has been written is read back as it was.** -/
theorem loads_dumps {v : Value F} {t : Text} (hdistinct : v.Distinct)
    (ht : dumps fl lim v = .ok t) : loads fl lim t = .ok v := by
  rw [dumps] at ht
  split at ht
  · next hfault =>
      obtain rfl := Except.ok.inj ht
      have hscan : scanOnce fl lim lim.depth (v.text fl ++ []) = .ok (v, []) :=
        scanOnce_text hdistinct hfault nofun
      have hskip : skip (v.text fl) = v.text fl ++ [] := by
        rw [← (begins_text fl v).skip, List.append_nil]
      rw [loads, hskip, hscan]
      rfl
  · cases ht

end Chatterbox.Json
