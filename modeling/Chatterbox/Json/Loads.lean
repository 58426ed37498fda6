import Chatterbox.Json.Value

/-!
# Reading a text

`json.loads`, as the scanner of CPython has it: from left to right, and the first thing
that is wrong is the exception that is raised.  There are three of them:

| exception | when |
|---|---|
| `JSONDecodeError` | the text is no JSON |
| `ValueError` | `int` gets more decimal digits than `sys.get_int_max_str_digits` |
| `RecursionError` | an array or an object lies deeper than the recursion limit has it |

The second and the third are those of a text that may well be JSON.  `JSONDecodeError` is
a `ValueError`, but not the other way round, and `RecursionError` is neither.

`NaN`, `Infinity` and `-Infinity` are read as well, as Python does.
-/

namespace Chatterbox.Json

/-- What `json.loads` and `json.dumps` raise. -/
inductive Error where
  | jsonDecodeError
  | valueError
  | recursionError
deriving DecidableEq, Repr

/-- The two limits of the interpreter: on the digits of an integer, and on how many arrays
and objects may lie in each other. -/
structure Limits where
  digits : ℕ
  depth : ℕ

variable {F α β : Type}

/-- What a scanner makes of the beginning of a text, and what is left of it. -/
abbrev Scan (α : Type) := Text → Except Error (α × Text)

/-- Change what has been read. -/
def Scan.after (f : α → β) (r : Except Error (α × Text)) : Except Error (β × Text) :=
  r.map fun (x, s) ↦ (f x, s)

/-- `WHITESPACE`. -/
def isSpace (c : Char) : Bool := c = ' ' ∨ c = '\t' ∨ c = '\n' ∨ c = '\r'

/-- Skip whitespace. -/
def skip (s : Text) : Text := s.dropWhile isSpace

/-! ## Strings -/

/-- The value of a hexadecimal digit. -/
def hexValue (c : Char) : Option ℕ :=
  if '0' ≤ c ∧ c ≤ '9' then some (c.toNat - '0'.toNat)
  else if 'a' ≤ c ∧ c ≤ 'f' then some (c.toNat - 'a'.toNat + 10)
  else if 'A' ≤ c ∧ c ≤ 'F' then some (c.toNat - 'A'.toNat + 10)
  else none

/-- The code unit of the four digits of an escape. -/
def hexUnit (a b c d : Char) : Option CodeUnit := do
  let a ← hexValue a
  let b ← hexValue b
  let c ← hexValue c
  let d ← hexValue d
  pure (Fin.ofNat _ (a * 4096 + b * 256 + c * 16 + d))

/-- The code unit of an escape of one letter. -/
def unescape (c : Char) : Option CodeUnit :=
  match c with
  | '"' => some 0x22
  | '\\' => some 0x5c
  | '/' => some 0x2f
  | 'b' => some 0x08
  | 'f' => some 0x0c
  | 'n' => some 0x0a
  | 'r' => some 0x0d
  | 't' => some 0x09
  | _ => none

/-- `scanstring`, behind the opening quote. -/
def scanString : Scan Str
  | [] => .error .jsonDecodeError
  | c :: s =>
      if c = '"' then .ok ([], s)
      else if c = '\\' then
        match s with
        | 'u' :: a :: b :: c :: d :: s =>
            match hexUnit a b c d with
            | none => .error .jsonDecodeError
            | some unit => Scan.after (unit :: ·) (scanString s)
        | e :: s =>
            match unescape e with
            | none => .error .jsonDecodeError
            | some unit => Scan.after (unit :: ·) (scanString s)
        | [] => .error .jsonDecodeError
      else if c.toNat < 0x20 then .error .jsonDecodeError
      else Scan.after (utf16 c ++ ·) (scanString s)

/-! ## Numbers -/

/-- The integer part of a number: a zero, or digits up to the first character that is none. -/
def scanInteger (s : Text) : Option (Text × Text) :=
  if s.head? = some '0' then some (['0'], s.tail)
  else
    match s.takeWhile Char.isDigit with
    | [] => none
    | digits => some (digits, s.dropWhile Char.isDigit)

/-- The fraction, if there is a digit behind the point. -/
def scanFraction (s : Text) : Text × Text :=
  match s with
  | '.' :: t =>
      match t.takeWhile Char.isDigit with
      | [] => ([], s)
      | digits => ('.' :: digits, t.dropWhile Char.isDigit)
  | _ => ([], s)

/-- The exponent, if there is a digit behind the letter and the sign. -/
def scanExponent (s : Text) : Text × Text :=
  match s with
  | [] => ([], [])
  | c :: t =>
      if c = 'e' ∨ c = 'E' then
        let (sign, t) := Number.splitSign t
        match t.takeWhile Char.isDigit with
        | [] => ([], s)
        | digits => (c :: sign ++ digits, t.dropWhile Char.isDigit)
      else ([], s)

/-- `_match_number_unicode`, up to where the digits end. -/
def lexNumber (s : Text) : Option (Number × Text) :=
  let negative := s.head? = some '-'
  (scanInteger (if negative then s.tail else s)).map fun (integer, s) ↦
    let (fraction, s) := scanFraction s
    let (exponent, s) := scanExponent s
    (⟨negative, integer, fraction, exponent⟩, s)

/-- `int` of a number without fraction and exponent. -/
def Number.int (n : Number) : ℤ :=
  if n.negative then -Nat.ofDigitChars 10 n.integer 0 else Nat.ofDigitChars 10 n.integer 0

/-- `_match_number_unicode`. -/
def scanNumber (fl : Floats F) (lim : Limits) : Scan (Value F) := fun s ↦
  match lexNumber s with
  | none => .error .jsonDecodeError
  | some (n, s) =>
      if n.IsFloat then .ok (.float (fl.float n), s)
      else if lim.digits < n.integer.length then .error .valueError
      else .ok (.int n.int, s)

/-! ## Values -/

/-- The words that are values. -/
def constants : List (Text × Value F) :=
  [(['n', 'u', 'l', 'l'], .null), (['t', 'r', 'u', 'e'], .bool true),
    (['f', 'a', 'l', 's', 'e'], .bool false), (['N', 'a', 'N'], .float .nan),
    (['I', 'n', 'f', 'i', 'n', 'i', 't', 'y'], .float .infinity),
    (['-', 'I', 'n', 'f', 'i', 'n', 'i', 't', 'y'], .float .negInfinity)]

/-- A word that is a value, or a number. -/
def scanScalar (fl : Floats F) (lim : Limits) : Scan (Value F) := fun s ↦
  match constants.find? fun (word, _) ↦ word.isPrefixOf s with
  | some (word, v) => .ok (v, s.drop word.length)
  | none => scanNumber fl lim s

/-- Items with commas between them, up to a closing character.  There is a comma behind each
but the last, so as many as there are characters are enough (`sequence_of_length_lt`). -/
def sequence (close : Char) (item : Scan α) : ℕ → Scan (List α)
  | 0, _ => .error .jsonDecodeError
  | n + 1, s =>
      (item s).bind fun (x, s) ↦
        match skip s with
        | [] => .error .jsonDecodeError
        | c :: s =>
            if c = close then .ok ([x], s)
            else if c = ',' then Scan.after (x :: ·) (sequence close item n (skip s))
            else .error .jsonDecodeError

/-- None, or a sequence, behind the opening character. -/
def scanItems (close : Char) (item : Scan α) : Scan (List α) := fun s ↦
  let s := skip s
  if s.head? = some close then .ok ([], s.tail) else sequence close item (s.length + 1) s

/-- A member of an object. -/
def scanMember (value : Scan (Value F)) : Scan (Str × Value F) := fun s ↦
  if s.head? = some '"' then
    (scanString s.tail).bind fun (key, s) ↦
      let s := skip s
      if s.head? = some ':' then Scan.after (key, ·) (value (skip s.tail))
      else .error .jsonDecodeError
  else .error .jsonDecodeError

/-- `scan_once`, given what is to be done with arrays and objects. -/
def scanWith (fl : Floats F) (lim : Limits) (array object : Scan (Value F)) : Scan (Value F) :=
  fun s ↦
  match s.head? with
  | some '"' => Scan.after .str (scanString s.tail)
  | some '[' => array s.tail
  | some '\x7b' => object s.tail
  | _ => scanScalar fl lim s

/-- `scan_once`, with as many calls in each other as are still allowed. -/
def scanOnce (fl : Floats F) (lim : Limits) : ℕ → Scan (Value F)
  | 0 => scanWith fl lim (fun _ ↦ .error .recursionError) fun _ ↦ .error .recursionError
  | depth + 1 =>
      scanWith fl lim (fun s ↦ Scan.after .array (scanItems ']' (scanOnce fl lim depth) s))
        fun s ↦ Scan.after (fun pairs ↦ .object (dict pairs))
          (scanItems '\x7d' (scanMember (scanOnce fl lim depth)) s)

/-- `json.loads`. -/
def loads (fl : Floats F) (lim : Limits) (s : Text) : Except Error (Value F) :=
  (scanOnce fl lim lim.depth (skip s)).bind fun (v, s) ↦
    if skip s = [] then .ok v else .error .jsonDecodeError

/-! ## What scanners leave -/

/-- What is left is an end of the text. -/
def Scan.Leaves (scan : Scan α) : Prop := ∀ s x t, scan s = .ok (x, t) → t <:+ s

theorem after_eq_ok {f : α → β} {r : Except Error (α × Text)} {y : β} {t : Text} :
    Scan.after f r = .ok (y, t) ↔ ∃ x, r = .ok (x, t) ∧ f x = y := by
  cases r with
  | error e => simp [Scan.after, Except.map]
  | ok r =>
      obtain ⟨x, s⟩ := r
      simp only [Scan.after, Except.map, Except.ok.injEq, Prod.mk.injEq]
      exact ⟨fun ⟨hy, ht⟩ ↦ ⟨x, ⟨rfl, ht⟩, hy⟩, fun ⟨_, ⟨hx, ht⟩, hy⟩ ↦ ⟨hx ▸ hy, ht⟩⟩

theorem bind_eq_ok {r : Except Error α} {f : α → Except Error β} {y : β} :
    r.bind f = .ok y ↔ ∃ x, r = .ok x ∧ f x = .ok y := by
  cases r with
  | error e => simp [Except.bind]
  | ok x => simp [Except.bind]

theorem Scan.Leaves.after {scan : Scan α} (h : scan.Leaves) (f : α → β) :
    Leaves fun s ↦ Scan.after f (scan s) := by
  intro s y t ht
  obtain ⟨x, hx, -⟩ := after_eq_ok.mp ht
  exact h s x t hx

theorem skip_suffix (s : Text) : skip s <:+ s := List.dropWhile_suffix _

theorem leaves_scanString : scanString.Leaves := by
  intro s xs t h
  fun_induction scanString s generalizing xs with
  | case1 | case3 | case5 | case7 | case8 => cases h
  | case2 =>
      cases h
      exact List.suffix_cons ..
  | case4 a b c d s _ _ _ ih =>
      obtain ⟨ys, hys, -⟩ := after_eq_ok.mp h
      exact (ih ys hys).trans (List.suffix_append ['\\', 'u', a, b, c, d] s)
  | case6 e s _ _ _ _ ih =>
      obtain ⟨ys, hys, -⟩ := after_eq_ok.mp h
      exact (ih ys hys).trans (List.suffix_append ['\\', e] s)
  | case9 c s _ _ _ ih =>
      obtain ⟨ys, hys, -⟩ := after_eq_ok.mp h
      exact (ih ys hys).trans (List.suffix_cons c s)

theorem scanInteger_suffix {s t digits : Text} (h : scanInteger s = some (digits, t)) :
    t <:+ s := by
  rw [scanInteger] at h
  split at h
  · cases h
    exact List.tail_suffix s
  · split at h
    · cases h
    · cases h
      exact List.dropWhile_suffix _

theorem scanFraction_suffix (s : Text) : (scanFraction s).2 <:+ s := by
  unfold scanFraction
  split
  · next t =>
      split
      · exact List.suffix_rfl
      · exact (List.dropWhile_suffix _).trans (List.suffix_cons '.' t)
  · exact List.suffix_rfl

theorem splitSign_suffix (s : Text) : (Number.splitSign s).2 <:+ s := by
  cases s with
  | nil => exact List.suffix_rfl
  | cons c s =>
      rw [Number.splitSign]
      split
      · exact List.suffix_cons c s
      · exact List.suffix_rfl

theorem scanExponent_suffix (s : Text) : (scanExponent s).2 <:+ s := by
  unfold scanExponent
  split
  · exact List.suffix_rfl
  · next c t =>
      split
      · dsimp only
        split
        · exact List.suffix_rfl
        · exact (List.dropWhile_suffix _).trans
            ((splitSign_suffix t).trans (List.suffix_cons c t))
      · exact List.suffix_rfl

theorem leaves_scanNumber (fl : Floats F) (lim : Limits) : (scanNumber fl lim).Leaves := by
  intro s v t h
  rw [scanNumber] at h
  split at h
  · cases h
  · next n u hn =>
      obtain rfl : u = t := by
        split_ifs at h
        · exact (Prod.mk.inj (Except.ok.inj h)).2
        · exact (Prod.mk.inj (Except.ok.inj h)).2
      obtain ⟨⟨digits, r⟩, hdigits, hpair⟩ := Option.map_eq_some_iff.mp hn
      obtain ⟨-, rfl⟩ := Prod.mk.inj hpair
      refine (scanExponent_suffix _).trans ((scanFraction_suffix r).trans ?_)
      refine (scanInteger_suffix hdigits).trans ?_
      split
      · exact List.tail_suffix s
      · exact List.suffix_rfl

theorem leaves_scanScalar (fl : Floats F) (lim : Limits) : (scanScalar fl lim).Leaves := by
  intro s v t h
  rw [scanScalar] at h
  split at h
  · cases h
    exact List.drop_suffix ..
  · exact leaves_scanNumber fl lim s v t h

theorem leaves_sequence {close : Char} {item : Scan α} (hitem : item.Leaves) (n : ℕ) :
    (sequence close item n).Leaves := by
  induction n with
  | zero => exact fun _ _ _ h ↦ nomatch h
  | succ n ih =>
      intro s xs t h
      rw [sequence] at h
      obtain ⟨⟨x, u⟩, hx, h⟩ := bind_eq_ok.mp h
      dsimp only at h
      split at h
      · cases h
      · next c v hv =>
          have hsuffix : v <:+ s :=
            (List.suffix_cons c v).trans (hv ▸ (skip_suffix u).trans (hitem s x u hx))
          split_ifs at h
          · cases h
            exact hsuffix
          · obtain ⟨ys, hys, -⟩ := after_eq_ok.mp h
            exact (ih _ _ _ hys).trans ((skip_suffix v).trans hsuffix)

theorem leaves_scanItems {close : Char} {item : Scan α} (hitem : item.Leaves) :
    (scanItems close item).Leaves := by
  intro s xs t h
  rw [scanItems] at h
  split at h
  · cases h
    exact (List.tail_suffix _).trans (skip_suffix s)
  · exact (leaves_sequence hitem _ _ _ _ h).trans (skip_suffix s)

theorem leaves_scanMember {value : Scan (Value F)} (hvalue : value.Leaves) :
    (scanMember value).Leaves := by
  intro s m t h
  rw [scanMember] at h
  split at h
  · obtain ⟨⟨key, u⟩, hkey, h⟩ := bind_eq_ok.mp h
    dsimp only at h
    split at h
    · obtain ⟨v, hv, -⟩ := after_eq_ok.mp h
      refine (hvalue _ _ _ hv).trans ((skip_suffix _).trans ((List.tail_suffix _).trans ?_))
      exact (skip_suffix u).trans ((leaves_scanString _ _ _ hkey).trans (List.tail_suffix s))
    · cases h
  · cases h

theorem leaves_scanWith (fl : Floats F) (lim : Limits) {array object : Scan (Value F)}
    (harray : array.Leaves) (hobject : object.Leaves) :
    (scanWith fl lim array object).Leaves := by
  intro s v t h
  rw [scanWith] at h
  split at h
  · exact (leaves_scanString.after _ _ _ _ h).trans (List.tail_suffix s)
  · exact (harray _ _ _ h).trans (List.tail_suffix s)
  · exact (hobject _ _ _ h).trans (List.tail_suffix s)
  · exact leaves_scanScalar fl lim s v t h

theorem leaves_scanOnce (fl : Floats F) (lim : Limits) (depth : ℕ) :
    (scanOnce fl lim depth).Leaves := by
  induction depth with
  | zero => exact leaves_scanWith fl lim (fun _ _ _ h ↦ nomatch h) fun _ _ _ h ↦ nomatch h
  | succ depth ih =>
      exact leaves_scanWith fl lim ((leaves_scanItems ih).after _)
        ((leaves_scanItems (leaves_scanMember ih)).after _)

/-- One step more is as good, once there are more than characters. -/
theorem sequence_succ {close : Char} {item : Scan α} (hitem : item.Leaves) {n : ℕ} {s : Text}
    (h : s.length < n) : sequence close item (n + 1) s = sequence close item n s := by
  induction n generalizing s with
  | zero => exact absurd h (Nat.not_lt_zero _)
  | succ n ih =>
      rw [sequence, sequence]
      cases hs : item s with
      | error e => rfl
      | ok r =>
          obtain ⟨x, t⟩ := r
          simp only [Except.bind]
          split
          · rfl
          · next c u hu =>
              have hskip := (skip_suffix t).length_le
              have hrest := (skip_suffix u).length_le
              have ht := (hitem s x t hs).length_le
              rw [hu, List.length_cons] at hskip
              rw [ih (by omega)]

/-- **The number of steps that a sequence is given does not matter**: the steps of `scanItems`
are as good as any larger number of them, for arrays and for objects. -/
theorem sequence_of_length_lt {close : Char} {item : Scan α} (hitem : item.Leaves) {n : ℕ}
    {s : Text} (h : s.length < n) :
    sequence close item n s = sequence close item (s.length + 1) s := by
  induction n, h using Nat.le_induction with
  | base => rfl
  | succ n hn ih => rw [sequence_succ hitem hn, ih]

end Chatterbox.Json
