import Chatterbox.Conversations.DirectKey
import Chatterbox.Json.Dumps
import Mathlib.Data.List.DropRight

/-!
# Envelopes

What the instances tell each other: `publish_users` writes the targets and the event into
an envelope, and `_deliver_envelope` reads them from it on every instance that is
subscribed, the publisher's own among them.

A target is `str` of its UUID, and is read by `UUID(value)`, which takes more spellings
than that.  Anything else than an envelope is ignored; or, where it is not one of the
exceptions that are expected, an exception of the listener.

`deliverEnvelope_publishUsers` says that what is published is what is delivered.
-/

namespace Chatterbox.Realtime.Envelope

open Json

variable {F : Type}

/-! ## `UUID(value)` -/

/-- `str.replace` of a pattern by nothing; the number says how many characters are still to
be left out. -/
def remove (pattern : Text) : ℕ → Text → Text
  | _, [] => []
  | skip + 1, _ :: s => remove pattern skip s
  | 0, c :: s =>
      if pattern.isPrefixOf (c :: s) then remove pattern (pattern.length - 1) s
      else c :: remove pattern 0 s

/-- `str.strip` of some characters. -/
def strip (p : Char → Bool) (s : Text) : Text := (s.dropWhile p).rdropWhile p

/-- `str.isspace`. -/
def isspace (c : Char) : Bool :=
  (9 ≤ c.toNat ∧ c.toNat ≤ 13) ∨ (28 ≤ c.toNat ∧ c.toNat ≤ 32) ∨
    c.toNat ∈ [0x85, 0xa0, 0x1680, 0x2028, 0x2029, 0x202f, 0x205f, 0x3000] ∨
    (0x2000 ≤ c.toNat ∧ c.toNat ≤ 0x200a)

/-- The zeros of Unicode 15 that are not of ASCII; the other digits of their kind follow them. -/
def zeros : List ℕ :=
  [0x660, 0x6f0, 0x7c0, 0x966, 0x9e6, 0xa66, 0xae6, 0xb66, 0xbe6, 0xc66, 0xce6, 0xd66, 0xde6,
    0xe50, 0xed0, 0xf20, 0x1040, 0x1090, 0x17e0, 0x1810, 0x1946, 0x19d0, 0x1a80, 0x1a90, 0x1b50,
    0x1bb0, 0x1c40, 0x1c50, 0xa620, 0xa8d0, 0xa900, 0xa9d0, 0xa9f0, 0xaa50, 0xabf0, 0xff10,
    0x104a0, 0x10d30, 0x11066, 0x110f0, 0x11136, 0x111d0, 0x112f0, 0x11450, 0x114d0, 0x11650,
    0x116c0, 0x11730, 0x118e0, 0x11950, 0x11c50, 0x11d50, 0x11da0, 0x11f50, 0x16a60, 0x16ac0,
    0x16b50, 0x1d7ce, 0x1d7d8, 0x1d7e2, 0x1d7ec, 0x1d7f6, 0x1e140, 0x1e2f0, 0x1e4f0, 0x1e950,
    0x1fbf0]

/-- `Py_UNICODE_TODECIMAL`. -/
def toDecimal (c : Char) : Option ℕ :=
  (zeros.find? fun z ↦ z ≤ c.toNat ∧ c.toNat < z + 10).map (c.toNat - ·)

/-- `_PyUnicode_TransformDecimalAndSpaceToASCII`, for one character. -/
def decimalAndSpaceToASCII (c : Char) : Char :=
  if c.toNat < 128 then c
  else if isspace c then ' '
  else ((toDecimal c).map Nat.digitChar).getD '?'

/-- `Py_ISSPACE`: white space for C. -/
def isspaceASCII (c : Char) : Bool := c = ' ' ∨ (9 ≤ c.toNat ∧ c.toNat ≤ 13)

/-- Hexadecimal digits, with at most one underscore between two of them; `under` says that
an underscore may not be next. -/
def hexDigitsValue : ℕ → Bool → Text → Option ℕ
  | n, under, [] => if under then none else some n
  | n, under, c :: s =>
      if c = '_' then if under then none else hexDigitsValue n true s
      else (hexValue c).bind fun digit ↦ hexDigitsValue (n * 16 + digit) false s

/-- The digits behind `0x`, which an underscore may follow, or all if there is no `0x`. -/
def hexPrefix : Text → Text
  | '0' :: 'x' :: '_' :: s | '0' :: 'X' :: '_' :: s | '0' :: 'x' :: s | '0' :: 'X' :: s => s
  | s => s

/-- `int(text, 16)`: digits and white space of other scripts count as those of ASCII. -/
def int16 (text : Text) : Option ℤ :=
  let (sign, s) := Number.splitSign (strip isspaceASCII (text.map decimalAndSpaceToASCII))
  (hexDigitsValue 0 true (hexPrefix s)).map fun n : ℕ ↦
    if sign = ['-'] then -(n : ℤ) else n

/-- `UUID(hex)`; `none` where it raises a `ValueError`. -/
def uuidOf (hex : Text) : Option UUID :=
  let hex := remove ['u', 'u', 'i', 'd', ':'] 0 (remove ['u', 'r', 'n', ':'] 0 hex)
  let hex := (strip (fun c ↦ c = '\x7b' ∨ c = '\x7d') hex).filter (· ≠ '-')
  if hex.length ≠ 32 then none
  else
    (int16 hex).bind fun n ↦
      if h : 0 ≤ n ∧ n.toNat < 2 ^ 128 then some ⟨n.toNat, h.2⟩ else none

/-! ## Envelopes -/

/-- A key, or another string that the program has. -/
def key (s : String) : Str := Json.str s.toList

/-- An event: a `dict`. -/
structure Event (F : Type) where
  members : List (Str × Value F)
  distinct : (Value.object members).Distinct

/-- The envelope of an event. -/
def envelope (instanceId : Str) (userIds : List UUID) (event : Event F) : List (Str × Value F) :=
  [(key "source", .str instanceId),
    (key "targets", .array (userIds.map fun u ↦ .str (Json.str (Conversations.str u)))),
    (key "event", .object event.members)]

/-- The text that `publish_users` publishes. -/
def publishUsers (fl : Floats F) (lim : Limits) (instanceId : Str) (userIds : List UUID)
    (event : Event F) : Except Error Text :=
  dumps fl lim (.object (envelope instanceId userIds event))

/-- What `_deliver_envelope` makes of a message. -/
inductive Delivery (F : Type) where
  /-- `deliver_to_users_local`. -/
  | deliver (targets : List UUID) (members : List (Str × Value F))
  /-- It is malformed. -/
  | ignored
  /-- An exception that is not expected. -/
  | raised

/-- `UUID(value)`: what it is, or whether the exception is one of those that are expected. -/
def uuidOfValue : Value F → Except Bool UUID
  | .str s =>
      match (chars s).bind uuidOf with
      | some u => .ok u
      | none => .error true
  -- `UUID(None)` is a `TypeError`; all others have no `replace`.
  | .null => .error true
  | _ => .error false

/-- What a `for` loop goes through. -/
def iterate : Value F → Option (List (Value F))
  | .array elements => some elements
  | .object members => some (members.map fun m ↦ .str m.1)
  | .str s => some (s.map fun u ↦ .str [u])
  | _ => none

/-- `_deliver_envelope`. -/
def deliverEnvelope (fl : Floats F) (lim : Limits) (rawData : Text) : Delivery F :=
  match loads fl lim rawData with
  | .error .recursionError => .raised
  | .error _ => .ignored
  | .ok (.object members) =>
      match (get (key "targets") members).bind iterate with
      | none => .ignored
      | some values =>
          match values.mapM uuidOfValue with
          | .error true => .ignored
          | .error false => .raised
          | .ok targets =>
              match get (key "event") members with
              | some (.object event) => .deliver targets event
              | _ => .ignored
  | .ok _ => .ignored

/-! ## A UUID is read back -/

theorem mem_str {u : UUID} {c : Char} (h : c ∈ Conversations.str u) : c ∈ '-' :: digitChars := by
  by_cases hc : c = '-'
  · exact hc ▸ List.mem_cons_self
  · have hmem : c ∈ digits 16 32 u.val := by
      rw [← Conversations.filter_str]
      exact List.mem_filter.mpr ⟨h, decide_eq_true hc⟩
    exact List.mem_cons_of_mem _ (mem_hexDigits hmem)

theorem remove_eq_self {pattern s : Text} {c : Char} (hc : c ∉ s) :
    remove (c :: pattern) 0 s = s := by
  induction s with
  | nil => rfl
  | cons d s ih =>
      obtain ⟨hd, hs⟩ := not_or.mp (mt List.mem_cons.mpr hc)
      have hprefix : ¬ (c :: pattern).isPrefixOf (d :: s) := by
        rw [List.isPrefixOf_cons_cons]
        simp [hd]
      rw [remove, if_neg hprefix, ih hs]

theorem strip_eq_self {p : Char → Bool} {s : Text} (h : ∀ c ∈ s, ¬ p c) : strip p s = s := by
  have hdrop : s.dropWhile p = s := by
    cases s with
    | nil => rfl
    | cons c s => exact List.dropWhile_cons_of_neg (h c List.mem_cons_self)
  rw [strip, hdrop, List.rdropWhile_eq_self_iff]
  exact fun hne ↦ h _ (List.getLast_mem hne)

theorem hexDigitsValue_cons {c : Char} (hc : c ≠ '_') {n : ℕ} {under : Bool} {s : Text} :
    hexDigitsValue n under (c :: s) =
      (hexValue c).bind fun digit ↦ hexDigitsValue (n * 16 + digit) false s := by
  rw [hexDigitsValue, if_neg hc]

/-- Digits add up to the number that they are of. -/
theorem hexDigitsValue_digits {width n : ℕ} (hn : n < 16 ^ width) (m : ℕ) (s : Text) :
    hexDigitsValue m false (digits 16 width n ++ s) =
      hexDigitsValue (m * 16 ^ width + n) false s := by
  induction width generalizing n s with
  | zero =>
      obtain rfl : n = 0 := by omega
      simp [digits]
  | succ width ih =>
      have hdiv : n / 16 < 16 ^ width := by omega
      have hmod : n % 16 < 16 := Nat.mod_lt n (by decide)
      have hunder : Nat.digitChar (n % 16) ≠ '_' := fun h ↦
        absurd (h ▸ digitChar_mem (Nat.le_refl 16) hmod) (by decide)
      rw [digits, List.append_assoc, ih hdiv, List.singleton_append,
        hexDigitsValue_cons hunder, hexValue_digitChar hmod, Option.bind_some]
      have hsum := Nat.div_add_mod n 16
      have hvalue : (m * 16 ^ width + n / 16) * 16 + n % 16 = m * 16 ^ (width + 1) + n := by
        rw [Nat.pow_succ, ← Nat.mul_assoc]
        omega
      rw [hvalue]

theorem hexPrefix_eq_self {s : Text} (h : 'x' ∉ s) (h' : 'X' ∉ s) : hexPrefix s = s := by
  unfold hexPrefix
  split <;> simp_all

/-- The number of digits that are as `int` has them. -/
theorem int16_digits {n : ℕ} {width : ℕ} (hpos : 0 < width) (hn : n < 16 ^ width) :
    int16 (digits 16 width n) = some (n : ℤ) := by
  have hmem : ∀ c ∈ digits 16 width n, c ∈ digitChars := fun _ hc ↦ mem_hexDigits hc
  have hascii : (digits 16 width n).map decimalAndSpaceToASCII = digits 16 width n := by
    have hall : ∀ c ∈ digitChars, c.toNat < 128 := by simp [digitChars]
    exact (List.map_congr_left fun c hc ↦ if_pos (hall c (hmem c hc))).trans (List.map_id _)
  have hspace : strip isspaceASCII (digits 16 width n) = digits 16 width n :=
    strip_eq_self fun c hc ↦ by
      have hall : ∀ c ∈ digitChars, ¬ isspaceASCII c := by simp [digitChars, isspaceASCII]
      exact hall c (hmem c hc)
  have hnot : ∀ c ∉ digitChars, c ∉ digits 16 width n := fun c hc h ↦ hc (hmem c h)
  have hsign : Number.splitSign (digits 16 width n) =
      ([], digits 16 width n) := by
    cases hs : digits 16 width n with
    | nil => rfl
    | cons c s =>
        refine if_neg fun hc ↦ ?_
        have hmem := hmem c (hs ▸ List.mem_cons_self)
        obtain rfl | rfl := hc
        · exact absurd hmem (by decide)
        · exact absurd hmem (by decide)
  have hvalue : hexDigitsValue 0 true (digits 16 width n) = some n := by
    have hfalse := hexDigitsValue_digits hn 0 []
    rw [List.append_nil, Nat.zero_mul, Nat.zero_add] at hfalse
    cases hs : digits 16 width n with
    | nil =>
        have hlength := length_digits 16 width n
        rw [hs] at hlength
        exact absurd hlength hpos.ne
    | cons c s =>
        have hc : c ≠ '_' := fun e ↦ hnot '_' (by decide) (hs ▸ e ▸ List.mem_cons_self)
        rw [hs, hexDigitsValue_cons hc] at hfalse
        rw [hexDigitsValue_cons hc, hfalse]
        rfl
  rw [int16, hascii, hspace, hsign]
  dsimp only
  rw [hexPrefix_eq_self (hnot 'x' (by decide)) (hnot 'X' (by decide)), hvalue, Option.map_some,
    if_neg (by decide)]

/-- **A UUID is read back.** -/
theorem uuidOf_str (u : UUID) : uuidOf (Conversations.str u) = some u := by
  have hnot : ∀ c ∉ '-' :: digitChars, c ∉ Conversations.str u := fun c hc h ↦ hc (mem_str h)
  have hstrip : strip (fun c ↦ c = '\x7b' ∨ c = '\x7d') (Conversations.str u) =
      Conversations.str u := strip_eq_self fun c hc ↦ by
    have hall : ∀ c ∈ '-' :: digitChars, ¬ decide (c = '\x7b' ∨ c = '\x7d') := by simp [digitChars]
    exact hall c (mem_str hc)
  have hu : u.val < 16 ^ 32 := u.isLt
  rw [uuidOf, remove_eq_self (hnot 'u' (by decide)), remove_eq_self (hnot 'u' (by decide)), hstrip,
    Conversations.filter_str, if_neg (not_not.mpr (length_digits 16 32 u.val)),
    int16_digits (by decide) hu, Option.bind_some]
  exact dif_pos ⟨Int.natCast_nonneg u.val, u.isLt⟩

/-! ## An envelope is read back -/

variable {fl : Floats F} {lim : Limits}

theorem uuidOfValue_str (u : UUID) :
    uuidOfValue (.str (Json.str (Conversations.str u)) : Value F) = .ok u := by
  rw [uuidOfValue, chars_str, Option.bind_some, uuidOf_str]

theorem mapM_uuidOfValue (userIds : List UUID) :
    (userIds.map fun u ↦ (.str (Json.str (Conversations.str u)) : Value F)).mapM uuidOfValue =
      .ok userIds := by
  induction userIds with
  | nil => rfl
  | cons u userIds ih =>
      rw [List.map_cons, List.mapM_cons, uuidOfValue_str, ih]
      rfl

theorem mem_envelope {instanceId : Str} {userIds : List UUID} {event : Event F}
    {m : Str × Value F} : m ∈ envelope instanceId userIds event ↔
      m = (key "source", .str instanceId) ∨
      m = (key "targets", .array (userIds.map fun u ↦ .str (Json.str (Conversations.str u)))) ∨
      m = (key "event", .object event.members) := by
  simp only [envelope, List.mem_cons, List.not_mem_nil, or_false]

theorem distinct_envelope (instanceId : Str) (userIds : List UUID) (event : Event F) :
    (Value.object (envelope instanceId userIds event)).Distinct := by
  have hkeys : [key "source", key "targets", key "event"].Nodup := by decide
  refine .object hkeys fun m hm ↦ ?_
  obtain rfl | rfl | rfl := mem_envelope.mp hm
  · exact .str instanceId
  · refine .array fun v hv ↦ ?_
    obtain ⟨u, -, rfl⟩ := List.mem_map.mp hv
    exact .str _
  · exact event.distinct

/-- **What is published is what is delivered.** -/
theorem deliverEnvelope_publishUsers {instanceId : Str} {userIds : List UUID} {event : Event F}
    {text : Text} (h : publishUsers fl lim instanceId userIds event = .ok text) :
    deliverEnvelope fl lim text = .deliver userIds event.members := by
  have htargets : (get (key "targets") (envelope instanceId userIds event)).bind iterate =
      some (userIds.map fun u ↦ .str (Json.str (Conversations.str u))) := rfl
  rw [deliverEnvelope, loads_dumps (distinct_envelope instanceId userIds event) h]
  dsimp only
  rw [htargets]
  dsimp only
  rw [mapM_uuidOfValue]
  rfl

end Chatterbox.Realtime.Envelope
