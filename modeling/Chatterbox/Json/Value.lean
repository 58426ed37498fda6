import Mathlib.Algebra.GroupWithZero.Nat
import Mathlib.Data.List.Nodup
import Mathlib.Data.Fintype.Basic

/-!
# JSON values

What `json.loads` makes of a text, and `json.dumps` a text of.

A string is the list of its UTF-16 code units: an escape in a text stands for one of them,
whether or not they are in pairs, and that is all that two strings can differ in once they
are written.  A character that is not in the first plane is two of them (`utf16`).

An object is the list of its members, in their order.  A `dict` has no two with the same
key (`Value.Distinct`); a text may, and then the last one counts (`dict`).

Integers are those of Python, without a bound.  The floating-point numbers are left open:
all that is used of them is that `repr` writes a finite one as a number with a fraction or
an exponent, and that `float` reads it back (`Floats`).
-/

namespace Chatterbox.Json

/-! ## Characters and strings -/

/-- A text, as it is sent. -/
abbrev Text := List Char

/-- A code unit of UTF-16. -/
abbrev CodeUnit := Fin 65536

/-- The literals of `CodeUnit` need it. -/
instance instNeZeroCodeUnit : NeZero 65536 := ⟨Nat.succ_ne_zero 65535⟩

/-- A string. -/
abbrev Str := List CodeUnit

/-- The code units of a character. -/
def utf16 (c : Char) : Str :=
  if c.toNat < 0x10000 then [Fin.ofNat _ c.toNat]
  else
    [Fin.ofNat _ (0xd800 + (c.toNat - 0x10000) / 0x400),
      Fin.ofNat _ (0xdc00 + (c.toNat - 0x10000) % 0x400)]

/-- The string of a text. -/
def str (s : Text) : Str := s.flatMap utf16

/-- The text of a string, if its surrogates are in pairs. -/
def chars : Str → Option Text
  | [] => some []
  | u :: s =>
      if u < 0xd800 ∨ 0xe000 ≤ u then (chars s).map (Char.ofNat u :: ·)
      else
        match s with
        | [] => none
        | v :: s =>
            if u < 0xdc00 ∧ 0xdc00 ≤ v ∧ v < 0xe000 then
              (chars s).map (Char.ofNat (0x10000 + (u - 0xd800) * 0x400 + (v - 0xdc00)) :: ·)
            else none

/-- The code units of a character are read as the character. -/
theorem chars_utf16 (c : Char) (s : Str) : chars (utf16 c ++ s) = (chars s).map (c :: ·) := by
  have hvalid : c.toNat < 0xd800 ∨ 0xdfff < c.toNat ∧ c.toNat < 0x110000 := c.valid
  have hofNat : Char.ofNat c.toNat = c := Char.ofNat_toNat c
  rw [utf16]
  split
  · next h =>
      have hu : ((Fin.ofNat 65536 c.toNat : CodeUnit) : ℕ) = c.toNat := Nat.mod_eq_of_lt h
      have hunit : (Fin.ofNat 65536 c.toNat : CodeUnit) < 0xd800 ∨
          0xe000 ≤ (Fin.ofNat 65536 c.toNat : CodeUnit) := by
        rw [Fin.lt_def, Fin.le_def, hu]
        simp only [Fin.isValue, Fin.coe_ofNat_eq_mod, Nat.reduceMod]
        omega
      rw [List.singleton_append, chars.eq_def]
      simp only [hunit, if_true, hu, hofNat]
  · next h =>
      -- A character behind the first plane is read from its two surrogates.
      have hhigh : ((Fin.ofNat 65536 (0xd800 + (c.toNat - 0x10000) / 0x400) : CodeUnit) : ℕ) =
          0xd800 + (c.toNat - 0x10000) / 0x400 := Nat.mod_eq_of_lt (by omega)
      have hlow : ((Fin.ofNat 65536 (0xdc00 + (c.toNat - 0x10000) % 0x400) : CodeUnit) : ℕ) =
          0xdc00 + (c.toNat - 0x10000) % 0x400 := Nat.mod_eq_of_lt (by omega)
      generalize (Fin.ofNat 65536 (0xd800 + (c.toNat - 0x10000) / 0x400) : CodeUnit) = u at hhigh
      generalize (Fin.ofNat 65536 (0xdc00 + (c.toNat - 0x10000) % 0x400) : CodeUnit) = v at hlow
      have hplane : ¬ (u < 0xd800 ∨ 0xe000 ≤ u) := by
        rw [Fin.lt_def, Fin.le_def, hhigh]
        simp only [Fin.isValue, Fin.coe_ofNat_eq_mod, Nat.reduceMod]
        omega
      have hpair : u < 0xdc00 ∧ 0xdc00 ≤ v ∧ v < 0xe000 := by
        rw [Fin.lt_def, Fin.le_def, Fin.lt_def, hhigh, hlow]
        simp only [Fin.isValue, Fin.coe_ofNat_eq_mod, Nat.reduceMod]
        omega
      have hsum : 0x10000 + ((u : ℕ) - 0xd800) * 0x400 + ((v : ℕ) - 0xdc00) = c.toNat := by
        rw [hhigh, hlow]
        omega
      rw [List.cons_append, List.singleton_append, chars.eq_def]
      simp only [hplane, if_false, hpair, and_self, if_true, hsum, hofNat]

/-- **The string of a text has that text.** -/
theorem chars_str (s : Text) : chars (str s) = some s := by
  induction s with
  | nil => rfl
  | cons c s ih => rw [str, List.flatMap_cons, chars_utf16, ← str, ih, Option.map_some]

/-! ## Numbers -/

/-- A number as it is written. -/
structure Number where
  negative : Bool
  integer : Text
  /-- With the point, or empty. -/
  fraction : Text
  /-- With the letter and the sign, or empty. -/
  exponent : Text
deriving DecidableEq, Repr

namespace Number

/-- The sign, if there is one. -/
def sign (n : Number) : Text := if n.negative then ['-'] else []

def text (n : Number) : Text := n.sign ++ n.integer ++ n.fraction ++ n.exponent

/-- A nonempty list of decimal digits. -/
def Digits (s : Text) : Prop := s ≠ [] ∧ ∀ c ∈ s, c.isDigit

/-- An integer does not begin with a zero, unless it is zero. -/
def IsInteger (s : Text) : Prop := s = ['0'] ∨ Digits s ∧ s.head? ≠ some '0'

/-- Nothing, or a point and digits. -/
def IsFraction : Text → Prop
  | [] => True
  | c :: s => c = '.' ∧ Digits s

/-- A sign that a text begins with, and what follows it. -/
def splitSign : Text → Text × Text
  | [] => ([], [])
  | c :: s => if c = '+' ∨ c = '-' then ([c], s) else ([], c :: s)

/-- Nothing, or a letter, perhaps a sign, and digits. -/
def IsExponent : Text → Prop
  | [] => True
  | c :: s => (c = 'e' ∨ c = 'E') ∧ Digits (splitSign s).2

/-- The parts are what they should be. -/
def Valid (n : Number) : Prop :=
  IsInteger n.integer ∧ IsFraction n.fraction ∧ IsExponent n.exponent

/-- It is read by `float`, not by `int`. -/
def IsFloat (n : Number) : Prop := n.fraction ≠ [] ∨ n.exponent ≠ []

instance : DecidablePred IsFloat := fun _ ↦ inferInstanceAs (Decidable (_ ∨ _))

instance : DecidablePred Digits := fun _ ↦ inferInstanceAs (Decidable (_ ∧ _))

instance : DecidablePred IsInteger := fun _ ↦ inferInstanceAs (Decidable (_ ∨ _))

instance : DecidablePred IsFraction
  | [] => .isTrue trivial
  | _ :: _ => inferInstanceAs (Decidable (_ ∧ _))

instance : DecidablePred IsExponent
  | [] => .isTrue trivial
  | _ :: _ => inferInstanceAs (Decidable (_ ∧ _))

instance : DecidablePred Valid := fun _ ↦ inferInstanceAs (Decidable (_ ∧ _))

end Number

/-- A floating-point number, the finite ones being of type `F`. -/
inductive FloatValue (F : Type) where
  | finite (x : F)
  | nan
  | infinity
  | negInfinity
deriving DecidableEq, Repr

/-- `float.__repr__` of the finite numbers, and `float` of a number that is written. -/
structure Floats (F : Type) where
  repr : F → Number
  valid : ∀ x, (repr x).Valid
  isFloat : ∀ x, (repr x).IsFloat
  float : Number → FloatValue F
  float_repr : ∀ x, float (repr x) = .finite x

/-- Numbers that are what is written. -/
def Floats.written : Floats { n : Number // n.Valid ∧ n.IsFloat } where
  repr := Subtype.val
  valid x := x.2.1
  isFloat x := x.2.2
  float n := if h : n.Valid ∧ n.IsFloat then .finite ⟨n, h⟩ else .nan
  float_repr x := dif_pos x.2

/-! ## Values -/

/-- A value. -/
inductive Value (F : Type) where
  | null
  | bool (b : Bool)
  | int (n : ℤ)
  | float (x : FloatValue F)
  | str (s : Str)
  | array (elements : List (Value F))
  | object (members : List (Str × Value F))

variable {F α : Type}

/-- Induction over a value and those that it is made of. -/
@[elab_as_elim]
theorem Value.induction {P : Value F → Prop} (null : P .null) (bool : ∀ b, P (.bool b))
    (int : ∀ n, P (.int n)) (float : ∀ x, P (.float x)) (str : ∀ s, P (.str s))
    (array : ∀ elements, (∀ v ∈ elements, P v) → P (.array elements))
    (object : ∀ members : List (Str × Value F), (∀ m ∈ members, P m.2) → P (.object members))
    (v : Value F) : P v := by
  refine @Value.rec F P (fun vs ↦ ∀ v ∈ vs, P v) (fun ms ↦ ∀ m ∈ ms, P m.2) (fun m ↦ P m.2) null
    bool int float str array object ?_ ?_ ?_ ?_ ?_ v
  · exact fun _ h ↦ absurd h List.not_mem_nil
  · exact fun v vs hv hvs ↦ List.forall_mem_cons.mpr ⟨hv, hvs⟩
  · exact fun _ h ↦ absurd h List.not_mem_nil
  · exact fun m ms hm hms ↦ List.forall_mem_cons.mpr ⟨hm, hms⟩
  · exact fun _ _ hv ↦ hv

/-! ## Objects -/

/-- Set a member of a `dict`: a key that is there keeps its place. -/
def setItem (members : List (Str × α)) (key : Str) (v : α) : List (Str × α) :=
  if key ∈ members.map Prod.fst then
    members.map fun m ↦ if m.1 = key then (key, v) else m
  else members ++ [(key, v)]

/-- `dict` of pairs. -/
def dict (pairs : List (Str × α)) : List (Str × α) :=
  pairs.foldl (fun members m ↦ setItem members m.1 m.2) []

/-- `dict.get`. -/
def get (key : Str) (members : List (Str × α)) : Option α :=
  (members.find? fun m ↦ m.1 = key).map Prod.snd

/-- Pairs with different keys make a `dict` as they are. -/
theorem dict_eq {pairs : List (Str × α)} (h : (pairs.map Prod.fst).Nodup) : dict pairs = pairs := by
  have hfold : ∀ members : List (Str × α), ((members ++ pairs).map Prod.fst).Nodup →
      pairs.foldl (fun members m ↦ setItem members m.1 m.2) members = members ++ pairs := by
    clear h
    induction pairs with
    | nil => exact fun members _ ↦ (List.append_nil members).symm
    | cons m pairs ih =>
        intro members hnodup
        have hnew : m.1 ∉ members.map Prod.fst := by
          intro hmem
          rw [List.map_append, List.map_cons] at hnodup
          exact List.disjoint_of_nodup_append hnodup hmem List.mem_cons_self
        have hset : setItem members m.1 m.2 = members ++ [m] := if_neg hnew
        rw [List.foldl_cons, hset, ih (members ++ [m]) (by simpa using hnodup)]
        simp
  exact hfold [] h

/-- No object in a value has two members with the same key. -/
inductive Value.Distinct : Value F → Prop
  | null : Distinct .null
  | bool (b : Bool) : Distinct (.bool b)
  | int (n : ℤ) : Distinct (.int n)
  | float (x : FloatValue F) : Distinct (.float x)
  | str (s : Str) : Distinct (.str s)
  | array {elements : List (Value F)} (h : ∀ v ∈ elements, Distinct v) : Distinct (.array elements)
  | object {members : List (Str × Value F)} (keys : (members.map Prod.fst).Nodup)
      (h : ∀ m ∈ members, Distinct m.2) : Distinct (.object members)

end Chatterbox.Json
