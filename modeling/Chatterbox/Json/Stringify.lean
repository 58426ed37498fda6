import Chatterbox.Json.Dumps

/-!
# What a browser writes

`JSON.stringify`.  Characters are written as they are, but for quotes, backslashes and control
characters; an unpaired surrogate, which is no character, is written as an escape.  So the text of
any string can be sent, and `json.loads` reads the string that it was (`scanString_stringifyStr`).

How a number is written is left open (`numeral`), and `loads_stringify` is about the values without
one: whatever strings they have in them, they are read back as they were.
-/

namespace Chatterbox.Json

variable {F : Type}

/-! ## The encoder -/

/-- Half of a character that is not in the first plane. -/
def IsSurrogate (u : CodeUnit) : Prop := 0xd800 ≤ u ∧ u < 0xe000

instance : DecidablePred IsSurrogate := fun _ ↦ inferInstanceAs (Decidable (_ ∧ _))

/-- A code unit that is in no pair. -/
def stringifyUnit (u : CodeUnit) : Text :=
  if u < 0x20 ∨ u = 0x22 ∨ u = 0x5c ∨ IsSurrogate u then escape u else [Char.ofNat u]

/-- `QuoteJSONString`, between the quotes. -/
def stringifyStr : Str → Text
  | [] => []
  | [u] => stringifyUnit u
  | u :: v :: s =>
      if (0xd800 ≤ u ∧ u < 0xdc00) ∧ 0xdc00 ≤ v ∧ v < 0xe000 then
        Char.ofNat (0x10000 + (u - 0xd800) * 0x400 + (v - 0xdc00)) :: stringifyStr s
      else stringifyUnit u ++ stringifyStr (v :: s)

/-- A string in quotes. -/
def stringifyQuoted (s : Str) : Text := '"' :: (stringifyStr s ++ ['"'])

mutual

/-- `JSON.stringify(v)`. -/
def Value.stringify (numeral : ℤ ⊕ FloatValue F → Text) : Value F → Text
  | .null => ['n', 'u', 'l', 'l']
  | .bool true => ['t', 'r', 'u', 'e']
  | .bool false => ['f', 'a', 'l', 's', 'e']
  | .int n => numeral (.inl n)
  | .float x => numeral (.inr x)
  | .str s => stringifyQuoted s
  | .array elements => '[' :: (joined (stringifyElements numeral elements) ++ [']'])
  | .object members => '\x7b' :: (joined (stringifyMembers numeral members) ++ ['\x7d'])

def stringifyElements (numeral : ℤ ⊕ FloatValue F → Text) : List (Value F) → List Text
  | [] => []
  | v :: vs => v.stringify numeral :: stringifyElements numeral vs

def stringifyMembers (numeral : ℤ ⊕ FloatValue F → Text) : List (Str × Value F) → List Text
  | [] => []
  | (key, v) :: ms =>
      (stringifyQuoted key ++ ':' :: v.stringify numeral) :: stringifyMembers numeral ms

end

/-- There are no numbers in the value, and no object has two members with the same key. -/
inductive Value.NumberFree : Value F → Prop
  | null : NumberFree .null
  | bool (b : Bool) : NumberFree (.bool b)
  | str (s : Str) : NumberFree (.str s)
  | array {elements : List (Value F)} (h : ∀ v ∈ elements, NumberFree v) :
      NumberFree (.array elements)
  | object {members : List (Str × Value F)} (keys : (members.map Prod.fst).Nodup)
      (h : ∀ m ∈ members, NumberFree m.2) : NumberFree (.object members)

variable {numeral : ℤ ⊕ FloatValue F → Text} {fl : Floats F} {lim : Limits} {depth : ℕ} {s : Str}
  {rest : Text} {u v : CodeUnit}

/-! ## Strings are read back -/

/-- A character of the first plane. -/
theorem toNat_ofNat_unit (h : ¬ IsSurrogate u) : (Char.ofNat u).toNat = u := by
  have hu := u.isLt
  have hvalid : (u : ℕ).isValidChar := by
    simp only [IsSurrogate, Fin.le_def, Fin.lt_def, Fin.isValue, Fin.coe_ofNat_eq_mod,
      Nat.reduceMod] at h
    simp only [Nat.isValidChar]
    omega
  rw [Char.ofNat, dif_pos hvalid]
  rfl

theorem utf16_ofNat (h : ¬ IsSurrogate u) : utf16 (Char.ofNat u) = [u] := by
  rw [utf16, toNat_ofNat_unit h, if_pos u.isLt, Fin.ofNat_val_eq_self]

/-- A character of another plane. -/
theorem utf16_ofNat_pair (hu : 0xd800 ≤ u ∧ u < 0xdc00) (hv : 0xdc00 ≤ v ∧ v < 0xe000) :
    0x10000 ≤ (Char.ofNat (0x10000 + (u - 0xd800) * 0x400 + (v - 0xdc00))).toNat ∧
      utf16 (Char.ofNat (0x10000 + (u - 0xd800) * 0x400 + (v - 0xdc00))) = [u, v] := by
  simp only [Fin.le_def, Fin.lt_def, Fin.isValue, Fin.coe_ofNat_eq_mod, Nat.reduceMod] at hu hv
  have hvalid : (0x10000 + ((u : ℕ) - 0xd800) * 0x400 + (v - 0xdc00)).isValidChar := by
    simp only [Nat.isValidChar]
    omega
  have hback : (Char.ofNat (0x10000 + (u - 0xd800) * 0x400 + (v - 0xdc00))).toNat =
      0x10000 + (u - 0xd800) * 0x400 + (v - 0xdc00) := by
    rw [Char.ofNat, dif_pos hvalid]
    rfl
  rw [utf16, hback]
  refine ⟨by omega, ?_⟩
  rw [if_neg (by omega)]
  have hhigh : 0xd800 + (0x10000 + ((u : ℕ) - 0xd800) * 0x400 + (v - 0xdc00) - 0x10000) / 0x400 =
      u := by
    omega
  have hlow : 0xdc00 + (0x10000 + ((u : ℕ) - 0xd800) * 0x400 + (v - 0xdc00) - 0x10000) % 0x400 =
      v := by
    omega
  rw [hhigh, hlow, Fin.ofNat_val_eq_self, Fin.ofNat_val_eq_self]

theorem scanString_stringifyUnit (u : CodeUnit) (s : Text) :
    scanString (stringifyUnit u ++ s) = Scan.after (u :: ·) (scanString s) := by
  rw [stringifyUnit]
  split
  · exact scanString_escape u s
  · next h =>
      obtain ⟨hcontrol, hquote, hbackslash, hsurrogate⟩ :
          ¬ u < 0x20 ∧ u ≠ 0x22 ∧ u ≠ 0x5c ∧ ¬ IsSurrogate u := by
        simpa only [not_or] using h
      have hunits := utf16_ofNat hsurrogate
      have hchar : ∀ c, utf16 c ≠ [u] → Char.ofNat u ≠ c := fun c hc e ↦ hc (e ▸ hunits)
      have hlow : ¬ (Char.ofNat u).toNat < 0x20 := by
        rw [toNat_ofNat_unit hsurrogate]
        exact hcontrol
      rw [List.singleton_append, scanString_cons (hchar '"' fun e ↦ hquote ?_)
        (hchar '\\' fun e ↦ hbackslash ?_) hlow, hunits]
      · rfl
      · exact (List.cons.inj e).1.symm
      · exact (List.cons.inj e).1.symm

/-- **A string is read back.** -/
theorem scanString_stringifyStr (s : Str) (rest : Text) :
    scanString (stringifyStr s ++ '"' :: rest) = .ok (s, rest) := by
  fun_induction stringifyStr s with
  | case1 =>
      rw [List.nil_append, scanString.eq_def]
      exact if_pos rfl
  | case2 u =>
      rw [scanString_stringifyUnit, scanString.eq_def]
      rfl
  | case3 u v s hpair ih =>
      obtain ⟨hplane, hunits⟩ := utf16_ofNat_pair hpair.1 hpair.2
      generalize Char.ofNat (0x10000 + (u - 0xd800) * 0x400 + (v - 0xdc00)) = c at hplane hunits
      have hchar : ∀ d : Char, d.toNat < 0x10000 → c ≠ d := by
        rintro d hd rfl
        omega
      rw [List.cons_append, scanString_cons (hchar _ (by decide)) (hchar _ (by decide)) (by omega),
        hunits, ih]
      rfl
  | case4 u v s _ ih =>
      rw [List.append_assoc, scanString_stringifyUnit, ih]
      rfl

/-! ## Values are read back -/

theorem stringifyElements_eq (vs : List (Value F)) :
    stringifyElements numeral vs = vs.map (Value.stringify numeral) := by
  induction vs with
  | nil => rfl
  | cons v vs ih => rw [stringifyElements, ih, List.map_cons]

/-- A member as it is written. -/
def stringifyMember (numeral : ℤ ⊕ FloatValue F → Text) (m : Str × Value F) : Text :=
  stringifyQuoted m.1 ++ ':' :: m.2.stringify numeral

theorem stringifyMembers_eq (ms : List (Str × Value F)) :
    stringifyMembers numeral ms = ms.map (stringifyMember numeral) := by
  induction ms with
  | nil => rfl
  | cons m ms ih => rw [stringifyMembers, ih, List.map_cons, stringifyMember]

theorem begins_stringify (numeral : ℤ ⊕ FloatValue F → Text) {v : Value F} (h : v.NumberFree) :
    Begins (v.stringify numeral) := by
  cases h with
  | null => exact ⟨'n', _, rfl, by decide⟩
  | bool b =>
      cases b with
      | true => exact ⟨'t', _, rfl, by decide⟩
      | false => exact ⟨'f', _, rfl, by decide⟩
  | str s => exact ⟨'"', _, rfl, by decide⟩
  | array h => exact ⟨'[', _, rfl, by decide⟩
  | object keys h => exact ⟨'\x7b', _, rfl, by decide⟩

/-- A member is read back, if its value is. -/
theorem scanMember_stringifyMember {value : Scan (Value F)} {m : Str × Value F}
    (hfree : m.2.NumberFree) (hvalue : value (m.2.stringify numeral ++ rest) = .ok (m.2, rest)) :
    scanMember value (stringifyMember numeral m ++ rest) = .ok (m, rest) := by
  have htext : stringifyMember numeral m ++ rest =
      '"' :: (stringifyStr m.1 ++ '"' :: (':' :: (m.2.stringify numeral ++ rest))) := by
    simp [stringifyMember, stringifyQuoted]
  rw [htext, scanMember, List.head?_cons, if_pos rfl, List.tail_cons, scanString_stringifyStr]
  simp only [Except.bind]
  rw [skip_cons (by decide), List.head?_cons, if_pos rfl, List.tail_cons,
    (begins_stringify numeral hfree).skip, hvalue]
  rfl

/-- **A value is read back**, whatever may follow it. -/
theorem scanOnce_stringify {v : Value F} (hfree : v.NumberFree)
    (hfault : v.fault lim.digits depth = none) (rest : Text) :
    scanOnce fl lim depth (v.stringify numeral ++ rest) = .ok (v, rest) := by
  induction v using Value.induction generalizing depth rest with
  | null =>
      rw [Value.stringify]
      exact scanOnce_constant (by simp [constants]) rest
  | bool b =>
      cases b with
      | true =>
          rw [Value.stringify]
          exact scanOnce_constant (by simp [constants]) rest
      | false =>
          rw [Value.stringify]
          exact scanOnce_constant (by simp [constants]) rest
  | int n => cases hfree
  | float x => cases hfree
  | str u =>
      have htext : (Value.str u).stringify numeral ++ rest =
          '"' :: (stringifyStr u ++ '"' :: rest) := by
        simp [Value.stringify, stringifyQuoted]
      have hscan : ∀ t, scanOnce fl lim depth ('"' :: t) = Scan.after .str (scanString t) := by
        intro t
        cases depth <;> rfl
      rw [htext, hscan, scanString_stringifyStr]
      rfl
  | array elements ih =>
      obtain ⟨inner, rfl, hinner⟩ := fault_array hfault
      cases hfree with
      | array hfree =>
          have hscan : scanItems ']' (scanOnce fl lim inner)
              (joined (elements.map (Value.stringify numeral)) ++ ']' :: rest) =
              .ok (elements, rest) :=
            scanItems_joined (.inl rfl) (leaves_scanOnce fl lim inner)
              (fun v hv ↦ begins_stringify numeral (hfree v hv))
              (fun v hv rest _ ↦ ih v hv (hfree v hv) (hinner v hv) rest) rest
          have htext : (Value.array elements).stringify numeral ++ rest =
              '[' :: (joined (elements.map (Value.stringify numeral)) ++ ']' :: rest) := by
            simp [Value.stringify, stringifyElements_eq]
          rw [htext, scanOnce_array, hscan]
          rfl
  | object members ih =>
      obtain ⟨inner, rfl, hinner⟩ := fault_object hfault
      cases hfree with
      | object hkeys hfree =>
          have hscan : scanItems '\x7d' (scanMember (scanOnce fl lim inner))
              (joined (members.map (stringifyMember numeral)) ++ '\x7d' :: rest) =
              .ok (members, rest) :=
            scanItems_joined (.inr rfl) (leaves_scanMember (leaves_scanOnce fl lim inner))
              (fun m _ ↦ (⟨'"', _, rfl, by decide⟩ : Begins (stringifyMember numeral m)))
              (fun m hm rest _ ↦ scanMember_stringifyMember (hfree m hm)
                (ih m hm (hfree m hm) (hinner m hm) rest)) rest
          have htext : (Value.object members).stringify numeral ++ rest =
              '\x7b' :: (joined (members.map (stringifyMember numeral)) ++ '\x7d' :: rest) := by
            simp [Value.stringify, stringifyMembers_eq]
          rw [htext, scanOnce_object, hscan]
          show Except.ok (Value.object (dict members), rest) = _
          rw [dict_eq hkeys]

/-- **What a browser has written is read as it was.** -/
theorem loads_stringify {v : Value F} (hfree : v.NumberFree)
    (hfault : v.fault lim.digits lim.depth = none) :
    loads fl lim (v.stringify numeral) = .ok v := by
  have hscan : scanOnce fl lim lim.depth (v.stringify numeral ++ []) = .ok (v, []) :=
    scanOnce_stringify hfree hfault []
  have hskip : skip (v.stringify numeral) = v.stringify numeral ++ [] := by
    rw [← (begins_stringify numeral hfree).skip, List.append_nil]
  rw [loads, hskip, hscan]
  rfl

end Chatterbox.Json
