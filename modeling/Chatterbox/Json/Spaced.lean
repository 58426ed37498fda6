import Chatterbox.Json.Dumps

/-!
# Texts of a `dict` of strings

`json.dumps` of a `dict` whose values are strings, with the separators that it has by default,
`", "` and `": "`.  `loads_dumpsTexts` says that it is read back.

A string without quotes, backslashes and characters that are not in ASCII is written as it is
(`quote_plain`).
-/

namespace Chatterbox.Json

variable {F : Type}

/-- Texts with commas and blanks between them. -/
def spaced : List Text → Text
  | [] => []
  | [t] => t
  | t :: ts => t ++ ',' :: ' ' :: spaced ts

/-- A member, with a blank behind the colon. -/
def spacedMember (m : Str × Str) : Text := quote m.1 ++ ':' :: ' ' :: quote m.2

/-- `json.dumps` of a `dict` of strings. -/
def dumpsTexts (members : List (Str × Str)) : Text :=
  '\x7b' :: (spaced (members.map spacedMember) ++ ['\x7d'])

variable {fl : Floats F} {lim : Limits} {members : List (Str × Str)} {rest : Text}

theorem spaced_cons (t : Text) {ts : List Text} (h : ts ≠ []) :
    spaced (t :: ts) = t ++ ',' :: ' ' :: spaced ts := by
  cases ts with
  | nil => exact absurd rfl h
  | cons u us => rfl

/-- A string that is a value. -/
def strMember (m : Str × Str) : Str × Value F := (m.1, .str m.2)

theorem scanMember_spacedMember (depth : ℕ) (m : Str × Str) (rest : Text) :
    scanMember (scanOnce fl lim depth) (spacedMember m ++ rest) = .ok (strMember m, rest) := by
  have htext : spacedMember m ++ rest = '"' :: (m.1.flatMap escape ++
      '"' :: ':' :: ' ' :: '"' :: (m.2.flatMap escape ++ '"' :: rest)) := by
    simp [spacedMember, quote]
  have hscan : ∀ t, scanOnce fl lim depth ('"' :: t) = Scan.after .str (scanString t) := by
    intro t
    cases depth <;> rfl
  rw [htext, scanMember, List.head?_cons, if_pos rfl, List.tail_cons, scanString_quote]
  simp only [Except.bind]
  rw [skip_cons (by decide), List.head?_cons, if_pos rfl, List.tail_cons]
  have hskip : ∀ t, skip (' ' :: '"' :: t) = '"' :: t := fun _ ↦ rfl
  rw [hskip, hscan, scanString_quote]
  rfl

theorem head_spaced (h : members ≠ []) (rest : Text) :
    ∃ t, spaced (members.map spacedMember) ++ rest = '"' :: t := by
  cases members with
  | nil => exact absurd rfl h
  | cons m ms =>
      cases ms with
      | nil => exact ⟨_, rfl⟩
      | cons m' ms => exact ⟨_, rfl⟩

/-- The members are read back, one at a time. -/
theorem sequence_spaced (h : members ≠ []) (depth : ℕ) {n : ℕ} (hn : members.length ≤ n)
    (rest : Text) : sequence '\x7d' (scanMember (scanOnce fl lim depth)) n
      (spaced (members.map spacedMember) ++ '\x7d' :: rest) =
      .ok (members.map strMember, rest) := by
  induction members generalizing n with
  | nil => exact absurd rfl h
  | cons m ms ih =>
      obtain ⟨n, rfl⟩ := Nat.exists_eq_add_one_of_ne_zero (Nat.ne_zero_of_lt hn)
      by_cases hms : ms = []
      · subst hms
        rw [List.map_singleton, spaced, sequence, scanMember_spacedMember]
        rfl
      · have hne : ms.map spacedMember ≠ [] := fun e ↦ hms (List.map_eq_nil_iff.mp e)
        obtain ⟨t, ht⟩ := head_spaced hms ('\x7d' :: rest)
        have hrest := ih hms (Nat.le_of_succ_le_succ hn)
        rw [ht] at hrest
        rw [List.map_cons, spaced_cons _ hne, List.append_assoc, List.cons_append,
          List.cons_append, sequence, scanMember_spacedMember, ht]
        have hskip : skip (' ' :: '"' :: t) = '"' :: t := rfl
        have hcomma : ∀ u, skip (',' :: u) = ',' :: u := fun _ ↦ rfl
        simp only [Except.bind, hcomma, hskip, hrest]
        rfl

/-- **A `dict` of strings is read back.** -/
theorem loads_dumpsTexts (hdepth : 0 < lim.depth) (hkeys : (members.map Prod.fst).Nodup) :
    loads fl lim (dumpsTexts members) = .ok (.object (members.map strMember)) := by
  obtain ⟨depth, hsucc⟩ := Nat.exists_eq_add_one_of_ne_zero hdepth.ne'
  have hdict : dict (members.map (strMember (F := F))) = members.map strMember := by
    refine dict_eq ?_
    rw [List.map_map]
    exact hkeys
  have hitems : scanItems '\x7d' (scanMember (scanOnce fl lim depth))
      (spaced (members.map spacedMember) ++ ['\x7d']) = .ok (members.map strMember, []) := by
    by_cases hmembers : members = []
    · subst hmembers
      rfl
    · obtain ⟨t, ht⟩ := head_spaced hmembers ['\x7d']
      have hskip : skip ('"' :: t) = '"' :: t := rfl
      have hhead : ('"' :: t).head? ≠ some '\x7d' := by
        rw [List.head?_cons]
        decide
      rw [scanItems, ht, hskip, if_neg hhead, ← ht]
      -- Any number of steps will do, so there are as many as there are members.
      rw [← sequence_of_length_lt (leaves_scanMember (leaves_scanOnce fl lim depth))
        (Nat.lt_of_lt_of_le (Nat.lt_succ_self _) (Nat.le_add_right _ members.length))]
      exact sequence_spaced hmembers depth (Nat.le_add_left ..) []
  have hskip : skip (dumpsTexts members) = dumpsTexts members := rfl
  rw [loads, hskip, hsucc, dumpsTexts, scanOnce_object, hitems]
  show Except.ok (Value.object (dict (members.map strMember))) = _
  rw [hdict]

/-! ## Strings that are written as they are -/

/-- A printable character of ASCII that is neither a quote nor a backslash. -/
def Plain (c : Char) : Prop := 0x20 ≤ c.toNat ∧ c.toNat ≤ 0x7e ∧ c ≠ '"' ∧ c ≠ '\\'

theorem escape_plain {c : Char} (h : Plain c) : (utf16 c).flatMap escape = [c] := by
  have hall : ∀ i : Fin 0x7f, 0x20 ≤ i.val → Char.ofNat i ≠ '"' → Char.ofNat i ≠ '\\' →
      (utf16 (Char.ofNat i)).flatMap escape = [Char.ofNat i] := by decide
  obtain ⟨hlow, hhigh, hquote, hbackslash⟩ := h
  have hc := hall ⟨c.toNat, Nat.lt_succ_of_le hhigh⟩ hlow
  rw [Char.ofNat_toNat] at hc
  exact hc hquote hbackslash

theorem quote_plain {s : Text} (h : ∀ c ∈ s, Plain c) : quote (str s) = '"' :: (s ++ ['"']) := by
  have hescape : (str s).flatMap escape = s := by
    induction s with
    | nil => rfl
    | cons c s ih =>
        obtain ⟨hc, hs⟩ := List.forall_mem_cons.mp h
        rw [str, List.flatMap_cons, List.flatMap_append, escape_plain hc, ← str, ih hs]
        rfl
  rw [quote, hescape]

end Chatterbox.Json
