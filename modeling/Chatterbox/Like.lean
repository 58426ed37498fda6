import Mathlib.Data.List.Infix

/-!
# `LIKE`

The patterns of SQL: `%` is any text, `_` any character, and a character behind the escape
character is itself.  `contains` with `autoescape` makes a pattern of a text that says nothing
but the text (`like_contains`), whatever characters it has: the escape character has to be
escaped before the others are, or it would be escaped twice.
-/

namespace Chatterbox.Like

/-- A part of a pattern. -/
inductive Token where
  | char (c : Char)
  | one
  | many
deriving DecidableEq, Repr

variable (escape : Char)

/-- The parts of a pattern; `none` if it ends with the escape character. -/
def tokens : List Char → Option (List Token)
  | [] => some []
  | c :: p =>
      if c = escape then
        match p with
        | [] => none
        | d :: p => (tokens p).map (.char d :: ·)
      else if c = '%' then (tokens p).map (.many :: ·)
      else if c = '_' then (tokens p).map (.one :: ·)
      else (tokens p).map (.char c :: ·)

/-- The text is as the parts say. -/
def isMatch : List Token → List Char → Bool
  | [], s => s.isEmpty
  | .char c :: p, s => s.head? = some c && isMatch p s.tail
  | .one :: p, s => !s.isEmpty && isMatch p s.tail
  | .many :: p, s => s.tails.any (isMatch p)

/-- `s LIKE pattern ESCAPE escape`; `none` where it raises. -/
def like (pattern s : List Char) : Option Bool := (tokens escape pattern).map (isMatch · s)

/-! ## `autoescape` -/

/-- `str.replace` of a character. -/
def replace (c : Char) (new s : List Char) : List Char :=
  s.flatMap fun d ↦ if d = c then new else [d]

/-- What `autoescape` makes of a text. -/
def autoescape (s : List Char) : List Char :=
  replace '_' [escape, '_'] (replace '%' [escape, '%'] (replace escape [escape, escape] s))

/-- The pattern of `contains(s, autoescape=True)`. -/
def contains (s : List Char) : List Char := '%' :: (autoescape escape s ++ ['%'])

variable {escape} {q s : List Char} {p : List Token}

/-- The characters that mean something are escaped, once each. -/
theorem autoescape_eq (hpercent : escape ≠ '%') (hunder : escape ≠ '_') (s : List Char) :
    autoescape escape s =
      s.flatMap fun c ↦ if c = escape ∨ c = '%' ∨ c = '_' then [escape, c] else [c] := by
  simp only [autoescape, replace, List.flatMap_assoc]
  refine List.flatMap_congr fun c _ ↦ ?_
  by_cases hescape : c = escape
  · simp [hescape, hpercent, hunder]
  · by_cases hp : c = '%'
    · subst hp
      simp [hescape, hunder]
    · by_cases hu : c = '_'
      · subst hu
        simp [hescape]
      · simp [hescape, hp, hu]

/-- A text that has been escaped is its characters, whatever follows it. -/
theorem tokens_autoescape (hpercent : escape ≠ '%') (hunder : escape ≠ '_') (q r : List Char) :
    tokens escape (autoescape escape q ++ r) =
      (tokens escape r).map (q.map Token.char ++ ·) := by
  rw [autoescape_eq hpercent hunder]
  induction q with
  | nil => simp
  | cons c q ih =>
      have hmap : (tokens escape r).map ((c :: q).map Token.char ++ ·) =
          ((tokens escape r).map (q.map Token.char ++ ·)).map (.char c :: ·) := by
        rw [Option.map_map]
        rfl
      rw [hmap, ← ih, List.flatMap_cons, List.append_assoc]
      split
      · rw [List.cons_append, List.singleton_append, tokens, if_pos rfl]
      · rename_i hplain
        obtain ⟨hescape, hp, hu⟩ := not_or.mp hplain |>.imp_right not_or.mp
        rw [List.singleton_append, tokens.eq_def]
        simp only [hescape, hp, hu, if_false]

/-! ## What matches -/

theorem matches_chars : isMatch (q.map Token.char ++ p) s ↔ ∃ t, s = q ++ t ∧ isMatch p t := by
  induction q generalizing s with
  | nil => simp
  | cons c q ih =>
      rw [List.map_cons, List.cons_append, isMatch, Bool.and_eq_true, decide_eq_true_eq, ih]
      constructor
      · rintro ⟨hhead, t, htail, ht⟩
        refine ⟨t, ?_, ht⟩
        rw [List.cons_append, ← htail, List.cons_head?_tail hhead]
      · rintro ⟨t, rfl, ht⟩
        exact ⟨rfl, t, rfl, ht⟩

theorem matches_many : isMatch (.many :: p) s ↔ ∃ t, t <:+ s ∧ isMatch p t := by
  simp only [isMatch, List.any_eq_true, List.mem_tails]

/-- **`contains` is about the text itself**: a pattern that it makes is found in the texts that
have the text in them. -/
theorem like_contains (hpercent : escape ≠ '%') (hunder : escape ≠ '_') (q s : List Char) :
    like escape (contains escape q) s = some (decide (q <:+: s)) := by
  have htokens : tokens escape (contains escape q) =
      some (.many :: (q.map Token.char ++ [.many])) := by
    rw [contains, tokens.eq_def]
    simp only [hpercent.symm, if_false, if_true, tokens_autoescape hpercent hunder]
    rw [tokens.eq_def]
    simp only [hpercent.symm, if_false, if_true, tokens, Option.map_some]
  have hall : ∀ t, isMatch [.many] t := fun t ↦ matches_many.mpr ⟨[], List.nil_suffix, rfl⟩
  have hmatch : isMatch (.many :: (q.map Token.char ++ [.many])) s ↔ q <:+: s := by
    rw [matches_many]
    constructor
    · rintro ⟨t, ⟨before, rfl⟩, ht⟩
      obtain ⟨after, rfl, -⟩ := matches_chars.mp ht
      exact ⟨before, after, List.append_assoc _ _ _⟩
    · rintro ⟨before, after, rfl⟩
      refine ⟨q ++ after, ⟨before, (List.append_assoc _ _ _).symm⟩, ?_⟩
      exact matches_chars.mpr ⟨after, rfl, hall after⟩
  rw [like, htokens, Option.map_some, Option.some.injEq, Bool.eq_iff_iff, hmatch,
    decide_eq_true_eq]

end Chatterbox.Like
