import Chatterbox.Auth.Register
import Chatterbox.Like
import Chatterbox.PercentEncoding
import Chatterbox.Realtime.Envelope
import Mathlib.Data.Bool.AllAny

/-!
# Searching for a user

From the text in the search field of `ChatPage` to the users that are listed under it:

| step | source |
|---|---|
| the query of the URL | `chatApi.searchUsers`, `fetch` |
| its parameters | `search_users`, `QueryParams` |
| the pattern | `UserRepository.search` |

The text is quoted twice, for the URL and for `LIKE`, and put into lower case in between.  None of
this shows in what is found: it is the text between its blanks that the names and emails have to
have in them, whatever its characters mean in a URL or in a pattern (`search_is_literal`).
-/

namespace Chatterbox.Users

open Auth.Register (User)
open Json (Str Text chars)
open PercentEncoding
open Realtime.Envelope (strip isspace)

/-! ## The client -/

/-- What `encodeURIComponent` does not quote. -/
def unreserved (b : UInt8) : Bool :=
  b < 0x80 ∧ ((Char.ofNat b.toNat).isAlphanum ∨
    Char.ofNat b.toNat ∈ ['-', '_', '.', '!', '~', '*', '\x27', '(', ')'])

/-- `encodeURIComponent`; `none` is its `URIError`. -/
def encodeURIComponent (s : Str) : Option Text := (chars s).map (quote unreserved)

/-- What `fetch` quotes in the query of a URL. -/
def specialQuery (c : Char) : Bool :=
  c ≤ ' ' ∨ '~' < c ∨ c ∈ ['\x22', '#', '<', '>', '\x27']

/-- The query of `chatApi.searchUsers`, as it is sent. -/
def searchUsersQuery (query : Str) : Option Text :=
  (encodeURIComponent query).map fun q ↦
    requote specialQuery ("q=".toList ++ q ++ "&limit=20".toList)

/-! ## The server -/

/-- What the server gets from elsewhere. -/
structure Platform where
  mapping : CaseMapping
  /-- The order of the user names in the database. -/
  le : Text → Text → Bool
  le_trans : ∀ a b c, le a b → le b c → le a c
  le_total : ∀ a b, le a b || le b a
  /-- A text as an `int`. -/
  readInt : Text → Option ℤ
  readInt_digits : ∀ n : ℕ, n < 2 ^ 63 → readInt (Nat.toDigits 10 n) = some (n : ℤ)

/-- The columns of a user that no condition looks at. -/
structure Times where
  createdAt : Instant
  lastSeen : Option Instant
deriving DecidableEq

/-- `UserPublicResponse`. -/
structure UserPublicResponse extends Times where
  id : UUID
  username : Text
deriving DecidableEq

/-- `UserPublicResponse.model_validate`. -/
def UserPublicResponse.ofUser (times : UUID → Times) (u : User) : UserPublicResponse :=
  { times u.id with id := u.id, username := u.username }

def userNotFound : AppError := ⟨404, "USER_NOT_FOUND", "User was not found"⟩

def validationError : AppError := ⟨422, "VALIDATION_ERROR", "The request is invalid"⟩

variable (p : Platform) (users : List User) (times : UUID → Times)

/-- The condition of the query. -/
def isSelected (normalized : Text) (excludeUserId : UUID) (u : User) : Bool :=
  u.id ≠ excludeUserId ∧ (normalized = [] ∨
    Like.like '/' (Like.contains '/' normalized) u.username = some true ∨
    Like.like '/' (Like.contains '/' normalized) u.email = some true)

/-- `UserRepository.search`.  No text of the database has a NUL, and one in a query is an exception
that nobody handles. -/
def search (query : Text) (excludeUserId : UUID) (limit : ℕ) :
    Except (Option AppError) (List User) :=
  let normalized := p.mapping.lower (strip isspace query)
  if '\x00' ∈ normalized then .error none
  else
    .ok (((users.filter (isSelected normalized excludeUserId)).mergeSort
      fun u w ↦ p.le u.username w.username).take limit)

/-- The last value of a parameter. -/
def getParam (key : Text) (params : List (Text × Text)) : Option Text :=
  (params.reverse.find? (·.1 = key)).map Prod.snd

/-- `limit: Annotated[int, Query(ge=1, le=50)] = 20`. -/
def limitParam (params : List (Text × Text)) : Option ℕ :=
  match getParam "limit".toList params with
  | none => some 20
  | some value => ((p.readInt value).filter fun n ↦ 1 ≤ n ∧ n ≤ 50).map Int.toNat

/-- `search_users`. -/
def searchUsers (me : UUID) (queryString : Text) :
    Except (Option AppError) (List UserPublicResponse) :=
  let params := parseQsl queryString
  let q := (getParam "q".toList params).getD []
  match limitParam p params with
  | none => .error (some validationError)
  | some limit =>
      if q.length ≤ 64 then (search p users q me limit).map (·.map (.ofUser times))
      else .error (some validationError)

/-- `UserService.get`. -/
def getUser (userId : UUID) : Except AppError UserPublicResponse :=
  match users.find? (·.id = userId) with
  | none => .error userNotFound
  | some u => .ok (.ofUser times u)

/-! ## The query on its way -/

variable {p users times} {query : Str} {s : Text} {me : UUID}

/-- What is safe on the way. -/
def sent (b : UInt8) : Bool := unreserved b && !specialQuery (Char.ofNat b.toNat)

theorem querySafe_sent : QuerySafe sent := forall_byte (by decide +kernel)

/-- What is sent is a query of two parameters. -/
theorem searchUsersQuery_eq (htext : chars query = some s) : searchUsersQuery query =
    some (PercentEncoding.query sent [("q".toList, s), ("limit".toList, "20".toList)]) := by
  have hquote : requote specialQuery (quote unreserved s) = quote sent s :=
    requote_quote (by decide) (by decide) fun b hb ↦ (of_decide_eq_true hb).1
  rw [searchUsersQuery, encodeURIComponent, htext, Option.map_some, Option.map_some,
    Option.some.injEq]
  have happend : ∀ s t, requote specialQuery (s ++ t) =
      requote specialQuery s ++ requote specialQuery t := fun _ _ ↦ List.flatMap_append
  have hname : requote specialQuery "q=".toList = quote sent "q".toList ++ ['='] := by decide
  have hlimit : requote specialQuery "&limit=20".toList =
      '&' :: (quote sent "limit".toList ++ '=' :: quote sent "20".toList) := by decide
  rw [happend, happend, hquote, hname, hlimit]
  simp [PercentEncoding.query, List.intercalate]

/-- What the server is asked. -/
theorem searchUsers_query (p : Platform) (users : List User) (times : UUID → Times) (me : UUID)
    (htext : chars query = some s) :
    ∃ sentQuery, searchUsersQuery query = some sentQuery ∧
      searchUsers p users times me sentQuery =
        if s.length ≤ 64 then (search p users s me 20).map (·.map (.ofUser times))
        else .error (some validationError) := by
  refine ⟨_, searchUsersQuery_eq htext, ?_⟩
  have hparams := parseQsl_query querySafe_sent [("q".toList, s), ("limit".toList, "20".toList)]
  have hlimit : limitParam p [("q".toList, s), ("limit".toList, "20".toList)] = some 20 := by
    have hread : p.readInt "20".toList = some 20 :=
      p.readInt_digits 20 (by decide)
    rw [limitParam, show getParam "limit".toList [("q".toList, s), ("limit".toList, "20".toList)] =
      some "20".toList from rfl]
    simp only [hread]
    rfl
  have hq : getParam "q".toList [("q".toList, s), ("limit".toList, "20".toList)] = some s := rfl
  simp only [searchUsers, hparams, hlimit, hq, Option.getD_some]

/-! ## What is found -/

/-- The name or the email has the text in it. -/
def Mentions (needle : Text) (u : User) : Prop := needle <:+: u.username ∨ needle <:+: u.email

instance (needle : Text) (u : User) : Decidable (Mentions needle u) :=
  inferInstanceAs (Decidable (_ ∨ _))

/-- The text that is looked for. -/
def needle (m : CaseMapping) (s : Text) : Text := m.lower (strip isspace s)

theorem isSelected_iff {normalized : Text} {u : User} :
    isSelected normalized me u ↔ u.id ≠ me ∧ Mentions normalized u := by
  have hlike : ∀ t, Like.like '/' (Like.contains '/' normalized) t = some true ↔
      normalized <:+: t := fun t ↦ by
    rw [Like.like_contains (by decide) (by decide), Option.some.injEq, decide_eq_true_eq]
  simp only [isSelected, hlike, Mentions, decide_eq_true_eq]
  refine and_congr_right fun _ ↦ or_iff_right_of_imp ?_
  rintro rfl
  exact .inl (List.nil_infix)

/-- What is between the blanks is a part of the text. -/
theorem infix_of_strip : strip isspace s <:+: s :=
  (List.rdropWhile_prefix _ _).isInfix.trans (List.dropWhile_suffix _).isInfix

/-- The rows are the first ones, by name, of those that have the text. -/
theorem search_eq_ok (p : Platform) (users : List User) (me : UUID) (hnul : '\x00' ∉ s)
    (limit : ℕ) :
    ∃ found rest, search p users s me limit = .ok found ∧
      (found ++ rest).Perm (users.filter fun u ↦ u.id ≠ me ∧ Mentions (needle p.mapping s) u) ∧
        (found ++ rest).Pairwise (fun u w ↦ p.le u.username w.username) ∧
          found.length ≤ limit ∧ (rest = [] ∨ found.length = limit) := by
  have hnormalized : '\x00' ∉ needle p.mapping s := by
    rw [needle, CaseMapping.mem_lower_iff (by decide) (by decide) (by decide)]
    exact fun h ↦ hnul (infix_of_strip.subset h)
  have hhits : users.filter (isSelected (needle p.mapping s) me) =
      users.filter fun u ↦ u.id ≠ me ∧ Mentions (needle p.mapping s) u :=
    List.filter_congr fun u _ ↦ by rw [Bool.eq_iff_iff, isSelected_iff, decide_eq_true_eq]
  have htrans : ∀ u v w : User, p.le u.username v.username → p.le v.username w.username →
      p.le u.username w.username := fun _ _ _ ↦ p.le_trans _ _ _
  let rows := (users.filter (isSelected (needle p.mapping s) me)).mergeSort
    fun u w ↦ p.le u.username w.username
  refine ⟨rows.take limit, rows.drop limit, if_neg hnormalized, ?_⟩
  rw [List.take_append_drop, ← hhits]
  refine ⟨List.mergeSort_perm .., List.pairwise_mergeSort htrans (fun _ _ ↦ p.le_total _ _) _,
    List.length_take_le .., ?_⟩
  rcases le_total rows.length limit with h | h
  · exact .inl (List.drop_eq_nil_of_le h)
  · exact .inr (List.length_take_of_le h)

/-- **A search is for the text itself.**  The users that are listed are the first 20, by name, of
all others who have the text in their name or email. -/
theorem search_is_literal (p : Platform) (users : List User) (times : UUID → Times) (me : UUID)
    (htext : chars query = some s) (hlength : s.length ≤ 64) (hnul : '\x00' ∉ s) :
    ∃ sentQuery found rest, searchUsersQuery query = some sentQuery ∧
      searchUsers p users times me sentQuery = .ok (found.map (.ofUser times)) ∧
        (found ++ rest).Perm (users.filter fun u ↦ u.id ≠ me ∧ Mentions (needle p.mapping s) u) ∧
          (found ++ rest).Pairwise (fun u w ↦ p.le u.username w.username) ∧
            found.length ≤ 20 ∧ (rest = [] ∨ found.length = 20) := by
  obtain ⟨sentQuery, hquery, hsearch⟩ := searchUsers_query p users times me htext
  obtain ⟨found, rest, hfound, hrest⟩ := search_eq_ok p users me hnul 20
  refine ⟨sentQuery, found, rest, hquery, ?_, hrest⟩
  rw [hsearch, if_pos hlength, hfound]
  rfl

/-! ## Whom a part of a name finds -/

variable {m : CaseMapping} {v : Auth.Register.EmailValidator} {state : Auth.Register.State}
  {as : List Auth.Register.Action} {u : User}

/-- The text in lower case is a part of the name or the email. -/
theorem mentions_of_ascii (hascii : ∀ c ∈ s, c.toNat < 128) :
    Mentions (needle m s) u ↔
      (strip isspace s).map Char.toLower <:+: u.username ∨
        (strip isspace s).map Char.toLower <:+: u.email := by
  rw [Mentions, needle, CaseMapping.lower_of_ascii fun c hc ↦ hascii c (infix_of_strip.subset hc)]

/-- The primary key of the table. -/
theorem nodup_ids (hrun : exec (Auth.Register.step m v) .initial as = some state) :
    (state.users.map (·.id)).Nodup := by
  rw [List.nodup_iff_count_le_one]
  intro id
  have hone := (Auth.Register.Inv.of_reachable hrun).unique (.id id)
  refine le_of_eq_of_le ?_ hone
  rw [List.count, List.countP_map, List.countP_eq_length_filter, Auth.Register.State.holders]
  refine congrArg List.length (List.filter_congr fun u _ ↦ ?_)
  rw [Bool.eq_iff_iff, Function.comp_apply, beq_iff_eq, decide_eq_true_eq,
    Auth.Register.User.entries]
  simp [eq_comm]

/-- A user is the one that has their id. -/
theorem getUser_of_mem (hids : (users.map (·.id)).Nodup) (hu : u ∈ users) :
    getUser users times u.id = .ok (.ofUser times u) := by
  rw [getUser]
  cases hfind : users.find? (·.id = u.id) with
  | none => exact absurd (decide_eq_true rfl) (List.find?_eq_none.mp hfind u hu)
  | some w =>
      have hid : w.id = u.id := of_decide_eq_true (List.find?_some hfind :)
      obtain rfl := List.inj_on_of_nodup_map hids (List.mem_of_find?_eq_some hfind) hu hid
      rfl

/-- **A part of their name finds a user**, in any case and between any blanks, unless 20 others
come first.  Nobody is listed twice, and whoever is listed can be looked up. -/
theorem found_by_part (p : Platform)
    (hrun : exec (Auth.Register.step p.mapping v) .initial as = some state)
    (times : UUID → Times) (me : UUID)
    (htext : chars query = some s) (hlength : s.length ≤ 64) (hascii : ∀ c ∈ s, c.toNat < 128)
    (hnul : '\x00' ∉ s) :
    ∃ sentQuery found, searchUsersQuery query = some sentQuery ∧
      searchUsers p state.users times me sentQuery = .ok found ∧ (found.map (·.id)).Nodup ∧
        (∀ row ∈ found, row.id ≠ me ∧ getUser state.users times row.id = .ok row) ∧
          ∀ u ∈ state.users, u.id ≠ me →
            ((strip isspace s).map Char.toLower <:+: u.username ∨
              (strip isspace s).map Char.toLower <:+: u.email) →
            .ofUser times u ∈ found ∨
              found.length = 20 ∧ ∀ row ∈ found, p.le row.username u.username := by
  obtain ⟨sentQuery, found, rest, hquery, hsearch, hperm, hsorted, -, hrest⟩ :=
    search_is_literal p state.users times me htext hlength hnul
  have hids := nodup_ids hrun
  have hmem : ∀ u, u ∈ found ++ rest ↔
      u ∈ state.users ∧ u.id ≠ me ∧ Mentions (needle p.mapping s) u := fun u ↦ by
    rw [hperm.mem_iff, List.mem_filter, decide_eq_true_eq]
  have hnodup : ((found ++ rest).map (·.id)).Nodup :=
    (hperm.map (·.id)).nodup_iff.mpr (hids.sublist (List.filter_sublist.map _))
  refine ⟨sentQuery, found.map (.ofUser times), hquery, hsearch, ?_, ?_, ?_⟩
  · rw [List.map_map]
    rw [List.map_append] at hnodup
    exact (List.nodup_append.mp hnodup).1
  · intro row hrow
    obtain ⟨u, hu, rfl⟩ := List.mem_map.mp hrow
    obtain ⟨huser, hme, -⟩ := (hmem u).mp (List.mem_append_left _ hu)
    exact ⟨hme, getUser_of_mem hids huser⟩
  · intro u huser hme hpart
    have hu := (hmem u).mpr ⟨huser, hme, (mentions_of_ascii hascii).mpr hpart⟩
    rcases List.mem_append.mp hu with hfound | hleft
    · exact .inl (List.mem_map_of_mem hfound)
    · have hlength : found.length = 20 := by
        refine hrest.resolve_left ?_
        rintro rfl
        exact absurd hleft List.not_mem_nil
      refine .inr ⟨(List.length_map _).trans hlength, fun row hrow ↦ ?_⟩
      obtain ⟨w, hw, rfl⟩ := List.mem_map.mp hrow
      exact (List.pairwise_append.mp hsorted).2.2 w hw u hleft

/-! ## An example -/

/-- Digits are read, and names are in the order of their characters. -/
def plainPlatform : Platform where
  mapping := asciiCase
  le a b := decide (a ≤ b)
  le_trans a b c hab hbc := by
    rw [decide_eq_true_eq] at *
    exact le_trans hab hbc
  le_total a b := by
    rw [Bool.or_eq_true, decide_eq_true_eq, decide_eq_true_eq]
    exact le_total a b
  readInt s := if s ≠ [] ∧ s.all Char.isDigit then some (Nat.ofDigitChars 10 s 0) else none
  readInt_digits n _ := by
    have hdigits : (Nat.toDigits 10 n).all Char.isDigit := List.all_eq_true.mpr fun c hc ↦
      Nat.isDigit_of_mem_toDigits (by decide) (by decide) hc
    rw [if_pos ⟨Nat.toDigits_ne_nil, hdigits⟩, Nat.ofDigitChars_ten_toDigits]

/-- Nobody has been seen. -/
def unseen (_ : UUID) : Times := ⟨5, none⟩

/-- Two users, whose names differ in a character that is not in the text. -/
def underscores : List User :=
  [{ username := ['a', '_', 'b'], email := ['@'], id := 1, at_mem_email := by decide,
     username_chars := List.all_iff_forall_prop.mp (by decide) },
    { username := ['a', 'x', 'b'], email := ['@'], id := 2, at_mem_email := by decide,
      username_chars := List.all_iff_forall_prop.mp (by decide) }]

/-- ` A_` is found in one of the names only. -/
theorem search_is_literal_underscore : ∃ sentQuery,
    searchUsersQuery (Json.str [' ', 'A', '_']) = some sentQuery ∧
      searchUsers plainPlatform underscores unseen 3 sentQuery =
        .ok [⟨⟨5, none⟩, 1, ['a', '_', 'b']⟩] := by
  obtain ⟨sentQuery, found, rest, hquery, hsearch, hperm, -, -, hrest⟩ :=
    search_is_literal plainPlatform underscores unseen 3 (Json.chars_str [' ', 'A', '_'])
      (by decide) (by decide)
  refine ⟨sentQuery, hquery, ?_⟩
  have hhits : (underscores.filter fun u ↦
      u.id ≠ 3 ∧ Mentions (needle plainPlatform.mapping [' ', 'A', '_']) u) =
        underscores.take 1 := by decide
  rw [hhits] at hperm
  obtain rfl : rest = [] := by
    refine hrest.resolve_right fun h ↦ ?_
    have hlength := hperm.length_eq
    rw [List.length_append, h] at hlength
    have hone : (underscores.take 1).length = 1 := rfl
    omega
  rw [List.append_nil] at hperm
  rw [hsearch, List.perm_singleton.mp hperm]
  rfl

/-- Of two users that have registered, `Alice` is found by `LIC`, unless 20 others are. -/
theorem found_by_part_alice : ∃ state sentQuery found,
    exec (Auth.Register.step asciiCase Auth.Register.anyEmail) .initial
      Auth.Register.registering = some state ∧
    searchUsersQuery (Json.str ['L', 'I', 'C']) = some sentQuery ∧
      searchUsers plainPlatform state.users unseen 3 sentQuery = .ok found ∧
        ((⟨⟨5, none⟩, 7, ['a', 'l', 'i', 'c', 'e']⟩ : UserPublicResponse) ∈ found ∨
          found.length = 20) := by
  have hrun : exec (Auth.Register.step plainPlatform.mapping Auth.Register.anyEmail) .initial
    Auth.Register.registering = some _ := rfl
  obtain ⟨sentQuery, found, hquery, hsearch, hnodup, hrows, hpart⟩ :=
    found_by_part plainPlatform hrun unseen 3 (Json.chars_str ['L', 'I', 'C']) (by decide)
      (List.all_iff_forall_prop.mp (by decide)) (by decide)
  refine ⟨_, sentQuery, found, hrun, hquery, hsearch, ?_⟩
  exact (hpart _ (.tail _ (.head _)) (by decide) (by decide)).imp_right And.left

end Chatterbox.Users
