import Chatterbox.Base
import Chatterbox.Lowercase
import Chatterbox.Run

/-!
# Registration, and whom a login is for

`AuthService.register` looks for the email and the user name among the users and, if neither is
there, inserts a row.  Any number of calls do so at the same time:

| step | source |
|---|---|
| `receive` | the call, with what `RegisterRequest` makes of its fields |
| `check` | `email_or_username_exists` |
| `insert` | the `INSERT` of the first `flush`, with an id from `uuid4` |
| `commit` | the `COMMIT`, behind `_issue_token_pair` |
| `abort` | an exception, or a lost connection, anywhere |

Of the database only the unique indexes are relied on, each by itself: an `INSERT` waits while one
of its values is being inserted by another transaction, and raises `IntegrityError` when one is
committed.  So it is up to the texts that an email is never a user name (`matches_iff`).

Passwords are left out: a row is found without them.
-/

namespace Chatterbox.Auth.Register

/-! ## Requests -/

/-- What `EmailStr` makes of a text; `none` is its `ValueError`. -/
structure EmailValidator where
  validate : List Char → Option (List Char)
  at_mem : ∀ {value email}, validate value = some email → '@' ∈ email

/-- `[A-Za-z0-9_]`. -/
def isUsernameChar (c : Char) : Bool :=
  (65 ≤ c.toNat ∧ c.toNat ≤ 90) ∨ (97 ≤ c.toNat ∧ c.toNat ≤ 122) ∨
    (48 ≤ c.toNat ∧ c.toNat ≤ 57) ∨ c.toNat = 95

/-- `RegisterRequest`, behind its validators. -/
structure RegisterRequest where
  username : List Char
  email : List Char
  username_chars : ∀ c ∈ username, isUsernameChar c ∧ c.toLower = c
  at_mem_email : '@' ∈ email
deriving DecidableEq

variable (m : CaseMapping) (v : EmailValidator)

theorem isUsernameChar_toLower {c : Char} (h : isUsernameChar c) :
    isUsernameChar c.toLower ∧ c.toLower.toLower = c.toLower := by
  by_cases hupper : 65 ≤ c.toNat ∧ c.toNat ≤ 90
  · have hlower := toNat_toLower hupper
    refine ⟨?_, toLower_of_not_upper ?_⟩
    · rw [isUsernameChar, hlower]
      exact decide_eq_true (by omega)
    · rw [hlower]
      omega
  · rw [toLower_of_not_upper hupper]
    exact ⟨h, toLower_of_not_upper hupper⟩

theorem ascii_of_isUsernameChar {c : Char} (h : isUsernameChar c) : c.toNat < 128 := by
  have h := of_decide_eq_true h
  omega

/-- What is accepted, and how it is normalized. -/
def registerRequest (username email : List Char) : Option RegisterRequest :=
  if h : 3 ≤ username.length ∧ username.length ≤ 32 ∧ username.all isUsernameChar then
    match hvalid : v.validate email with
    | none => none
    | some address => some
        { username := m.lower username
          email := m.lower address
          username_chars := by
            have hchars := List.all_eq_true.mp h.2.2
            rw [CaseMapping.lower_of_ascii fun c hc ↦ ascii_of_isUsernameChar (hchars c hc)]
            intro c hc
            obtain ⟨d, hd, rfl⟩ := List.mem_map.mp hc
            exact isUsernameChar_toLower (hchars d hd)
          at_mem_email := (CaseMapping.mem_lower_iff (by decide) (by decide) (by decide)).mpr
            (v.at_mem hvalid) }
  else none

/-! ## Users -/

/-- `models.User`. -/
structure User extends RegisterRequest where
  id : UUID
deriving DecidableEq

/-- An entry of a unique index. -/
inductive Entry where
  | id (id : UUID)
  | username (username : List Char)
  | email (email : List Char)
deriving DecidableEq, Repr

/-- The entries of a row. -/
def User.entries (u : User) : List Entry := [.id u.id, .username u.username, .email u.email]

def userAlreadyExists : AppError :=
  ⟨409, "USER_ALREADY_EXISTS", "Email or username is already registered"⟩

/-! ## Calls -/

/-- A call, by its number of arrival. -/
abbrev Call := ℕ

/-- How far a call has got. -/
inductive Phase where
  | idle
  | received (data : RegisterRequest)
  /-- There was no such user. -/
  | missing (data : RegisterRequest)
  /-- The row is written, not committed. -/
  | inserted (user : User)
  | registered (user : User)
  /-- The call has failed; `none` if the error is none of the service's. -/
  | failed (error : Option AppError)

/-- The committed rows of `users`, and the calls. -/
structure State where
  users : List User
  /-- The entries of the unique indexes that are not committed, with their calls. -/
  inserting : Entry → Option Call
  phase : Call → Phase

namespace State

/-- There are no users. -/
def initial : State := ⟨[], fun _ ↦ none, fun _ ↦ .idle⟩

/-- Move one call on. -/
def set (s : State) (r : Call) (ph : Phase) : State :=
  { s with phase := Function.update s.phase r ph }

/-- The entries of a call are taken out of the indexes, if it has any. -/
def release (s : State) (r : Call) : State :=
  { s with inserting := fun e ↦ if s.inserting e = some r then none else s.inserting e }

/-- The users who have an entry. -/
def holders (s : State) (e : Entry) : List User := s.users.filter fun u ↦ e ∈ u.entries

end State

/-- `UserRepository.email_or_username_exists`. -/
def emailOrUsernameExists (s : State) (email username : List Char) : Bool :=
  s.users.any fun u ↦ u.email = email ∨ u.username = username

/-- `Result.scalar_one_or_none`; `none` is `MultipleResultsFound`. -/
def scalarOneOrNone : List User → Option (Option User)
  | [] => some none
  | [u] => some (some u)
  | _ => none

/-- The rows that `get_by_email_or_username` selects. -/
def matchedUsers (s : State) (value : List Char) : List User :=
  s.users.filter fun u ↦ u.email = m.lower value ∨ u.username = m.lower value

/-- `UserRepository.get_by_email_or_username`. -/
def getByEmailOrUsername (s : State) (value : List Char) : Option (Option User) :=
  scalarOneOrNone (matchedUsers m s value)

/-- A step of a call. -/
inductive Action where
  | receive (r : Call) (username email : List Char)
  | check (r : Call)
  | insert (r : Call) (id : UUID)
  | commit (r : Call)
  | abort (r : Call)

/-- The `INSERT`, once none of its values is being inserted. -/
def insert (s : State) (r : Call) (u : User) : State :=
  if u.entries.all fun e ↦ s.holders e = [] then
    { s.set r (.inserted u) with
      inserting := fun e ↦ if e ∈ u.entries then some r else s.inserting e }
  else s.set r (.failed (some userAlreadyExists))

/-- One step. -/
def step (s : State) : Action → Option State
  | .receive r username email =>
      match s.phase r with
      | .idle =>
          match registerRequest m v username email with
          | none => some (s.set r (.failed none))
          | some data => some (s.set r (.received data))
      | _ => none
  | .check r =>
      match s.phase r with
      | .received data =>
          if emailOrUsernameExists s data.email data.username then
            some (s.set r (.failed (some userAlreadyExists)))
          else some (s.set r (.missing data))
      | _ => none
  | .insert r id =>
      match s.phase r with
      | .missing data =>
          let u : User := { data with id }
          if u.entries.all fun e ↦ s.inserting e = none then some (insert s r u) else none
      | _ => none
  | .commit r =>
      match s.phase r with
      | .inserted u =>
          some { (s.set r (.registered u)).release r with users := u :: s.users }
      | _ => none
  | .abort r =>
      match s.phase r with
      | .idle | .registered _ | .failed _ => none
      | _ => some ((s.set r (.failed none)).release r)

variable {m v} {s t : State} {r : Call} {a : Action} {u w : User} {e : Entry}

/-! ## The unique indexes -/

/-- An entry belongs to one user at most, and while it is being inserted to none. -/
structure Inv (s : State) : Prop where
  unique : ∀ e, (s.holders e).length ≤ 1
  inserting : ∀ r u, s.phase r = .inserted u → ∀ e ∈ u.entries, s.inserting e = some r
  missing : ∀ e, s.inserting e ≠ none → s.holders e = []

theorem Inv.initial : Inv .initial where
  unique _ := Nat.zero_le _
  inserting r u h := by cases h
  missing _ _ := rfl

/-- The entries of the others stay when one call moves. -/
theorem Inv.others (h : Inv s) {ph : Phase} (hph : ∀ u, ph ≠ .inserted u) {r' : Call}
    (hr' : Function.update s.phase r ph r' = .inserted u) (he : e ∈ u.entries) :
    r' ≠ r ∧ s.inserting e = some r' := by
  by_cases hr : r' = r
  · rw [hr, Function.update_self] at hr'
    exact absurd hr' (hph u)
  · rw [Function.update_of_ne hr] at hr'
    exact ⟨hr, h.inserting r' u hr' e he⟩

/-- A call moves on, and the tables stay as they are. -/
theorem Inv.set (h : Inv s) {ph : Phase} (hph : ∀ u, ph ≠ .inserted u) : Inv (s.set r ph) where
  unique := h.unique
  inserting _ _ hr' _ he := (h.others hph hr' he).2
  missing := h.missing

theorem inserting_release_of_ne {r' : Call} (hr : r' ≠ r) (h : s.inserting e = some r') :
    (s.release r).inserting e = some r' := by
  have hne : s.inserting e ≠ some r := fun e' ↦ hr (Option.some.inj (h.symm.trans e'))
  exact (if_neg hne).trans h

theorem ne_none_of_release (h : (s.release r).inserting e ≠ none) :
    s.inserting e ≠ none ∧ s.inserting e ≠ some r := by
  simp only [State.release] at h
  split at h
  · exact absurd rfl h
  · exact ⟨h, ‹_›⟩

theorem Inv.abort (h : Inv s) (error : Option AppError) :
    Inv ((s.set r (.failed error)).release r) where
  unique := h.unique
  inserting _ _ hr' _ he :=
    have hother := h.others (fun _ e' ↦ by cases e') hr' he
    inserting_release_of_ne hother.1 hother.2
  missing e he := h.missing e (ne_none_of_release he).1

/-- The entries of a call become visible. -/
theorem Inv.commit (h : Inv s) (hphase : s.phase r = .inserted u) :
    Inv { (s.set r (.registered u)).release r with users := u :: s.users } := by
  have hmine := h.inserting r u hphase
  refine ⟨fun e ↦ ?_, fun r' w hr' e he ↦ ?_, fun e he ↦ ?_⟩
  · rw [State.holders, List.filter_cons]
    split
    · next hu =>
        have hnone : s.holders e = [] := h.missing e (by
          rw [hmine e (of_decide_eq_true hu)]
          exact Option.some_ne_none r)
        rw [State.holders] at hnone
        rw [hnone]
        rfl
    · exact h.unique e
  · have hother := h.others (fun _ e' ↦ by cases e') hr' he
    exact inserting_release_of_ne hother.1 hother.2
  · obtain ⟨hold, hnot⟩ := ne_none_of_release he
    have hu : e ∉ u.entries := fun hu ↦ hnot (hmine e hu)
    rw [State.holders, List.filter_cons, if_neg (by simpa using hu)]
    exact h.missing e hold

/-- A call enters its values into the indexes, if no user has one of them. -/
theorem Inv.insert (h : Inv s) (hfree : ∀ e ∈ u.entries, s.inserting e = none) :
    Inv (insert s r u) := by
  rw [Register.insert]
  split
  · next hheld =>
      refine ⟨h.unique, fun r' w hr' e he ↦ ?_, fun e he ↦ ?_⟩
      · by_cases hr : r' = r
        · rw [hr] at hr' ⊢
          obtain rfl : u = w := Phase.inserted.inj ((Function.update_self ..).symm.trans hr')
          exact if_pos he
        · have hold : s.inserting e = some r' := by
            refine h.inserting r' w ?_ e he
            rw [← hr']
            exact (Function.update_of_ne hr ..).symm
          have hne : e ∉ u.entries := fun hu ↦ by rw [hfree e hu] at hold; cases hold
          exact (if_neg hne).trans hold
      · by_cases hu : e ∈ u.entries
        · exact of_decide_eq_true (List.all_eq_true.mp hheld e hu)
        · exact h.missing e fun hnone ↦ he ((if_neg hu).trans hnone)
  · exact h.set fun _ ↦ nofun

theorem Inv.step (h : Inv s) (ht : Register.step m v s a = some t) : Inv t := by
  cases a with
  | receive r username email =>
      simp only [Register.step] at ht
      split at ht
      · split at ht <;> (cases ht; exact h.set fun _ ↦ nofun)
      · cases ht
  | check r =>
      simp only [Register.step] at ht
      split at ht
      · split at ht <;> (cases ht; exact h.set fun _ ↦ nofun)
      · cases ht
  | insert r id =>
      simp only [Register.step] at ht
      split at ht
      · split at ht
        · next hfree =>
            cases ht
            exact h.insert fun e he ↦ of_decide_eq_true (List.all_eq_true.mp hfree e he)
        · cases ht
      · cases ht
  | commit r =>
      simp only [Register.step] at ht
      split at ht
      · next hphase =>
          cases ht
          exact h.commit hphase
      · cases ht
  | abort r =>
      simp only [Register.step] at ht
      split at ht
      · cases ht
      · cases ht
      · cases ht
      · cases ht
        exact h.abort none

theorem Inv.of_reachable {as : List Action} (hrun : exec (Register.step m v) .initial as = some s) :
    Inv s :=
  exec_invariant (fun h ht ↦ h.step ht) Inv.initial hrun

/-! ## Whom a login is for -/

/-- The entry that a login is compared with. -/
def entryOf (value : List Char) : Entry := if '@' ∈ value then .email value else .username value

/-- **An email is never a user name.**  So a login goes by one of the columns. -/
theorem matches_iff {value : List Char} :
    u.email = value ∨ u.username = value ↔ entryOf value ∈ u.entries := by
  have husername : '@' ∉ u.username := fun h ↦
    absurd (u.username_chars _ h).1 (by decide)
  rw [entryOf, User.entries]
  split
  · next hat =>
      have hne : u.username ≠ value := by
        rintro rfl
        exact husername hat
      simp [hne, eq_comm]
  · next hat =>
      have hne : u.email ≠ value := by
        rintro rfl
        exact hat u.at_mem_email
      simp [hne, eq_comm]

theorem matchedUsers_eq (s : State) (value : List Char) :
    matchedUsers m s value = s.holders (entryOf (m.lower value)) :=
  List.filter_congr fun _ _ ↦ decide_eq_decide.mpr matches_iff

/-- A variant of a user name becomes that user name. -/
theorem lower_variant {value : List Char}
    (h : value.map Char.toLower = u.username.map Char.toLower) : m.lower value = u.username := by
  have hname : u.username.map Char.toLower = u.username :=
    (List.map_congr_left fun c hc ↦ (u.username_chars c hc).2).trans (List.map_id' _)
  rw [hname] at h
  have hascii : ∀ c ∈ value, c.toNat < 128 := by
    intro c hc
    rw [← toNat_toLower_lt]
    have hmem : c.toLower ∈ u.username := h ▸ List.mem_map_of_mem hc
    exact ascii_of_isUsernameChar (u.username_chars _ hmem).1
  rw [CaseMapping.lower_of_ascii hascii, h]

/-- Of one row that is selected, the query returns it. -/
theorem scalarOneOrNone_of_mem {rows : List User} (hone : rows.length ≤ 1) (hu : u ∈ rows) :
    scalarOneOrNone rows = some (some u) := by
  obtain ⟨w, rfl⟩ := List.length_eq_one_iff.mp
    (Nat.le_antisymm hone (List.length_pos_of_mem hu))
  rw [List.mem_singleton.mp hu]
  rfl

/-- **A login is for one user at most, and every user has all spellings of their name.** -/
theorem login_unambiguous {as : List Action}
    (hrun : exec (Register.step m v) .initial as = some s) :
    (∀ value, (matchedUsers m s value).length ≤ 1 ∧ getByEmailOrUsername m s value ≠ none) ∧
      ∀ u ∈ s.users, ∀ value : List Char,
        value.map Char.toLower = u.username.map Char.toLower →
          getByEmailOrUsername m s value = some (some u) := by
  have hinv : Inv s := .of_reachable hrun
  have hone : ∀ value, (matchedUsers m s value).length ≤ 1 := by
    intro value
    rw [matchedUsers_eq]
    exact hinv.unique _
  refine ⟨fun value ↦ ⟨hone value, ?_⟩, fun u hu value hvalue ↦ ?_⟩
  · rw [getByEmailOrUsername]
    cases hrows : matchedUsers m s value with
    | nil => nofun
    | cons u rest =>
        have hmem : u ∈ matchedUsers m s value := hrows ▸ List.mem_cons_self
        rw [← hrows, scalarOneOrNone_of_mem (hone value) hmem]
        nofun
  · refine scalarOneOrNone_of_mem (hone value) (List.mem_filter.mpr ⟨hu, ?_⟩)
    exact decide_eq_true (.inr (lower_variant hvalue).symm)

/-- All that has an at sign is an email. -/
def anyEmail : EmailValidator where
  validate value := if '@' ∈ value then some value else none
  at_mem h := by
    split at h
    · next hat => exact Option.some.inj h ▸ hat
    · cases h

/-- `Alice` and `alice` register at once, and the second loses the race; then `Bobby` does. -/
def registering : List Action :=
  [.receive 0 ['A', 'l', 'i', 'c', 'e'] ['A', '@', 'B'],
    .receive 1 ['a', 'l', 'i', 'c', 'e'] ['C', '@', 'B'], .check 0, .check 1, .insert 0 7,
    .commit 0, .insert 1 8, .receive 2 ['B', 'o', 'b', 'b', 'y'] ['C', '@', 'B'], .check 2,
    .insert 2 9, .commit 2]

theorem login_unambiguous_alice :
    ∃ s alice bobby, exec (step asciiCase anyEmail) .initial registering = some s ∧
      s.users = [bobby, alice] ∧ s.phase 1 = .failed (some userAlreadyExists) ∧
        alice.id = 7 ∧ bobby.id = 9 ∧
        getByEmailOrUsername asciiCase s ['A', 'L', 'I', 'C', 'e'] = some (some alice) ∧
        getByEmailOrUsername asciiCase s ['b', 'o', 'b', 'B', 'Y'] = some (some bobby) := by
  have hrun : exec (step asciiCase anyEmail) .initial registering = some _ := rfl
  have h := (login_unambiguous hrun).2
  exact ⟨_, _, _, hrun, rfl, rfl, rfl, rfl, h _ (.tail _ (.head _)) _ (by decide),
    h _ (.head _) _ (by decide)⟩

end Chatterbox.Auth.Register
