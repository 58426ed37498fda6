import Chatterbox.Auth.Register
import Chatterbox.Auth.Tokens
import Chatterbox.Realtime.Envelope
import Mathlib.Logic.Equiv.Nat

/-!
# Who is signed in

`AuthService` with all of its operations, one request at a time, and the two places where an access
token is asked for: `get_current_user` and `get_websocket_user`.

Signing in gives a pair of tokens: a short one, which is checked without the database, and a long
one, which has a row there and can be traded, once, for another pair.  `grants` are all pairs that
have been given out and what for; the code does not have it, and nothing depends on it.

* Whoever is let in has a token that goes back to a registration or to a login with the password
  (`let_in`), if nobody makes up signatures (`Unforged`).
* A short token opens requests and sockets until it ends, and a long one opens nothing
  (`tokens_open`).
* Of every registration and every login one long token is left, until a logout
  (`one_token_each`).  Two trades of one token that overlap may both succeed
  (`Auth.Rotation`), so this needs the requests to be taken one at a time.

The library `jwt` and the one that hashes passwords are parameters.
-/

namespace Chatterbox.Auth.Sessions

open Realtime.Envelope (strip isspace)
open Register (RegisterRequest isUsernameChar userAlreadyExists)

/-! ## Tokens -/

/-- The payload of a token.  `jwt` writes times in whole seconds. -/
structure Claims where
  sub : UUID
  type : TokenType
  jti : UUID
  iat : ℤ
  exp : ℤ
deriving DecidableEq, Repr

/-- `NumericDate` of a `datetime`. -/
def seconds (time : Instant) : ℤ := time / 1000000

/-- A token that has not expired, and has been issued. -/
def Claims.ValidAt (claims : Claims) (now : Instant) : Prop :=
  claims.iat * 1000000 ≤ now ∧ now < claims.exp * 1000000

instance (claims : Claims) (now : Instant) : Decidable (claims.ValidAt now) :=
  inferInstanceAs (Decidable (_ ∧ _))

/-- `jwt`, with our secret and our algorithm; `none` is a `PyJWTError`. -/
structure Jwt where
  encode : Claims → List Char
  decode : Instant → List Char → Option Claims
  decode_encode : ∀ claims now,
    decode now (encode claims) = if claims.ValidAt now then some claims else none
  /-- Three parts in the URL alphabet of base 64, with dots between them. -/
  encode_plain : ∀ claims, encode claims ≠ [] ∧ ∀ c ∈ encode claims, c ≠ ',' ∧ isspace c = false

/-- `PasswordHash`. -/
structure PasswordHash where
  hash : ℕ → String → String
  verify : String → String → Bool

/-- `decode_token`; `none` is an `InvalidTokenError`. -/
def decodeToken (jwt : Jwt) (now : Instant) (token : List Char) (expectedType : TokenType) :
    Option Claims :=
  (jwt.decode now token).filter fun claims ↦ claims.type = expectedType

/-! ## The state -/

/-- `models.User`. -/
structure User extends Register.User where
  passwordHash : String
deriving DecidableEq

/-- What a pair of tokens has been given for. -/
inductive Origin where
  | registered
  | loggedIn (password : String)
  /-- A long token has been traded. -/
  | refreshed (rawToken : List Char) (payload : Claims)
deriving DecidableEq, Repr

/-- A pair of tokens that has been given out. -/
structure Grant where
  userId : UUID
  access : Claims
  refresh : Claims
  /-- `create_refresh_token` has run. -/
  at_ : Instant
  origin : Origin
deriving DecidableEq, Repr

/-- The clock, `users`, `refresh_tokens` by their `jti`, and all that has been given out. -/
structure State where
  now : Instant
  users : List User
  tokens : List (UUID × RefreshToken)
  grants : List Grant

/-- What a request draws: the identifier of a user, a salt, and the `jti` of both tokens. -/
structure Draws where
  userId : UUID
  salt : ℕ
  access : UUID
  refresh : UUID
deriving DecidableEq, Repr

structure Settings where
  accessTokenExpire : Instant
  refreshTokenExpire : Instant

def invalidCredentials : AppError := ⟨401, "INVALID_CREDENTIALS", "Invalid login or password"⟩

def authenticationRequired : AppError :=
  ⟨401, "AUTHENTICATION_REQUIRED", "Authentication is required"⟩

def invalidAccessToken : AppError :=
  ⟨401, "INVALID_ACCESS_TOKEN", "Access token is invalid or expired"⟩

/-- The `AppError` of a request, or `none` for another exception. -/
abbrev Failure := Option AppError

/-! ## Queries -/

/-- `UserRepository.get_by_email_or_username`; `none` is `MultipleResultsFound`. -/
def getByEmailOrUsername (m : CaseMapping) (s : State) (value : List Char) :
    Option (Option User) :=
  match s.users.filter fun u ↦ u.email = m.lower value ∨ u.username = m.lower value with
  | [] => some none
  | [u] => some (some u)
  | _ => none

/-- `UserRepository.get_by_id`. -/
def getById (s : State) (id : UUID) : Option User := s.users.find? fun u ↦ u.id = id

/-- `TokenRepository.get_active`. -/
def getActive (s : State) (jti : UUID) : Option RefreshToken :=
  ((s.tokens.find? fun p ↦ p.1 = jti).map Prod.snd).filter fun token ↦
    token.revokedAt = none ∧ s.now < token.expiresAt

/-- `TokenRepository.revoke`. -/
def revoke (s : State) (jti : UUID) : State :=
  { s with tokens := s.tokens.map fun p ↦
      if p.1 = jti then (p.1, { p.2 with revokedAt := some s.now }) else p }

/-! ## The service -/

variable (m : CaseMapping) (jwt : Jwt) (hasher : PasswordHash) (st : Settings)

/-- `_create_token`. -/
def createToken (now : Instant) (subject : UUID) (tokenType : TokenType) (jti : UUID)
    (lifetime : Instant) : Claims :=
  ⟨subject, tokenType, jti, seconds now, seconds (now + lifetime)⟩

/-- `_issue_token_pair`. -/
def issueTokenPair (draws : Draws) (s : State) (userId : UUID) (origin : Origin) :
    Except Failure (Grant × State) :=
  if ∃ p ∈ s.tokens, p.1 = draws.refresh then .error none
  else
    let grant : Grant :=
      { userId
        access := createToken s.now userId .access draws.access st.accessTokenExpire
        refresh := createToken s.now userId .refresh draws.refresh st.refreshTokenExpire
        at_ := s.now
        origin }
    .ok (grant, { s with
      tokens := (draws.refresh, ⟨userId, s.now + st.refreshTokenExpire, none⟩) :: s.tokens
      grants := grant :: s.grants })

/-- `AuthService.register`. -/
def register (draws : Draws) (s : State) (data : RegisterRequest) (password : String) :
    Except Failure (Grant × State) :=
  if ∃ u ∈ s.users, u.email = data.email ∨ u.username = data.username then
    .error (some userAlreadyExists)
  else if ∃ u ∈ s.users, u.id = draws.userId then
    -- `IntegrityError`, of the primary key
    .error (some userAlreadyExists)
  else
    issueTokenPair st draws { s with
      users := ⟨⟨data, draws.userId⟩, hasher.hash draws.salt password⟩ :: s.users }
      draws.userId .registered

/-- `AuthService.login`. -/
def login (draws : Draws) (s : State) (value : List Char) (password : String) :
    Except Failure (Grant × State) :=
  match getByEmailOrUsername m s value with
  | none => .error none
  | some none => .error (some invalidCredentials)
  | some (some user) =>
      if hasher.verify password user.passwordHash then
        issueTokenPair st draws s user.id (.loggedIn password)
      else .error (some invalidCredentials)

/-- `AuthService.refresh`. -/
def refresh (draws : Draws) (s : State) (rawToken : List Char) :
    Except Failure (Grant × State) :=
  match decodeToken jwt s.now rawToken .refresh with
  | none => .error (some invalidRefreshToken)
  | some payload =>
      match getActive s payload.jti with
      | none => .error (some invalidRefreshToken)
      | some storedToken =>
          if storedToken.userId ≠ payload.sub then .error (some invalidRefreshToken)
          else
            match getById s payload.sub with
            | none => .error (some invalidRefreshToken)
            | some user =>
                issueTokenPair st draws (revoke s payload.jti) user.id
                  (.refreshed rawToken payload)

/-- `AuthService.logout`. -/
def logout (s : State) (rawToken : List Char) : Except Failure State :=
  match decodeToken jwt s.now rawToken .refresh with
  | none => .error (some invalidRefreshToken)
  | some payload =>
      match getActive s payload.jti with
      | none => .ok s
      | some storedToken =>
          if storedToken.userId = payload.sub then .ok (revoke s payload.jti) else .ok s

/-! ## Letting in -/

/-- `get_current_user`, of the credentials in the header. -/
def getCurrentUser (s : State) (credentials : Option (List Char)) : Except AppError User :=
  match credentials with
  | none => .error authenticationRequired
  | some token =>
      match decodeToken jwt s.now token .access with
      | none => .error invalidAccessToken
      | some payload =>
          match getById s payload.sub with
          | none => .error invalidAccessToken
          | some user => .ok user

/-- `extract_access_token`, of `sec-websocket-protocol`. -/
def extractAccessToken (header : List Char) : Option (List Char) :=
  match (header.splitOn ',').map (strip isspace) with
  | [scheme, token] => if scheme = "access_token".toList ∧ token ≠ [] then some token else none
  | _ => none

/-- `get_websocket_user`; `none` is the close code 1008. -/
def getWebsocketUser (s : State) (header : List Char) : Option User :=
  (extractAccessToken header).bind fun token ↦
    (decodeToken jwt s.now token .access).bind fun payload ↦ getById s payload.sub

/-- The header of `new WebSocket(url, ['access_token', accessToken])`. -/
def websocketProtocols (accessToken : List Char) : List Char :=
  "access_token".toList ++ ',' :: ' ' :: accessToken

/-! ## Runs -/

inductive Action where
  | tick (d : ℕ)
  | register (draws : Draws) (data : RegisterRequest) (password : String)
  | login (draws : Draws) (value : List Char) (password : String)
  | refresh (draws : Draws) (rawToken : List Char)
  | logout (rawToken : List Char)

/-- What a request leaves; one that fails leaves all as it was. -/
def State.after {α : Type} (s : State) (x : Except Failure (α × State)) : State :=
  match x with
  | .ok (_, t) => t
  | .error _ => s

/-- The clock goes on, or a request is served. -/
def step (s : State) : Action → Option State
  | .tick d => some { s with now := s.now + d }
  | .register draws data password => some (s.after (register hasher st draws s data password))
  | .login draws value password => some (s.after (login m hasher st draws s value password))
  | .refresh draws rawToken => some (s.after (refresh jwt st draws s rawToken))
  | .logout rawToken =>
      match logout jwt s rawToken with
      | .ok t => some t
      | .error _ => some s

def State.initial (now : Instant) : State := ⟨now, [], [], []⟩

/-- The token has been given out, or its signature is not ours. -/
def Genuine (s : State) (token : List Char) : Prop :=
  (∃ g ∈ s.grants, token = jwt.encode g.access ∨ token = jwt.encode g.refresh) ∨
    ∀ now, jwt.decode now token = none

/-- Nobody makes up signatures. -/
def Unforged (s : State) : Action → Prop
  | .refresh _ rawToken | .logout rawToken => Genuine jwt s rawToken
  | _ => True

/-! ## Signing in and out -/

/-- The long tokens of the user that have not been revoked. -/
def State.sessions (s : State) (u : UUID) : ℕ :=
  s.tokens.countP fun p ↦ p.2.userId = u ∧ p.2.revokedAt = none

/-- The row that a logout revokes. -/
def revoked (s : State) (rawToken : List Char) : Option RefreshToken :=
  (decodeToken jwt s.now rawToken .refresh).bind fun payload ↦
    (getActive s payload.jti).filter fun row ↦ row.userId = payload.sub

/-- Whether the answer is a pair of tokens for the user. -/
def given (u : UUID) (x : Except Failure (Grant × State)) : ℕ :=
  match x with
  | .ok (g, _) => if g.userId = u then 1 else 0
  | .error _ => 0

/-- The user registers, or logs in. -/
def signsIn (u : UUID) (s : State) : Action → ℕ
  | .register draws data password => given u (register hasher st draws s data password)
  | .login draws value password => given u (login m hasher st draws s value password)
  | _ => 0

/-- The user logs out, with a token that can still be traded. -/
def signsOut (u : UUID) (s : State) : Action → ℕ
  | .logout rawToken => if (revoked jwt s rawToken).any fun row ↦ row.userId = u then 1 else 0
  | _ => 0

variable {m jwt hasher st} {s t : State} {draws : Draws} {a : Action} {g old : Grant} {u jti : UUID}
  {user : User} {token : List Char}

/-! ## What a request does -/

/-- The pair that is given out. -/
def grantOf (st : Settings) (draws : Draws) (s : State) (userId : UUID) (origin : Origin) :
    Grant where
  userId := userId
  access := createToken s.now userId .access draws.access st.accessTokenExpire
  refresh := createToken s.now userId .refresh draws.refresh st.refreshTokenExpire
  at_ := s.now
  origin := origin

/-- A pair is given out, and of the long one a row is kept. -/
def State.grant (st : Settings) (draws : Draws) (s : State) (userId : UUID) (origin : Origin) :
    State :=
  { s with
    tokens := (draws.refresh, ⟨userId, s.now + st.refreshTokenExpire, none⟩) :: s.tokens
    grants := grantOf st draws s userId origin :: s.grants }

theorem issueTokenPair_eq_ok {origin : Origin}
    (h : issueTokenPair st draws s u origin = .ok (g, t)) :
    (∀ p ∈ s.tokens, p.1 ≠ draws.refresh) ∧ g = grantOf st draws s u origin ∧
      t = s.grant st draws u origin := by
  unfold issueTokenPair at h
  split at h
  · cases h
  · rename_i hfresh
    cases h
    exact ⟨fun p hp e ↦ hfresh ⟨p, hp, e⟩, rfl, rfl⟩

/-- A long token that can be traded. -/
structure Active (s : State) (payload : Claims) (row : RefreshToken) : Prop where
  mem : (payload.jti, row) ∈ s.tokens
  live : row.revokedAt = none
  valid : s.now < row.expiresAt
  owner : row.userId = payload.sub

theorem mem_of_getActive {row : RefreshToken} (h : getActive s jti = some row) :
    (jti, row) ∈ s.tokens ∧ row.revokedAt = none ∧ s.now < row.expiresAt := by
  unfold getActive at h
  obtain ⟨hfound, hactive⟩ := Option.filter_eq_some_iff.mp h
  obtain ⟨p, hp, rfl⟩ := Option.map_eq_some_iff.mp hfound
  have hid : p.1 = jti := by simpa using List.find?_some hp
  obtain rfl := hid
  exact ⟨List.mem_of_find?_eq_some hp, of_decide_eq_true hactive⟩

theorem mem_of_getByEmailOrUsername {value : List Char}
    (h : getByEmailOrUsername m s value = some (some user)) : user ∈ s.users := by
  unfold getByEmailOrUsername at h
  split at h
  · cases h
  · rename_i hrows
    cases h
    exact List.mem_of_mem_filter (hrows ▸ List.mem_singleton_self _)
  · cases h

theorem mem_of_getById (h : getById s u = some user) : user ∈ s.users ∧ user.id = u :=
  ⟨List.mem_of_find?_eq_some h, by simpa using List.find?_some h⟩

theorem getById_of_mem (h : user ∈ s.users) : ∃ other, getById s user.id = some other :=
  Option.isSome_iff_exists.mp (List.find?_isSome.mpr ⟨user, h, decide_eq_true rfl⟩)

theorem revoke_fst : (revoke s jti).tokens.map Prod.fst = s.tokens.map Prod.fst := by
  rw [revoke, List.map_map]
  refine List.map_congr_left fun p _ ↦ ?_
  rw [Function.comp_apply]
  split <;> rfl

theorem fresh_revoke : (∀ p ∈ (revoke s jti).tokens, p.1 ≠ u) ↔ ∀ p ∈ s.tokens, p.1 ≠ u := by
  rw [← List.forall_mem_map (P := fun jti ↦ jti ≠ u), revoke_fst, List.forall_mem_map]

theorem register_eq_ok {data : RegisterRequest} {password : String}
    (h : Sessions.register hasher st draws s data password = .ok (g, t)) :
    (∀ p ∈ s.tokens, p.1 ≠ draws.refresh) ∧
      g = grantOf st draws s draws.userId .registered ∧
      t = State.grant st draws
        { s with users := ⟨⟨data, draws.userId⟩, hasher.hash draws.salt password⟩ :: s.users }
        draws.userId .registered := by
  unfold Sessions.register at h
  split at h
  · cases h
  · split at h
    · cases h
    · exact issueTokenPair_eq_ok h

theorem login_eq_ok {value : List Char} {password : String}
    (h : Sessions.login m hasher st draws s value password = .ok (g, t)) :
    ∃ user ∈ s.users, hasher.verify password user.passwordHash = true ∧
      (∀ p ∈ s.tokens, p.1 ≠ draws.refresh) ∧
      g = grantOf st draws s user.id (.loggedIn password) ∧
      t = s.grant st draws user.id (.loggedIn password) := by
  unfold Sessions.login at h
  split at h
  · cases h
  · cases h
  · rename_i user hfound
    split at h
    · rename_i hverify
      exact ⟨user, mem_of_getByEmailOrUsername hfound, hverify, issueTokenPair_eq_ok h⟩
    · cases h

theorem refresh_eq_ok {rawToken : List Char}
    (h : Sessions.refresh jwt st draws s rawToken = .ok (g, t)) :
    ∃ payload row, decodeToken jwt s.now rawToken .refresh = some payload ∧
      Active s payload row ∧ (∃ user ∈ s.users, user.id = payload.sub) ∧
      (∀ p ∈ s.tokens, p.1 ≠ draws.refresh) ∧
      g = grantOf st draws s payload.sub (.refreshed rawToken payload) ∧
      t = (revoke s payload.jti).grant st draws payload.sub (.refreshed rawToken payload) := by
  unfold Sessions.refresh at h
  split at h
  · cases h
  · rename_i payload hdecode
    split at h
    · cases h
    · rename_i row hactive
      split at h
      · cases h
      · rename_i howner
        split at h
        · cases h
        · rename_i user huser
          obtain ⟨hmem, hlive, hvalid⟩ := mem_of_getActive hactive
          obtain ⟨huser, hid⟩ := mem_of_getById huser
          rw [hid] at h
          obtain ⟨hfresh, hg, ht⟩ := issueTokenPair_eq_ok h
          exact ⟨payload, row, hdecode, ⟨hmem, hlive, hvalid, not_not.mp howner⟩,
            ⟨user, huser, hid⟩, fresh_revoke.mp hfresh, hg, ht⟩

/-- What a logout revokes. -/
theorem logout_eq_ok {rawToken : List Char} (h : Sessions.logout jwt s rawToken = .ok t) :
    (revoked jwt s rawToken = none ∧ t = s) ∨ ∃ payload row, Active s payload row ∧
      revoked jwt s rawToken = some row ∧ t = revoke s payload.jti := by
  unfold Sessions.logout at h
  split at h
  · cases h
  · rename_i payload hdecode
    have hrow : revoked jwt s rawToken =
        (getActive s payload.jti).filter fun row ↦ row.userId = payload.sub := by
      rw [revoked, hdecode, Option.bind_some]
    split at h
    · rename_i hnone
      cases h
      exact .inl ⟨by rw [hrow, hnone, Option.filter_none], rfl⟩
    · rename_i row hactive
      rw [hactive] at hrow
      obtain ⟨hmem, hlive, hvalid⟩ := mem_of_getActive hactive
      split at h
      · rename_i howner
        cases h
        refine .inr ⟨payload, row, ⟨hmem, hlive, hvalid, howner⟩, ?_, rfl⟩
        rw [hrow, Option.filter_some, if_pos (decide_eq_true howner)]
      · rename_i howner
        cases h
        refine .inl ⟨?_, rfl⟩
        rw [hrow, Option.filter_some, if_neg (by simpa using howner)]

theorem revoked_of_error {rawToken : List Char} {error : Failure}
    (h : Sessions.logout jwt s rawToken = .error error) : revoked jwt s rawToken = none := by
  unfold Sessions.logout at h
  split at h
  · rename_i hdecode
    rw [revoked, hdecode, Option.bind_none]
  · split at h
    · cases h
    · split at h <;> cases h

/-- What a step does. -/
inductive Move (jwt : Jwt) (hasher : PasswordHash) (st : Settings) (s : State) :
    Action → State → Prop
  | nothing (a : Action) : Move jwt hasher st s a s
  | tick (d : ℕ) : Move jwt hasher st s (.tick d) { s with now := s.now + d }
  | register {draws : Draws} {data : RegisterRequest} {password : String}
      (fresh : ∀ p ∈ s.tokens, p.1 ≠ draws.refresh) (user : User) :
      Move jwt hasher st s (.register draws data password)
        (State.grant st draws { s with users := user :: s.users } user.id .registered)
  | login {draws : Draws} {value : List Char} {password : String} {user : User}
      (fresh : ∀ p ∈ s.tokens, p.1 ≠ draws.refresh) (known : user ∈ s.users)
      (verified : hasher.verify password user.passwordHash = true) :
      Move jwt hasher st s (.login draws value password)
        (s.grant st draws user.id (.loggedIn password))
  | refresh {draws : Draws} {rawToken : List Char} {payload : Claims} {row : RefreshToken}
      (fresh : ∀ p ∈ s.tokens, p.1 ≠ draws.refresh)
      (decoded : decodeToken jwt s.now rawToken .refresh = some payload)
      (active : Active s payload row) (known : ∃ user ∈ s.users, user.id = payload.sub) :
      Move jwt hasher st s (.refresh draws rawToken)
        ((revoke s payload.jti).grant st draws payload.sub (.refreshed rawToken payload))
  | logout {rawToken : List Char} {payload : Claims} {row : RefreshToken}
      (active : Active s payload row) :
      Move jwt hasher st s (.logout rawToken) (revoke s payload.jti)

theorem Move.of_step (ht : Sessions.step m jwt hasher st s a = some t) :
    Move jwt hasher st s a t := by
  cases a with
  | tick d =>
      cases ht
      exact .tick d
  | register draws data password =>
      cases ht
      cases hok : Sessions.register hasher st draws s data password with
      | error => exact .nothing _
      | ok p =>
          obtain ⟨g, t⟩ := p
          obtain ⟨hfresh, -, rfl⟩ := register_eq_ok hok
          exact .register hfresh ⟨⟨data, draws.userId⟩, hasher.hash draws.salt password⟩
  | login draws value password =>
      cases ht
      cases hok : Sessions.login m hasher st draws s value password with
      | error => exact .nothing _
      | ok p =>
          obtain ⟨g, t⟩ := p
          obtain ⟨user, huser, hverify, hfresh, -, rfl⟩ := login_eq_ok hok
          exact .login hfresh huser hverify
  | refresh draws rawToken =>
      cases ht
      cases hok : Sessions.refresh jwt st draws s rawToken with
      | error => exact .nothing _
      | ok p =>
          obtain ⟨g, t⟩ := p
          obtain ⟨payload, row, hdecode, hactive, huser, hfresh, -, rfl⟩ := refresh_eq_ok hok
          exact .refresh hfresh hdecode hactive huser
  | logout rawToken =>
      cases hok : Sessions.logout jwt s rawToken with
      | error =>
          simp only [Sessions.step, hok, Option.some.injEq] at ht
          exact ht ▸ .nothing _
      | ok t' =>
          simp only [Sessions.step, hok, Option.some.injEq] at ht
          obtain rfl := ht
          rcases logout_eq_ok hok with ⟨-, rfl⟩ | ⟨payload, row, hactive, -, rfl⟩
          · exact .nothing _
          · exact .logout hactive

/-! ## What every run keeps -/

/-- The tokens of a grant are those that have been made for it. -/
structure Made (st : Settings) (g : Grant) : Prop where
  access : g.access = createToken g.at_ g.userId .access g.access.jti st.accessTokenExpire
  refresh : g.refresh = createToken g.at_ g.userId .refresh g.refresh.jti st.refreshTokenExpire

structure Inv (st : Settings) (s : State) : Prop where
  /-- `jti` is unique. -/
  rows : (s.tokens.map Prod.fst).Nodup
  made : ∀ g ∈ s.grants, Made st g
  past : ∀ g ∈ s.grants, g.at_ ≤ s.now
  /-- Users are never deleted. -/
  users : ∀ g ∈ s.grants, ∃ user ∈ s.users, user.id = g.userId

theorem Inv.initial (now : Instant) : Inv st (.initial now) where
  rows := List.nodup_nil
  made _ h := absurd h List.not_mem_nil
  past _ h := absurd h List.not_mem_nil
  users _ h := absurd h List.not_mem_nil

theorem Inv.tick (h : Inv st s) (d : ℕ) : Inv st { s with now := s.now + d } where
  rows := h.rows
  made := h.made
  past g hg := (h.past g hg).trans (Int.le_add_of_nonneg_right (Int.natCast_nonneg d))
  users := h.users

theorem Inv.addUser (h : Inv st s) (user : User) :
    Inv st { s with users := user :: s.users } where
  rows := h.rows
  made := h.made
  past := h.past
  users g hg := by
    obtain ⟨other, hother, hid⟩ := h.users g hg
    exact ⟨other, List.mem_cons_of_mem _ hother, hid⟩

theorem Inv.revoke (h : Inv st s) (jti : UUID) : Inv st (revoke s jti) where
  rows := by
    rw [revoke_fst]
    exact h.rows
  made := h.made
  past := h.past
  users := h.users

theorem Inv.grant (h : Inv st s) (hfresh : ∀ p ∈ s.tokens, p.1 ≠ draws.refresh)
    {origin : Origin} (huser : ∃ user ∈ s.users, user.id = u) :
    Inv st (s.grant st draws u origin) where
  rows := by
    refine List.nodup_cons.mpr ⟨fun hmem ↦ ?_, h.rows⟩
    obtain ⟨p, hp, e⟩ := List.mem_map.mp hmem
    exact hfresh p hp e
  made := List.forall_mem_cons.mpr ⟨⟨rfl, rfl⟩, h.made⟩
  past := List.forall_mem_cons.mpr ⟨le_rfl, h.past⟩
  users := List.forall_mem_cons.mpr ⟨huser, h.users⟩

theorem Inv.step (h : Inv st s) (ht : Sessions.step m jwt hasher st s a = some t) : Inv st t := by
  cases Move.of_step ht with
  | nothing => exact h
  | tick d => exact h.tick d
  | register fresh user => exact (h.addUser user).grant fresh ⟨user, List.mem_cons_self, rfl⟩
  | login fresh known verified => exact h.grant fresh ⟨_, known, rfl⟩
  | refresh fresh decoded active known =>
      exact (h.revoke _).grant (fresh_revoke.mpr fresh) known
  | logout active => exact h.revoke _

theorem Inv.of_run {as : List Action} {now : Instant}
    (hrun : exec (Sessions.step m jwt hasher st) (.initial now) as = some s) : Inv st s :=
  exec_invariant Inv.step (Inv.initial now) hrun

/-! ## One long token of every sign-in -/

theorem sessions_grant (origin : Origin) {w : UUID} :
    (s.grant st draws w origin).sessions u = s.sessions u + if w = u then 1 else 0 := by
  rw [State.sessions, State.grant, List.countP_cons]
  simp [State.sessions]

/-- A trade, or a logout, takes one away. -/
theorem sessions_revoke (h : Inv st s) {payload : Claims} {row : RefreshToken}
    (hactive : Active s payload row) :
    (revoke s payload.jti).sessions u + (if row.userId = u then 1 else 0) = s.sessions u := by
  obtain ⟨pre, post, htokens⟩ := List.mem_iff_append.mp hactive.mem
  have hrows := h.rows
  rw [htokens, List.map_append, List.map_cons, List.nodup_middle, List.nodup_cons,
    ← List.map_append] at hrows
  have hothers : ∀ p ∈ pre ++ post, p.1 ≠ payload.jti := fun p hp e ↦
    hrows.1 (List.mem_map.mpr ⟨p, hp, e⟩)
  rw [List.forall_mem_append] at hothers
  have hkept : ∀ l : List (UUID × RefreshToken), (∀ p ∈ l, p.1 ≠ payload.jti) →
      l.map (fun p ↦ if p.1 = payload.jti then (p.1, { p.2 with revokedAt := some s.now }) else p)
        = l := by
    intro l hl
    exact (List.map_congr_left fun p hp ↦ if_neg (hl p hp)).trans (List.map_id _)
  rw [State.sessions, State.sessions, revoke, htokens, List.map_append, List.map_cons,
    hkept pre hothers.1, hkept post hothers.2, if_pos rfl]
  simp only [List.countP_append, List.countP_cons, hactive.live, and_true, reduceCtorEq, and_false,
    decide_false, Bool.false_eq_true, if_false, decide_eq_true_eq]
  omega

theorem sessions_step (h : Inv st s) (ht : Sessions.step m jwt hasher st s a = some t) :
    t.sessions u + signsOut jwt u s a = s.sessions u + signsIn m hasher st u s a := by
  cases a with
  | tick d =>
      cases ht
      rfl
  | register draws data password =>
      cases ht
      simp only [signsOut, signsIn]
      cases hok : Sessions.register hasher st draws s data password with
      | error => rfl
      | ok p =>
          obtain ⟨g, t⟩ := p
          obtain ⟨-, rfl, rfl⟩ := register_eq_ok hok
          exact sessions_grant .registered
  | login draws value password =>
      cases ht
      simp only [signsOut, signsIn]
      cases hok : Sessions.login m hasher st draws s value password with
      | error => rfl
      | ok p =>
          obtain ⟨g, t⟩ := p
          obtain ⟨user, -, -, -, rfl, rfl⟩ := login_eq_ok hok
          exact sessions_grant (.loggedIn password)
  | refresh draws rawToken =>
      cases ht
      simp only [signsOut, signsIn]
      cases hok : Sessions.refresh jwt st draws s rawToken with
      | error => rfl
      | ok p =>
          obtain ⟨g, t⟩ := p
          obtain ⟨payload, row, -, hactive, -, -, -, rfl⟩ := refresh_eq_ok hok
          have htaken := sessions_revoke (u := u) h hactive
          rw [hactive.owner] at htaken
          exact (sessions_grant (.refreshed rawToken payload)).trans htaken
  | logout rawToken =>
      simp only [signsIn, signsOut]
      cases hok : Sessions.logout jwt s rawToken with
      | error =>
          simp only [Sessions.step, hok, Option.some.injEq] at ht
          rw [revoked_of_error hok, ht]
          rfl
      | ok t' =>
          simp only [Sessions.step, hok, Option.some.injEq] at ht
          obtain rfl := ht
          rcases logout_eq_ok hok with ⟨hnone, rfl⟩ | ⟨payload, row, hactive, hrow, rfl⟩
          · rw [hnone]
            rfl
          · rw [hrow]
            simpa using sessions_revoke (u := u) h hactive

/-- **Rotation.**  One request at a time, of every registration and of every login one long token is
left that has not been revoked, however often it has been traded, until a logout. -/
theorem one_token_each {as : List Action} {now : Instant}
    (hrun : exec (Sessions.step m jwt hasher st) (.initial now) as = some s) (u : UUID) :
    s.sessions u + tally (Sessions.step m jwt hasher st) (signsOut jwt u) (.initial now) as =
      tally (Sessions.step m jwt hasher st) (signsIn m hasher st u) (.initial now) as := by
  have hbalance := tally_balance (P := Inv st) (f := fun s ↦ s.sessions u) Inv.step sessions_step
    (Inv.initial now) hrun
  rwa [show (State.initial now).sessions u = 0 from rfl, Nat.zero_add] at hbalance

/-! ## Who has been let in -/

/-- One token of a pair. -/
def Grant.claims (g : Grant) : TokenType → Claims
  | .access => g.access
  | .refresh => g.refresh

theorem Made.claims_type (h : Made st g) (type : TokenType) : (g.claims type).type = type := by
  cases type with
  | access => exact congrArg Claims.type h.access
  | refresh => exact congrArg Claims.type h.refresh

theorem Made.claims_sub (h : Made st g) (type : TokenType) : (g.claims type).sub = g.userId := by
  cases type with
  | access => exact congrArg Claims.sub h.access
  | refresh => exact congrArg Claims.sub h.refresh

/-- A token that is ours is accepted for what it is. -/
theorem decodeToken_encode (h : Made st g) {now : Instant} {type expected : TokenType} :
    decodeToken jwt now (jwt.encode (g.claims type)) expected =
      if (g.claims type).ValidAt now ∧ type = expected then some (g.claims type) else none := by
  rw [decodeToken, jwt.decode_encode]
  by_cases hvalid : (g.claims type).ValidAt now
  · rw [if_pos hvalid, Option.filter_some, h.claims_type]
    simp [hvalid]
  · rw [if_neg hvalid, if_neg fun hboth ↦ hvalid hboth.1, Option.filter_none]

/-- A token that is accepted has been given out, if nobody makes up signatures. -/
theorem Genuine.of_decode (h : Genuine jwt s token) (hmade : ∀ g ∈ s.grants, Made st g)
    {now : Instant} {expected : TokenType} {claims : Claims}
    (hdecode : decodeToken jwt now token expected = some claims) :
    ∃ g ∈ s.grants, claims = g.claims expected ∧ claims.ValidAt now ∧
      token = jwt.encode claims := by
  rcases h with ⟨g, hg, htoken⟩ | hnone
  · obtain ⟨type, rfl⟩ : ∃ type, token = jwt.encode (g.claims type) :=
      htoken.elim (fun e ↦ ⟨.access, e⟩) fun e ↦ ⟨.refresh, e⟩
    rw [decodeToken_encode (hmade g hg)] at hdecode
    split at hdecode
    · rename_i hvalid
      obtain rfl := Option.some.inj hdecode
      exact ⟨g, hg, by rw [hvalid.2], hvalid.1, rfl⟩
    · cases hdecode
  · rw [decodeToken, hnone] at hdecode
    cases hdecode

/-- A token ends no later than its lifetime says. -/
theorem lt_of_validAt {now issued lifetime : Instant} {type : TokenType}
    (h : (createToken issued u type jti lifetime).ValidAt now) : now < issued + lifetime :=
  h.2.trans_le (Int.ediv_mul_le _ (by decide))

theorem Made.lt_of_access (h : Made st g) {now : Instant} (hvalid : g.access.ValidAt now) :
    now < g.at_ + st.accessTokenExpire := by
  rw [h.access] at hvalid
  exact lt_of_validAt hvalid

theorem Made.lt_of_refresh (h : Made st g) {now : Instant} (hvalid : g.refresh.ValidAt now) :
    now < g.at_ + st.refreshTokenExpire := by
  rw [h.refresh] at hvalid
  exact lt_of_validAt hvalid

/-- The grant goes back to a registration, or to a login with the password of the user, by trades
of long tokens that had been given to the same user and had not ended. -/
inductive Descends (jwt : Jwt) (hasher : PasswordHash) (st : Settings) (s : State) : Grant → Prop
  | registered {g : Grant} (given : g ∈ s.grants) (origin : g.origin = .registered) :
      Descends jwt hasher st s g
  | loggedIn {g : Grant} {password : String} {user : User} (given : g ∈ s.grants)
      (origin : g.origin = .loggedIn password) (known : user ∈ s.users) (id : user.id = g.userId)
      (verified : hasher.verify password user.passwordHash = true) : Descends jwt hasher st s g
  | refreshed {g old : Grant} (given : g ∈ s.grants)
      (origin : g.origin = .refreshed (jwt.encode old.refresh) old.refresh)
      (same : g.userId = old.userId) (after : old.at_ ≤ g.at_)
      (valid : g.at_ < old.at_ + st.refreshTokenExpire) (earlier : Descends jwt hasher st s old) :
      Descends jwt hasher st s g

theorem Descends.mem (h : Descends jwt hasher st s g) : g ∈ s.grants := by
  cases h <;> assumption

theorem Descends.mono (h : Descends jwt hasher st s g) (husers : s.users ⊆ t.users)
    (hgrants : s.grants ⊆ t.grants) : Descends jwt hasher st t g := by
  induction h with
  | registered given origin => exact .registered (hgrants given) origin
  | loggedIn given origin known id verified =>
      exact .loggedIn (hgrants given) origin (husers known) id verified
  | refreshed given origin same after valid _ ih =>
      exact .refreshed (hgrants given) origin same after valid ih

/-- Every grant goes back to a user. -/
def Rooted (jwt : Jwt) (hasher : PasswordHash) (st : Settings) (s : State) : Prop :=
  ∀ g ∈ s.grants, Descends jwt hasher st s g

theorem Rooted.grant (h : Rooted jwt hasher st s) (husers : s.users ⊆ t.users)
    (hgrants : t.grants = g :: s.grants) (hg : Descends jwt hasher st t g) :
    Rooted jwt hasher st t := by
  intro other hother
  rw [hgrants] at hother
  rcases List.mem_cons.mp hother with rfl | hother
  · exact hg
  · exact (h other hother).mono husers fun _ h ↦ hgrants ▸ List.mem_cons_of_mem _ h

theorem Rooted.step (h : Rooted jwt hasher st s) (hinv : Inv st s) (ha : Unforged jwt s a)
    (ht : Sessions.step m jwt hasher st s a = some t) : Rooted jwt hasher st t := by
  cases Move.of_step ht with
  | nothing => exact h
  | tick d => exact fun g hg ↦ (h g hg).mono (List.Subset.refl _) (List.Subset.refl _)
  | register fresh user =>
      exact h.grant (List.subset_cons_self ..) rfl (.registered List.mem_cons_self rfl)
  | login fresh known verified =>
      exact h.grant (List.Subset.refl _) rfl
        (.loggedIn List.mem_cons_self rfl known rfl verified)
  | @refresh draws rawToken payload row fresh decoded active known =>
      obtain ⟨old, hold, rfl, hvalid, rfl⟩ := ha.of_decode hinv.made decoded
      have hmade := hinv.made old hold
      have hearlier := (h old hold).mono (t := (revoke s (old.claims .refresh).jti).grant st
        draws (old.claims .refresh).sub (.refreshed (jwt.encode (old.claims .refresh))
          (old.claims .refresh))) (List.Subset.refl _) (List.subset_cons_self ..)
      exact h.grant (List.Subset.refl _) rfl (.refreshed List.mem_cons_self rfl
        (hmade.claims_sub .refresh) (hinv.past old hold) (hmade.lt_of_refresh hvalid) hearlier)
  | logout active =>
      exact fun g hg ↦ (h g hg).mono (List.Subset.refl _) (List.Subset.refl _)

theorem getCurrentUser_eq_ok : getCurrentUser jwt s (some token) = .ok user ↔
    ((decodeToken jwt s.now token .access).bind fun payload ↦ getById s payload.sub) =
      some user := by
  rw [getCurrentUser]
  cases decodeToken jwt s.now token .access with
  | none => exact iff_of_false (by rintro ⟨⟩) (by rintro ⟨⟩)
  | some payload =>
      rw [Option.bind_some]
      dsimp only
      cases getById s payload.sub with
      | none => exact iff_of_false (by rintro ⟨⟩) (by rintro ⟨⟩)
      | some other => rw [Except.ok.injEq, Option.some.injEq]

/-- Someone is let in by a token, with a request or with a socket. -/
def LetIn (jwt : Jwt) (s : State) (token : List Char) (user : User) : Prop :=
  getCurrentUser jwt s (some token) = .ok user ∨
    ∃ header, extractAccessToken header = some token ∧ getWebsocketUser jwt s header = some user

theorem letIn_iff : LetIn jwt s token user ↔
    getCurrentUser jwt s (some token) = .ok user := by
  refine or_iff_left_of_imp ?_
  rintro ⟨header, htoken, huser⟩
  rw [getWebsocketUser, htoken] at huser
  exact getCurrentUser_eq_ok.mpr huser

/-- **Nobody is let in who has not signed in**, or for longer than a short token lasts. -/
theorem let_in {as : List Action} {now : Instant}
    (hrun : exec (Sessions.step m jwt hasher st) (.initial now) as = some s)
    (hunforged : Along (Sessions.step m jwt hasher st) (Unforged jwt) (.initial now) as)
    (htoken : Genuine jwt s token) (hin : LetIn jwt s token user) :
    user ∈ s.users ∧ ∃ g, Descends jwt hasher st s g ∧ g.userId = user.id ∧
      token = jwt.encode g.access ∧ g.at_ ≤ s.now ∧ s.now < g.at_ + st.accessTokenExpire := by
  obtain ⟨hinv, hrooted⟩ : Inv st s ∧ Rooted jwt hasher st s :=
    exec_induction (P := fun s ↦ Inv st s ∧ Rooted jwt hasher st s)
      (fun h ha ht ↦ ⟨h.1.step ht, h.2.step h.1 ha ht⟩)
      ⟨Inv.initial now, fun _ h ↦ absurd h List.not_mem_nil⟩ hrun hunforged
  obtain ⟨claims, hdecode, huser⟩ :=
    Option.bind_eq_some_iff.mp (getCurrentUser_eq_ok.mp (letIn_iff.mp hin))
  obtain ⟨hmem, hid⟩ := mem_of_getById huser
  obtain ⟨g, hg, rfl, hvalid, rfl⟩ := htoken.of_decode hinv.made hdecode
  have hmade := hinv.made g hg
  exact ⟨hmem, g, hrooted g hg, (hid.trans (hmade.claims_sub .access)).symm, rfl,
    hinv.past g hg, hmade.lt_of_access hvalid⟩

theorem extractAccessToken_eq_some {header : List Char} (hne : token ≠ [])
    (h : (header.splitOn ',').map (strip isspace) = ["access_token".toList, token]) :
    extractAccessToken header = some token := by
  rw [extractAccessToken, h]
  exact if_pos ⟨rfl, hne⟩

/-- What the client asks for is what the server reads. -/
theorem extractAccessToken_websocketProtocols (hne : token ≠ [])
    (hplain : ∀ c ∈ token, c ≠ ',' ∧ isspace c = false) :
    extractAccessToken (websocketProtocols token) = some token := by
  refine extractAccessToken_eq_some hne ?_
  have hscheme : ',' ∉ "access_token".toList := by decide
  have htoken : ',' ∉ ' ' :: token := fun h ↦
    (List.mem_cons.mp h).elim (by decide) fun h ↦ (hplain _ h).1 rfl
  have hstrip : strip isspace (' ' :: token) = token := by
    rw [strip, List.dropWhile_cons_of_pos (by decide)]
    exact Realtime.Envelope.strip_eq_self fun c hc ↦ by simp [(hplain c hc).2]
  have hheader : websocketProtocols token = "access_token".toList ++ ',' :: ' ' :: token := rfl
  rw [hheader, List.splitOn_append_cons_self_of_not_mem hscheme,
    List.splitOn_eq_singleton htoken, List.map_cons, List.map_singleton]
  exact congrArg₂ (fun scheme token ↦ [scheme, token]) (by decide) hstrip

/-- **A token does what it is for.**  The short token of a grant opens requests and sockets alike,
for the user it has been given to, until it ends; the long one opens nothing. -/
theorem tokens_open {as : List Action} {now : Instant}
    (hrun : exec (Sessions.step m jwt hasher st) (.initial now) as = some s) (hg : g ∈ s.grants)
    (type : TokenType) :
    (∀ user, getCurrentUser jwt s (some (jwt.encode (g.claims type))) = .ok user ↔
      getWebsocketUser jwt s (websocketProtocols (jwt.encode (g.claims type))) = some user) ∧
    if type = .access ∧ s.now < seconds (g.at_ + st.accessTokenExpire) * 1000000 then
      ∃ user ∈ s.users, user.id = g.userId ∧
        getCurrentUser jwt s (some (jwt.encode (g.claims type))) = .ok user
    else getCurrentUser jwt s (some (jwt.encode (g.claims type))) = .error invalidAccessToken := by
  have hinv := Inv.of_run hrun
  have hmade := hinv.made g hg
  refine ⟨fun user ↦ ?_, ?_⟩
  · obtain ⟨hne, hplain⟩ := jwt.encode_plain (g.claims type)
    rw [getCurrentUser_eq_ok, getWebsocketUser, extractAccessToken_websocketProtocols hne
      hplain, Option.bind_some]
  · have hvalid : g.access.ValidAt s.now ↔
        s.now < seconds (g.at_ + st.accessTokenExpire) * 1000000 := by
      rw [hmade.access]
      exact and_iff_right ((Int.ediv_mul_le _ (by decide)).trans (hinv.past g hg))
    cases type with
    | refresh =>
        have hrefused : decodeToken jwt s.now (jwt.encode (g.claims .refresh)) .access = none := by
          rw [decodeToken_encode hmade]
          exact if_neg fun h ↦ by cases h.2
        have hother : ¬ (TokenType.refresh = .access ∧
            s.now < seconds (g.at_ + st.accessTokenExpire) * 1000000) := fun h ↦ by cases h.1
        rw [if_neg hother, getCurrentUser, hrefused]
    | access =>
        have haccess : decodeToken jwt s.now (jwt.encode (g.claims .access)) .access =
            if g.access.ValidAt s.now ∧ TokenType.access = .access then some (g.claims .access)
            else none := decodeToken_encode hmade
        split
        · rename_i hopen
          rw [if_pos ⟨hvalid.mpr hopen.2, rfl⟩] at haccess
          obtain ⟨other, hother, hid⟩ := hinv.users g hg
          obtain ⟨user, huser⟩ := getById_of_mem hother
          obtain ⟨hmem, hsame⟩ := mem_of_getById huser
          refine ⟨user, hmem, hsame.trans hid, getCurrentUser_eq_ok.mpr ?_⟩
          rw [haccess, Option.bind_some, hmade.claims_sub, ← hid, huser]
        · rename_i hopen
          rw [if_neg fun h ↦ hopen ⟨rfl, hvalid.mp h.1⟩] at haccess
          rw [getCurrentUser, haccess]

/-! ## A run -/

/-- A field of a plain token, in unary. -/
def unary (n : ℕ) : List Char := List.replicate n '1'

theorem mem_unary {n : ℕ} {c : Char} (h : c ∈ unary n) : c = '1' := List.eq_of_mem_replicate h

theorem length_unary (n : ℕ) : (unary n).length = n := List.length_replicate

theorem splitOn_unary (n : ℕ) (rest : List Char) :
    (unary n ++ '.' :: rest).splitOn '.' = unary n :: rest.splitOn '.' :=
  List.splitOn_append_cons_self_of_not_mem
    (fun h ↦ absurd (mem_unary h) (by decide : '.' ≠ '1')) rest

theorem splitOn_last (n : ℕ) : (unary n).splitOn '.' = [unary n] :=
  List.splitOn_eq_singleton fun h ↦ absurd (mem_unary h) (by decide : '.' ≠ '1')

/-- Tokens without a signature. -/
def plainJwt : Jwt where
  encode claims :=
    unary claims.sub ++ '.' :: (unary (if claims.type = .access then 0 else 1) ++ '.' ::
      (unary claims.jti ++ '.' :: (unary (Equiv.intEquivNat claims.iat) ++ '.' ::
        unary (Equiv.intEquivNat claims.exp))))
  decode now token :=
    match (token.splitOn '.').map List.length with
    | [sub, type, jti, iat, exp] =>
        let claims : Claims := ⟨Fin.ofNat _ sub, if type = 0 then .access else .refresh,
          Fin.ofNat _ jti, Equiv.intEquivNat.symm iat, Equiv.intEquivNat.symm exp⟩
        if claims.ValidAt now then some claims else none
    | _ => none
  decode_encode claims now := by
    obtain ⟨sub, type, jti, iat, exp⟩ := claims
    simp only [splitOn_unary, splitOn_last, List.map_cons, List.map_nil, length_unary,
      Equiv.symm_apply_apply, Fin.ofNat_val_eq_self]
    cases type with
    | access => rfl
    | refresh => rfl
  encode_plain claims := by
    refine ⟨by simp, fun c hc ↦ ?_⟩
    have hchar : c = '1' ∨ c = '.' := by
      simp only [List.mem_append, List.mem_cons] at hc
      rcases hc with hc | hc | hc | hc | hc | hc | hc | hc | hc
      all_goals first | exact .inr hc | exact .inl (mem_unary hc)
    rcases hchar with rfl | rfl
    · decide
    · decide

/-- Passwords without a hash. -/
def plainPasswords : PasswordHash where
  hash _ password := password
  verify password hash := password = hash

/-- Two seconds, and four. -/
def shortLived : Settings := ⟨2000000, 4000000⟩

def bob : RegisterRequest where
  username := ['b', 'o', 'b']
  email := ['b', '@', 'c']
  username_chars c hc := by
    have hall : ['b', 'o', 'b'].all (fun c ↦ isUsernameChar c ∧ c.toLower = c) := by decide
    exact of_decide_eq_true (List.all_eq_true.mp hall c hc)
  at_mem_email := List.mem_cons_of_mem _ List.mem_cons_self

/-- `bob` registers, and trades the long token when the short one has ended. -/
def tradeOnce : List Action :=
  [.register ⟨7, 0, 1, 2⟩ bob "correct horse",
    .tick 3000000,
    .refresh ⟨0, 0, 3, 4⟩ (plainJwt.encode ⟨7, .refresh, 2, 0, 4⟩)]

/-- What `bob` has got for it. -/
def tradedGrant : Grant where
  userId := 7
  access := ⟨7, .access, 3, 3, 5⟩
  refresh := ⟨7, .refresh, 4, 3, 7⟩
  at_ := 3000000
  origin := .refreshed (plainJwt.encode ⟨7, .refresh, 2, 0, 4⟩) ⟨7, .refresh, 2, 0, 4⟩

/-- The state that is left. -/
def traded : State where
  now := 3000000
  users := [⟨⟨bob, 7⟩, "correct horse"⟩]
  tokens := [(4, ⟨7, 7000000, none⟩), (2, ⟨7, 4000000, some 3000000⟩)]
  grants := [tradedGrant, ⟨7, ⟨7, .access, 1, 0, 2⟩, ⟨7, .refresh, 2, 0, 4⟩, 0, .registered⟩]

theorem tradeOnce_run : exec (step asciiCase plainJwt plainPasswords shortLived) (.initial 0)
    tradeOnce = some traded := rfl

theorem let_in_bob : ∃ user ∈ traded.users,
    LetIn plainJwt traded (plainJwt.encode tradedGrant.access) user ∧
      ∃ g, Descends plainJwt plainPasswords shortLived traded g ∧ g.userId = user.id := by
  have hunforged : Along (step asciiCase plainJwt plainPasswords shortLived) (Unforged plainJwt)
      (.initial 0) tradeOnce :=
    .cons trivial rfl (.cons trivial rfl (.cons (.inl ⟨_, .head _, .inr rfl⟩) rfl trivial))
  have hin : getCurrentUser plainJwt traded (some (plainJwt.encode tradedGrant.access)) =
      .ok _ := rfl
  obtain ⟨hmem, g, hg, hid, -⟩ :=
    let_in tradeOnce_run hunforged (.inl ⟨_, .head _, .inl rfl⟩) (.inl hin)
  exact ⟨_, hmem, .inl hin, g, hg, hid⟩

theorem tokens_open_bob : ∃ user ∈ traded.users, getWebsocketUser plainJwt traded
    (websocketProtocols (plainJwt.encode tradedGrant.access)) = some user := by
  obtain ⟨hsame, hopen⟩ := tokens_open (g := tradedGrant) tradeOnce_run (.head _) .access
  rw [if_pos (by decide)] at hopen
  obtain ⟨user, hmem, -, hin⟩ := hopen
  exact ⟨user, hmem, (hsame user).mp hin⟩

theorem one_token_each_bob : traded.sessions 7 = 1 := by
  have hbalance := one_token_each tradeOnce_run 7
  rwa [show tally (step asciiCase plainJwt plainPasswords shortLived) (signsOut plainJwt 7)
    (.initial 0) tradeOnce = 0 from rfl, show tally (step asciiCase plainJwt plainPasswords
      shortLived) (signsIn asciiCase plainPasswords shortLived 7) (.initial 0) tradeOnce = 1
        from rfl] at hbalance

end Chatterbox.Auth.Sessions
