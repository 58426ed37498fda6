import Chatterbox.Base
import Chatterbox.Run
import Chatterbox.RowLock

/-!
# Refresh tokens: rotation and logout as database transactions

`AuthService.refresh` and `AuthService.logout` present a refresh token and run
one transaction each.  The statements of a transaction are separate steps, so
that the transactions of any number of requests interleave:

| step | source |
|---|---|
| `receive` | `_decode_refresh` |
| `getActive` | the `SELECT` of `TokenRepository.get_active`, and the check of the owner |
| `getUser` | `UserRepository.get_by_id` (`refresh` only) |
| `revoke` | the `UPDATE` that `TokenRepository.revoke` flushes |
| `issue` | `_issue_token_pair`: the `INSERT` of the next refresh token |
| `commit` | `session.commit()` |
| `abort` | an exception, or a lost connection, at any point before the commit |

The `SELECT` takes no lock.  The `UPDATE` names the row by its primary key only:
it waits for the row lock and then writes `revoked_at` whatever the row holds by
then, which is what READ COMMITTED does with a statement whose `WHERE` clause
the re-read row still satisfies.  The table is keyed by `jti`, which the schema
makes unique just as `id`.
-/

namespace Chatterbox.Auth

/-- Which of the two kinds of token the `type` claim names. -/
inductive TokenType where
  | access
  | refresh
deriving DecidableEq, Repr

/-- `security.TokenPayload`: the claims of a verified token. -/
structure TokenPayload where
  subject : UUID
  tokenType : TokenType
  jti : UUID
  expiresAt : Instant
deriving DecidableEq, Repr

/-- A token as presented: its claims, and whether its signature is ours. -/
structure RawToken where
  genuine : Bool
  claims : TokenPayload
deriving DecidableEq, Repr

/-- `decode_token`: the signature, the expiry and the type are checked. -/
def decodeToken (now : Instant) (raw : RawToken) (expected : TokenType) : Option TokenPayload :=
  if raw.genuine = true ∧ now < raw.claims.expiresAt ∧ raw.claims.tokenType = expected then
    some raw.claims
  else none

/-- `models.RefreshToken`: a row of `refresh_tokens`. -/
structure RefreshToken where
  userId : UUID
  expiresAt : Instant
  revokedAt : Option Instant
deriving DecidableEq, Repr

/-- A request, by its number of arrival. -/
abbrev Req := Nat

/-- The two operations that present a refresh token. -/
inductive Kind where
  | refresh
  | logout
deriving DecidableEq, Repr

/-- What `refresh` raises, and `_decode_refresh` for both operations. -/
def invalidRefreshToken : AppError :=
  ⟨401, "INVALID_REFRESH_TOKEN", "Refresh token is invalid or expired"⟩

/-- How far a request has got. -/
inductive Phase where
  /-- Not received yet. -/
  | idle
  /-- `_decode_refresh` returned the payload. -/
  | decoded (kind : Kind) (p : TokenPayload)
  /-- `get_active` returned a row that belongs to the subject. -/
  | active (kind : Kind) (p : TokenPayload)
  /-- `get_by_id` returned the subject's user (`refresh` only). -/
  | loaded (p : TokenPayload)
  /-- `revoke` has flushed; the new version of the row is not committed. -/
  | revoked (kind : Kind) (p : TokenPayload) (row : RefreshToken)
  /-- The next token has been inserted, not committed. -/
  | issued (p : TokenPayload) (row : RefreshToken) (jti : UUID) (next : RefreshToken)
  /-- `refresh` has committed and answers with the pair whose refresh token is `jti`. -/
  | succeeded (p : TokenPayload) (jti : UUID)
  /-- `logout` has returned. -/
  | loggedOut
  /-- The request was answered with an error; `none` if it is none of the service's. -/
  | failed (error : Option AppError)
deriving DecidableEq, Repr

/-- `refresh_tokens`, `users`, the clock and the requests in flight. -/
structure State where
  now : Instant
  users : UUID → Bool
  tokens : Table UUID Req RefreshToken
  /-- The `jti`s that `create_refresh_token` has drawn so far. -/
  drawn : List UUID
  phase : Req → Phase

namespace State

/-- Move one request on. -/
def set (s : State) (r : Req) (ph : Phase) : State :=
  { s with phase := Function.update s.phase r ph }

@[simp] theorem set_phase_self (s : State) (r : Req) (ph : Phase) :
    (s.set r ph).phase r = ph := Function.update_self ..

end State

/-- `TokenRepository.get_active`: the committed row, unless revoked or expired. -/
def getActive (s : State) (jti : UUID) : Option RefreshToken :=
  (s.tokens.row jti).filter fun token ↦ token.revokedAt = none ∧ s.now < token.expiresAt

/-- What becomes of a request whose token is not active: `refresh` raises
`INVALID_REFRESH_TOKEN`, `logout` has nothing to do. -/
def rejected : Kind → Phase
  | .refresh => .failed (some invalidRefreshToken)
  | .logout => .loggedOut

/-- `TokenRepository.revoke`: `token.revoked_at = now` and the `UPDATE` it flushes.  The
lock is what an `UPDATE` takes; the row it then sees is the one committed last. -/
def flush (s : State) (r : Req) (kind : Kind) (p : TokenPayload) : Option State :=
  (s.tokens.lock r p.jti).bind fun tokens ↦
    (tokens.row p.jti).map fun token ↦
      { s.set r (.revoked kind p { token with revokedAt := some s.now }) with tokens := tokens }

/-- A move of the clock or of one request. -/
inductive Action where
  | tick (d : Nat)
  | receive (r : Req) (kind : Kind) (raw : RawToken)
  | getActive (r : Req)
  | getUser (r : Req)
  | revoke (r : Req)
  | issue (r : Req) (jti : UUID)
  | commit (r : Req)
  | abort (r : Req)
deriving DecidableEq, Repr

/-- One step; `lifetime` is `refresh_token_expire_days`. -/
def step (lifetime : Int) (s : State) : Action → Option State
  | .tick d => some { s with now := s.now + d }
  | .receive r kind raw =>
      match s.phase r with
      | .idle =>
          match decodeToken s.now raw .refresh with
          | some p => some (s.set r (.decoded kind p))
          | none => some (s.set r (.failed (some invalidRefreshToken)))
      | _ => none
  | .getActive r =>
      match s.phase r with
      | .decoded kind p =>
          match getActive s p.jti with
          | some token =>
              if token.userId = p.subject then some (s.set r (.active kind p))
              else some (s.set r (rejected kind))
          | none => some (s.set r (rejected kind))
      | _ => none
  | .getUser r =>
      match s.phase r with
      | .active .refresh p =>
          if s.users p.subject then some (s.set r (.loaded p))
          else some (s.set r (rejected .refresh))
      | _ => none
  | .revoke r =>
      match s.phase r with
      | .loaded p => flush s r .refresh p
      | .active .logout p => flush s r .logout p
      | _ => none
  | .issue r jti =>
      match s.phase r with
      | .revoked .refresh p row =>
          if jti ∉ s.drawn ∧ s.tokens.row jti = none then
            some { s.set r (.issued p row jti ⟨p.subject, s.now + lifetime, none⟩) with
              drawn := jti :: s.drawn }
          else none
      | _ => none
  | .commit r =>
      match s.phase r with
      | .issued p row jti next =>
          some { s.set r (.succeeded p jti) with
            tokens := s.tokens.commit r [(p.jti, some row), (jti, some next)] }
      | .revoked .logout p row =>
          some { s.set r .loggedOut with tokens := s.tokens.commit r [(p.jti, some row)] }
      | _ => none
  | .abort r =>
      match s.phase r with
      | .idle | .succeeded _ _ | .loggedOut | .failed _ => none
      | _ => some { s.set r (.failed none) with tokens := s.tokens.release r }

/-- The database between requests: no lock is held and none is in flight. -/
def Initial (s : State) : Prop :=
  (∀ jti, s.tokens.owner jti = none) ∧ ∀ r, s.phase r = .idle

/-! ## What a step can do -/

/-- The request has been answered. -/
def Phase.final : Phase → Bool
  | .succeeded _ _ | .loggedOut | .failed _ => true
  | _ => false

/-- What a step can do, request by request. -/
inductive Move (lifetime : Int) (s : State) : Action → State → Prop
  | tick (d : Nat) : Move lifetime s (.tick d) { s with now := s.now + d }
  | decoded {r : Req} {kind : Kind} {raw : RawToken} {p : TokenPayload} (phase : s.phase r = .idle)
      (genuine : decodeToken s.now raw .refresh = some p) :
      Move lifetime s (.receive r kind raw) (s.set r (.decoded kind p))
  | undecoded {r : Req} {kind : Kind} {raw : RawToken} (phase : s.phase r = .idle) :
      Move lifetime s (.receive r kind raw) (s.set r (.failed (some invalidRefreshToken)))
  | active {r : Req} {kind : Kind} {p : TokenPayload} {token : RefreshToken}
      (phase : s.phase r = .decoded kind p) (found : getActive s p.jti = some token)
      (owned : token.userId = p.subject) :
      Move lifetime s (.getActive r) (s.set r (.active kind p))
  | rejected {r : Req} {kind : Kind} {p : TokenPayload} (phase : s.phase r = .decoded kind p) :
      Move lifetime s (.getActive r) (s.set r (rejected kind))
  | loaded {r : Req} {p : TokenPayload} (phase : s.phase r = .active .refresh p)
      (known : s.users p.subject = true) : Move lifetime s (.getUser r) (s.set r (.loaded p))
  | unknown {r : Req} {p : TokenPayload} (phase : s.phase r = .active .refresh p) :
      Move lifetime s (.getUser r) (s.set r (.failed (some invalidRefreshToken)))
  | refresh {r : Req} {p : TokenPayload} {t : State} (phase : s.phase r = .loaded p)
      (flushed : flush s r .refresh p = some t) : Move lifetime s (.revoke r) t
  | logout {r : Req} {p : TokenPayload} {t : State} (phase : s.phase r = .active .logout p)
      (flushed : flush s r .logout p = some t) : Move lifetime s (.revoke r) t
  | issued {r : Req} {p : TokenPayload} {row : RefreshToken} {jti : UUID}
      (phase : s.phase r = .revoked .refresh p row) (fresh : jti ∉ s.drawn)
      (unused : s.tokens.row jti = none) :
      Move lifetime s (.issue r jti)
        { s.set r (.issued p row jti ⟨p.subject, s.now + lifetime, none⟩) with
          drawn := jti :: s.drawn }
  | succeeded {r : Req} {p : TokenPayload} {row next : RefreshToken} {jti : UUID}
      (phase : s.phase r = .issued p row jti next) :
      Move lifetime s (.commit r) { s.set r (.succeeded p jti) with
        tokens := s.tokens.commit r [(p.jti, some row), (jti, some next)] }
  | loggedOut {r : Req} {p : TokenPayload} {row : RefreshToken}
      (phase : s.phase r = .revoked .logout p row) :
      Move lifetime s (.commit r) { s.set r .loggedOut with
        tokens := s.tokens.commit r [(p.jti, some row)] }
  | aborted {r : Req} (unanswered : (s.phase r).final = false) :
      Move lifetime s (.abort r) { s.set r (.failed none) with tokens := s.tokens.release r }

/-- `Move` leaves nothing out. -/
theorem Move.of_step {lifetime : Int} {s t : State} {a : Action}
    (ht : step lifetime s a = some t) : Move lifetime s a t := by
  cases a with
  | tick d =>
      cases ht
      exact .tick d
  | receive r kind raw =>
      simp only [step] at ht
      split at ht
      · split at ht
        · cases ht
          exact .decoded ‹_› ‹_›
        · cases ht
          exact .undecoded ‹_›
      · cases ht
  | getActive r =>
      simp only [step] at ht
      split at ht
      · split at ht
        · split at ht
          · cases ht
            exact .active ‹_› ‹_› ‹_›
          · cases ht
            exact .rejected ‹_›
        · cases ht
          exact .rejected ‹_›
      · cases ht
  | getUser r =>
      simp only [step] at ht
      split at ht
      · split at ht
        · cases ht
          exact .loaded ‹_› ‹_›
        · cases ht
          exact .unknown ‹_›
      · cases ht
  | revoke r =>
      simp only [step] at ht
      split at ht
      · exact .refresh ‹_› ht
      · exact .logout ‹_› ht
      · cases ht
  | issue r jti =>
      simp only [step] at ht
      split at ht
      · split at ht
        · rename_i hfresh
          cases ht
          exact .issued ‹_› hfresh.1 hfresh.2
        · cases ht
      · cases ht
  | commit r =>
      simp only [step] at ht
      split at ht
      · cases ht
        exact .succeeded ‹_›
      · cases ht
        exact .loggedOut ‹_›
      · cases ht
  | abort r =>
      have hlive : (s.phase r).final = false := by
        cases hp : s.phase r <;> simp only [step, hp, reduceCtorEq] at ht <;> rfl
      simp only [step] at ht
      split at ht
      · cases ht
      · cases ht
      · cases ht
      · cases ht
      · cases ht
        exact .aborted hlive

end Chatterbox.Auth
