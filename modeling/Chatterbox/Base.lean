import Mathlib.Algebra.GroupWithZero.Nat
import Mathlib.Order.Fin.Basic
import Mathlib.Data.Int.Order.Basic

/-!
# Identifiers, instants and application errors

The data every component of the backend shares.  A `uuid.UUID` is its 128-bit
value, ordered as PostgreSQL and Python order it.  An instant is a whole number
of ticks; the wall clock, `created_at` columns and the scores of Redis sorted
sets are all compared and shifted by a duration and nothing else, so the length
of a tick never matters.
-/

namespace Chatterbox

/-- `uuid.UUID`: a 128-bit identifier, ordered by its value. -/
abbrev UUID := Fin (2 ^ 128)

-- Named here, so that the terms of all modules share them.
instance neZeroUUID : NeZero (2 ^ 128) := ⟨(Nat.two_pow_pos 128).ne'⟩

instance lawfulBEqUUID : LawfulBEq UUID := inferInstance

/-- A point in time, as a number of ticks of the clock. -/
abbrev Instant := Int

/-- `AppError`: the HTTP status, the error code and its message. -/
structure AppError where
  statusCode : Nat
  code : String
  message : String
deriving DecidableEq, Repr

end Chatterbox
