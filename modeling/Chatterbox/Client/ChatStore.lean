import Chatterbox.Base
import Mathlib.Logic.Function.Basic

/-!
# The presence part of the chat store

What the client remembers about who is online, and what the events it receives
do to that: `connection.ready` replaces the picture, `presence.online` and
`presence.offline` change one user's part of it.
-/

namespace Chatterbox.Client

/-- `PresenceState`. -/
structure PresenceState where
  online : Bool
  lastSeen : Option Instant
deriving DecidableEq, Repr

/-- `ChatState.presence`; `none` where the record has no such key. -/
abbrev Presence := UUID → Option PresenceState

/-- A server event, as far as it is about presence. -/
inductive Event where
  | connectionReady (onlineUserIds : List UUID)
  | presenceOnline (userId : UUID)
  | presenceOffline (userId : UUID) (lastSeen : Instant)
deriving DecidableEq, Repr

namespace Presence

def lastSeen (p : Presence) (userId : UUID) : Option Instant := (p userId).bind (·.lastSeen)

/-- All offline, with what was known of their last visit. -/
def cleared (p : Presence) : Presence :=
  fun userId ↦ (p userId).map fun value ↦ { value with online := false }

/-- One round of the loop of `setPresenceSnapshot`. -/
def setOnline (p : Presence) (userId : UUID) : Presence :=
  Function.update p userId (some ⟨true, lastSeen p userId⟩)

/-- `setPresenceSnapshot`. -/
def setPresenceSnapshot (onlineUserIds : List UUID) (p : Presence) : Presence :=
  onlineUserIds.foldl setOnline (cleared p)

/-- `setPresence`. -/
def setPresence (userId : UUID) (online : Bool) (seen : Option Instant) (p : Presence) : Presence :=
  Function.update p userId (some ⟨online, seen.or (lastSeen p userId)⟩)

/-- `handleEvent`. -/
def handleEvent (p : Presence) : Event → Presence
  | .connectionReady onlineUserIds => p.setPresenceSnapshot onlineUserIds
  | .presenceOnline userId => p.setPresence userId true none
  | .presenceOffline userId seen => p.setPresence userId false (some seen)

/-- Whether the user is shown as online: `presence[userId]?.online ?? false`. -/
def isOnline (p : Presence) (userId : UUID) : Bool := ((p userId).map (·.online)).getD false

variable {p : Presence} {u w : UUID}

theorem isOnline_update (v : PresenceState) :
    isOnline (Function.update p u (some v)) w = if w = u then v.online else p.isOnline w := by
  by_cases h : w = u
  · subst h
    rw [isOnline, Function.update_self, if_pos rfl]
    rfl
  · rw [isOnline, Function.update_of_ne h, if_neg h, isOnline]

@[simp] theorem isOnline_setPresence (online : Bool) (seen : Option Instant) :
    (p.setPresence u online seen).isOnline w = if w = u then online else p.isOnline w :=
  isOnline_update _

theorem isOnline_foldl (us : List UUID) :
    isOnline (us.foldl setOnline p) w = (decide (w ∈ us) || p.isOnline w) := by
  induction us generalizing p with
  | nil => simp
  | cons u us ih =>
      rw [List.foldl_cons, ih, setOnline, isOnline_update]
      by_cases h : w = u <;> simp [h]

/-- After a snapshot those are online that are in it. -/
@[simp] theorem isOnline_setPresenceSnapshot (us : List UUID) :
    (p.setPresenceSnapshot us).isOnline w = decide (w ∈ us) := by
  have hcleared : p.cleared.isOnline w = false := by
    unfold isOnline cleared
    cases p w <;> simp
  rw [setPresenceSnapshot, isOnline_foldl, hcleared, Bool.or_false]

end Presence

end Chatterbox.Client
