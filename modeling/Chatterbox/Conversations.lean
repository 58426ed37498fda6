import Chatterbox.Base
import Mathlib.Data.List.Dedup

/-!
# Conversations and their members

What the message and attachment services ask of `ConversationService` before
anything else: that the conversation exists and the user is a member of it.  What
presence asks of `ConversationRepository`: who shares a conversation with a user.
-/

namespace Chatterbox

/-- The members of every conversation; `none` where there is no such conversation. -/
abbrev Members := UUID → Option (List UUID)

def conversationNotFound : AppError := ⟨404, "CONVERSATION_NOT_FOUND", "Conversation was not found"⟩
def conversationAccessDenied : AppError :=
  ⟨403, "CONVERSATION_ACCESS_DENIED", "You are not a conversation member"⟩

/-- `ConversationService.get_authorized`. -/
def getAuthorized (members : Members) (conversationId userId : UUID) :
    Except AppError (List UUID) :=
  match members conversationId with
  | none => .error conversationNotFound
  | some users => if userId ∈ users then .ok users else .error conversationAccessDenied

theorem getAuthorized_eq_ok {members : Members} {conversationId userId : UUID}
    {users : List UUID} : getAuthorized members conversationId userId = .ok users ↔
      members conversationId = some users ∧ userId ∈ users := by
  unfold getAuthorized
  cases members conversationId with
  | none => simp
  | some found =>
      by_cases h : userId ∈ found
      · simp only [if_pos h, Except.ok.injEq, Option.some.injEq]
        exact ⟨fun e ↦ ⟨e, e ▸ h⟩, fun e ↦ e.1⟩
      · simp only [if_neg h, Option.some.injEq, reduceCtorEq, false_iff, not_and]
        rintro rfl
        exact h

/-- A row of `conversation_members`. -/
structure ConversationMember where
  conversationId : UUID
  userId : UUID
deriving DecidableEq, Repr

/-- `ConversationRepository.peer_ids`. -/
def peerIds (rows : List ConversationMember) (userId : UUID) : List UUID :=
  ((rows.filter fun peer ↦ peer.userId ≠ userId ∧
      ∃ own ∈ rows, own.conversationId = peer.conversationId ∧ own.userId = userId).map
    ConversationMember.userId).dedup

variable {rows : List ConversationMember} {u w : UUID}

theorem mem_peerIds : w ∈ peerIds rows u ↔
    w ≠ u ∧ ∃ c, ConversationMember.mk c u ∈ rows ∧ ConversationMember.mk c w ∈ rows := by
  simp only [peerIds, List.mem_dedup, List.mem_map, List.mem_filter, decide_eq_true_eq]
  constructor
  · rintro ⟨⟨_, w⟩, ⟨hpeer, hne, ⟨c, u⟩, hown, rfl, rfl⟩, rfl⟩
    exact ⟨hne, c, hown, hpeer⟩
  · rintro ⟨hne, c, hown, hpeer⟩
    exact ⟨⟨c, w⟩, ⟨hpeer, hne, ⟨c, u⟩, hown, rfl, rfl⟩, rfl⟩

/-- Peers are peers of each other. -/
theorem mem_peerIds_comm : w ∈ peerIds rows u ↔ u ∈ peerIds rows w := by
  simp only [mem_peerIds, ne_comm, and_comm]

end Chatterbox
