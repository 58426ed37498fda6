import Chatterbox.Services.Invariant

/-!
# What a transaction does to conversations and messages

Of all transactions `create_direct` is the only one that adds a conversation, and
`MessageService.create` the only one that adds a message.  The others keep both tables and
the members as they are (`step_cases`).
-/

namespace Chatterbox.Services

open Conversations (directKey)

variable {st : Settings} {s t : Store} {env : Env} {c u v : UUID}

/-- Conversations, members and messages are kept. -/
structure Kept (s t : Store) : Prop where
  conversations : t.conversations = s.conversations
  members : t.members = s.members
  messages : t.messages = s.messages

theorem Kept.refl (s : Store) : Kept s s := ⟨rfl, rfl, rfl⟩

/-- A message is inserted under an identifier of its own. -/
theorem ne_of_insert {message other : Messages.Message} {messages : Messages.MessageTable}
    (h : s.messages.insert message = some messages) (hother : other ∈ s.messages.rows) :
    message.id ≠ other.id := by
  have hunique := messages.unique
  rw [Messages.MessageTable.rows_insert h, List.map_cons, List.nodup_cons] at hunique
  exact fun e ↦ hunique.1 (e ▸ List.mem_map_of_mem hother)

/-- The conversation of two users, if there is one. -/
def Store.direct (s : Store) (u v : UUID) : Option Conversation :=
  s.conversations.find? fun x ↦ x.directKey = directKey u v

/-- What `create_direct` does, and what it has found out before. -/
theorem createDirect_eq_ok {response : ConversationResponse}
    (h : createDirect env s u v = .ok (response, t)) : u ≠ v ∧ (∃ user ∈ s.users, user.id = v) ∧
      ((∃ x, s.direct u v = some x ∧ t = s ∧ response = toConversationResponse s x u) ∨
        s.direct u v = none ∧ ¬ s.Exists (env.draw 0) ∧ t = addDirect env s u v ∧
          response.id = env.draw 0) := by
  unfold createDirect at h
  split at h
  · cases h
  · rename_i hne
    split at h
    · cases h
    · rename_i huser
      refine ⟨hne, by simpa using huser, ?_⟩
      split at h
      · rename_i x hx
        cases h
        exact .inl ⟨x, hx, rfl, rfl⟩
      · rename_i hnone
        split at h
        · cases h
        · rename_i hfresh
          cases h
          exact .inr ⟨hnone, hfresh, rfl, rfl⟩

theorem Kept.of_reserve {filename mimeType : String} {size : ℕ}
    {response : AttachmentUploadResponse}
    (h : reserve st env s c u filename mimeType size = .ok (response, t)) : Kept s t := by
  unfold reserve at h
  split at h
  · cases h
  · split at h
    · cases h
    · split at h
      · cases h
      · cases h
        exact ⟨rfl, rfl, rfl⟩

theorem Kept.of_complete {id : UUID} {response : AttachmentResponse}
    (h : complete st env s id u = .ok (response, t)) : Kept s t := by
  unfold complete at h
  split at h
  · cases h
  · split at h
    · cases h
    · split at h
      · cases h
      · split at h
        · cases h
          exact .refl s
        · split at h
          · cases h
          · cases h
            exact ⟨rfl, rfl, rfl⟩

/-- The transaction creates a message, with this answer. -/
def Creates (st : Settings) (s t : Store) (a : Action) (response : MessageResponse) : Prop :=
  ∃ env u c content ids, a = .request env u (.createMessage c content ids) ∧
    createMessage st env s c u content ids = .ok (response, t)

/-- The transaction asks for a conversation, with this answer. -/
def Opens (s t : Store) (a : Action) (response : ConversationResponse) : Prop :=
  ∃ env u v, a = .request env u (.createDirect v) ∧ createDirect env s u v = .ok (response, t)

/-- A transaction is about messages, about conversations, or about neither. -/
theorem step_cases {a : Action} (ht : step st s a = some t) :
    (∃ response, Creates st s t a response) ∨ (∃ response, Opens s t a response) ∨
      Kept s t ∧ ∀ env u, (∀ v, a ≠ .request env u (.createDirect v)) ∧
        ∀ c content ids, a ≠ .request env u (.createMessage c content ids) := by
  cases hop : a.operation s with
  | some op =>
      rw [step_operation ht hop]
      refine .inr (.inr ⟨⟨rfl, rfl, rfl⟩, fun env u ↦ ⟨?_, ?_⟩⟩)
      · rintro v rfl
        cases hop
      · rintro c content ids rfl
        cases hop
  | none =>
      cases a with
      | register user =>
          simp only [step] at ht
          split at ht
          · cases ht
          · cases ht
            exact .inr (.inr ⟨⟨rfl, rfl, rfl⟩, fun _ _ ↦ by simp⟩)
      | setLastSeen userId lastSeen =>
          cases ht
          exact .inr (.inr ⟨⟨rfl, rfl, rfl⟩, fun _ _ ↦ by simp⟩)
      | put key object =>
          simp only [step] at ht
          split at ht
          · cases ht
            exact .inr (.inr ⟨⟨rfl, rfl, rfl⟩, fun _ _ ↦ by simp⟩)
          · cases ht
      | cleanup cutoff limit fails =>
          cases ht
          exact .inr (.inr ⟨⟨rfl, rfl, rfl⟩, fun _ _ ↦ by simp⟩)
      | markDelivered now messageId userIds => cases hop
      | request env userId request =>
          simp only [step] at ht
          split at ht
          · rename_i response t' hserve
            cases ht
            cases request with
            | createMessage c content ids =>
                obtain ⟨⟨response, _⟩, hok, hpair⟩ := serve_eq_ok hserve
                cases hpair
                exact .inl ⟨response, env, userId, c, content, ids, rfl, hok⟩
            | createDirect v =>
                obtain ⟨⟨response, _⟩, hok, hpair⟩ := serve_eq_ok hserve
                cases hpair
                exact .inr (.inl ⟨response, env, userId, v, rfl, hok⟩)
            | reserve c filename mimeType size =>
                obtain ⟨⟨_, _⟩, hok, hpair⟩ := serve_eq_ok hserve
                cases hpair
                exact .inr (.inr ⟨.of_reserve hok, fun _ _ ↦ by simp⟩)
            | complete id =>
                obtain ⟨⟨_, _⟩, hok, hpair⟩ := serve_eq_ok hserve
                cases hpair
                exact .inr (.inr ⟨.of_complete hok, fun _ _ ↦ by simp⟩)
            | listConversations =>
                cases hserve
                exact .inr (.inr ⟨.refl s, fun _ _ ↦ by simp⟩)
            | getConversation | listMessages | authorizeDownload =>
                obtain ⟨_, -, hpair⟩ := serve_eq_ok hserve
                cases hpair
                exact .inr (.inr ⟨.refl s, fun _ _ ↦ by simp⟩)
            | markRead c id =>
                obtain ⟨_, hread, -⟩ := serve_eq_ok hserve
                obtain ⟨target, hfound, -⟩ := markRead_eq_ok hread
                rw [Action.operation, hfound] at hop
                cases hop
            | markPendingDelivered => cases hop
          · cases ht

/-- Messages are not deleted. -/
theorem Reachable.not_deleted (h : Reachable st s) :
    ∀ message ∈ s.messages.rows, message.deletedAt = none := by
  obtain ⟨as, hrun⟩ := h
  refine exec_invariant (P := fun s ↦ ∀ message ∈ s.messages.rows, message.deletedAt = none)
    (fun {s a t} h ht ↦ ?_) (fun _ h ↦ absurd h List.not_mem_nil) hrun
  rcases step_cases ht with ⟨response, env, u, c, content, ids, rfl, hok⟩ |
    ⟨response, env, u, v, rfl, hok⟩ | ⟨hkept, -⟩
  · obtain ⟨memberIds, ordered, messages, -, -, hinserted, -, rfl, -⟩ := createMessage_eq_ok hok
    rw [addMessage, Messages.MessageTable.rows_insert hinserted]
    exact List.forall_mem_cons.mpr ⟨rfl, h⟩
  · obtain ⟨-, -, ⟨x, -, rfl, -⟩ | ⟨-, -, rfl, -⟩⟩ := createDirect_eq_ok hok
    · exact h
    · exact h
  · rw [hkept.messages]
    exact h

end Chatterbox.Services
