import Chatterbox.Attachments.Model
import Chatterbox.Messages.Pagination

/-!
# Recovering the messages one has missed

A client that has lost its connection walks forwards from its last cursor.  The
cursors order the messages by `created_at`, which is read off the clock when the
row is flushed; the row becomes visible when the transaction commits.  With two
senders the one order need not be the other, and a message may become visible
behind a cursor that a client already has.

| step | source |
|---|---|
| `create` | `get_authorized` and the checks of `MessageService.create` |
| `flush` | `session.flush()`: the row gets its `id` and its `created_at` |
| `touch` | `ConversationService.touch`: the `UPDATE` of the conversation's row |
| `commit` | `session.commit()` |
| `abort` | an exception, or a lost connection, at any point before the commit |

The attachments of a message have a model of their own, in which `create` may
fail for them at several places; here that is one more reason to `abort`.
-/

namespace Chatterbox.Messages

open Attachments (Tx emptyMessage)

/-- `models.Conversation`, with the ids of its members. -/
structure Conversation where
  members : List UUID
  updatedAt : Instant
deriving DecidableEq, Repr

/-- How far a request to create a message has got. -/
inductive Phase where
  | idle
  /-- The checks have passed. -/
  | ready (conversationId senderId : UUID) (content : String)
  /-- The message has been flushed. -/
  | flushed (message : Message)
  /-- So has the conversation. -/
  | touched (message : Message) (conversation : Conversation)
  | done
  /-- Answered with an `AppError`, or ended by another exception. -/
  | failed (error : Option AppError)

/-- The two tables, the clock and the requests in flight. -/
structure State where
  now : Instant
  conversations : Table UUID Tx Conversation
  messages : MessageTable
  /-- The identifiers that `uuid4` has drawn so far. -/
  drawn : List UUID
  phase : Tx → Phase

namespace State

/-- Move one request on. -/
def set (s : State) (tx : Tx) (ph : Phase) : State :=
  { s with phase := Function.update s.phase tx ph }

/-- The session of a request is closed without a commit. -/
def close (s : State) (tx : Tx) (ph : Phase) : State :=
  { s.set tx ph with conversations := s.conversations.release tx }

def members (s : State) : Members := fun id ↦ (s.conversations.row id).map Conversation.members

end State

/-- Add a row; its `id` must be new. -/
def MessageTable.insert (t : MessageTable) (message : Message) : Option MessageTable :=
  if h : message.id ∉ t.rows.map Message.id then
    some ⟨message :: t.rows, List.nodup_cons.mpr ⟨h, t.unique⟩⟩
  else none

theorem MessageTable.insert_eq {t : MessageTable} {message : Message}
    (h : message.id ∉ t.rows.map Message.id) :
    t.insert message = some ⟨message :: t.rows, List.nodup_cons.mpr ⟨h, t.unique⟩⟩ :=
  dif_pos h

theorem MessageTable.rows_insert {t u : MessageTable} {message : Message}
    (h : t.insert message = some u) : u.rows = message :: t.rows := by
  unfold MessageTable.insert at h
  split at h
  · cases h
    rfl
  · cases h

/-- `MessageService.create`, up to the first flush. -/
def create (strip : String → String) (s : State) (tx : Tx) (conversationId senderId : UUID)
    (content : String) (attachmentIds : List UUID) : Option State :=
  match s.phase tx with
  | .idle =>
      match getAuthorized s.members conversationId senderId with
      | .error e => some (s.close tx (.failed (some e)))
      | .ok _ =>
          if strip content = "" ∧ attachmentIds = [] then
            some (s.close tx (.failed (some emptyMessage)))
          else some (s.set tx (.ready conversationId senderId (strip content)))
  | _ => none

/-- The `INSERT` of the message, under a fresh identifier. -/
def flush (s : State) (tx : Tx) (id : UUID) : Option State :=
  match s.phase tx with
  | .ready conversationId senderId content =>
      if id ∉ s.drawn then
        some { s.set tx (.flushed ⟨id, conversationId, senderId, content, s.now, none⟩) with
          drawn := id :: s.drawn }
      else none
  | _ => none

/-- The `UPDATE` of the conversation, which waits for its row lock. -/
def touch (s : State) (tx : Tx) : Option State :=
  match s.phase tx with
  | .flushed message =>
      (s.conversations.lock tx message.conversationId).bind fun conversations ↦
        (conversations.row message.conversationId).map fun conversation ↦
          { s.set tx (.touched message { conversation with updatedAt := s.now }) with
            conversations }
  | _ => none

/-- `session.commit()`. -/
def commit (s : State) (tx : Tx) : Option State :=
  match s.phase tx with
  | .touched message conversation =>
      (s.messages.insert message).map fun messages ↦
        { s.set tx .done with
          messages
          conversations := s.conversations.commit tx
            [(message.conversationId, some conversation)] }
  | _ => none

/-- A move of the clock or of one request. -/
inductive Action where
  | tick (d : Nat)
  | create (tx : Tx) (conversationId senderId : UUID) (content : String)
      (attachmentIds : List UUID)
  | flush (tx : Tx) (id : UUID)
  | touch (tx : Tx)
  | commit (tx : Tx)
  | abort (tx : Tx)
deriving DecidableEq, Repr

/-- One step; `strip` is `str.strip`. -/
def step (strip : String → String) (s : State) : Action → Option State
  | .tick d => some { s with now := s.now + d }
  | .create tx conversationId senderId content attachmentIds =>
      create strip s tx conversationId senderId content attachmentIds
  | .flush tx id => flush s tx id
  | .touch tx => touch s tx
  | .commit tx => commit s tx
  | .abort tx =>
      match s.phase tx with
      | .idle | .done | .failed _ => none
      | _ => some (s.close tx (.failed none))

/-- No lock is held and no request is in flight. -/
def Initial (s : State) : Prop :=
  (∀ id, s.conversations.owner id = none) ∧ ∀ tx, s.phase tx = .idle

/-! ## What a step makes visible -/

variable {strip : String → String} {s t : State} {a : Action}

/-- Only a commit makes a message visible, and it makes visible just one. -/
theorem step_messages (ht : step strip s a = some t) :
    t.messages = s.messages ∨ ∃ tx message conversation, a = .commit tx ∧
      s.phase tx = .touched message conversation ∧
        t.messages.rows = message :: s.messages.rows := by
  cases a with
  | commit tx =>
      simp only [step, commit] at ht
      split at ht
      · rename_i message conversation hp
        obtain ⟨messages, hinsert, rfl⟩ := Option.map_eq_some_iff.mp ht
        exact Or.inr ⟨tx, message, conversation, rfl, hp, MessageTable.rows_insert hinsert⟩
      · cases ht
  | touch tx =>
      simp only [step, touch] at ht
      split at ht
      · obtain ⟨conversations, -, ht⟩ := Option.bind_eq_some_iff.mp ht
        obtain ⟨conversation, -, rfl⟩ := Option.map_eq_some_iff.mp ht
        exact Or.inl rfl
      · cases ht
  | tick | create | flush | abort =>
      simp only [step, create, flush] at ht
      repeat' split at ht
      all_goals cases ht
      all_goals exact Or.inl rfl

/-- The message that is about to become visible is newer than all that are
visible in its conversation. -/
def InOrder (s : State) : Action → Prop
  | .commit tx => ∀ message conversation, s.phase tx = .touched message conversation →
      ∀ m ∈ visible s.messages message.conversationId, Older m message
  | _ => True

/-- Every complete walk from the cursor of `m` that starts in the table `t`
returns `n`, whoever walks and whatever is inserted meanwhile. -/
def Recovers (conversationId : UUID) (t : MessageTable) (m n : Message) : Prop :=
  ∀ (members : Members) (currentUserId : UUID) (users : List UUID) (limit : ℕ)
    (later : List MessageTable),
    getAuthorized members conversationId currentUserId = .ok users → 1 ≤ limit →
      (t :: later).Pairwise Grows →
        let pages := walkAfter members conversationId currentUserId limit (some (encodeCursor m))
          (t :: later)
        Finished pages → n ∈ messages pages

/-- It is the order of the keys alone that decides. -/
theorem recovers_iff {conversationId : UUID} {t : MessageTable} {m n : Message}
    (hn : n ∈ visible t conversationId) : Recovers conversationId t m n ↔ Older m n := by
  constructor
  · intro h
    have hauth : getAuthorized (fun _ ↦ some [0]) conversationId 0 = .ok [0] := by
      rw [getAuthorized_eq_ok]
      exact ⟨rfl, List.mem_singleton_self 0⟩
    have hgrow : (t :: List.replicate t.rows.length t).Pairwise Grows :=
      List.pairwise_replicate (n := t.rows.length + 1).mpr (Or.inr (List.Subset.refl _))
    have hfin := walkAfter_finishes hauth (le_refl 1) (stamp m) [] t
    have hreturned := h _ 0 [0] 1 (List.replicate t.rows.length t) hauth (le_refl 1) hgrow hfin
    exact (walkAfter_exact hauth (le_refl 1) (stamp m) hgrow).beyond n hreturned
  · intro h members currentUserId users limit later hauth hlimit hgrow pages hfin
    exact (walkAfter_exact hauth hlimit (stamp m) hgrow).complete hfin n hn h

/-! ## Runs -/

/-- What has become visible since `m` was, has a later key. -/
def Since (s : State) (conversationId : UUID) (m : Message) (t : State) : Prop :=
  m ∈ visible t.messages conversationId ∧
    ∀ n ∈ visible t.messages conversationId, n ∈ visible s.messages conversationId ∨ Older m n

theorem Since.step {s₀ : State} {conversationId : UUID} {m : Message}
    (h : Since s₀ conversationId m s) (hok : InOrder s a) (ht : Messages.step strip s a = some t) :
    Since s₀ conversationId m t := by
  rcases step_messages ht with hsame | ⟨tx, message, conversation, rfl, hp, hrows⟩
  · simpa only [Since, hsame] using h
  refine ⟨?_, fun n hn ↦ ?_⟩
  · obtain ⟨hmem, hvisible⟩ := mem_visible.mp h.1
    exact mem_visible.mpr ⟨hrows ▸ List.mem_cons_of_mem _ hmem, hvisible⟩
  · obtain ⟨hmem, hconv, hundeleted⟩ := mem_visible.mp hn
    rw [hrows, List.mem_cons] at hmem
    rcases hmem with rfl | hmem
    · exact Or.inr (hok n conversation hp m (by rw [hconv]; exact h.1))
    · exact h.2 n (mem_visible.mpr ⟨hmem, hconv, hundeleted⟩)

/-- **A client recovers what it has missed**, where messages become visible in
the order of their keys: a complete walk from the cursor of any message `m` that
was visible returns every message that has become visible since. -/
theorem recovery_complete {strip : String → String} {s t : State} {as : List Action}
    (hrun : exec (Messages.step strip) s as = some t)
    (hok : Along (Messages.step strip) InOrder s as) {conversationId : UUID} {m n : Message}
    (hm : m ∈ visible s.messages conversationId) (hn : n ∈ visible t.messages conversationId)
    (hnew : n ∉ visible s.messages conversationId) : Recovers conversationId t.messages m n := by
  have hsince : Since s conversationId m t :=
    exec_induction (P := Since s conversationId m) (fun h hok' ht ↦ h.step hok' ht)
      ⟨hm, fun _ h ↦ Or.inl h⟩ hrun hok
  rcases hsince.2 n hn with hold | holder
  · exact absurd hold hnew
  · exact (recovers_iff hn).mpr holder

/-- The condition is exact: a message that becomes visible out of order is not
recovered from some cursor that a client may have. -/
theorem lost_of_disorder {tx : Tx} (ht : Messages.step strip s (.commit tx) = some t)
    (hundeleted : ∀ message conversation, s.phase tx = .touched message conversation →
      message.deletedAt = none) (hok : ¬ InOrder s (.commit tx)) :
    ∃ conversationId m n, m ∈ visible s.messages conversationId ∧
      n ∈ visible t.messages conversationId ∧ n ∉ visible s.messages conversationId ∧
        ¬ Recovers conversationId t.messages m n := by
  simp only [InOrder, not_forall] at hok
  obtain ⟨message, conversation, hp, m, hm, hnot⟩ := hok
  simp only [Messages.step, commit, hp] at ht
  obtain ⟨messages, hinsert, rfl⟩ := Option.map_eq_some_iff.mp ht
  have hrows := MessageTable.rows_insert hinsert
  have hn : message ∈ visible messages message.conversationId :=
    mem_visible.mpr ⟨hrows ▸ List.mem_cons_self, rfl, hundeleted message conversation hp⟩
  refine ⟨message.conversationId, m, message, hm, hn, fun hold ↦ ?_, ?_⟩
  · have hid := messages.unique
    rw [hrows] at hid
    exact (List.nodup_cons.mp hid).1 (List.mem_map_of_mem (mem_visible.mp hold).1)
  · rwa [recovers_iff hn]

/-! ## Two overlapping senders -/

/-- One conversation of two users, in which nothing has been said. -/
def silent : State where
  now := 0
  conversations := ⟨fun id ↦ if id = 1 then some ⟨[2, 3], 0⟩ else none, fun _ ↦ none⟩
  messages := ⟨[], List.nodup_nil⟩
  drawn := []
  phase := fun _ ↦ .idle

/-- User 2 flushes first, user 3 commits first. -/
def overtaking : List Action :=
  [.create 0 1 2 "a" [], .flush 0 10, .tick 1, .create 1 1 3 "b" [], .flush 1 11, .touch 1,
    .commit 1]

/-- The message of user 3 is visible, and then so is that of user 2; a complete
walk from the first one's cursor does not return the second. -/
theorem overtaken_message_lost : Initial silent ∧
    ∃ s t m n, exec (Messages.step id) silent overtaking = some s ∧
      exec (Messages.step id) s [.touch 0, .commit 0] = some t ∧ m ∈ visible s.messages 1 ∧
        n ∈ visible t.messages 1 ∧ n ∉ visible s.messages 1 ∧ ¬ Recovers 1 t.messages m n := by
  refine ⟨⟨fun _ ↦ rfl, fun _ ↦ rfl⟩, _, _, ⟨11, 1, 3, "b", 1, none⟩, ⟨10, 1, 2, "a", 0, none⟩,
    rfl, rfl, .head _, .head _, by decide, fun h ↦ ?_⟩
  exact absurd ((recovers_iff (.head _)).mp h) (by decide)

/-- User 2 has said something. -/
def spoken : State :=
  { silent with now := 1, messages := ⟨[⟨10, 1, 2, "a", 0, none⟩], by decide⟩, drawn := [10] }

/-- User 3 answers. -/
def answering : List Action := [.create 1 1 3 "b" [], .flush 1 11, .touch 1, .commit 1]

theorem recovery_complete_answering :
    ∃ t, exec (Messages.step id) spoken answering = some t ∧
      Recovers 1 t.messages ⟨10, 1, 2, "a", 0, none⟩ ⟨11, 1, 3, "b", 1, none⟩ := by
  have hok : Along (Messages.step id) InOrder spoken answering := by
    refine .cons trivial rfl (.cons trivial rfl (.cons trivial rfl (.cons ?_ rfl trivial)))
    rintro message conversation ⟨⟩
    decide
  exact ⟨_, rfl, @recovery_complete id spoken _ answering rfl hok 1 _ _ (.head _) (.head _)
    (by decide)⟩

end Chatterbox.Messages
