import Chatterbox.Conversations.DirectKey
import Chatterbox.Run
import Mathlib.Data.List.Permutation

/-!
# Creating direct conversations

`ConversationService.create_direct` looks a conversation up by its key and, if
there is none, inserts it.  Any number of calls do so at the same time:

| step | source |
|---|---|
| `receive` | the call, and the test that the two users are not one |
| `getUser` | `UserRepository.get_by_id(participant_id)` |
| `select` | the first `get_direct_by_key` |
| `insert` | the `INSERT`s that `session.commit()` flushes, with an id from `uuid4` |
| `commit` | the `COMMIT` |
| `reselect` | the `get_direct_by_key` after `IntegrityError` and `rollback` |
| `reread` | `get_by_id` of the conversation just created |
| `abort` | an exception, or a lost connection, anywhere |

Of the database only the unique index on `direct_key` is relied on.  While an
entry of the index is not committed, the `INSERT` of the same key waits; when a
conversation with the key is committed, it raises `IntegrityError`.

`Conversation` has the columns that `create_direct` writes, and the members it
creates with it.
-/

namespace Chatterbox.Conversations

/-- A row of `conversation_members`, seen from its conversation. -/
structure Member where
  userId : UUID
  role : String
deriving DecidableEq, Repr

/-- `models.Conversation`. -/
structure Conversation where
  id : UUID
  type : String
  directKey : List Char
  createdBy : UUID
  members : List Member
deriving DecidableEq, Repr

/-- The users who are members. -/
def Conversation.memberIds (x : Conversation) : List UUID := x.members.map Member.userId

namespace Direct

/-- A call, by its number of arrival. -/
abbrev Call := ℕ

def invalidParticipant : AppError := ⟨422, "INVALID_PARTICIPANT", "You cannot message yourself"⟩
def userNotFound : AppError := ⟨404, "USER_NOT_FOUND", "User was not found"⟩
def conversationCreateFailed : AppError :=
  ⟨500, "CONVERSATION_CREATE_FAILED", "Conversation could not be created"⟩

/-- The conversation that a call adds. -/
def newConversation (id currentUserId participantId : UUID) : Conversation where
  id := id
  type := "direct"
  directKey := directKey currentUserId participantId
  createdBy := currentUserId
  members := [⟨currentUserId, "member"⟩, ⟨participantId, "member"⟩]

@[simp] theorem newConversation_directKey (id a b : UUID) :
    (newConversation id a b).directKey = directKey a b := rfl

@[simp] theorem newConversation_memberIds (id a b : UUID) :
    (newConversation id a b).memberIds = [a, b] := rfl

/-- How far a call has got; `a` is the current user and `b` the participant. -/
inductive Phase where
  | idle
  | received (a b : UUID)
  | checked (a b : UUID)
  /-- There was no conversation with the key. -/
  | missing (a b : UUID)
  /-- The rows are written, not committed. -/
  | inserted (a b : UUID) (x : Conversation)
  | committed (a b : UUID) (x : Conversation)
  /-- `IntegrityError` was raised, and the session rolled back. -/
  | rolledBack (a b : UUID)
  | returned (a b : UUID) (x : Conversation)
  /-- The call has failed; `none` if the error is none of the service's. -/
  | failed (error : Option AppError)
deriving DecidableEq, Repr

/-- `users`, the committed conversations, and the calls. -/
structure State where
  users : List UUID
  conversations : List Conversation
  /-- The entries of the unique index that are not committed, with their calls. -/
  inserting : List Char → Option Call
  /-- The ids that `uuid4` has drawn so far, and for which calls. -/
  drawn : UUID → Option Call
  phase : Call → Phase

/-- Nobody has a conversation. -/
def State.initial (users : List UUID) : State :=
  ⟨users, [], fun _ ↦ none, fun _ ↦ none, fun _ ↦ .idle⟩

/-- Move one call on. -/
def State.set (s : State) (r : Call) (ph : Phase) : State :=
  { s with phase := Function.update s.phase r ph }

/-- `Result.scalar_one_or_none`; `none` is `MultipleResultsFound`. -/
def scalarOneOrNone (rows : List Conversation) : Option (Option Conversation) :=
  match rows with
  | [] => some none
  | [x] => some (some x)
  | _ => none

/-- `ConversationRepository.get_direct_by_key`. -/
def getDirectByKey (s : State) (key : List Char) : Option (Option Conversation) :=
  scalarOneOrNone (s.conversations.filter fun x ↦ x.directKey = key)

/-- `ConversationRepository.get_by_id`. -/
def getById (s : State) (id : UUID) : Option (Option Conversation) :=
  scalarOneOrNone (s.conversations.filter fun x ↦ x.id = id)

/-- A step of a call. -/
inductive Action where
  | register (u : UUID)
  | receive (r : Call) (a b : UUID)
  | getUser (r : Call)
  | select (r : Call)
  | insert (r : Call) (id : UUID)
  | commit (r : Call)
  | reselect (r : Call)
  | reread (r : Call)
  | abort (r : Call)
deriving DecidableEq, Repr

/-- The entry of a call is taken out of the index, if it has one. -/
def State.release (s : State) (r : Call) : State :=
  { s with inserting := fun key ↦ if s.inserting key = some r then none else s.inserting key }

/-- One step. -/
def step (s : State) : Action → Option State
  | .register u => some { s with users := u :: s.users }
  | .receive r a b =>
      match s.phase r with
      | .idle =>
          some (s.set r (if a = b then .failed (some invalidParticipant) else .received a b))
      | _ => none
  | .getUser r =>
      match s.phase r with
      | .received a b =>
          some (s.set r (if b ∈ s.users then .checked a b else .failed (some userNotFound)))
      | _ => none
  | .select r =>
      match s.phase r with
      | .checked a b =>
          match getDirectByKey s (directKey a b) with
          | some (some x) => some (s.set r (.returned a b x))
          | some none => some (s.set r (.missing a b))
          | none => some (s.set r (.failed none))
      | _ => none
  | .insert r id =>
      match s.phase r with
      | .missing a b =>
          if s.drawn id = none ∧ s.inserting (directKey a b) = none then
            if ∃ x ∈ s.conversations, x.directKey = directKey a b then
              some { s.set r (.rolledBack a b) with
                drawn := Function.update s.drawn id (some r) }
            else
              some { s.set r (.inserted a b (newConversation id a b)) with
                inserting := Function.update s.inserting (directKey a b) (some r)
                drawn := Function.update s.drawn id (some r) }
          else none
      | _ => none
  | .commit r =>
      match s.phase r with
      | .inserted a b x =>
          some { (s.set r (.committed a b x)).release r with
            conversations := x :: s.conversations }
      | _ => none
  | .reselect r =>
      match s.phase r with
      | .rolledBack a b =>
          match getDirectByKey s (directKey a b) with
          | some (some x) => some (s.set r (.returned a b x))
          | _ => some (s.set r (.failed none))
      | _ => none
  | .reread r =>
      match s.phase r with
      | .committed a b x =>
          match getById s x.id with
          | some (some y) => some (s.set r (.returned a b y))
          | some none => some (s.set r (.failed (some conversationCreateFailed)))
          | none => some (s.set r (.failed none))
      | _ => none
  | .abort r =>
      match s.phase r with
      | .idle | .returned .. | .failed _ => none
      | _ => some ((s.set r (.failed none)).release r)

variable {s t : State} {r : Call} {a : Action}

/-! ## What the queries return -/

theorem mem_of_scalarOneOrNone {rows : List Conversation} {p : Conversation → Bool}
    {x : Conversation} (h : scalarOneOrNone (rows.filter p) = some (some x)) :
    x ∈ rows ∧ p x = true := by
  rw [← List.mem_filter]
  cases hrows : rows.filter p with
  | nil => simp [scalarOneOrNone, hrows] at h
  | cons y rest =>
      cases rest with
      | nil =>
          simp only [scalarOneOrNone, hrows, Option.some.injEq] at h
          exact h ▸ List.mem_singleton_self y
      | cons z rest => simp [scalarOneOrNone, hrows] at h

theorem mem_of_getDirectByKey {key : List Char} {x : Conversation}
    (h : getDirectByKey s key = some (some x)) : x ∈ s.conversations ∧ x.directKey = key := by
  simpa using mem_of_scalarOneOrNone h

theorem mem_of_getById {id : UUID} {x : Conversation} (h : getById s id = some (some x)) :
    x ∈ s.conversations ∧ x.id = id := by
  simpa using mem_of_scalarOneOrNone h

/-- Rows of which one value is shared, among rows with distinct values, are one at most. -/
theorem length_filter_le_one {α β : Type*} {f : α → β} {l : List α} {p : α → Bool} {b : β}
    (hnodup : (l.map f).Nodup) (hp : ∀ x ∈ l, p x = true → f x = b) :
    (l.filter p).length ≤ 1 := by
  have hall : ∀ y ∈ (l.filter p).map f, y = b := by
    intro y hy
    obtain ⟨x, hx, rfl⟩ := List.mem_map.mp hy
    exact hp x (List.mem_filter.mp hx).1 (List.mem_filter.mp hx).2
  have hsub : ((l.filter p).map f).Nodup := hnodup.sublist (List.filter_sublist.map f)
  rw [List.eq_replicate_of_mem hall, List.nodup_replicate, List.length_map] at hsub
  exact hsub

/-! ## The invariant -/

/-- What a call may rely on. -/
def PhaseOk (s : State) (r : Call) : Phase → Prop
  | .idle | .failed _ => True
  | .received a b | .checked a b | .missing a b => a ≠ b
  | .rolledBack a b => a ≠ b ∧ ∃ x ∈ s.conversations, x.directKey = directKey a b
  | .inserted a b x =>
      a ≠ b ∧ x = newConversation x.id a b ∧ s.inserting (directKey a b) = some r ∧
        s.drawn x.id = some r ∧ ∀ y ∈ s.conversations, y.id ≠ x.id
  | .committed a b x | .returned a b x =>
      a ≠ b ∧ x ∈ s.conversations ∧ x.directKey = directKey a b

/-- Keys and ids are unique, and a key that is being inserted is not there yet. -/
structure Inv (s : State) : Prop where
  keys : (s.conversations.map Conversation.directKey).Nodup
  ids : (s.conversations.map Conversation.id).Nodup
  made : ∀ x ∈ s.conversations, ∃ a b, a ≠ b ∧ x = newConversation x.id a b ∧ s.drawn x.id ≠ none
  missing : ∀ key, s.inserting key ≠ none → ∀ x ∈ s.conversations, x.directKey ≠ key
  phase : ∀ r, PhaseOk s r (s.phase r)

theorem Inv.initial (users : List UUID) : Inv (.initial users) where
  keys := List.nodup_nil
  ids := List.nodup_nil
  made x hx := by cases hx
  missing key hkey := absurd rfl hkey
  phase r := trivial

/-- The others keep what they rely on when one call moves. -/
theorem Inv.move (h : Inv s) (ph : Phase) (hph : PhaseOk t r ph)
    (hphase : t.phase = Function.update s.phase r ph)
    (hothers : ∀ r', r' ≠ r → PhaseOk s r' (s.phase r') → PhaseOk t r' (s.phase r')) (r' : Call) :
    PhaseOk t r' (t.phase r') := by
  rw [hphase]
  by_cases hr : r' = r
  · subst hr
    rwa [Function.update_self]
  · rw [Function.update_of_ne hr]
    exact hothers r' hr (h.phase r')

/-- Nothing but one call moves. -/
theorem Inv.set (h : Inv s) (ph : Phase) (hph : PhaseOk s r ph) : Inv (s.set r ph) where
  keys := h.keys
  ids := h.ids
  made := h.made
  missing := h.missing
  phase := h.move ph hph rfl fun _ _ h ↦ h

/-- What a call may rely on stays: conversations, its entries of the index, its ids. -/
theorem PhaseOk.mono {ph : Phase} (hok : PhaseOk s r ph)
    (hstays : ∀ x ∈ s.conversations, x ∈ t.conversations)
    (hindex : ∀ key, s.inserting key = some r → t.inserting key = some r)
    (hdrawn : ∀ id, s.drawn id = some r → t.drawn id = some r)
    (hunused : ∀ id, s.drawn id = some r → (∀ y ∈ s.conversations, y.id ≠ id) →
      ∀ y ∈ t.conversations, y.id ≠ id) : PhaseOk t r ph := by
  cases ph with
  | idle | failed error => trivial
  | received a b | checked a b | missing a b => exact hok
  | rolledBack a b =>
      obtain ⟨hne, x, hx, hkey⟩ := hok
      exact ⟨hne, x, hstays x hx, hkey⟩
  | inserted a b x =>
      obtain ⟨hne, hx, hkey, hid, hother⟩ := hok
      exact ⟨hne, hx, hindex _ hkey, hdrawn _ hid, hunused _ hid hother⟩
  | committed a b x | returned a b x => exact ⟨hok.1, hstays x hok.2.1, hok.2.2⟩

/-- The ids of all calls stay theirs when a fresh one is drawn. -/
theorem drawn_update {id id' : UUID} {r' : Call} (hfresh : s.drawn id = none)
    (h : s.drawn id' = some r') : Function.update s.drawn id (some r) id' = some r' := by
  have hne : id' ≠ id := fun e ↦ by rw [← e, h] at hfresh; cases hfresh
  rw [Function.update_of_ne hne, h]

/-- A conversation that is there has an id that was drawn. -/
theorem Inv.made_draw (h : Inv s) {id : UUID} (hfresh : s.drawn id = none) {x : Conversation}
    (hx : x ∈ s.conversations) : ∃ a b, a ≠ b ∧ x = newConversation x.id a b ∧
      Function.update s.drawn id (some r) x.id ≠ none := by
  obtain ⟨a, b, hne, hmade, hdrawn⟩ := h.made x hx
  obtain ⟨r', hr'⟩ := Option.ne_none_iff_exists'.mp hdrawn
  exact ⟨a, b, hne, hmade, by rw [drawn_update hfresh hr']; exact Option.some_ne_none r'⟩

/-- The `INSERT` finds the key committed. -/
theorem Inv.conflict (h : Inv s) {id a b : UUID} (hphase : s.phase r = .missing a b)
    (hfresh : s.drawn id = none) (hkey : ∃ x ∈ s.conversations, x.directKey = directKey a b) :
    Inv { s.set r (.rolledBack a b) with drawn := Function.update s.drawn id (some r) } where
  keys := h.keys
  ids := h.ids
  made _ hx := h.made_draw hfresh hx
  missing := h.missing
  phase := by
    have hne : PhaseOk s r (.missing a b) := hphase ▸ h.phase r
    refine h.move (.rolledBack a b) ⟨hne, hkey⟩ rfl fun _ _ hok ↦ ?_
    exact hok.mono (fun _ hx ↦ hx) (fun _ hi ↦ hi) (fun _ hd ↦ drawn_update hfresh hd)
      fun _ _ hu ↦ hu

/-- The `INSERT` enters the key into the index. -/
theorem Inv.insert (h : Inv s) {id a b : UUID} (hphase : s.phase r = .missing a b)
    (hfresh : s.drawn id = none) (hfree : s.inserting (directKey a b) = none)
    (hkey : ∀ x ∈ s.conversations, x.directKey ≠ directKey a b) :
    Inv { s.set r (.inserted a b (newConversation id a b)) with
      inserting := Function.update s.inserting (directKey a b) (some r)
      drawn := Function.update s.drawn id (some r) } where
  keys := h.keys
  ids := h.ids
  made _ hx := h.made_draw hfresh hx
  missing key hne := by
    by_cases hk : key = directKey a b
    · rw [hk]
      exact hkey
    · have hold : Function.update s.inserting (directKey a b) (some r) key ≠ none := hne
      rw [Function.update_of_ne hk] at hold
      exact h.missing key hold
  phase := by
    have hne : PhaseOk s r (.missing a b) := hphase ▸ h.phase r
    have hunused : ∀ x ∈ s.conversations, x.id ≠ id := fun x hx e ↦ by
      obtain ⟨-, -, -, -, hdrawn⟩ := h.made x hx
      exact hdrawn (e ▸ hfresh)
    refine h.move (.inserted a b (newConversation id a b)) ?_ rfl fun r' _ hok ↦ ?_
    · exact ⟨hne, rfl, Function.update_self .., Function.update_self .., hunused⟩
    · refine hok.mono (fun _ hx ↦ hx) (fun key hi ↦ ?_) (fun _ hd ↦ drawn_update hfresh hd)
        fun _ _ hu ↦ hu
      have hk : key ≠ directKey a b := fun e ↦ by rw [e, hfree] at hi; cases hi
      exact (Function.update_of_ne hk ..).trans hi

/-- The index entries of the others stay when a call ends its transaction. -/
theorem release_inserting {key : List Char} {r' : Call} (hr : r' ≠ r)
    (h : s.inserting key = some r') : (s.release r).inserting key = some r' := by
  have hne : s.inserting key ≠ some r := fun e ↦ hr (Option.some.inj (h.symm.trans e))
  exact (if_neg hne).trans h

theorem inserting_of_release {key : List Char} (h : (s.release r).inserting key ≠ none) :
    s.inserting key ≠ none ∧ s.inserting key ≠ some r := by
  simp only [State.release] at h
  split at h
  · exact absurd rfl h
  · exact ⟨h, ‹_›⟩

theorem Inv.abort (h : Inv s) (error : Option AppError) :
    Inv ((s.set r (.failed error)).release r) where
  keys := h.keys
  ids := h.ids
  made := h.made
  missing key hne := h.missing key (inserting_of_release hne).1
  phase := by
    refine h.move (.failed error) trivial rfl fun r' hr hok ↦ ?_
    exact hok.mono (fun _ hx ↦ hx) (fun _ hi ↦ release_inserting hr hi) (fun _ hd ↦ hd)
      fun _ _ hu ↦ hu

/-- The rows of a call become visible. -/
theorem Inv.commit (h : Inv s) {a b : UUID} {x : Conversation}
    (hphase : s.phase r = .inserted a b x) :
    Inv { (s.set r (.committed a b x)).release r with conversations := x :: s.conversations } := by
  obtain ⟨hne, hx, hindex, hdrawn, hunused⟩ : PhaseOk s r (.inserted a b x) := hphase ▸ h.phase r
  have hkey : x.directKey = directKey a b := by rw [hx, newConversation_directKey]
  have hmissing := h.missing _ (hindex ▸ Option.some_ne_none r)
  refine ⟨?_, ?_, ?_, ?_, ?_⟩
  · refine List.nodup_cons.mpr ⟨fun hmem ↦ ?_, h.keys⟩
    obtain ⟨y, hy, he⟩ := List.mem_map.mp hmem
    exact hmissing y hy (he.trans hkey)
  · refine List.nodup_cons.mpr ⟨fun hmem ↦ ?_, h.ids⟩
    obtain ⟨y, hy, he⟩ := List.mem_map.mp hmem
    exact hunused y hy he
  · refine List.forall_mem_cons.mpr ⟨⟨a, b, hne, hx, ?_⟩, h.made⟩
    exact hdrawn ▸ Option.some_ne_none r
  · intro key hne'
    obtain ⟨hold, hnot⟩ := inserting_of_release hne'
    refine List.forall_mem_cons.mpr ⟨fun e ↦ hnot ?_, h.missing key hold⟩
    rw [← e, hkey]
    exact hindex
  · refine h.move (.committed a b x) ⟨hne, List.mem_cons_self, hkey⟩ rfl fun r' hr hok ↦ ?_
    refine hok.mono (fun _ hx ↦ List.mem_cons_of_mem x hx) (fun _ hi ↦ release_inserting hr hi)
      (fun _ hd ↦ hd) fun id hd hu ↦ List.forall_mem_cons.mpr ⟨fun e ↦ hr ?_, hu⟩
    exact Option.some.inj (hd.symm.trans (e ▸ hdrawn))

theorem Inv.step (h : Inv s) (ht : step s a = some t) : Inv t := by
  cases a with
  | register u =>
      cases ht
      exact ⟨h.keys, h.ids, h.made, h.missing, h.phase⟩
  | receive r a b =>
      simp only [Direct.step] at ht
      split at ht
      · cases ht
        refine h.set _ ?_
        split
        · trivial
        · assumption
      · cases ht
  | getUser r =>
      simp only [Direct.step] at ht
      split at ht
      · rename_i a b hphase
        cases ht
        have hok : PhaseOk s r (.received a b) := hphase ▸ h.phase r
        refine h.set _ ?_
        split
        · exact hok
        · trivial
      · cases ht
  | select r =>
      simp only [Direct.step] at ht
      split at ht
      · rename_i a b hphase
        have hok : PhaseOk s r (.checked a b) := hphase ▸ h.phase r
        split at ht
        · rename_i x hfound
          cases ht
          exact h.set (.returned a b x) ⟨hok, mem_of_getDirectByKey hfound⟩
        · cases ht
          exact h.set (.missing a b) hok
        · cases ht
          exact h.set (.failed none) trivial
      · cases ht
  | insert r id =>
      simp only [Direct.step] at ht
      split at ht
      · rename_i a b hphase
        split at ht
        · rename_i hfree
          split at ht
          · rename_i hkey
            cases ht
            exact h.conflict hphase hfree.1 hkey
          · rename_i hkey
            cases ht
            exact h.insert hphase hfree.1 hfree.2 fun x hx e ↦ hkey ⟨x, hx, e⟩
        · cases ht
      · cases ht
  | commit r =>
      simp only [Direct.step] at ht
      split at ht
      · rename_i hphase
        cases ht
        exact h.commit hphase
      · cases ht
  | reselect r =>
      simp only [Direct.step] at ht
      split at ht
      · rename_i a b hphase
        have hok : PhaseOk s r (.rolledBack a b) := hphase ▸ h.phase r
        split at ht
        · rename_i x hfound
          cases ht
          exact h.set (.returned a b x) ⟨hok.1, mem_of_getDirectByKey hfound⟩
        · cases ht
          exact h.set (.failed none) trivial
      · cases ht
  | reread r =>
      simp only [Direct.step] at ht
      split at ht
      · rename_i a b x hphase
        have hok : PhaseOk s r (.committed a b x) := hphase ▸ h.phase r
        split at ht
        · rename_i y hfound
          cases ht
          obtain ⟨hy, hid⟩ := mem_of_getById hfound
          obtain rfl := List.inj_on_of_nodup_map h.ids hy hok.2.1 hid
          exact h.set (.returned a b y) ⟨hok.1, hy, hok.2.2⟩
        · cases ht
          exact h.set (.failed _) trivial
        · cases ht
          exact h.set (.failed none) trivial
      · cases ht
  | abort r =>
      simp only [Direct.step] at ht
      split at ht
      · cases ht
      · cases ht
      · cases ht
      · cases ht
        exact h.abort none

theorem Inv.of_reachable {users : List UUID} {as : List Action}
    (hrun : exec Direct.step (.initial users) as = some s) : Inv s :=
  exec_invariant (fun h ht ↦ h.step ht) (Inv.initial users) hrun

/-! ## One conversation for two users -/

/-- The members of a conversation are the two users of its key. -/
theorem Inv.memberIds (h : Inv s) {x : Conversation} (hx : x ∈ s.conversations) :
    ∃ a b, a ≠ b ∧ x.memberIds = [a, b] ∧ x.directKey = directKey a b := by
  obtain ⟨a, b, hne, hmade, -⟩ := h.made x hx
  refine ⟨a, b, hne, ?_, ?_⟩
  · rw [hmade, newConversation_memberIds]
  · rw [hmade, newConversation_directKey]

/-- What the members of a conversation are decides its key. -/
theorem Inv.perm_iff (h : Inv s) {x : Conversation} (hx : x ∈ s.conversations) {a b : UUID} :
    x.memberIds.Perm [a, b] ↔ x.directKey = directKey a b := by
  obtain ⟨c, d, -, hmembers, hkey⟩ := h.memberIds hx
  rw [hmembers, hkey, directKey_eq_iff, Sym2.eq_iff, List.perm_pair]
  simp

/-- **Direct conversations are unique per pair.**  The key determines the pair of
users.  Whatever the calls do and in whatever order, at most one conversation
has two given users as its members; every conversation has two distinct users
and nobody else; and all calls for a pair that succeed return the same one. -/
theorem direct_conversations_unique :
    (∀ a b c d : UUID, directKey a b = directKey c d ↔ s(a, b) = s(c, d)) ∧
    ∀ (users : List UUID) (as : List Action) (s : State),
      exec step (.initial users) as = some s →
      (∀ a b, (s.conversations.filter fun x ↦ x.memberIds.Perm [a, b]).length ≤ 1) ∧
      (∀ x ∈ s.conversations, ∃ a b, a ≠ b ∧ x.memberIds.Perm [a, b]) ∧
      (∀ r a b x, s.phase r = .returned a b x →
        a ≠ b ∧ x ∈ s.conversations ∧ x.memberIds.Perm [a, b]) ∧
      ∀ r r' a b c d x y, s.phase r = .returned a b x → s.phase r' = .returned c d y →
        s(a, b) = s(c, d) → x = y := by
  refine ⟨fun a b c d ↦ directKey_eq_iff, fun users as s hrun ↦ ?_⟩
  have hinv := Inv.of_reachable hrun
  have hreturned : ∀ r a b x, s.phase r = .returned a b x →
      a ≠ b ∧ x ∈ s.conversations ∧ x.directKey = directKey a b := fun r a b x hphase ↦ by
    have hok := hinv.phase r
    rwa [hphase] at hok
  refine ⟨fun a b ↦ ?_, fun x hx ↦ ?_, fun r a b x hphase ↦ ?_, ?_⟩
  · refine length_filter_le_one (b := directKey a b) hinv.keys fun x hx hp ↦ ?_
    exact (hinv.perm_iff hx).mp (of_decide_eq_true hp)
  · obtain ⟨a, b, hne, hmembers, -⟩ := hinv.memberIds hx
    exact ⟨a, b, hne, hmembers ▸ List.Perm.refl _⟩
  · obtain ⟨hne, hx, hkey⟩ := hreturned r a b x hphase
    exact ⟨hne, hx, (hinv.perm_iff hx).mpr hkey⟩
  · intro r r' a b c d x y hx hy hpair
    obtain ⟨-, hmemx, hkeyx⟩ := hreturned r a b x hx
    obtain ⟨-, hmemy, hkeyy⟩ := hreturned r' c d y hy
    refine List.inj_on_of_nodup_map hinv.keys hmemx hmemy ?_
    rw [hkeyx, hkeyy, directKey_eq_iff, hpair]

/-- Two users talk to each other for the first time, at once: the second call loses the race, is
rolled back, and finds the conversation of the first. -/
def racing : List Action :=
  [.receive 0 1 2, .receive 1 2 1, .getUser 0, .getUser 1, .select 0, .select 1, .insert 0 7,
    .commit 0, .insert 1 8, .reselect 1, .reread 0]

theorem direct_conversations_unique_racing :
    ∃ s x, exec step (.initial [1, 2]) racing = some s ∧ s.phase 0 = .returned 1 2 x ∧
      s.phase 1 = .returned 2 1 x ∧ x.memberIds.Perm [1, 2] ∧
        (s.conversations.filter fun x ↦ x.memberIds.Perm [1, 2]).length ≤ 1 := by
  have hrun : ((exec step (.initial [1, 2]) racing).map fun s ↦ (s.phase 0, s.phase 1)) =
      some (.returned 1 2 (newConversation 7 1 2), .returned 2 1 (newConversation 7 1 2)) := by
    decide +kernel
  obtain ⟨s, hs, hphase⟩ := Option.map_eq_some_iff.mp hrun
  obtain ⟨h0, h1⟩ := Prod.mk.inj hphase
  have h := direct_conversations_unique.2 [1, 2] racing s hs
  exact ⟨s, _, hs, h0, h1, (h.2.2.1 0 1 2 _ h0).2.2, h.1 1 2⟩

/-- A call that has lost the race finds the conversation of the winner. -/
theorem reselect_returns (h : Inv s) {a b : UUID} (hphase : s.phase r = .rolledBack a b) :
    ∃ x, step s (.reselect r) = some (s.set r (.returned a b x)) := by
  obtain ⟨-, x, hx, hkey⟩ : PhaseOk s r (.rolledBack a b) := hphase ▸ h.phase r
  have hone : (s.conversations.filter fun x ↦ x.directKey = directKey a b).length ≤ 1 :=
    length_filter_le_one h.keys fun x _ hp ↦ of_decide_eq_true hp
  have hmem : x ∈ s.conversations.filter fun x ↦ x.directKey = directKey a b :=
    List.mem_filter.mpr ⟨hx, decide_eq_true hkey⟩
  have hfound : getDirectByKey s (directKey a b) = some (some x) := by
    obtain ⟨y, hy⟩ := List.length_eq_one_iff.mp (le_antisymm hone (List.length_pos_of_mem hmem))
    have hxy : x = y := List.mem_singleton.mp (hy ▸ hmem)
    rw [getDirectByKey, hy, hxy, scalarOneOrNone]
  exact ⟨x, by simp only [step, hphase, hfound]⟩

end Direct

end Chatterbox.Conversations
