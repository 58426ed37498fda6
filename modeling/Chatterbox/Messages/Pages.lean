import Chatterbox.Conversations
import Chatterbox.Keyset
import Mathlib.Data.Prod.Lex

/-!
# The pages of a message history

`MessageRepository.page_before` and `page_after` are keyset queries over the
undeleted messages of a conversation, in the order of `(created_at, id)`, and
`MessageService.list` makes a page and its cursor out of one of them.  The two
theorems `list_before` and `list_after` say which query of `Keyset` that is.

A cursor is modelled by what `decode_cursor` makes of its text: a position, or
nothing that can be decoded.  The empty text counts as no cursor at all, since
`list` only tests whether the string is truthy.
-/

namespace Chatterbox.Messages

/-- `models.Message`: a row of `messages`. -/
structure Message where
  id : UUID
  conversationId : UUID
  senderId : UUID
  content : String
  createdAt : Instant
  deletedAt : Option Instant
deriving DecidableEq, Repr

/-- The table `messages`, of which `id` is the primary key. -/
structure MessageTable where
  rows : List Message
  unique : (rows.map Message.id).Nodup

/-- A cursor, by what its text decodes to. -/
inductive Cursor where
  | empty
  | invalid
  | position (createdAt : Instant) (id : UUID)
deriving DecidableEq, Repr

/-- `MessagePage`. -/
structure MessagePage where
  items : List Message
  nextCursor : Option Cursor
deriving DecidableEq, Repr

def invalidCursor : AppError := ⟨422, "INVALID_CURSOR", "Message cursor is invalid"⟩
def beforeAndAfter : AppError := ⟨422, "INVALID_CURSOR", "Use either before or after, not both"⟩

/-- `encode_cursor`. -/
def encodeCursor (message : Message) : Cursor := .position message.createdAt message.id

/-- `decode_cursor`. -/
def decodeCursor : Cursor → Except AppError (Instant × UUID)
  | .position createdAt id => .ok (createdAt, id)
  | .empty | .invalid => .error invalidCursor

/-- Whether a query parameter is truthy: there, and not the empty string. -/
def given : Option Cursor → Option Cursor
  | none | some .empty => none
  | some cursor => some cursor

/-- `WHERE conversation_id = … AND deleted_at IS NULL`. -/
def visible (t : MessageTable) (conversationId : UUID) : List Message :=
  t.rows.filter fun message ↦
    decide (message.conversationId = conversationId) && message.deletedAt.isNone

/-- `MessageRepository.page_before`. -/
def pageBefore (t : MessageTable) (conversationId : UUID) (limit : ℕ)
    (before : Option (Instant × UUID)) : List Message :=
  let found := match before with
    | none => visible t conversationId
    | some (createdAt, id) => (visible t conversationId).filter fun message ↦
        message.createdAt < createdAt ∨ message.createdAt = createdAt ∧ message.id < id
  (found.mergeSort fun a b ↦
    b.createdAt < a.createdAt ∨ b.createdAt = a.createdAt ∧ b.id ≤ a.id).take (limit + 1)

/-- `MessageRepository.page_after`. -/
def pageAfter (t : MessageTable) (conversationId : UUID) (limit : ℕ)
    (after : Instant × UUID) : List Message :=
  let (createdAt, id) := after
  let found := (visible t conversationId).filter fun message ↦
    createdAt < message.createdAt ∨ message.createdAt = createdAt ∧ id < message.id
  (found.mergeSort fun a b ↦
    a.createdAt < b.createdAt ∨ a.createdAt = b.createdAt ∧ a.id ≤ b.id).take (limit + 1)

/-- The cursor of the next page: of the last of the `records` that are kept, if
the query found more. -/
def nextCursor (hasMore : Bool) (records : List Message) : Option Cursor :=
  if hasMore then records.getLast?.map encodeCursor else none

/-- `MessageService.list`. -/
def list (members : Members) (t : MessageTable) (conversationId currentUserId : UUID) (limit : ℕ)
    (before after : Option Cursor) : Except AppError MessagePage := do
  let _ ← getAuthorized members conversationId currentUserId
  match given before, given after with
  | some _, some _ => .error beforeAndAfter
  | none, some after =>
      let position ← decodeCursor after
      let found := pageAfter t conversationId limit position
      let hasMore := limit < found.length
      let records := found.take limit
      return ⟨records, nextCursor hasMore records⟩
  | before, none =>
      let position ← before.mapM decodeCursor
      let found := pageBefore t conversationId limit position
      let hasMore := limit < found.length
      let records := found.take limit
      return ⟨records.reverse, nextCursor hasMore records⟩

/-! ## The two orders -/

/-- The key of a message: `(created_at, id)`, compared lexicographically. -/
def stamp (message : Message) : Instant ×ₗ UUID := toLex (message.createdAt, message.id)

/-- The same key in the descending order of `page_before`. -/
def backStamp (message : Message) : (Instant ×ₗ UUID)ᵒᵈ := OrderDual.toDual (stamp message)

/-- `a` comes before `b` in the history. -/
def Older (a b : Message) : Prop := stamp a < stamp b

instance (a b : Message) : Decidable (Older a b) := inferInstanceAs (Decidable (_ < _))

theorem stamp_le {a b : Message} :
    stamp a ≤ stamp b ↔ a.createdAt < b.createdAt ∨ a.createdAt = b.createdAt ∧ a.id ≤ b.id :=
  Prod.Lex.toLex_le_toLex

theorem backStamp_le {a b : Message} : backStamp a ≤ backStamp b ↔ stamp b ≤ stamp a := Iff.rfl

/-- The cursor at a position of the history. -/
def cursorAt (k : Instant ×ₗ UUID) : Cursor := .position (ofLex k).1 (ofLex k).2

theorem mem_visible {t : MessageTable} {conversationId : UUID} {message : Message} :
    message ∈ visible t conversationId ↔
      message ∈ t.rows ∧ message.conversationId = conversationId ∧ message.deletedAt = none := by
  simp [visible]

/-- Two rows of a table with the same `id` are the same. -/
theorem MessageTable.eq_of_id (t : MessageTable) {a b : Message} (ha : a ∈ t.rows)
    (hb : b ∈ t.rows) (h : a.id = b.id) : a = b :=
  List.inj_on_of_nodup_map t.unique ha hb h

/-- The messages of a conversation have distinct keys. -/
theorem visible_nodup (t : MessageTable) (conversationId : UUID) {κ : Type*} (key : Message → κ)
    (hkey : ∀ a b, key a = key b → a.id = b.id) :
    ((visible t conversationId).map key).Nodup := by
  have hrows : (visible t conversationId).Nodup := (List.Nodup.of_map _ t.unique).filter _
  refine hrows.map_on fun a ha b hb e ↦ ?_
  exact t.eq_of_id (mem_visible.mp ha).1 (mem_visible.mp hb).1 (hkey a b e)

theorem stamp_id {a b : Message} (h : stamp a = stamp b) : a.id = b.id :=
  congrArg (fun k ↦ (ofLex k).2) h

theorem backStamp_id {a b : Message} (h : backStamp a = backStamp b) : a.id = b.id :=
  stamp_id (OrderDual.toDual_inj.mp h)

/-! ## The queries are keyset queries -/

open Keyset (Slice)

/-- The cursor at a position in the descending order. -/
def backCursorAt (k : (Instant ×ₗ UUID)ᵒᵈ) : Cursor := cursorAt (OrderDual.ofDual k)

/-- The page `list` makes of what `page_after` finds. -/
def forwardPage (s : Slice Message) : MessagePage := ⟨s.items, (s.next stamp).map cursorAt⟩

/-- The page `list` makes of what `page_before` finds. -/
def backPage (s : Slice Message) : MessagePage :=
  ⟨s.items.reverse, (s.next backStamp).map backCursorAt⟩

theorem pageAfter_eq (t : MessageTable) (conversationId : UUID) (limit : ℕ)
    (after : Instant × UUID) : pageAfter t conversationId limit after =
      (Keyset.window stamp (some (toLex after)) (visible t conversationId)).take (limit + 1) := by
  obtain ⟨createdAt, id⟩ := after
  dsimp only [pageAfter, Keyset.window]
  congr 2
  · refine List.filter_congr fun message _ ↦ ?_
    rw [decide_eq_decide, Keyset.beyond_some, stamp, Prod.Lex.toLex_lt_toLex]
    exact or_congr_right (and_congr_left' eq_comm)
  · funext a b
    rw [decide_eq_decide, stamp_le]

theorem pageBefore_eq (t : MessageTable) (conversationId : UUID) (limit : ℕ)
    (before : Option (Instant × UUID)) : pageBefore t conversationId limit before =
      (Keyset.window backStamp (before.map fun p ↦ OrderDual.toDual (toLex p))
        (visible t conversationId)).take (limit + 1) := by
  dsimp only [pageBefore, Keyset.window]
  congr 2
  · cases before with
    | none => exact (List.filter_eq_self.mpr fun r _ ↦ decide_eq_true (Keyset.beyond_none r)).symm
    | some position =>
        refine List.filter_congr fun message _ ↦ ?_
        rw [decide_eq_decide, Option.map_some, Keyset.beyond_some, backStamp,
          OrderDual.toDual_lt_toDual,
          stamp, Prod.Lex.toLex_lt_toLex]
  · funext a b
    rw [decide_eq_decide, backStamp_le, stamp_le]

theorem nextCursor_eq {κ : Type*} (key : Message → κ) (toCursor : κ → Cursor)
    (h : ∀ message, toCursor (key message) = encodeCursor message) (s : Slice Message) :
    nextCursor s.more s.items = (s.next key).map toCursor := by
  unfold nextCursor Slice.next
  split
  · rw [Option.map_map]
    exact congrArg (Option.map · _) (funext fun message ↦ (h message).symm)
  · rfl

variable {members : Members} {conversationId currentUserId : UUID} {users : List UUID}

/-- A request for the messages before a cursor, or for the latest ones. -/
theorem list_before (hauth : getAuthorized members conversationId currentUserId = .ok users)
    (t : MessageTable) (limit : ℕ) (k : Option (Instant ×ₗ UUID)ᵒᵈ) :
    list members t conversationId currentUserId limit (k.map backCursorAt) none =
      .ok (backPage (Keyset.slice backStamp limit k (visible t conversationId))) := by
  have hpage : ∀ position : Option (Instant × UUID),
      (position.map fun p ↦ OrderDual.toDual (toLex p)) = k →
        (⟨((pageBefore t conversationId limit position).take limit).reverse,
          nextCursor (limit < (pageBefore t conversationId limit position).length)
            ((pageBefore t conversationId limit position).take limit)⟩ : MessagePage) =
          backPage (Keyset.slice backStamp limit k (visible t conversationId)) := by
    rintro position rfl
    rw [pageBefore_eq, backPage, ← nextCursor_eq backStamp backCursorAt fun _ ↦ rfl]
    rfl
  unfold list
  rw [hauth]
  cases k with
  | none => exact congrArg Except.ok (hpage none rfl)
  | some k => exact congrArg Except.ok (hpage (some (ofLex (OrderDual.ofDual k))) rfl)

/-- A request for the messages after a cursor. -/
theorem list_after (hauth : getAuthorized members conversationId currentUserId = .ok users)
    (t : MessageTable) (limit : ℕ) (k : Instant ×ₗ UUID) :
    list members t conversationId currentUserId limit none (some (cursorAt k)) =
      .ok (forwardPage (Keyset.slice stamp limit (some k) (visible t conversationId))) := by
  have hpage : (⟨(pageAfter t conversationId limit (ofLex k)).take limit,
      nextCursor (limit < (pageAfter t conversationId limit (ofLex k)).length)
        ((pageAfter t conversationId limit (ofLex k)).take limit)⟩ : MessagePage) =
        forwardPage (Keyset.slice stamp limit (some k) (visible t conversationId)) := by
    rw [pageAfter_eq, forwardPage, ← nextCursor_eq stamp cursorAt fun _ ↦ rfl]
    rfl
  unfold list
  rw [hauth]
  exact congrArg Except.ok hpage

/-- A request for the last messages after a cursor. -/
theorem list_last (hauth : getAuthorized members conversationId currentUserId = .ok users)
    {t : MessageTable} {limit : ℕ} {k : Instant ×ₗ UUID} {items : List Message}
    (hitems : Keyset.window stamp (some k) (visible t conversationId) = items)
    (hlimit : items.length ≤ limit) :
    list members t conversationId currentUserId limit none (some (cursorAt k)) =
      .ok ⟨items, none⟩ := by
  have hmore : (Keyset.slice stamp limit (some k) (visible t conversationId)).more = false := by
    rw [← Bool.not_eq_true, Keyset.slice_more, hitems]
    exact not_lt.mpr hlimit
  rw [list_after hauth, forwardPage, Keyset.slice_items, hitems, List.take_of_length_le hlimit,
    Keyset.Slice.next, if_neg (by rw [hmore]; decide)]
  rfl

/-! ## What the queries look at -/

variable {t u : MessageTable} {limit : ℕ} {before after : Option Cursor} {message : Message}
  {page : MessagePage}

theorem mem_pageBefore {position : Option (Instant × UUID)}
    (h : message ∈ pageBefore t conversationId limit position) :
    message ∈ visible t conversationId := by
  rw [pageBefore_eq] at h
  exact (Keyset.mem_window.mp (List.mem_of_mem_take h)).1

theorem mem_pageAfter {position : Instant × UUID}
    (h : message ∈ pageAfter t conversationId limit position) :
    message ∈ visible t conversationId := by
  rw [pageAfter_eq] at h
  exact (Keyset.mem_window.mp (List.mem_of_mem_take h)).1

theorem pageBefore_congr (h : visible t conversationId = visible u conversationId)
    (limit : ℕ) (position : Option (Instant × UUID)) :
    pageBefore t conversationId limit position = pageBefore u conversationId limit position := by
  rw [pageBefore_eq, pageBefore_eq, h]

theorem pageAfter_congr (h : visible t conversationId = visible u conversationId)
    (limit : ℕ) (position : Instant × UUID) :
    pageAfter t conversationId limit position = pageAfter u conversationId limit position := by
  rw [pageAfter_eq, pageAfter_eq, h]

/-- `list` looks at the visible messages of the conversation. -/
theorem list_congr (h : visible t conversationId = visible u conversationId) :
    list members t conversationId currentUserId limit before after =
      list members u conversationId currentUserId limit before after := by
  simp only [list, pageBefore_congr h, pageAfter_congr h]

theorem list_error {e : AppError}
    (h : getAuthorized members conversationId currentUserId = .error e) :
    list members t conversationId currentUserId limit before after = .error e := by
  rw [list, h]
  rfl

/-- A page has messages of the conversation. -/
theorem mem_list (h : list members t conversationId currentUserId limit before after = .ok page)
    (hm : message ∈ page.items) : message ∈ visible t conversationId := by
  cases hauth : getAuthorized members conversationId currentUserId with
  | error e =>
      rw [list_error hauth] at h
      cases h
  | ok users =>
      simp only [list, hauth, bind, Except.bind] at h
      split at h
      · cases h
      · split at h
        · cases h
        · cases h
          exact mem_pageAfter (List.mem_of_mem_take hm)
      · split at h
        · cases h
        · cases h
          exact mem_pageBefore (List.mem_of_mem_take (List.mem_reverse.mp hm))

end Chatterbox.Messages
