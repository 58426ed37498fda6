import Chatterbox.Messages.Pages

/-!
# Walking through a history

A client follows `next_cursor` from page to page, backwards with `before` or
forwards with `after`, while others send messages: every request sees a table of
its own, each holding the rows of the ones before.  Both walks are walks of
`Keyset`, and what holds there is restated here in terms of pages.
-/

namespace Chatterbox.Messages

open Keyset (Slice)

/-- Request pages, each with the cursor of the one before, until one has none. -/
def walk (fetch : MessageTable → Option Cursor → Except AppError MessagePage) :
    Option Cursor → List MessageTable → List MessagePage
  | _, [] => []
  | cursor, t :: later =>
      match fetch t cursor with
      | .error _ => []
      | .ok page => page :: match page.nextCursor with
          | none => []
          | some next => walk fetch (some next) later

/-- Walk backwards: every cursor is passed as `before`. -/
def walkBefore (members : Members) (conversationId currentUserId : UUID) (limit : ℕ) :
    Option Cursor → List MessageTable → List MessagePage :=
  walk fun t before ↦ list members t conversationId currentUserId limit before none

/-- Walk forwards: every cursor is passed as `after`. -/
def walkAfter (members : Members) (conversationId currentUserId : UUID) (limit : ℕ) :
    Option Cursor → List MessageTable → List MessagePage :=
  walk fun t after ↦ list members t conversationId currentUserId limit none after

/-- The walk is complete: its last page has no `next_cursor`. -/
def Finished (pages : List MessagePage) : Prop :=
  ∃ page, pages.getLast? = some page ∧ page.nextCursor = none

/-- Messages have been inserted, and nothing else has changed. -/
def Grows (t u : MessageTable) : Prop := t.rows ⊆ u.rows

/-! ## Both walks are keyset walks -/

/-- A walk whose pages are made from keyset queries is made from a keyset walk. -/
theorem walk_eq {κ : Type*} [LinearOrder κ] (key : Message → κ) (toCursor : κ → Cursor)
    (toPage : Slice Message → MessagePage) (limit : ℕ) (conversationId : UUID)
    (fetch : MessageTable → Option Cursor → Except AppError MessagePage) (start : Option κ)
    (hcursor : ∀ s, (toPage s).nextCursor = (s.next key).map toCursor)
    (hnext : ∀ t k, fetch t (some (toCursor k)) =
      .ok (toPage (Keyset.slice key limit (some k) (visible t conversationId))))
    (hfirst : ∀ t, fetch t (start.map toCursor) =
      .ok (toPage (Keyset.slice key limit start (visible t conversationId))))
    (ts : List MessageTable) : walk fetch (start.map toCursor) ts =
      (Keyset.walk key limit start (ts.map (visible · conversationId))).map toPage := by
  induction ts generalizing start with
  | nil => rfl
  | cons t later ih =>
      rw [List.map_cons, Keyset.walk_cons, List.map_cons, walk, hfirst t]
      simp only [hcursor]
      cases (Keyset.slice key limit start (visible t conversationId)).next key with
      | none => rfl
      | some k => exact congrArg _ (ih (some k) fun u ↦ hnext u k)

variable {members : Members} {conversationId currentUserId : UUID} {users : List UUID}
variable {limit : ℕ}

theorem walkBefore_eq (hauth : getAuthorized members conversationId currentUserId = .ok users)
    (limit : ℕ) (ts : List MessageTable) :
    walkBefore members conversationId currentUserId limit none ts =
      (Keyset.walk backStamp limit none (ts.map (visible · conversationId))).map backPage :=
  walk_eq backStamp backCursorAt backPage limit conversationId
    (fun t before ↦ list members t conversationId currentUserId limit before none) none
    (fun _ ↦ rfl) (fun t k ↦ list_before hauth t limit (some k))
    (fun t ↦ list_before hauth t limit none) ts

theorem walkAfter_eq (hauth : getAuthorized members conversationId currentUserId = .ok users)
    (limit : ℕ) (k : Instant ×ₗ UUID) (ts : List MessageTable) :
    walkAfter members conversationId currentUserId limit (some (cursorAt k)) ts =
      (Keyset.walk stamp limit (some k) (ts.map (visible · conversationId))).map forwardPage :=
  walk_eq stamp cursorAt forwardPage limit conversationId
    (fun t after ↦ list members t conversationId currentUserId limit none after) (some k)
    (fun _ ↦ rfl) (fun t k ↦ list_after hauth t limit k) (fun t ↦ list_after hauth t limit k) ts

/-! ## What a walk through growing tables returns -/

/-- All the messages of some pages. -/
def messages (pages : List MessagePage) : List Message := pages.flatMap MessagePage.items

/-- What the pages of a walk backwards from the end of the history are. -/
structure BackwardExact (conversationId : UUID) (t : MessageTable) (later : List MessageTable)
    (pages : List MessagePage) : Prop where
  ascending : ∀ page ∈ pages, page.items.Pairwise Older
  /-- Every page lies before all earlier ones. -/
  descend : pages.Pairwise fun p q ↦ ∀ m ∈ p.items, ∀ n ∈ q.items, Older n m
  /-- A page has no `next_cursor` exactly when its table has no message older
  than all that have been returned. -/
  last : ∀ i page u, pages[i]? = some page → (t :: later)[i]? = some u →
    (page.nextCursor = none ↔
      ¬ ∃ m ∈ visible u conversationId, ∀ n ∈ messages (pages.take (i + 1)), Older m n)
  once : ((messages pages).map Message.id).Nodup
  complete : Finished pages → ∀ m ∈ visible t conversationId, m ∈ messages pages

/-- What the pages of a walk forwards from a position are. -/
structure ForwardExact (conversationId : UUID) (k : Instant ×ₗ UUID) (t : MessageTable)
    (pages : List MessagePage) : Prop where
  ascending : (messages pages).Pairwise Older
  beyond : ∀ m ∈ messages pages, k < stamp m
  once : ((messages pages).map Message.id).Nodup
  complete : Finished pages → ∀ m ∈ visible t conversationId, k < stamp m → m ∈ messages pages

/-- In growing tables, two rows with the same `id` are the same. -/
theorem eq_of_id {ts : List MessageTable} (hgrow : ts.Pairwise Grows) {t u : MessageTable}
    (ht : t ∈ ts) (hu : u ∈ ts) {a b : Message} (ha : a ∈ t.rows) (hb : b ∈ u.rows)
    (h : a.id = b.id) : a = b := by
  have hcomparable : ∀ ⦃t⦄, t ∈ ts → ∀ ⦃u⦄, u ∈ ts → Grows t u ∨ Grows u t :=
    List.Pairwise.forall_of_forall_of_flip (fun t _ ↦ Or.inl (List.Subset.refl t.rows))
      (hgrow.imp Or.inl) (hgrow.imp Or.inr)
  rcases hcomparable ht hu with htu | hut
  · exact u.eq_of_id (htu ha) hb h
  · exact t.eq_of_id ha (hut hb) h

section Keyed

variable {κ : Type*} [LinearOrder κ] {key : Message → κ} {ts : List MessageTable}
variable {start : Option κ}

omit [LinearOrder κ] in
theorem visible_distinct (hkey : ∀ a b, key a = key b → a.id = b.id) (conversationId : UUID)
    (ts : List MessageTable) :
    ∀ rows ∈ ts.map (visible · conversationId), (rows.map key).Nodup := by
  intro rows hrows
  obtain ⟨t, -, rfl⟩ := List.mem_map.mp hrows
  exact visible_nodup t conversationId key hkey

theorem visible_grows (hgrow : ts.Pairwise Grows) :
    (ts.map (visible · conversationId)).Pairwise (· ⊆ ·) := by
  refine List.pairwise_map.mpr (hgrow.imp fun {t u} htu m hm ↦ ?_)
  obtain ⟨hmem, hvisible⟩ := mem_visible.mp hm
  exact mem_visible.mpr ⟨htu hmem, hvisible⟩

/-- No message comes twice, even in two versions. -/
theorem walk_ids_nodup (hlimit : 1 ≤ limit) (hkey : ∀ a b, key a = key b → a.id = b.id)
    (hgrow : ts.Pairwise Grows) :
    (((Keyset.walk key limit start (ts.map (visible · conversationId))).flatMap Slice.items).map
      Message.id).Nodup := by
  have hd := visible_distinct hkey conversationId ts
  have hne : ∀ {a b : Message}, key a < key b → a ≠ b := fun h e ↦ h.ne (congrArg key e)
  refine List.Nodup.map_on (fun a ha b hb e ↦ ?_) ((Keyset.walk_strict hlimit hd).imp hne)
  obtain ⟨⟨rows, hrows, har⟩, -⟩ := Keyset.walk_beyond hlimit hd ha
  obtain ⟨⟨rows', hrows', hbr⟩, -⟩ := Keyset.walk_beyond hlimit hd hb
  obtain ⟨t, ht, rfl⟩ := List.mem_map.mp hrows
  obtain ⟨u, hu, rfl⟩ := List.mem_map.mp hrows'
  exact eq_of_id hgrow ht hu (mem_visible.mp har).1 (mem_visible.mp hbr).1 e

/-- A walk of pages is complete exactly when the keyset walk it is made from is finished. -/
theorem finished_map_iff {toCursor : κ → Cursor} {toPage : Slice Message → MessagePage}
    (hcursor : ∀ s, (toPage s).nextCursor = (s.next key).map toCursor) (hlimit : 1 ≤ limit)
    (hkey : ∀ a b, key a = key b → a.id = b.id) (conversationId : UUID)
    (ts : List MessageTable) (start : Option κ) :
    Finished ((Keyset.walk key limit start (ts.map (visible · conversationId))).map toPage) ↔
      Keyset.Finished (Keyset.walk key limit start (ts.map (visible · conversationId))) := by
  have hlast : ∀ s ∈ Keyset.walk key limit start (ts.map (visible · conversationId)),
      (toPage s).nextCursor = none ↔ s.more = false := fun s hs ↦ by
    rw [hcursor, Option.map_eq_none_iff,
      Keyset.walk_next_eq_none hlimit (visible_distinct hkey conversationId ts) hs]
  simp only [Finished, Keyset.Finished, List.getLast?_map, Option.map_eq_some_iff]
  constructor
  · rintro ⟨page, ⟨s, hs, rfl⟩, hnone⟩
    exact ⟨s, hs, (hlast s (List.mem_of_getLast? hs)).mp hnone⟩
  · rintro ⟨s, hs, hmore⟩
    exact ⟨toPage s, ⟨s, hs, rfl⟩, (hlast s (List.mem_of_getLast? hs)).mpr hmore⟩

/-- A walk is complete some requests after the last insertion. -/
theorem walk_finishes {toCursor : κ → Cursor} {toPage : Slice Message → MessagePage}
    (hcursor : ∀ s, (toPage s).nextCursor = (s.next key).map toCursor) (hlimit : 1 ≤ limit)
    (hkey : ∀ a b, key a = key b → a.id = b.id) (conversationId : UUID)
    (ts : List MessageTable) (u : MessageTable) (start : Option κ) :
    Finished ((Keyset.walk key limit start
      ((ts ++ List.replicate (u.rows.length + 1) u).map (visible · conversationId))).map toPage) := by
  rw [finished_map_iff hcursor hlimit hkey, List.map_append, List.map_replicate]
  have hlength : (visible u conversationId).length < u.rows.length + 1 :=
    Nat.lt_succ_of_le (List.length_filter_le ..)
  refine Keyset.walk_finishes hlimit (fun rows hrows ↦ ?_) hlength
  exact visible_distinct hkey conversationId (u :: ts) rows hrows

end Keyed

theorem messages_forwardPage (ss : List (Slice Message)) :
    messages (ss.map forwardPage) = ss.flatMap Slice.items := by
  rw [messages, List.flatMap_map]
  rfl

theorem messages_backPage (ss : List (Slice Message)) :
    (messages (ss.map backPage)).Perm (ss.flatMap Slice.items) := by
  induction ss with
  | nil => exact .nil
  | cons s ss ih => exact (List.reverse_perm s.items).append ih

theorem mem_messages_backPage {ss : List (Slice Message)} {m : Message} :
    m ∈ messages (ss.map backPage) ↔ m ∈ ss.flatMap Slice.items :=
  (messages_backPage ss).mem_iff

/-- A backward walk through growing tables. -/
theorem walkBefore_exact (hauth : getAuthorized members conversationId currentUserId = .ok users)
    (hlimit : 1 ≤ limit) {t : MessageTable} {later : List MessageTable}
    (hgrow : (t :: later).Pairwise Grows) : BackwardExact conversationId t later
      (walkBefore members conversationId currentUserId limit none (t :: later)) := by
  have hd := visible_distinct (fun _ _ ↦ backStamp_id) conversationId (t :: later)
  have hstrict : ((Keyset.walk backStamp limit none
      ((t :: later).map (visible · conversationId))).flatMap Slice.items).Pairwise
        fun a b ↦ backStamp a < backStamp b := Keyset.walk_strict hlimit hd
  rw [List.pairwise_flatMap] at hstrict
  rw [walkBefore_eq hauth]
  refine ⟨?_, ?_, ?_, ?_, ?_⟩
  · intro page hpage
    obtain ⟨s, hs, rfl⟩ := List.mem_map.mp hpage
    exact List.pairwise_reverse.mpr (hstrict.1 s hs)
  · refine List.pairwise_map.mpr (hstrict.2.imp fun {s s'} h m hm n hn ↦ ?_)
    exact h m (List.mem_reverse.mp hm) n (List.mem_reverse.mp hn)
  · intro i page u hpage hu
    rw [List.getElem?_map, Option.map_eq_some_iff] at hpage
    obtain ⟨s, hs, rfl⟩ := hpage
    have hrows : ((t :: later).map (visible · conversationId))[i]? =
        some (visible u conversationId) := by rw [List.getElem?_map, hu]; rfl
    rw [backPage, Option.map_eq_none_iff,
      Keyset.walk_next_eq_none hlimit hd (List.mem_of_getElem? hs), ← Bool.not_eq_true,
      Keyset.walk_more hlimit hd hs hrows, ← List.map_take]
    refine not_congr (exists_congr fun m ↦ and_congr_right fun _ ↦ ?_)
    simp only [mem_messages_backPage, Keyset.beyond_none, true_and]
    exact Iff.rfl
  · rw [((messages_backPage _).map Message.id).nodup_iff]
    exact walk_ids_nodup hlimit (fun _ _ ↦ backStamp_id) hgrow
  · intro hfin m hm
    have hfin' := (finished_map_iff (fun _ ↦ rfl) hlimit (fun _ _ ↦ backStamp_id) conversationId
      (t :: later) none).mp hfin
    rw [mem_messages_backPage]
    exact Keyset.walk_complete hlimit hd (visible_grows hgrow) hfin' hm (Keyset.beyond_none m)

/-- A forward walk through growing tables. -/
theorem walkAfter_exact (hauth : getAuthorized members conversationId currentUserId = .ok users)
    (hlimit : 1 ≤ limit) (k : Instant ×ₗ UUID) {t : MessageTable} {later : List MessageTable}
    (hgrow : (t :: later).Pairwise Grows) : ForwardExact conversationId k t
      (walkAfter members conversationId currentUserId limit (some (cursorAt k)) (t :: later)) := by
  have hd := visible_distinct (fun _ _ ↦ stamp_id) conversationId (t :: later)
  rw [walkAfter_eq hauth]
  refine ⟨?_, fun m hm ↦ ?_, ?_, fun hfin m hm hbeyond ↦ ?_⟩
  · rw [messages_forwardPage]
    exact Keyset.walk_strict hlimit hd
  · rw [messages_forwardPage] at hm
    exact Keyset.beyond_some.mp (Keyset.walk_beyond hlimit hd hm).2
  · rw [messages_forwardPage]
    exact walk_ids_nodup hlimit (fun _ _ ↦ stamp_id) hgrow
  · have hfin' := (finished_map_iff (fun _ ↦ rfl) hlimit (fun _ _ ↦ stamp_id) conversationId
      (t :: later) (some k)).mp hfin
    rw [messages_forwardPage]
    exact Keyset.walk_complete hlimit hd (visible_grows hgrow) hfin' hm
      (Keyset.beyond_some.mpr hbeyond)

/-- A backward walk is complete some requests after the last insertion. -/
theorem walkBefore_finishes
    (hauth : getAuthorized members conversationId currentUserId = .ok users) (hlimit : 1 ≤ limit)
    (ts : List MessageTable) (u : MessageTable) :
    Finished (walkBefore members conversationId currentUserId limit none
      (ts ++ List.replicate (u.rows.length + 1) u)) := by
  rw [walkBefore_eq hauth]
  exact walk_finishes (fun _ ↦ rfl) hlimit (fun _ _ ↦ backStamp_id) conversationId ts u none

/-- A forward walk is complete some requests after the last insertion. -/
theorem walkAfter_finishes
    (hauth : getAuthorized members conversationId currentUserId = .ok users) (hlimit : 1 ≤ limit)
    (k : Instant ×ₗ UUID) (ts : List MessageTable) (u : MessageTable) :
    Finished (walkAfter members conversationId currentUserId limit (some (cursorAt k))
      (ts ++ List.replicate (u.rows.length + 1) u)) := by
  rw [walkAfter_eq hauth]
  exact walk_finishes (fun _ ↦ rfl) hlimit (fun _ _ ↦ stamp_id) conversationId ts u (some k)

/-- **Pagination is exact**, whatever is inserted between the requests: a walk
backwards from the end and a walk forwards from any position return each message
that was there at the first request once, in order, and both come to an end when
the insertions do. -/
theorem pagination_exact {members : Members} {conversationId currentUserId : UUID}
    {users : List UUID} {limit : ℕ}
    (hauth : getAuthorized members conversationId currentUserId = .ok users) (hlimit : 1 ≤ limit)
    {t : MessageTable} {later : List MessageTable} (hgrow : (t :: later).Pairwise Grows) :
    BackwardExact conversationId t later
        (walkBefore members conversationId currentUserId limit none (t :: later)) ∧
      (∀ createdAt id, ForwardExact conversationId (toLex (createdAt, id)) t
        (walkAfter members conversationId currentUserId limit (some (.position createdAt id))
          (t :: later))) ∧
      ∀ ts u, Finished (walkBefore members conversationId currentUserId limit none
          (ts ++ List.replicate (u.rows.length + 1) u)) ∧
        ∀ createdAt id, Finished (walkAfter members conversationId currentUserId limit
          (some (.position createdAt id)) (ts ++ List.replicate (u.rows.length + 1) u)) :=
  ⟨walkBefore_exact hauth hlimit hgrow,
    fun createdAt id ↦ walkAfter_exact hauth hlimit (toLex (createdAt, id)) hgrow,
    fun ts u ↦ ⟨walkBefore_finishes hauth hlimit ts u,
      fun createdAt id ↦ walkAfter_finishes hauth hlimit (toLex (createdAt, id)) ts u⟩⟩

/-- Three messages, two of them of the same instant. -/
def history : MessageTable where
  rows := [⟨10, 1, 2, "a", 5, none⟩, ⟨11, 1, 3, "b", 5, none⟩, ⟨12, 1, 2, "c", 4, none⟩]
  unique := by decide

theorem pagination_exact_history :
    BackwardExact 1 history (List.replicate 3 history)
      (walkBefore (fun _ ↦ some [2, 3]) 1 2 2 none (List.replicate 4 history)) := by
  have hgrow : (List.replicate 4 history).Pairwise Grows :=
    List.pairwise_replicate.mpr (Or.inr (List.Subset.refl _))
  exact (@pagination_exact (fun _ ↦ some [2, 3]) 1 2 [2, 3] 2 rfl (by decide) history _ hgrow).1

end Chatterbox.Messages
