import Chatterbox.Calendar
import Chatterbox.Client.Recovery

/-!
# The order of the messages on the page

The server orders messages by `created_at` and, at one instant, by `id`, both as values.
The client has texts: `ChatPage` merges the cached pages with `realtimeMessages` and
sorts what it has by the texts of the two columns, and `newestMessage` does the same.

| text | of |
|---|---|
| `2024-01-01T00:00:00Z` | an instant without microseconds |
| `2024-01-01T00:00:00.500000Z` | one with microseconds |

Up to the seconds the texts compare as the instants do.  Behind them comes a fraction,
which six digits also compare well, or nothing: and the full stop of a fraction comes
before the `Z` of none.  So of two messages of one second of which one has no
microseconds, the one that came first is shown last; and there is no other way for the
two orders to differ (`server_order_iff`).

Here a tick is a microsecond, and the first instant is the beginning of the year 1.
-/

namespace Chatterbox.Client.Order

open Conversations (str str_eq groups_append)
open Messages (Message MessageTable Older stamp)
open Recovery (newestMessage)

/-! ## Texts -/

/-- The text of the fraction of a second, with the zone. -/
def fraction (microsecond : ℕ) : List Char :=
  if microsecond = 0 then ['Z'] else '.' :: (digits 10 6 microsecond ++ ['Z'])

/-- What Pydantic writes for a `datetime` in UTC. -/
def isoformat (f : Fields) : List Char :=
  digits 10 4 f.year ++ '-' :: (digits 10 2 f.month ++ '-' :: (digits 10 2 f.day ++
    'T' :: (digits 10 2 f.hour ++ ':' :: (digits 10 2 f.minute ++
      ':' :: (digits 10 2 f.second ++ fraction f.microsecond)))))

/-- The texts of the server, compared by a collation. -/
def pydantic (c : Collation) : Recovery.Locale where
  iso createdAt := String.ofList (isoformat (Fields.ofMicros createdAt.toNat))
  uuid id := String.ofList (str id)
  localeCompare left right := c.collate left.toList right.toList

/-! ## The page -/

/-- `Map.prototype.set`, on the values of a map with the key `id`. -/
def setItem (values : List Message) (item : Message) : List Message :=
  if ∃ value ∈ values, value.id = item.id then
    values.map fun value ↦ if value.id = item.id then item else value
  else values ++ [item]

/-- The values of the map that a list of items makes. -/
def uniqueItems (items : List Message) : List Message := items.foldl setItem []

/-- `messages` of `ChatPage`: the cached pages, the newest first, and `realtimeMessages`. -/
def chatMessages (l : Recovery.Locale) (pages : List (List Message)) (realtime : List Message) :
    List Message :=
  (uniqueItems (pages.reverse.flatten ++ realtime)).mergeSort
    fun left right ↦ l.compare left right ≠ .gt

/-- All that is loaded, as `recoverLoadedConversations` lists it. -/
def loaded (pages : List (List Message)) (realtime : List Message) : List Message :=
  pages.flatten ++ realtime

/-- The client has the order of the server. -/
structure ServerOrder (l : Recovery.Locale) (pages : List (List Message)) (realtime : List Message) :
    Prop where
  unique : ((chatMessages l pages realtime).map Message.id).Nodup
  complete : ∀ message, message ∈ chatMessages l pages realtime ↔ message ∈ loaded pages realtime
  sorted : (chatMessages l pages realtime).Pairwise Older
  newest : ∀ message ∈ loaded pages realtime, ∃ last ∈ loaded pages realtime,
    newestMessage l (loaded pages realtime) = some last ∧ stamp message ≤ stamp last

/-- Two messages of one second, of which the first one has no microseconds. -/
def Mixed (x y : Message) : Prop :=
  x.createdAt / 1000000 = y.createdAt / 1000000 ∧ x.createdAt % 1000000 = 0 ∧
    y.createdAt % 1000000 ≠ 0

instance (x y : Message) : Decidable (Mixed x y) := inferInstanceAs (Decidable (_ ∧ _))

/-! ## Comparing the texts -/

variable (c : Collation) {a b : DateTime}

/-- A number that two texts have in the same place. -/
theorem collate_field {base width m n : ℕ} (hpos : 0 < base) (hbase : base ≤ 16)
    (hm : m < base ^ width) (hn : n < base ^ width) (s t : List Char) :
    c.collate (digits base width m ++ s) (digits base width n ++ t) =
      (compare m n).then (c.collate s t) := by
  rw [c.collate_append ((length_digits ..).trans (length_digits ..).symm),
    c.collate_digits hpos hbase hm hn]

theorem collate_decimal {width m n : ℕ} (hm : m < 10 ^ width) (hn : n < 10 ^ width)
    (s t : List Char) : c.collate (digits 10 width m ++ s) (digits 10 width n ++ t) =
      (compare m n).then (c.collate s t) :=
  collate_field c (by decide) (by decide) hm hn s t

/-- The months, days, hours and so on have two digits. -/
theorem lt_of_valid (d : DateTime) : d.year < 10 ^ 4 ∧ d.month < 10 ^ 2 ∧ d.day < 10 ^ 2 ∧
    d.hour < 10 ^ 2 ∧ d.minute < 10 ^ 2 ∧ d.second < 10 ^ 2 := by
  have hday : ∀ leap month, daysInMonth leap month ≤ 31 := by
    intro leap month
    unfold daysInMonth
    split <;> (try split) <;> decide
  obtain ⟨⟨-, hyear⟩, ⟨-, hmonth⟩, ⟨-, hle⟩, hhour, hminute, hsecond, -⟩ := d.valid
  have hle' := hle.trans (hday _ _)
  omega

/-- Up to the seconds the texts compare as the instants. -/
theorem collate_isoformat : c.collate (isoformat a.toFields) (isoformat b.toFields) =
    (compare a.seconds b.seconds).then
      (c.collate (fraction a.microsecond) (fraction b.microsecond)) := by
  obtain ⟨hy, hmo, hd, hh, hmi, hs⟩ := lt_of_valid a
  obtain ⟨hy', hmo', hd', hh', hmi', hs'⟩ := lt_of_valid b
  rw [isoformat, isoformat, collate_decimal c hy hy', c.collate_cons, collate_decimal c hmo hmo',
    c.collate_cons, collate_decimal c hd hd', c.collate_cons, collate_decimal c hh hh',
    c.collate_cons, collate_decimal c hmi hmi', c.collate_cons, collate_decimal c hs hs',
    DateTime.compare_seconds]
  simp only [Ordering.then_assoc]

/-- Fractions compare as they should unless one of them is missing. -/
theorem collate_fraction {m n : ℕ} (hm : m < 1000000) (hn : n < 1000000) (h : m = 0 ↔ n = 0) :
    c.collate (fraction m) (fraction n) = compare m n := by
  unfold fraction
  by_cases hzero : m = 0
  · rw [if_pos hzero, if_pos (h.mp hzero), c.collate_self, hzero, h.mp hzero]
    rfl
  · rw [if_neg hzero, if_neg (fun hn ↦ hzero (h.mpr hn)), c.collate_cons, collate_decimal c hm hn,
      c.collate_self, Ordering.then_eq]

/-- A missing fraction comes after the others. -/
theorem collate_fraction_zero {n : ℕ} (hn : n ≠ 0) :
    c.collate (fraction 0) (fraction n) = .gt := by
  rw [fraction, fraction, if_pos rfl, if_neg hn]
  exact c.collate_of_gt c.stop_lt_letter _ _

/-- The texts of identifiers compare as the identifiers. -/
theorem collate_str (u v : UUID) : c.collate (str u) (str v) = compare u v := by
  have hlength : ∀ i, ((digits 16 32 u.val).drop i).length =
      ((digits 16 32 v.val).drop i).length := by
    intro i
    rw [List.length_drop, List.length_drop, length_digits, length_digits]
  have htake : ∀ i j, (((digits 16 32 u.val).drop i).take j).length =
      (((digits 16 32 v.val).drop i).take j).length := by
    intro i j
    rw [List.length_take, List.length_take, hlength]
  calc c.collate (str u) (str v)
      = c.collate (digits 16 32 u.val) (digits 16 32 v.val) := by
        have hfirst := htake 0 8
        rw [List.drop_zero, List.drop_zero] at hfirst
        conv_rhs => rw [← groups_append (digits 16 32 u.val), ← groups_append (digits 16 32 v.val)]
        rw [str_eq, str_eq]
        simp only [c.collate_append hfirst, c.collate_append (htake _ _), c.collate_cons]
    _ = compare u.val v.val := by
        have hpow : 2 ^ 128 = 16 ^ 32 := by decide
        exact c.collate_digits (by decide) (by decide) (u.isLt.trans_eq hpow) (v.isLt.trans_eq hpow)
    _ = compare u v := rfl

/-! ## Comparing messages -/

variable {x y : Message}

/-- The text of the instant of a message. -/
def textOf (message : Message) : List Char :=
  isoformat (Fields.ofMicros message.createdAt.toNat)

/-- The client compares the texts of the instants, then the identifiers. -/
theorem compare_pydantic : (pydantic c).compare x y =
    (c.collate (textOf x) (textOf y)).then (compare x.id y.id) := by
  have hlocale : ∀ a b, (pydantic c).localeCompare (String.ofList a) (String.ofList b) =
      c.collate a b := by
    intro a b
    change c.collate (String.ofList a).toList (String.ofList b).toList = _
    rw [String.toList_ofList, String.toList_ofList]
  have hiso : ∀ message : Message, (pydantic c).iso message.createdAt =
      String.ofList (textOf message) := fun _ ↦ rfl
  have huuid : ∀ id, (pydantic c).uuid id = String.ofList (str id) := fun _ ↦ rfl
  rw [Recovery.Locale.compare, hiso, hiso, huuid, huuid, hlocale, hlocale, collate_str]
  by_cases h : textOf x = textOf y
  · rw [if_pos (congrArg String.ofList h), h, c.collate_self]
    rfl
  · rw [if_neg fun he ↦ h (String.ofList_inj.mp he)]
    have hne : c.collate (textOf x) (textOf y) ≠ .eq := fun he ↦ h (c.collate_eq_eq.mp he)
    cases hcollate : c.collate (textOf x) (textOf y) with
    | eq => exact absurd hcollate hne
    | lt | gt => rfl

/-- That is an order. -/
theorem transCmp_pydantic : Std.TransCmp (pydantic c).compare := by
  have htext : Std.TransCmp fun x y : Message ↦ c.collate (textOf x) (textOf y) :=
    { eq_swap := Std.OrientedCmp.eq_swap, isLE_trans := Std.TransCmp.isLE_trans }
  have heq : (pydantic c).compare =
      compareLex (fun x y : Message ↦ c.collate (textOf x) (textOf y)) (compareOn Message.id) := by
    funext x y
    exact compare_pydantic c
  rw [heq]
  infer_instance

/-- What `mergeSort` makes with it is sorted. -/
theorem pairwise_mergeSort (messages : List Message) :
    (messages.mergeSort fun left right ↦ (pydantic c).compare left right ≠ .gt).Pairwise
      fun left right ↦ (pydantic c).compare left right ≠ .gt := by
  have htrans := transCmp_pydantic c
  refine (List.pairwise_mergeSort (fun x y z hxy hyz ↦ ?_) (fun x y ↦ ?_) _).imp of_decide_eq_true
  · have hxy' := Ordering.isLE_iff_ne_gt.mpr (of_decide_eq_true hxy)
    have hyz' := Ordering.isLE_iff_ne_gt.mpr (of_decide_eq_true hyz)
    exact decide_eq_true (Ordering.isLE_iff_ne_gt.mp (Std.TransCmp.isLE_trans hxy' hyz'))
  · rw [Bool.or_eq_true, decide_eq_true_iff, decide_eq_true_iff]
    have hswap : (pydantic c).compare x y = ((pydantic c).compare y x).swap :=
      Std.OrientedCmp.eq_swap
    by_contra hboth
    obtain ⟨hx, hy⟩ := not_or.mp hboth
    rw [not_not] at hx hy
    rw [hx, hy] at hswap
    cases hswap

theorem textOf_eq (hx : x.createdAt = a.micros) : textOf x = isoformat a.toFields := by
  rw [textOf, hx, Int.toNat_natCast, DateTime.ofMicros_micros]

theorem compare_of_dateTime (hx : x.createdAt = a.micros) (hy : y.createdAt = b.micros) :
    (pydantic c).compare x y = ((compare a.seconds b.seconds).then
      (c.collate (fraction a.microsecond) (fraction b.microsecond))).then (compare x.id y.id) := by
  rw [compare_pydantic, textOf_eq hx, textOf_eq hy, collate_isoformat]

/-- The second of a number of microseconds, and what is left of it. -/
theorem div_mod_micros (d : DateTime) : (d.micros : Instant) / 1000000 = d.seconds ∧
    (d.micros : Instant) % 1000000 = d.microsecond := by
  have hlt := d.valid.microsecond
  have hsum : (d.micros : ℤ) = d.seconds * 1000000 + d.microsecond := by
    rw [Fields.micros]
    exact Int.natCast_add ..
  constructor
  · show (d.micros : ℤ) / 1000000 = d.seconds
    omega
  · show (d.micros : ℤ) % 1000000 = d.microsecond
    omega

theorem mixed_iff (hx : x.createdAt = a.micros) (hy : y.createdAt = b.micros) :
    Mixed x y ↔ a.seconds = b.seconds ∧ a.microsecond = 0 ∧ b.microsecond ≠ 0 := by
  rw [Mixed, hx, hy, (div_mod_micros a).1, (div_mod_micros a).2, (div_mod_micros b).1,
    (div_mod_micros b).2]
  exact and_congr Int.ofNat_inj
    (and_congr Int.natCast_eq_zero (not_congr Int.natCast_eq_zero))

/-- The one without microseconds is the older one. -/
theorem Mixed.lt (h : Mixed x y) : x.createdAt < y.createdAt := by
  have hlt : ∀ m n : ℤ, m / 1000000 = n / 1000000 → m % 1000000 = 0 → n % 1000000 ≠ 0 → m < n := by
    omega
  exact hlt _ _ h.1 h.2.1 h.2.2

/-- **Mixed messages** are in the wrong order. -/
theorem compare_of_mixed (hx : x.createdAt = a.micros) (hy : y.createdAt = b.micros)
    (h : Mixed x y) : (pydantic c).compare x y = .gt := by
  obtain ⟨hseconds, hzero, hne⟩ := (mixed_iff hx hy).mp h
  rw [compare_of_dateTime c hx hy, hseconds, hzero, collate_fraction_zero c hne,
    compare_eq_iff_eq.mpr rfl]
  rfl

/-- All others are in the order of the server. -/
theorem compare_ne_gt_iff (hx : x.createdAt = a.micros) (hy : y.createdAt = b.micros)
    (hxy : ¬ Mixed x y) (hyx : ¬ Mixed y x) :
    (pydantic c).compare x y ≠ .gt ↔ stamp x ≤ stamp y := by
  have hcompare : (pydantic c).compare x y =
      (compare a.micros b.micros).then (compare x.id y.id) := by
    rw [compare_of_dateTime c hx hy, DateTime.compare_micros]
    by_cases hseconds : a.seconds = b.seconds
    · rw [collate_fraction c a.valid.microsecond b.valid.microsecond]
      rw [mixed_iff hx hy] at hxy
      rw [mixed_iff hy hx] at hyx
      omega
    · cases hlt : compare a.seconds b.seconds with
      | eq => exact absurd (compare_eq_iff_eq.mp hlt) hseconds
      | lt | gt => rfl
  rw [hcompare, Messages.stamp_le, hx, hy, Int.ofNat_lt, Int.ofNat_inj]
  rcases lt_trichotomy a.micros b.micros with hlt | heq | hgt
  · rw [compare_lt_iff_lt.mpr hlt]
    exact iff_of_true (show Ordering.lt ≠ .gt by decide) (.inl hlt)
  · rw [compare_eq_iff_eq.mpr heq]
    exact (compare_le_iff_le).trans ⟨fun hle ↦ .inr ⟨heq, hle⟩, fun h ↦
      (h.resolve_left heq.not_lt).2⟩
  · rw [compare_gt_iff_gt.mpr hgt]
    refine iff_of_false (show ¬ Ordering.gt ≠ .gt by decide) fun h ↦ ?_
    exact h.elim hgt.not_gt fun he ↦ hgt.ne he.1.symm

/-! ## The merged list -/

variable {items values : List Message}

theorem map_id_setItem (values : List Message) (item : Message) :
    (setItem values item).map Message.id =
      if item.id ∈ values.map Message.id then values.map Message.id
      else values.map Message.id ++ [item.id] := by
  unfold setItem
  by_cases h : ∃ value ∈ values, value.id = item.id
  · rw [if_pos h, if_pos (List.mem_map.mpr h), List.map_map]
    refine List.map_congr_left fun value _ ↦ ?_
    dsimp only [Function.comp_apply]
    split
    · exact (‹value.id = item.id›).symm
    · rfl
  · rw [if_neg h, if_neg fun hmem ↦ h (List.mem_map.mp hmem), List.map_append]
    rfl

theorem uniqueItems_append (items : List Message) (item : Message) :
    uniqueItems (items ++ [item]) = setItem (uniqueItems items) item := by
  rw [uniqueItems, List.foldl_append]
  rfl

/-- The keys of a map are different. -/
theorem uniqueItems_nodup (items : List Message) : ((uniqueItems items).map Message.id).Nodup := by
  induction items using List.reverseRecOn with
  | nil => exact List.nodup_nil
  | append_singleton items item ih =>
      rw [uniqueItems_append, map_id_setItem]
      split
      · exact ih
      · exact List.nodup_append.mpr ⟨ih, List.nodup_singleton _, fun id hid id' hid' he ↦
          ‹item.id ∉ _› (List.mem_singleton.mp hid' ▸ he ▸ hid)⟩

/-- They are those of the items. -/
theorem mem_map_id_uniqueItems {id : UUID} :
    id ∈ (uniqueItems items).map Message.id ↔ id ∈ items.map Message.id := by
  induction items using List.reverseRecOn with
  | nil => rfl
  | append_singleton items item ih =>
      rw [uniqueItems_append, map_id_setItem, List.map_append, List.mem_append, ← ih,
        List.map_singleton, List.mem_singleton]
      split
      · exact ⟨.inl, fun h ↦ h.elim (fun h ↦ h) fun he ↦ he ▸ ‹item.id ∈ _›⟩
      · rw [List.mem_append, List.mem_singleton]

/-- And so are the values. -/
theorem mem_of_mem_uniqueItems (h : x ∈ uniqueItems items) : x ∈ items := by
  induction items using List.reverseRecOn with
  | nil => exact h
  | append_singleton items item ih =>
      rw [uniqueItems_append] at h
      rw [List.mem_append, List.mem_singleton]
      unfold setItem at h
      split at h
      · obtain ⟨value, hvalue, hx⟩ := List.mem_map.mp h
        split at hx
        · exact .inr hx.symm
        · exact .inl (ih (hx ▸ hvalue))
      · exact (List.mem_append.mp h).imp ih List.mem_singleton.mp

/-! ## The two orders -/

variable {table : MessageTable} {pages : List (List Message)} {realtime : List Message}

/-- What is loaded are messages of the server, each at the instant of a date and time. -/
def Genuine (table : MessageTable) (pages : List (List Message)) (realtime : List Message) : Prop :=
  ∀ message ∈ loaded pages realtime, message ∈ table.rows ∧
    ∃ d : DateTime, message.createdAt = d.micros

/-- The page shows every message once. -/
theorem chatMessages_nodup (l : Recovery.Locale) :
    ((chatMessages l pages realtime).map Message.id).Nodup :=
  ((List.mergeSort_perm _ _).map _).nodup_iff.mpr (uniqueItems_nodup _)

/-- And none is lost. -/
theorem mem_chatMessages (h : Genuine table pages realtime) (l : Recovery.Locale) :
    x ∈ chatMessages l pages realtime ↔ x ∈ loaded pages realtime := by
  have hloaded : ∀ m, m ∈ pages.reverse.flatten ++ realtime ↔ m ∈ loaded pages realtime := by
    intro m
    simp only [loaded, List.mem_append, List.mem_flatten, List.mem_reverse]
  rw [chatMessages, List.mem_mergeSort, ← hloaded]
  refine ⟨mem_of_mem_uniqueItems, fun hx ↦ ?_⟩
  obtain ⟨y, hy, hid⟩ := List.mem_map.mp
    (mem_map_id_uniqueItems.mpr (List.mem_map_of_mem (f := Message.id) hx))
  have hx' := (h x ((hloaded x).mp hx)).1
  have hy' := (h y ((hloaded y).mp (mem_of_mem_uniqueItems hy))).1
  exact table.eq_of_id hy' hx' hid ▸ hy

/-- A comparison that says what the server's order says sorts the page. -/
theorem sorted_of_compare (h : Genuine table pages realtime)
    (hcompare : ∀ x ∈ loaded pages realtime, ∀ y ∈ loaded pages realtime,
      ((pydantic c).compare x y ≠ .gt ↔ stamp x ≤ stamp y)) :
    (chatMessages (pydantic c) pages realtime).Pairwise Older := by
  have hids : (chatMessages (pydantic c) pages realtime).Pairwise fun x y ↦ x.id ≠ y.id :=
    List.pairwise_map.mp (chatMessages_nodup _)
  refine ((pairwise_mergeSort c _).and hids).imp_of_mem fun {x y} hx hy hxy ↦ ?_
  have hx' := (mem_chatMessages h (pydantic c)).mp hx
  have hy' := (mem_chatMessages h (pydantic c)).mp hy
  exact lt_of_le_of_ne ((hcompare x hx' y hy').mp hxy.1) fun he ↦ hxy.2 (Messages.stamp_id he)

/-- And finds the newest message. -/
theorem newest_of_compare (hcompare : ∀ x ∈ loaded pages realtime, ∀ y ∈ loaded pages realtime,
      ((pydantic c).compare x y ≠ .gt ↔ stamp x ≤ stamp y)) (hx : x ∈ loaded pages realtime) :
    ∃ last ∈ loaded pages realtime,
      newestMessage (pydantic c) (loaded pages realtime) = some last ∧ stamp x ≤ stamp last := by
  obtain ⟨last, hlast⟩ := Option.ne_none_iff_exists'.mp
    (Recovery.newestMessage_ne_none (l := pydantic c) (List.ne_nil_of_mem hx))
  have hmem := Recovery.mem_newestMessage hlast
  refine ⟨last, hmem, hlast, ?_⟩
  obtain ⟨init, hinit⟩ := List.getLast?_eq_some_iff.mp hlast
  have hsorted := pairwise_mergeSort c (loaded pages realtime)
  have hx' : x ∈ (loaded pages realtime).mergeSort
      fun left right ↦ (pydantic c).compare left right ≠ .gt := List.mem_mergeSort.mpr hx
  rw [hinit] at hsorted hx'
  rcases List.mem_append.mp hx' with hx' | hx'
  · exact (hcompare x hx last hmem).mp
      ((List.pairwise_append.mp hsorted).2.2 x hx' last List.mem_cons_self)
  · exact List.mem_singleton.mp hx' ▸ le_refl _

/-- If the page is in the order of the server, nothing on it is mixed. -/
theorem not_mixed_of_sorted (h : Genuine table pages realtime)
    (hsorted : (chatMessages (pydantic c) pages realtime).Pairwise Older)
    (hx : x ∈ loaded pages realtime) (hy : y ∈ loaded pages realtime) : ¬ Mixed x y := by
  have hmem := fun x ↦ mem_chatMessages (x := x) h (pydantic c)
  -- the comparison rules out one way to be mixed, the order of the server the other one
  have hfirst : (chatMessages (pydantic c) pages realtime).Pairwise fun x y ↦ ¬ Mixed x y := by
    refine (pairwise_mergeSort c _).imp_of_mem fun {x y} hx hy hle hmixed ↦ ?_
    obtain ⟨-, a, ha⟩ := h x ((hmem x).mp hx)
    obtain ⟨-, b, hb⟩ := h y ((hmem y).mp hy)
    exact hle (compare_of_mixed c ha hb hmixed)
  have hsecond : (chatMessages (pydantic c) pages realtime).Pairwise
      (flip fun x y ↦ ¬ Mixed x y) := by
    refine hsorted.imp fun {x y} holder hmixed ↦ ?_
    exact lt_asymm holder (lt_of_le_of_ne (Messages.stamp_le.mpr (.inl hmixed.lt)) fun he ↦
      hmixed.lt.ne (congrArg (fun k ↦ (ofLex k).1) he))
  exact hfirst.forall_of_forall_of_flip (fun x _ hmixed ↦ hmixed.2.2 hmixed.2.1) hsecond
    ((hmem x).mpr hx) ((hmem y).mpr hy)

/-- **Exactly when the client has the order of the server**: unless it has two messages of one
second of which one has no microseconds. -/
theorem server_order_iff (c : Collation) (h : Genuine table pages realtime) :
    ServerOrder (pydantic c) pages realtime ↔
      ∀ x ∈ loaded pages realtime, ∀ y ∈ loaded pages realtime, ¬ Mixed x y := by
  constructor
  · exact fun horder x hx y hy ↦ not_mixed_of_sorted c h horder.sorted hx hy
  · intro hmixed
    have hcompare : ∀ x ∈ loaded pages realtime, ∀ y ∈ loaded pages realtime,
        ((pydantic c).compare x y ≠ .gt ↔ stamp x ≤ stamp y) := by
      intro x hx y hy
      obtain ⟨-, a, ha⟩ := h x hx
      obtain ⟨-, b, hb⟩ := h y hy
      exact compare_ne_gt_iff c ha hb (hmixed x hx y hy) (hmixed y hy x hx)
    exact ⟨chatMessages_nodup _, fun x ↦ mem_chatMessages h _, sorted_of_compare c h hcompare,
      fun x ↦ newest_of_compare c hcompare⟩

/-! ## Two messages of a second -/

/-- A new year, and some microseconds later. -/
def newYear (microsecond : Fin 1000000) : DateTime where
  toFields := ⟨2024, 1, 1, 0, 0, 0, microsecond⟩
  valid := by constructor <;> first | exact microsecond.isLt | (dsimp only; decide)

/-- A message of that time. -/
def greeting (id : UUID) (microsecond : Fin 1000000) : Message :=
  ⟨id, 7, 1, "", (newYear microsecond).micros, none⟩

/-- Two messages, half a second apart. -/
def greetings (first second : Fin 1000000) : MessageTable :=
  ⟨[greeting 2 second, greeting 1 first], show [(2 : UUID), 1].Nodup by decide⟩

theorem greetings_genuine (first second : Fin 1000000) :
    Genuine (greetings first second) [[greeting 1 first, greeting 2 second]]
      [greeting 2 second] := by
  intro message hmessage
  have hcases : message = greeting 1 first ∨ message = greeting 2 second := by
    simpa [loaded] using hmessage
  rcases hcases with rfl | rfl
  · exact ⟨List.mem_cons_of_mem _ List.mem_cons_self, newYear first, rfl⟩
  · exact ⟨List.mem_cons_self, newYear second, rfl⟩

/-- With two fractions all is well, and the second copy of a message makes no difference. -/
theorem server_order_greetings : ServerOrder (pydantic .ascii)
    [[greeting 1 100000, greeting 2 600000]] [greeting 2 600000] :=
  (server_order_iff .ascii (greetings_genuine 100000 600000)).mpr (by decide)

/-- Without a fraction the first message is shown last. -/
theorem whole_second_last : ¬ ∀ (c : Collation) (table : MessageTable)
    (pages : List (List Message)) (realtime : List Message), Genuine table pages realtime →
      ServerOrder (pydantic c) pages realtime := by
  intro h
  have horder := h .ascii _ _ _ (greetings_genuine 0 500000)
  refine not_mixed_of_sorted .ascii (greetings_genuine 0 500000) horder.sorted
    (x := greeting 1 0) (y := greeting 2 500000) ?_ ?_ (by decide)
  · exact List.mem_cons_self
  · exact List.mem_cons_of_mem _ List.mem_cons_self

end Chatterbox.Client.Order
