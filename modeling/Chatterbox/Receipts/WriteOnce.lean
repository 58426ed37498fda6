import Chatterbox.Receipts.Model
import Chatterbox.Run

/-!
# Receipts under concurrency

Each operation on receipts is a transaction: it selects, sets attributes in
memory, and writes the columns that have changed when it commits.  The `SELECT`
takes no lock, and the `UPDATE` names a row by its primary key alone.  So between
the two another transaction may commit the very columns that are about to be
written, and these are then overwritten.

`write_once_iff` says on which runs it does not happen, in terms of the schedule:
`Unraced`, no transaction commits a column of a receipt that another one has
selected in order to set, and sets in the end, unless both have read the same
instant on their clocks; and `Clocked`, a receipt that is found delivered is read
on a clock that is not behind.  That is enough, since what is selected is null in
the columns that are set (`Operation.Sets.null`), so whatever is there when they
are written has been committed meanwhile (`exists_commit`).

Messages are created meanwhile, with receipts that hold no time yet.
-/

namespace Chatterbox.Receipts

open Messages (Message)

/-- The columns an `UPDATE` writes, and with what; no column is ever set to null. -/
structure Changes where
  deliveredAt : Option Instant
  readAt : Option Instant
deriving DecidableEq, Repr

/-- What the flush writes to a column. -/
def changedColumn (before after : Option Instant) : Option Instant :=
  if after = before then none else after

/-- What the flush of a receipt writes: the attributes that have changed. -/
def changed (before after : MessageReceipt) : Changes where
  deliveredAt := changedColumn before.deliveredAt after.deliveredAt
  readAt := changedColumn before.readAt after.readAt

/-- What an `UPDATE` makes of a row. -/
def Changes.apply (c : Changes) (receipt : MessageReceipt) : MessageReceipt :=
  { receipt with
    deliveredAt := c.deliveredAt <|> receipt.deliveredAt
    readAt := c.readAt <|> receipt.readAt }

/-- A transaction. -/
abbrev Tx := ℕ

/-- How far a transaction has got. -/
inductive Phase where
  | idle
  /-- It has selected; its changes, by the `id` of the row. -/
  | selected (writes : List (UUID × Changes))
  | done
deriving DecidableEq, Repr

/-- The committed rows, and the transactions. -/
structure State where
  messages : List Message
  receipts : List MessageReceipt
  phase : Tx → Phase

/-- Move one transaction on. -/
def State.set (s : State) (tx : Tx) (ph : Phase) : State :=
  { s with phase := Function.update s.phase tx ph }

@[simp] theorem set_phase_self (s : State) (tx : Tx) (ph : Phase) : (s.set tx ph).phase tx = ph :=
  Function.update_self ..

theorem set_phase_of_ne {tx tx' : Tx} (h : tx' ≠ tx) (s : State) (ph : Phase) :
    (s.set tx ph).phase tx' = s.phase tx' :=
  Function.update_of_ne h ..

/-- A step of a transaction, or the commit of a new message. -/
inductive Action where
  | create (message : Message) (receipts : List MessageReceipt)
  | select (tx : Tx) (op : Operation) (now : Instant)
  | commit (tx : Tx)
  | abort (tx : Tx)
deriving DecidableEq, Repr

/-- The changes that an operation with this clock is about to write. -/
def Operation.writes (op : Operation) (now : Instant) (s : State) : List (UUID × Changes) :=
  (op.select s.messages s.receipts).map fun (receipt, _) ↦
    (receipt.id, changed receipt (op.assign now receipt))

/-- The `UPDATE`s of a transaction. -/
def update (writes : List (UUID × Changes)) (receipt : MessageReceipt) : MessageReceipt :=
  match writes.lookup receipt.id with
  | some c => c.apply receipt
  | none => receipt

/-- One step. -/
def step (s : State) : Action → Option State
  | .create message receipts =>
      if (receipts ++ s.receipts).Pairwise (fun a b ↦ a.id ≠ b.id) ∧
          ∀ receipt ∈ receipts, receipt.deliveredAt = none ∧ receipt.readAt = none then
        some { s with messages := message :: s.messages, receipts := receipts ++ s.receipts }
      else none
  | .select tx op now =>
      match s.phase tx with
      | .idle => some (s.set tx (.selected (op.writes now s)))
      | _ => none
  | .commit tx =>
      match s.phase tx with
      | .selected writes => some { s.set tx .done with receipts := s.receipts.map (update writes) }
      | _ => none
  | .abort tx =>
      match s.phase tx with
      | .selected _ => some (s.set tx .done)
      | _ => none

/-- A receipt that has been read was delivered, and not later. -/
def MessageReceipt.Ordered (receipt : MessageReceipt) : Prop :=
  ∀ readAt, receipt.readAt = some readAt →
    ∃ deliveredAt, receipt.deliveredAt = some deliveredAt ∧ deliveredAt ≤ readAt

/-- Every receipt that has been read was delivered, and not later. -/
def Ordered (s : State) : Prop := ∀ receipt ∈ s.receipts, receipt.Ordered

/-- The times that are there in `s` are still the same in `t`. -/
def Kept (s t : State) : Prop :=
  ∀ receipt ∈ s.receipts, ∃ later ∈ t.receipts, later.id = receipt.id ∧
    (receipt.deliveredAt ≠ none → later.deliveredAt = receipt.deliveredAt) ∧
    (receipt.readAt ≠ none → later.readAt = receipt.readAt)

/-- The rows are in order and no transaction is in flight. -/
structure Initial (s : State) : Prop where
  unique : s.receipts.Pairwise fun a b ↦ a.id ≠ b.id
  ordered : Ordered s
  idle : ∀ tx, s.phase tx = .idle

/-- What is written is not there yet, or there already; a time of reading that is
written alone is not before that of the delivery. -/
structure Changes.Fits (c : Changes) (receipt : MessageReceipt) : Prop where
  delivered : ∀ d, c.deliveredAt = some d →
    receipt.deliveredAt = none ∨ receipt.deliveredAt = some d
  read : ∀ x, c.readAt = some x → receipt.readAt = none ∨ receipt.readAt = some x
  order : c.deliveredAt = none → ∀ x d, c.readAt = some x → receipt.deliveredAt = some d → d ≤ x

/-- Whatever a commit writes fits the rows as they are. -/
def Fits (s : State) : Action → Prop
  | .commit tx => ∀ writes, s.phase tx = .selected writes →
      ∀ receipt ∈ s.receipts, ∀ c, writes.lookup receipt.id = some c → c.Fits receipt
  | _ => True

/-! ## Schedules -/

/-- The columns that hold a time. -/
inductive Column where
  | deliveredAt
  | readAt
deriving DecidableEq, Repr

/-- A column of a row. -/
def MessageReceipt.at (receipt : MessageReceipt) : Column → Option Instant
  | .deliveredAt => receipt.deliveredAt
  | .readAt => receipt.readAt

/-- What is written to a column. -/
def Changes.at (c : Changes) : Column → Option Instant
  | .deliveredAt => c.deliveredAt
  | .readAt => c.readAt

/-- The `SELECT` of the operation returns the receipt. -/
def Operation.Finds (op : Operation) (s : State) (receipt : MessageReceipt) : Prop :=
  ∃ message, (receipt, message) ∈ op.select s.messages s.receipts

/-- The columns that an operation sets, of a receipt as it finds it: `mark_read_through` leaves a
time of delivery that is there as it is. -/
def Operation.Sets : Operation → MessageReceipt → Column → Prop
  | .markReadThrough .., receipt, .deliveredAt => receipt.deliveredAt = none
  | .markReadThrough .., _, .readAt => True
  | .markDelivered .., _, column | .markPendingDelivered _, _, column => column = .deliveredAt

/-- In the run, the transaction finds the receipt, with its clock at `now`, and sets the column. -/
def Takes (s : State) (as : List Action) (tx : Tx) (now : Instant) (id : UUID) (column : Column) :
    Prop :=
  Once step (fun u a ↦ ∃ op receipt, a = .select tx op now ∧ op.Finds u receipt ∧
    receipt.id = id ∧ op.Sets receipt column) s as

/-- Between the `SELECT` of a transaction and its commit, no other commits a column of a receipt
that both set; or they have read the same instant on their clocks. -/
def Unraced (s : State) (as : List Action) : Prop :=
  ∀ pre mid post tx tx' op now now' u receipt column,
    as = pre ++ .select tx op now :: (mid ++ .commit tx' :: post) → .commit tx ∈ post →
    exec step s pre = some u → op.Finds u receipt → op.Sets receipt column →
    Takes s (pre ++ .select tx op now :: mid) tx' now' receipt.id column → now' = now

/-- Whoever reads a receipt that they find delivered, and commits, has a clock that is not behind
the one of the delivery. -/
def Clocked (s : State) (as : List Action) : Prop :=
  ∀ pre post tx op now u receipt deliveredAt,
    as = pre ++ .select tx op now :: post → .commit tx ∈ post →
    exec step s pre = some u → op.Finds u receipt → op.Sets receipt .readAt →
    receipt.deliveredAt = some deliveredAt → deliveredAt ≤ now

variable {s t : State} {a : Action} {receipt : MessageReceipt} {c : Changes}
  {op : Operation} {now : Instant} {column : Column}

/-! ## One row -/

theorem changedColumn_eq_some {before after : Option Instant} {x : Instant} :
    changedColumn before after = some x ↔ after = some x ∧ after ≠ before := by
  unfold changedColumn
  split
  · simp_all
  · simp_all

/-- A column that was null is written, whatever is assigned to it. -/
theorem changedColumn_none (after : Option Instant) : changedColumn none after = after := by
  unfold changedColumn
  split
  · simp_all
  · rfl

/-- The changes of an operation carry its one reading of the clock. -/
theorem changed_le {op : Operation} {now d x : Instant}
    (hd : (changed receipt (op.assign now receipt)).deliveredAt = some d)
    (hx : (changed receipt (op.assign now receipt)).readAt = some x) : d ≤ x := by
  obtain ⟨hx, hread⟩ := changedColumn_eq_some.mp hx
  obtain ⟨hd, hdelivered⟩ := changedColumn_eq_some.mp hd
  cases op with
  | markDelivered | markPendingDelivered => exact absurd rfl hread
  | markReadThrough =>
      cases hrow : receipt.deliveredAt with
      | none =>
          simp only [Operation.assign, hrow, Option.getD_none, Option.some.injEq] at hd hx
          exact (hd.symm.trans hx).le
      | some d' => simp [Operation.assign, hrow] at hdelivered

/-- A time of reading is written alone only to a row that was delivered. -/
theorem delivered_of_changed {op : Operation} {now : Instant}
    (hd : (changed receipt (op.assign now receipt)).deliveredAt = none)
    (hx : (changed receipt (op.assign now receipt)).readAt ≠ none) :
    receipt.deliveredAt ≠ none := by
  intro hnone
  obtain ⟨x, hx⟩ := Option.ne_none_iff_exists'.mp hx
  simp only [changed, hnone, changedColumn_none] at hd
  cases op with
  | markDelivered | markPendingDelivered => cases hd
  | markReadThrough => cases hd

/-- Changes fit a row exactly when the row keeps its times and stays in order. -/
theorem Changes.fits_iff (hboth : ∀ d x, c.deliveredAt = some d → c.readAt = some x → d ≤ x)
    (hthere : c.deliveredAt = none → c.readAt ≠ none → receipt.deliveredAt ≠ none)
    (hrow : receipt.Ordered) : c.Fits receipt ↔
      ((receipt.deliveredAt ≠ none → (c.apply receipt).deliveredAt = receipt.deliveredAt) ∧
        (receipt.readAt ≠ none → (c.apply receipt).readAt = receipt.readAt)) ∧
      (c.apply receipt).Ordered := by
  constructor
  · intro h
    refine ⟨⟨fun hne ↦ ?_, fun hne ↦ ?_⟩, fun x hx ↦ ?_⟩
    · cases hd : c.deliveredAt with
      | none => simp [Changes.apply, hd]
      | some d => simp [Changes.apply, hd, (h.delivered d hd).resolve_left hne]
    · cases hx : c.readAt with
      | none => simp [Changes.apply, hx]
      | some x => simp [Changes.apply, hx, (h.read x hx).resolve_left hne]
    · cases hread : c.readAt with
      | some x' =>
          obtain rfl : x' = x := by simpa [Changes.apply, hread] using hx
          cases hdelivered : c.deliveredAt with
          | some d => exact ⟨d, by simp [Changes.apply, hdelivered], hboth d x' hdelivered hread⟩
          | none =>
              have hne := hthere hdelivered (hread ▸ Option.some_ne_none x')
              obtain ⟨d, hd⟩ := Option.ne_none_iff_exists'.mp hne
              exact ⟨d, by simp [Changes.apply, hdelivered, hd], h.order hdelivered x' d hread hd⟩
      | none =>
          obtain ⟨d, hd, hle⟩ := hrow x (by simpa [Changes.apply, hread] using hx)
          refine ⟨d, ?_, hle⟩
          cases hdelivered : c.deliveredAt with
          | none => simp [Changes.apply, hdelivered, hd]
          | some d' =>
              have hsame := (h.delivered d' hdelivered).resolve_left (hd ▸ Option.some_ne_none d)
              simp [Changes.apply, hdelivered, ← hd, hsame]
  · rintro ⟨⟨hdelivered, hread⟩, horder⟩
    refine ⟨fun d hd ↦ ?_, fun x hx ↦ ?_, fun hd x d hx hrow ↦ ?_⟩
    · refine or_iff_not_imp_left.mpr fun hne ↦ ?_
      rw [← hdelivered hne]
      simp [Changes.apply, hd]
    · refine or_iff_not_imp_left.mpr fun hne ↦ ?_
      rw [← hread hne]
      simp [Changes.apply, hx]
    · obtain ⟨d', hd', hle⟩ := horder x (by simp [Changes.apply, hx])
      have hsame : d = d' := by simpa [Changes.apply, hd, hrow] using hd'
      exact hsame ▸ hle

/-! ## What a step does -/

theorem create_eq_some {message : Message} {receipts : List MessageReceipt} :
    step s (.create message receipts) = some t ↔
      ((receipts ++ s.receipts).Pairwise (fun a b ↦ a.id ≠ b.id) ∧
        ∀ receipt ∈ receipts, receipt.deliveredAt = none ∧ receipt.readAt = none) ∧
      { s with messages := message :: s.messages, receipts := receipts ++ s.receipts } = t := by
  rw [step]
  split
  · next h => rw [Option.some.injEq, and_iff_right h]
  · next h => exact iff_of_false nofun fun h' ↦ h h'.1

theorem select_eq_some {tx : Tx} : step s (.select tx op now) = some t ↔
    s.phase tx = .idle ∧ s.set tx (.selected (op.writes now s)) = t := by
  rw [step]
  split
  · next h => simp [h]
  · next h => exact iff_of_false nofun fun h' ↦ h h'.1

theorem commit_eq_some {tx : Tx} : step s (.commit tx) = some t ↔
    ∃ writes, s.phase tx = .selected writes ∧
      { s.set tx .done with receipts := s.receipts.map (update writes) } = t := by
  rw [step]
  split
  · next writes h => simp [h]
  · next h => exact iff_of_false nofun fun ⟨writes, h', _⟩ ↦ h writes h'

theorem abort_eq_some {tx : Tx} : step s (.abort tx) = some t ↔
    (∃ writes, s.phase tx = .selected writes) ∧ s.set tx .done = t := by
  rw [step]
  split
  · next writes h => simp [h]
  · next h => exact iff_of_false nofun fun ⟨⟨writes, h'⟩, _⟩ ↦ h writes h'

/-! ## The table -/

/-- Rows are told apart by their ids; what a transaction has yet to write comes
from one reading of its clock, and a time of reading alone is for a row that was
delivered. -/
structure Inv (s : State) : Prop where
  unique : s.receipts.Pairwise fun a b ↦ a.id ≠ b.id
  both : ∀ tx writes, s.phase tx = .selected writes → ∀ id c, writes.lookup id = some c →
    ∀ d x, c.deliveredAt = some d → c.readAt = some x → d ≤ x
  there : ∀ tx writes, s.phase tx = .selected writes → ∀ id c, writes.lookup id = some c →
    ∃ receipt ∈ s.receipts, receipt.id = id ∧
      (c.deliveredAt = none → c.readAt ≠ none → receipt.deliveredAt ≠ none)

theorem update_of_some {writes : List (UUID × Changes)} (h : writes.lookup receipt.id = some c) :
    update writes receipt = c.apply receipt := by
  rw [update, h]

theorem update_of_none {writes : List (UUID × Changes)} (h : writes.lookup receipt.id = none) :
    update writes receipt = receipt := by
  rw [update, h]

theorem eq_of_id (h : s.receipts.Pairwise fun a b ↦ a.id ≠ b.id) {a b : MessageReceipt}
    (ha : a ∈ s.receipts) (hb : b ∈ s.receipts) (hid : a.id = b.id) : a = b :=
  List.inj_on_of_nodup_map (List.pairwise_map.mpr h) ha hb hid

@[simp] theorem update_id (writes : List (UUID × Changes)) (receipt : MessageReceipt) :
    (update writes receipt).id = receipt.id := by
  unfold update
  split <;> rfl

/-- An update sets no column to null. -/
theorem update_deliveredAt {writes : List (UUID × Changes)} (h : receipt.deliveredAt ≠ none) :
    (update writes receipt).deliveredAt ≠ none := by
  unfold update
  split
  · rename_i c _
    cases hd : c.deliveredAt with
    | none => simpa [Changes.apply, hd] using h
    | some d => simp [Changes.apply, hd]
  · exact h

theorem Inv.initial (h : Initial s) : Inv s where
  unique := h.unique
  both tx writes hphase := by rw [h.idle tx] at hphase; cases hphase
  there tx writes hphase := by rw [h.idle tx] at hphase; cases hphase

theorem Operation.Finds.mem (h : op.Finds s receipt) : receipt ∈ s.receipts :=
  (mem_joined.mp (mem_select.mp h.choose_spec).1).1

/-- What is about to be written by a `SELECT` and its assignments. -/
theorem mem_writes {id : UUID} (h : (op.writes now s).lookup id = some c) :
    ∃ receipt, op.Finds s receipt ∧ receipt.id = id ∧
      c = changed receipt (op.assign now receipt) := by
  have hmem : (id, c) ∈ op.writes now s := by
    obtain ⟨l₁, l₂, hl, -⟩ := List.lookup_eq_some_iff.mp h
    rw [hl]
    exact List.mem_append_right l₁ List.mem_cons_self
  simp only [Operation.writes, List.mem_map, Prod.exists, Prod.mk.injEq] at hmem
  obtain ⟨receipt, message, hselected, hid, hc⟩ := hmem
  exact ⟨receipt, ⟨message, hselected⟩, hid, hc.symm⟩

theorem Inv.create (h : Inv s) {message : Message} {receipts : List MessageReceipt}
    (hunique : (receipts ++ s.receipts).Pairwise fun a b ↦ a.id ≠ b.id) :
    Inv { s with messages := message :: s.messages, receipts := receipts ++ s.receipts } where
  unique := hunique
  both := h.both
  there tx writes hphase id c hc := by
    obtain ⟨receipt, hmem, hid, hthere⟩ := h.there tx writes hphase id c hc
    exact ⟨receipt, List.mem_append_right receipts hmem, hid, hthere⟩

/-- One transaction moves, and the rows stay. -/
theorem Inv.set (h : Inv s) {tx : Tx} (ph : Phase)
    (hboth : ∀ writes, ph = .selected writes → ∀ id c, writes.lookup id = some c →
      ∀ d x, c.deliveredAt = some d → c.readAt = some x → d ≤ x)
    (hthere : ∀ writes, ph = .selected writes → ∀ id c, writes.lookup id = some c →
      ∃ receipt ∈ s.receipts, receipt.id = id ∧
        (c.deliveredAt = none → c.readAt ≠ none → receipt.deliveredAt ≠ none)) :
    Inv (s.set tx ph) where
  unique := h.unique
  both tx' writes hphase := by
    by_cases htx : tx' = tx
    · subst htx
      exact hboth writes (by simpa using hphase)
    · exact h.both tx' writes ((set_phase_of_ne htx s ph).symm.trans hphase)
  there tx' writes hphase := by
    by_cases htx : tx' = tx
    · subst htx
      exact hthere writes (by simpa using hphase)
    · exact h.there tx' writes ((set_phase_of_ne htx s ph).symm.trans hphase)

/-- A commit leaves what the others are about to write sound. -/
theorem Inv.update (h : Inv s) (writes : List (UUID × Changes)) :
    Inv { s with receipts := s.receipts.map (update writes) } where
  unique := by
    rw [List.pairwise_map]
    exact h.unique.imp fun hne ↦ by simpa using hne
  both := h.both
  there tx' writes' hphase id c hc := by
    obtain ⟨receipt, hmem, hid, hthere⟩ := h.there tx' writes' hphase id c hc
    refine ⟨Receipts.update writes receipt, List.mem_map_of_mem hmem, (update_id ..).trans hid, ?_⟩
    exact fun hd hx ↦ update_deliveredAt (hthere hd hx)

theorem Inv.step (h : Inv s) (ht : step s a = some t) : Inv t := by
  cases a with
  | create message receipts =>
      obtain ⟨⟨hunique, -⟩, rfl⟩ := create_eq_some.mp ht
      exact h.create hunique
  | select tx op now =>
      obtain ⟨-, rfl⟩ := select_eq_some.mp ht
      refine h.set _ (fun writes hw id c hc ↦ ?_) fun writes hw id c hc ↦ ?_
      · cases hw
        obtain ⟨receipt, -, -, rfl⟩ := mem_writes hc
        exact fun d x hd hx ↦ changed_le hd hx
      · cases hw
        obtain ⟨receipt, hfinds, hid, rfl⟩ := mem_writes hc
        exact ⟨receipt, hfinds.mem, hid, fun hd hx ↦ delivered_of_changed hd hx⟩
  | commit tx =>
      obtain ⟨writes, -, rfl⟩ := commit_eq_some.mp ht
      exact (h.set .done (fun _ ↦ nofun) fun _ ↦ nofun).update writes
  | abort tx =>
      obtain ⟨-, rfl⟩ := abort_eq_some.mp ht
      exact h.set .done (fun _ ↦ nofun) fun _ ↦ nofun

theorem Inv.of_run (hs : Initial s) {as : List Action}
    (hrun : exec Receipts.step s as = some t) : Inv t :=
  exec_invariant (fun h ht ↦ h.step ht) (.initial hs) hrun

/-! ## One step -/

theorem Kept.refl (s : State) : Kept s s :=
  fun receipt hr ↦ ⟨receipt, hr, rfl, fun _ ↦ rfl, fun _ ↦ rfl⟩

theorem Kept.trans {u : State} (h₁ : Kept s t) (h₂ : Kept t u) : Kept s u := by
  intro receipt hr
  obtain ⟨later, hlater, hid, hd, hx⟩ := h₁ receipt hr
  obtain ⟨last, hlast, hid', hd', hx'⟩ := h₂ later hlater
  refine ⟨last, hlast, hid'.trans hid, fun hne ↦ ?_, fun hne ↦ ?_⟩
  · exact (hd' (hd hne ▸ hne)).trans (hd hne)
  · exact (hx' (hx hne ▸ hne)).trans (hx hne)

/-- A time that was there is there in the row that has the id. -/
theorem Kept.at (h : Kept s t) (hunique : t.receipts.Pairwise fun a b ↦ a.id ≠ b.id)
    (hr : receipt ∈ s.receipts) {x : Instant} (hx : receipt.at column = some x)
    {later : MessageReceipt} (hlater : later ∈ t.receipts) (hid : later.id = receipt.id) :
    later.at column = some x := by
  obtain ⟨later', hlater', hid', hdelivered, hread⟩ := h receipt hr
  obtain rfl := eq_of_id hunique hlater hlater' (hid.trans hid'.symm)
  have hne : receipt.at column ≠ none := hx ▸ Option.some_ne_none x
  cases column with
  | deliveredAt => exact (hdelivered hne).trans hx
  | readAt => exact (hread hne).trans hx

/-- A commit keeps the times and the order exactly when what it writes fits. -/
theorem commit_iff (h : Inv s) (hs : Ordered s) {tx : Tx} {writes : List (UUID × Changes)}
    (hphase : s.phase tx = .selected writes)
    (ht : t.receipts = s.receipts.map (update writes)) :
    Fits s (.commit tx) ↔ Kept s t ∧ Ordered t := by
  have hrow : ∀ receipt ∈ s.receipts, ∀ c, writes.lookup receipt.id = some c →
      (c.Fits receipt ↔
        ((receipt.deliveredAt ≠ none → (c.apply receipt).deliveredAt = receipt.deliveredAt) ∧
          (receipt.readAt ≠ none → (c.apply receipt).readAt = receipt.readAt)) ∧
        (c.apply receipt).Ordered) := by
    intro receipt hr c hc
    refine Changes.fits_iff (h.both tx writes hphase _ c hc) ?_ (hs receipt hr)
    obtain ⟨receipt', hr', hid, hthere⟩ := h.there tx writes hphase _ c hc
    exact eq_of_id h.unique hr' hr hid ▸ hthere
  constructor
  · intro hfits
    have hall : ∀ receipt ∈ s.receipts,
        ((receipt.deliveredAt ≠ none → (update writes receipt).deliveredAt = receipt.deliveredAt) ∧
          (receipt.readAt ≠ none → (update writes receipt).readAt = receipt.readAt)) ∧
        (update writes receipt).Ordered := by
      intro receipt hr
      cases hc : writes.lookup receipt.id with
      | none => rw [update_of_none hc]; exact ⟨⟨fun _ ↦ rfl, fun _ ↦ rfl⟩, hs receipt hr⟩
      | some c =>
          rw [update_of_some hc]
          exact (hrow receipt hr c hc).mp (hfits writes hphase receipt hr c hc)
    refine ⟨fun receipt hr ↦ ?_, fun later hlater ↦ ?_⟩
    · have hmem : update writes receipt ∈ t.receipts := ht ▸ List.mem_map_of_mem hr
      exact ⟨_, hmem, update_id .., (hall receipt hr).1.1, (hall receipt hr).1.2⟩
    · rw [ht] at hlater
      obtain ⟨receipt, hr, rfl⟩ := List.mem_map.mp hlater
      exact (hall receipt hr).2
  · rintro ⟨hkept, hordered⟩ writes' hphase' receipt hr c hc
    obtain rfl : writes = writes' := Phase.selected.inj (hphase.symm.trans hphase')
    obtain ⟨later, hlater, hid, hd, hx⟩ := hkept receipt hr
    have horder := hordered later hlater
    rw [ht] at hlater
    obtain ⟨receipt', hr', rfl⟩ := List.mem_map.mp hlater
    obtain rfl := eq_of_id h.unique hr' hr (by simpa using hid)
    rw [update_of_some hc] at hd hx horder
    exact (hrow receipt' hr c hc).mpr ⟨⟨hd, hx⟩, horder⟩

/-- **One step** keeps the times and the order exactly when what it writes fits. -/
theorem step_iff (h : Inv s) (hs : Ordered s) (ht : step s a = some t) :
    Fits s a ↔ Kept s t ∧ Ordered t := by
  cases a with
  | create message receipts =>
      obtain ⟨⟨-, hnew⟩, rfl⟩ := create_eq_some.mp ht
      refine iff_of_true trivial ⟨fun receipt hr ↦ ?_, fun receipt hr ↦ ?_⟩
      · exact ⟨receipt, List.mem_append_right receipts hr, rfl, fun _ ↦ rfl, fun _ ↦ rfl⟩
      · rcases List.mem_append.mp hr with hr | hr
        · exact fun x hx ↦ nomatch hx.symm.trans (hnew receipt hr).2
        · exact hs receipt hr
  | select tx op now =>
      obtain ⟨-, rfl⟩ := select_eq_some.mp ht
      exact iff_of_true trivial ⟨Kept.refl s, hs⟩
  | commit tx =>
      obtain ⟨writes, hphase, rfl⟩ := commit_eq_some.mp ht
      exact commit_iff h hs hphase rfl
  | abort tx =>
      obtain ⟨-, rfl⟩ := abort_eq_some.mp ht
      exact iff_of_true trivial ⟨Kept.refl s, hs⟩

/-! ## Runs -/

/-- In every state that a part of the run leads to, the receipts are in order, and
the times that were there before that part are still the same. -/
def WriteOnce (s : State) (as : List Action) : Prop :=
  ∀ pre mid post u v, as = pre ++ (mid ++ post) → exec step s pre = some u →
    exec step u mid = some v → Kept u v ∧ Ordered v

/-- Receipts are written once exactly if every commit fits the rows as they are then. -/
theorem writeOnce_iff_along (hs : Initial s) (as : List Action) :
    WriteOnce s as ↔ Along step Fits s as := by
  constructor
  · intro h
    rw [along_iff_forall]
    intro pre a post m hsplit hpre
    have hinv : Inv m := Inv.of_run hs hpre
    have hordered : Ordered m := (h pre [] (a :: post) m m hsplit hpre rfl).2
    cases ha : step m a with
    | some n =>
        rw [step_iff hinv hordered ha]
        exact h pre [a] post m n hsplit hpre (exec_cons_eq_some.mpr ⟨n, ha, rfl⟩)
    | none =>
        cases a with
        | commit tx =>
            intro writes hphase
            simp [step, hphase] at ha
        | create | select | abort => trivial
  · rintro halong pre mid post u v rfl hpre hmid
    obtain ⟨hpre', hrest⟩ := halong.of_append hpre
    have hu : Inv u ∧ Ordered u := by
      refine exec_induction (P := fun s ↦ Inv s ∧ Ordered s) ?_ ⟨.initial hs, hs.ordered⟩ hpre hpre'
      exact fun h hok ht ↦ ⟨h.1.step ht, ((step_iff h.1 h.2 ht).mp hok).2⟩
    have hv : (Inv v ∧ Ordered v) ∧ Kept u v := by
      refine exec_induction (P := fun s ↦ (Inv s ∧ Ordered s) ∧ Kept u s) ?_ ⟨hu, .refl u⟩ hmid
        (hrest.of_append hmid).1
      intro s a t h hok ht
      obtain ⟨hkept, hordered⟩ := (step_iff h.1.1 h.1.2 ht).mp hok
      exact ⟨⟨h.1.1.step ht, hordered⟩, h.2.trans hkept⟩
    exact ⟨hv.2, hv.1.2⟩

/-! ## From a `SELECT` to its commit -/

/-- **What is set was null**, as the `WHERE` clauses say. -/
theorem Operation.Sets.null (h : op.Sets receipt column) (hfinds : op.Finds s receipt) :
    receipt.at column = none := by
  obtain ⟨message, hmem⟩ := hfinds
  have hselects := (mem_select.mp hmem).2
  cases op with
  | markDelivered messageId userIds =>
      obtain rfl : column = .deliveredAt := h
      simp only [Operation.selects, decide_eq_true_eq] at hselects
      exact hselects.2.2
  | markPendingDelivered userId =>
      obtain rfl : column = .deliveredAt := h
      simp only [Operation.selects, decide_eq_true_eq] at hselects
      exact hselects.2
  | markReadThrough conversationId userId targetCreatedAt targetId =>
      simp only [Operation.selects, decide_eq_true_eq] at hselects
      cases column with
      | deliveredAt => exact h
      | readAt => exact hselects.2.2.1

/-- What is set is the time on the clock. -/
theorem Operation.Sets.assign_at (h : op.Sets receipt column) (now : Instant) :
    (op.assign now receipt).at column = some now := by
  cases op with
  | markDelivered | markPendingDelivered =>
      obtain rfl : column = .deliveredAt := h
      rfl
  | markReadThrough =>
      cases column with
      | deliveredAt =>
          have hnone : receipt.deliveredAt = none := h
          simp [Operation.assign, MessageReceipt.at, hnone]
      | readAt => rfl

/-- The other columns stay. -/
theorem assign_at_of_not_sets (h : ¬ op.Sets receipt column) (now : Instant) :
    (op.assign now receipt).at column = receipt.at column := by
  cases op with
  | markDelivered | markPendingDelivered =>
      cases column with
      | deliveredAt => exact absurd rfl h
      | readAt => rfl
  | markReadThrough =>
      cases column with
      | deliveredAt =>
          obtain ⟨d, hd⟩ := Option.ne_none_iff_exists'.mp h
          simp [Operation.assign, MessageReceipt.at, hd]
      | readAt => exact absurd trivial h

theorem changed_at (before after : MessageReceipt) (column : Column) :
    (changed before after).at column = changedColumn (before.at column) (after.at column) := by
  cases column <;> rfl

/-- What is written of a receipt that is found: the columns that are set, and the clock. -/
theorem changed_assign_at (hfinds : op.Finds s receipt) {x : Instant} :
    (changed receipt (op.assign now receipt)).at column = some x ↔
      op.Sets receipt column ∧ x = now := by
  rw [changed_at]
  by_cases hsets : op.Sets receipt column
  · rw [hsets.null hfinds, changedColumn_none, hsets.assign_at, Option.some.injEq, eq_comm]
    exact (and_iff_right hsets).symm
  · rw [assign_at_of_not_sets hsets, changedColumn, if_pos rfl]
    exact iff_of_false nofun fun h ↦ hsets h.1

/-- What a transaction is about to write of a receipt that it has found. -/
theorem lookup_writes (h : s.receipts.Pairwise fun a b ↦ a.id ≠ b.id)
    (hfinds : op.Finds s receipt) :
    (op.writes now s).lookup receipt.id = some (changed receipt (op.assign now receipt)) := by
  cases hlookup : (op.writes now s).lookup receipt.id with
  | none =>
      obtain ⟨message, hmem⟩ := hfinds
      have hne := List.lookup_eq_none_iff.mp hlookup _ (List.mem_map_of_mem hmem)
      exact absurd rfl (bne_iff_ne.mp hne)
  | some c =>
      obtain ⟨receipt', hfinds', hid, rfl⟩ := mem_writes hlookup
      obtain rfl := eq_of_id h hfinds'.mem hfinds.mem hid
      rfl

theorem apply_at (c : Changes) (receipt : MessageReceipt) (column : Column) :
    (c.apply receipt).at column = (c.at column <|> receipt.at column) := by
  cases column <;> rfl

variable {pre as : List Action} {tx : Tx} {writes : List (UUID × Changes)} {u : State} {x : Instant}

/-- A transaction that has selected does not do so again. -/
theorem phase_step (ht : step s a = some t)
    (h : s.phase tx = .selected writes ∨ s.phase tx = .done) :
    t.phase tx = .selected writes ∨ t.phase tx = .done := by
  have hdone : ∀ tx', (s.set tx' .done).phase tx = .selected writes ∨
      (s.set tx' .done).phase tx = .done := by
    intro tx'
    by_cases htx : tx = tx'
    · exact .inr (htx ▸ set_phase_self s tx .done)
    · rwa [set_phase_of_ne htx]
  cases a with
  | create message receipts =>
      obtain ⟨-, rfl⟩ := create_eq_some.mp ht
      exact h
  | select tx' op now =>
      obtain ⟨hidle, rfl⟩ := select_eq_some.mp ht
      have hne : tx ≠ tx' := by
        rintro rfl
        rw [hidle] at h
        exact h.elim nofun nofun
      rwa [set_phase_of_ne hne]
  | commit tx' =>
      obtain ⟨writes', -, rfl⟩ := commit_eq_some.mp ht
      exact hdone tx'
  | abort tx' =>
      obtain ⟨-, rfl⟩ := abort_eq_some.mp ht
      exact hdone tx'

/-- What is committed in the end is what was found by the `SELECT`. -/
theorem writes_of_select (hrun : exec step s (.select tx op now :: as) = some t)
    (hphase : t.phase tx = .selected writes) : writes = op.writes now s := by
  obtain ⟨m, hm, hrest⟩ := exec_cons_eq_some.mp hrun
  obtain ⟨-, rfl⟩ := select_eq_some.mp hm
  have hkept := exec_invariant (fun h ht ↦ phase_step ht h)
    (.inl (set_phase_self s tx (.selected (op.writes now s)))) hrest
  rw [hphase] at hkept
  exact hkept.elim Phase.selected.inj nofun

/-- Whoever is about to write has selected. -/
theorem exists_select (hs : Initial s) (hrun : exec step s as = some t)
    (hphase : t.phase tx = .selected writes) : ∃ pre op now mid u,
      as = pre ++ .select tx op now :: mid ∧ exec step s pre = some u ∧
        writes = op.writes now u := by
  revert hphase
  refine exec_history (P := fun as t ↦ t.phase tx = .selected writes → ∃ pre op now mid u,
    as = pre ++ .select tx op now :: mid ∧ exec step s pre = some u ∧ writes = op.writes now u)
    (fun h ↦ ?_) (fun {as t a u} hrun ih hu hphase ↦ ?_) hrun
  · rw [hs.idle tx] at h
    cases h
  have hlater : t.phase tx = .selected writes → ∃ pre op now mid u,
      as ++ [a] = pre ++ .select tx op now :: mid ∧ exec step s pre = some u ∧
        writes = op.writes now u := by
    intro h
    obtain ⟨pre, op, now, mid, v, rfl, hv, hwrites⟩ := ih h
    exact ⟨pre, op, now, mid ++ [a], v, by simp, hv, hwrites⟩
  have hset : ∀ tx', (t.set tx' .done).phase tx = .selected writes →
      t.phase tx = .selected writes := by
    intro tx' h
    by_cases htx : tx = tx'
    · rw [htx, set_phase_self] at h
      cases h
    · rwa [set_phase_of_ne htx] at h
  cases a with
  | create message receipts =>
      obtain ⟨-, rfl⟩ := create_eq_some.mp hu
      exact hlater hphase
  | select tx' op now =>
      obtain ⟨-, rfl⟩ := select_eq_some.mp hu
      by_cases htx : tx = tx'
      · subst htx
        rw [set_phase_self, Phase.selected.injEq] at hphase
        exact ⟨as, op, now, [], t, rfl, hrun, hphase.symm⟩
      · exact hlater ((set_phase_of_ne htx t _).symm.trans hphase)
  | commit tx' =>
      obtain ⟨writes', -, rfl⟩ := commit_eq_some.mp hu
      exact hlater (hset tx' hphase)
  | abort tx' =>
      obtain ⟨-, rfl⟩ := abort_eq_some.mp hu
      exact hlater (hset tx' hphase)

/-- Whoever is about to write a column of a receipt has taken it. -/
theorem takes_of_lookup (hs : Initial s) (hrun : exec step s as = some t)
    (hphase : t.phase tx = .selected writes) {id : UUID} (hc : writes.lookup id = some c)
    (hx : c.at column = some x) : Takes s as tx x id column := by
  obtain ⟨pre, op, now, mid, u, rfl, hu, rfl⟩ := exists_select hs hrun hphase
  obtain ⟨receipt, hfinds, hid, rfl⟩ := mem_writes hc
  obtain ⟨hsets, rfl⟩ := (changed_assign_at hfinds).mp hx
  exact ⟨pre, _, mid, u, rfl, hu, op, receipt, rfl, hfinds, hid, hsets⟩

/-- **A column that is not null any more has been committed**, with what is there now. -/
theorem exists_commit (h : s.receipts.Pairwise fun a b ↦ a.id ≠ b.id)
    (hr : receipt ∈ s.receipts) (hnull : receipt.at column = none)
    (hrun : exec step s as = some t) {later : MessageReceipt} (hlater : later ∈ t.receipts)
    (hid : later.id = receipt.id) (hx : later.at column = some x) :
    ∃ pre tx post u writes c, as = pre ++ .commit tx :: post ∧ exec step s pre = some u ∧
      u.phase tx = .selected writes ∧ writes.lookup receipt.id = some c ∧
        c.at column = some x := by
  revert later
  refine exec_history (P := fun as t ↦ ∀ {later : MessageReceipt}, later ∈ t.receipts →
    later.id = receipt.id → later.at column = some x → ∃ pre tx post u writes c,
      as = pre ++ .commit tx :: post ∧ exec step s pre = some u ∧
        u.phase tx = .selected writes ∧ writes.lookup receipt.id = some c ∧ c.at column = some x)
    (fun hlater hid hx ↦ ?_) (fun {as t a u} hrun ih hu later hlater hid hx ↦ ?_) hrun
  · obtain rfl := eq_of_id h hlater hr hid
    rw [hnull] at hx
    cases hx
  have hbefore : later ∈ t.receipts → ∃ pre tx post u writes c,
      as ++ [a] = pre ++ .commit tx :: post ∧ exec step s pre = some u ∧
        u.phase tx = .selected writes ∧ writes.lookup receipt.id = some c ∧
          c.at column = some x := by
    intro hlater
    obtain ⟨pre, tx, post, v, writes, c, rfl, hrest⟩ := ih hlater hid hx
    exact ⟨pre, tx, post ++ [a], v, writes, c, by simp, hrest⟩
  cases a with
  | create message receipts =>
      obtain ⟨⟨-, hnew⟩, rfl⟩ := create_eq_some.mp hu
      rcases List.mem_append.mp hlater with hlater | hlater
      · obtain ⟨hd, hread⟩ := hnew later hlater
        cases column with
        | deliveredAt => exact nomatch hx.symm.trans hd
        | readAt => exact nomatch hx.symm.trans hread
      · exact hbefore hlater
  | select tx op now =>
      obtain ⟨-, rfl⟩ := select_eq_some.mp hu
      exact hbefore hlater
  | commit tx =>
      obtain ⟨writes, hphase, rfl⟩ := commit_eq_some.mp hu
      obtain ⟨row, hrow, rfl⟩ := List.mem_map.mp hlater
      rw [update_id] at hid
      cases hc : writes.lookup row.id with
      | none => exact hbefore (by rwa [update_of_none hc])
      | some c =>
          rw [update_of_some hc, apply_at] at hx
          cases hcolumn : c.at column with
          | some y =>
              rw [hcolumn] at hx
              exact ⟨as, tx, [], t, writes, c, rfl, hrun, hphase, hid ▸ hc, hcolumn.trans hx⟩
          | none =>
              rw [hcolumn] at hx
              obtain ⟨pre, tx', post, v, writes', c', rfl, hrest⟩ := ih hrow hid hx
              exact ⟨pre, tx', post ++ [.commit tx], v, writes', c', by simp, hrest⟩
  | abort tx =>
      obtain ⟨-, rfl⟩ := abort_eq_some.mp hu
      exact hbefore hlater

/-- What a transaction has taken is there when it has committed. -/
theorem committed_of_takes (hs : Initial s) (hrun : exec step s pre = some u)
    (hkept : ∀ p q v, pre = p ++ q → exec step s p = some v → Kept v u)
    {id : UUID} (htakes : Takes s pre tx now id column) (ht : step u (.commit tx) = some t) :
    ∃ later ∈ t.receipts, later.id = id ∧ later.at column = some now := by
  obtain ⟨p, a, q, v, rfl, hv, op, receipt, rfl, hfinds, rfl, hsets⟩ := htakes
  obtain ⟨writes, hphase, rfl⟩ := commit_eq_some.mp ht
  obtain ⟨v', hv', hrest⟩ := exec_append_eq_some.mp hrun
  obtain rfl : v = v' := Option.some.inj (hv.symm.trans hv')
  obtain rfl := writes_of_select hrest hphase
  have hinv : Inv v := Inv.of_run hs hv
  obtain ⟨row, hrow, hid, -⟩ := hkept p _ v rfl hv receipt hfinds.mem
  have hc : (op.writes now v).lookup row.id = some (changed receipt (op.assign now receipt)) :=
    hid ▸ lookup_writes hinv.unique hfinds
  refine ⟨_, List.mem_map_of_mem hrow, (update_id ..).trans hid, ?_⟩
  rw [update_of_some hc, apply_at, (changed_assign_at hfinds).mpr ⟨hsets, rfl⟩]
  rfl

/-! ## Every run -/

theorem Unraced.of_append {bs : List Action} (h : Unraced s (as ++ bs)) : Unraced s as := by
  rintro pre mid post tx tx' op now now' u receipt column rfl hcommit
  exact h pre mid (post ++ bs) tx tx' op now now' u receipt column (by simp)
    (List.mem_append_left bs hcommit)

theorem Clocked.of_append {bs : List Action} (h : Clocked s (as ++ bs)) : Clocked s as := by
  rintro pre post tx op now u receipt deliveredAt rfl hcommit
  exact h pre (post ++ bs) tx op now u receipt deliveredAt (by simp)
    (List.mem_append_left bs hcommit)

/-- A commit fits the rows as they are, on such a schedule. -/
theorem fits_commit (hs : Initial s) (hrun : exec step s as = some t)
    (halong : Along step Fits s as) (hunraced : Unraced s (as ++ [.commit tx]))
    (hclocked : Clocked s (as ++ [.commit tx])) : Fits t (.commit tx) := by
  intro writes hphase receipt hr c hc
  obtain ⟨pre, op, now, mid, u, rfl, hu, rfl⟩ := exists_select hs hrun hphase
  obtain ⟨found, hfinds, hid, rfl⟩ := mem_writes hc
  obtain ⟨u', hu', hrest⟩ := exec_append_eq_some.mp hrun
  obtain rfl : u = u' := Option.some.inj (hu.symm.trans hu')
  have hinv : Inv u := Inv.of_run hs hu
  have hcolumn : ∀ column x, (changed found (op.assign now found)).at column = some x →
      receipt.at column = none ∨ receipt.at column = some x := by
    intro column x hx
    obtain ⟨hsets, rfl⟩ := (changed_assign_at hfinds).mp hx
    refine or_iff_not_imp_left.mpr fun hne ↦ ?_
    obtain ⟨y, hy⟩ := Option.ne_none_iff_exists'.mp hne
    obtain ⟨m, hm, hmid⟩ := exec_cons_eq_some.mp hrest
    obtain ⟨-, rfl⟩ := select_eq_some.mp hm
    -- the column was null when it was selected, so somebody has committed it since
    obtain ⟨b, tx', d, v, writes, c, rfl, hv, hphase', hc', hy'⟩ :=
      exists_commit (s := u.set tx _) hinv.unique hfinds.mem (hsets.null hfinds) hmid hr
        hid.symm hy
    have hb : exec step s (pre ++ .select tx op x :: b) = some v :=
      exec_append_eq_some.mpr ⟨u, hu, exec_cons_eq_some.mpr ⟨_, hm, hv⟩⟩
    obtain rfl : y = x := hunraced pre b (d ++ [.commit tx]) tx tx' op x y u found column
      (by simp) (by simp) hu hfinds hsets (takes_of_lookup hs hb hphase' hc' hy')
    exact hy
  refine ⟨hcolumn .deliveredAt, hcolumn .readAt, fun hd x d hx hrow ↦ ?_⟩
  have hread : op.Sets found .readAt ∧ x = now := (changed_assign_at hfinds).mp hx
  obtain ⟨d', hd'⟩ :=
    Option.ne_none_iff_exists'.mp (delivered_of_changed hd (hx ▸ Option.some_ne_none x))
  have hle : d' ≤ now := hclocked pre (mid ++ [.commit tx]) tx op now u found d' (by simp)
    (by simp) hu hfinds hread.1 hd'
  have honce := (writeOnce_iff_along hs _).mpr halong
  have hkept := (honce pre (.select tx op now :: mid) [] u t (by simp) hu hrest).1
  have hinvt : Inv t := Inv.of_run hs hrun
  have hfound : found.at .deliveredAt = some d' := hd'
  have hsame := hkept.at hinvt.unique hfinds.mem hfound hr hid.symm
  rw [Option.some.inj (hrow.symm.trans hsame), hread.2]
  exact hle

/-- On such a schedule all commits fit. -/
theorem along_of_schedule (hs : Initial s) (hrun : exec step s as = some t)
    (hunraced : Unraced s as) (hclocked : Clocked s as) : Along step Fits s as := by
  revert hunraced hclocked
  refine exec_history (P := fun as _ ↦ Unraced s as → Clocked s as → Along step Fits s as)
    (fun _ _ ↦ trivial) (fun {as t a u} hrun ih hu hunraced hclocked ↦ ?_) hrun
  have halong := ih hunraced.of_append hclocked.of_append
  refine halong.append hrun (.cons ?_ hu trivial)
  cases a with
  | commit tx => exact fits_commit hs hrun halong hunraced hclocked
  | create | select | abort => trivial

theorem WriteOnce.between (h : WriteOnce s as) {bs cs : List Action} (ds : List Action)
    (has : as = bs ++ (cs ++ ds)) (hu : exec step s bs = some u)
    (ht : exec step s (bs ++ cs) = some t) : Kept u t ∧ Ordered t := by
  obtain ⟨u', hu', hrest⟩ := exec_append_eq_some.mp ht
  obtain rfl : u = u' := Option.some.inj (hu.symm.trans hu')
  exact h bs cs ds u t has hu hrest

/-- What a transaction has taken is there when it has committed. -/
theorem WriteOnce.committed (h : WriteOnce s as) (hs : Initial s) (hrun : exec step s as = some t)
    (post : List Action) (has : as = pre ++ .commit tx :: post) {id : UUID}
    (htakes : Takes s pre tx now id column) : ∃ w, exec step s (pre ++ [.commit tx]) = some w ∧
      ∃ later ∈ w.receipts, later.id = id ∧ later.at column = some now := by
  obtain ⟨v, hv, hrest⟩ := exec_append_eq_some.mp (has ▸ hrun)
  obtain ⟨w, hw, -⟩ := exec_cons_eq_some.mp hrest
  refine ⟨w, exec_append_eq_some.mpr ⟨v, hv, exec_cons_eq_some.mpr ⟨w, hw, rfl⟩⟩, ?_⟩
  refine committed_of_takes hs hv (fun p q m hpre hm ↦ ?_) htakes hw
  exact (h.between (.commit tx :: post) (by simp [has, hpre]) hm (hpre ▸ hv)).1

/-- The second one of two that set the same column of a receipt writes what is there. -/
theorem WriteOnce.unraced (h : WriteOnce s as) (hs : Initial s)
    (hrun : exec step s as = some t) : Unraced s as := by
  intro pre mid post tx tx' op now now' u receipt column has hcommit hu hfinds hsets htakes
  obtain ⟨b, d, rfl⟩ := List.append_of_mem hcommit
  obtain ⟨w', hw', later', hlater', hid', hx'⟩ :=
    h.committed hs hrun (b ++ .commit tx :: d) (by simp [has]) htakes
  have htakes' : Takes s (pre ++ .select tx op now :: (mid ++ .commit tx' :: b)) tx now
      receipt.id column := ⟨pre, _, _, u, rfl, hu, op, receipt, rfl, hfinds, rfl, hsets⟩
  obtain ⟨w, hw, later, hlater, hid, hx⟩ := h.committed hs hrun d (by simp [has]) htakes'
  have hsplit : pre ++ .select tx op now :: (mid ++ .commit tx' :: b) ++ [.commit tx] =
      pre ++ .select tx op now :: mid ++ [.commit tx'] ++ (b ++ [.commit tx]) := by simp
  rw [hsplit] at hw
  have hkept : Kept w' w := (h.between d (by simp [has]) hw' hw).1
  have hsame := hkept.at (Inv.of_run hs hw).unique hlater' hx' hlater (hid.trans hid'.symm)
  exact Option.some.inj (hsame.symm.trans hx)

/-- Whoever reads a receipt that is delivered writes a time that is not before the delivery. -/
theorem WriteOnce.clocked (h : WriteOnce s as) (hs : Initial s)
    (hrun : exec step s as = some t) : Clocked s as := by
  intro pre post tx op now u receipt deliveredAt has hcommit hu hfinds hsets hdelivered
  obtain ⟨b, d, rfl⟩ := List.append_of_mem hcommit
  have htakes : Takes s (pre ++ .select tx op now :: b) tx now receipt.id .readAt :=
    ⟨pre, _, b, u, rfl, hu, op, receipt, rfl, hfinds, rfl, hsets⟩
  obtain ⟨w, hw, later, hlater, hid, hx⟩ := h.committed hs hrun d (by simp [has]) htakes
  have hsplit : pre ++ .select tx op now :: b ++ [.commit tx] =
      pre ++ (.select tx op now :: b ++ [.commit tx]) := by simp
  rw [hsplit] at hw
  obtain ⟨hkept, hordered⟩ := h.between d (by simp [has]) hu hw
  have hfound : receipt.at .deliveredAt = some deliveredAt := hdelivered
  have hd := hkept.at (Inv.of_run hs hw).unique hfinds.mem hfound hlater hid
  obtain ⟨d', hd', hle⟩ := hordered later hlater now hx
  rwa [Option.some.inj (hd'.symm.trans hd)] at hle

/-- **Receipts are written once, exactly on the schedules without a race and with clocks that are
not behind.** -/
theorem write_once_iff (hs : Initial s) (hrun : exec step s as = some t) :
    WriteOnce s as ↔ Unraced s as ∧ Clocked s as := by
  constructor
  · exact fun h ↦ ⟨h.unraced hs hrun, h.clocked hs hrun⟩
  · rintro ⟨hunraced, hclocked⟩
    exact (writeOnce_iff_along hs as).mpr (along_of_schedule hs hrun hunraced hclocked)

/-! ## Two receipts, and one that is written twice -/

/-- User 1 has sent users 2 and 3 a message. -/
def sentToTwo : State where
  messages := [⟨7, 0, 1, "hi", 3, none⟩]
  receipts := [⟨9, 7, 2, none, none⟩, ⟨10, 7, 3, none, none⟩]
  phase := fun _ ↦ .idle

theorem initial_sentToTwo : Initial sentToTwo where
  unique := by simp [sentToTwo]
  ordered := by
    intro receipt hr x hx
    rcases List.mem_pair.mp hr with rfl | rfl
    · cases hx
    · cases hx
  idle _ := rfl

/-- While the message is delivered to user 2, user 3 reads it; then user 2 does. -/
def readByBoth : List Action :=
  [.select 0 (.markDelivered 7 [2]) 5, .select 1 (.markReadThrough 0 3 3 7) 4, .commit 1,
    .commit 0, .select 2 (.markReadThrough 0 2 3 7) 6, .commit 2]

/-- Who selects, when, and what they find. -/
theorem finds_readByBoth {post : List Action}
    (has : readByBoth = pre ++ .select tx op now :: post) (hu : exec step sentToTwo pre = some u)
    (hfinds : op.Finds u receipt) :
    (op = .markDelivered 7 [2] ∧ now = 5 ∧ receipt = ⟨9, 7, 2, none, none⟩) ∨
      (op = .markReadThrough 0 3 3 7 ∧ now = 4 ∧ receipt = ⟨10, 7, 3, none, none⟩) ∨
      (op = .markReadThrough 0 2 3 7 ∧ now = 6 ∧ receipt = ⟨9, 7, 2, some 5, none⟩) := by
  obtain ⟨message, hmem⟩ := hfinds
  rcases pre with _ | ⟨_, _ | ⟨_, _ | ⟨_, _ | ⟨_, _ | ⟨_, _ | ⟨_, pre⟩⟩⟩⟩⟩⟩ <;>
    simp only [readByBoth, List.nil_append, List.cons_append, List.cons.injEq, reduceCtorEq,
      false_and, and_false, List.nil_eq, List.append_eq_nil_iff] at has
  · obtain ⟨⟨rfl, rfl, rfl⟩, -⟩ := has
    cases hu
    obtain ⟨rfl, -⟩ := Prod.mk.inj (List.mem_singleton.mp hmem)
    exact .inl ⟨rfl, rfl, rfl⟩
  · obtain ⟨rfl, ⟨rfl, rfl, rfl⟩, -⟩ := has
    cases hu
    obtain ⟨rfl, -⟩ := Prod.mk.inj (List.mem_singleton.mp hmem)
    exact .inr (.inl ⟨rfl, rfl, rfl⟩)
  · obtain ⟨rfl, rfl, rfl, rfl, ⟨rfl, rfl, rfl⟩, -⟩ := has
    cases hu
    obtain ⟨rfl, -⟩ := Prod.mk.inj (List.mem_singleton.mp hmem)
    exact .inr (.inr ⟨rfl, rfl, rfl⟩)

/-- No column of a receipt is set twice. -/
theorem unraced_readByBoth : Unraced sentToTwo readByBoth := by
  rintro pre mid post tx tx' op now now' u receipt column has - hu hfinds hsets
    ⟨pre', _, mid', u', hsplit, hu', op', receipt', rfl, hfinds', hid, hsets'⟩
  have has' : readByBoth = pre' ++ .select tx' op' now' :: (mid' ++ .commit tx' :: post) := by
    rw [has, ← List.cons_append, ← List.append_assoc, hsplit]
    simp
  rcases finds_readByBoth has hu hfinds with ⟨rfl, rfl, rfl⟩ | ⟨rfl, rfl, rfl⟩ | ⟨rfl, rfl, rfl⟩ <;>
    rcases finds_readByBoth has' hu' hfinds' with
      ⟨rfl, rfl, rfl⟩ | ⟨rfl, rfl, rfl⟩ | ⟨rfl, rfl, rfl⟩
  · rfl
  · exact absurd hid (by decide)
  · obtain rfl : column = .deliveredAt := hsets
    cases hsets'
  · exact absurd hid (by decide)
  · rfl
  · exact absurd hid (by decide)
  · obtain rfl : column = .deliveredAt := hsets'
    cases hsets
  · exact absurd hid (by decide)
  · rfl

theorem clocked_readByBoth : Clocked sentToTwo readByBoth := by
  intro pre post tx op now u receipt deliveredAt has hcommit hu hfinds hsets hdelivered
  rcases finds_readByBoth has hu hfinds with ⟨rfl, rfl, rfl⟩ | ⟨rfl, rfl, rfl⟩ | ⟨rfl, rfl, rfl⟩
  · cases hdelivered
  · cases hdelivered
  · cases hdelivered
    decide

theorem write_once_iff_readByBoth : WriteOnce sentToTwo readByBoth :=
  (write_once_iff initial_sentToTwo rfl).mpr ⟨unraced_readByBoth, clocked_readByBoth⟩

/-- User 1 has sent user 2 a message. -/
def sent : State where
  messages := [⟨7, 0, 1, "hi", 3, none⟩]
  receipts := [⟨9, 7, 2, none, none⟩]
  phase := fun _ ↦ .idle

theorem initial_sent : Initial sent where
  unique := List.pairwise_singleton ..
  ordered := by
    intro receipt hr x hx
    rw [List.mem_singleton.mp hr] at hx
    cases hx
  idle _ := rfl

/-- A delivery selects, the recipient reads the message, and the delivery commits. -/
def overlapping : List Action :=
  [.select 0 (.markDelivered 7 [2]) 6, .select 1 (.markReadThrough 0 2 3 7) 5, .commit 1]

/-- **A time of delivery can be overwritten**, and come after that of reading. -/
theorem overlapping_overwrites : ¬ ∀ s as, Initial s → WriteOnce s as := by
  intro h
  have hwrite := h sent (overlapping ++ [.commit 0]) initial_sent overlapping [.commit 0] [] _ _
    rfl rfl rfl
  obtain ⟨later, hlater, -, hdelivered, -⟩ :=
    hwrite.1 ⟨9, 7, 2, some 5, some 5⟩ (List.mem_singleton.mpr rfl)
  obtain rfl : later = ⟨9, 7, 2, some 6, some 5⟩ := List.mem_singleton.mp hlater
  exact absurd (hdelivered (Option.some_ne_none 5)) (by decide)

end Chatterbox.Receipts
