import Chatterbox.Attachments.Model

/-!
# What the row locks keep

Every operation that is going to write a row has locked it first and has looked
at the version it locked, and it holds the lock until its commit.  The invariant
says this once for all operations: `Phase.held` lists the rows an operation has
locked, in the version it read, and `Inv.held` that these are the committed
versions still.  What an operation has checked about such a row (`Phase.Ok`) is
then true of the committed row for as long as the operation runs.

The steps fall into three kinds that touch no data, `Inv.stay`, `Inv.take` and
`Inv.leave` (keep the locks, take one more, drop them all), the two that draw an
identifier (`Inv.draw`), and the commits.
-/

namespace Chatterbox.Attachments

variable {cfg : Config} {s t : State} {tx : Tx} {ph : Phase}

namespace Phase

/-- The rows an operation has locked, in the version it read. -/
def held : Phase → Locked
  | .checked id row | .measured id row _ | .scanned id row _ _ | .copied id row _ => [(id, row)]
  | .creating _ _ _ locked | .bound _ _ locked => locked
  | .selecting _ _ batch => batch
  | .removing todo deleted => todo ++ deleted
  | _ => []

/-- The identifier under which an operation is going to insert a row. -/
def pendingId : Phase → Option UUID
  | .reserved id _ | .bound id _ _ => some id
  | _ => none

/-- What an operation has established about the rows it is going to write. -/
def Ok (cfg : Config) : Phase → Prop
  | .reserved id row => row.uploadedAt = none ∧ row.messageId = none ∧
      row.storageKey = pendingKey cfg id row.conversationId row.uploaderId row.filename
  | .checked _ row | .measured _ row _ | .scanned _ row _ _ | .copied _ row _ =>
      row.uploadedAt = none
  | .finalized _ source => source.area = .pending
  | .bound _ message locked =>
      ∀ p ∈ locked, ¬ unusable message.conversationId message.senderId p.2
  | .selecting _ _ batch => ∀ p ∈ batch, p.2.messageId = none
  | .removing todo deleted => ∀ p ∈ todo ++ deleted, p.2.messageId = none
  | _ => True

theorem IsOver.held {ph : Phase} (h : ph.IsOver) : ph.held = [] := by
  cases ph <;> first | rfl | cases h

theorem IsOver.ok {ph : Phase} (h : ph.IsOver) : ph.Ok cfg := by
  cases ph <;> trivial

theorem IsOver.pendingId {ph : Phase} (h : ph.IsOver) : ph.pendingId = none := by
  cases ph <;> first | rfl | cases h

end Phase

/-- The message is there, in the attachment's conversation and by its uploader. -/
def BoundTo (s : State) (message : UUID) (row : Attachment) : Prop :=
  ∃ m, s.messages message = some m ∧ m.conversationId = row.conversationId ∧
    m.senderId = row.uploaderId

/-- What is true of every committed row. -/
structure RowOk (cfg : Config) (s : State) (id : UUID) (row : Attachment) : Prop where
  drawn : id ∈ s.drawn
  /-- A reserved attachment is unbound and has its upload key. -/
  reserved : row.uploadedAt = none → row.messageId = none ∧
    row.storageKey = pendingKey cfg id row.conversationId row.uploaderId row.filename
  /-- A finalized attachment has its delivery key. -/
  finalized : row.uploadedAt ≠ none → row.storageKey = finalKey cfg id row
  bound : ∀ m, row.messageId = some m → BoundTo s m row

/-- What every reachable state satisfies. -/
structure Inv (cfg : Config) (s : State) : Prop where
  held : ∀ q p, p ∈ (s.phase q).held → s.attachments.Holds q p.1 p.2
  ok : ∀ q, (s.phase q).Ok cfg
  drawn : ∀ q i, (s.phase q).pendingId = some i → i ∈ s.drawn
  distinct : ∀ q r i, (s.phase q).pendingId = some i → (s.phase r).pendingId = some i → q = r
  absent : ∀ q id row, s.phase q = .reserved id row → s.attachments.row id = none
  unsent : ∀ q id m l, s.phase q = .bound id m l → s.messages id = none
  rows : ∀ id row, s.attachments.row id = some row → RowOk cfg s id row

/-- Messages are only added. -/
def Sent (s t : State) : Prop := ∀ id m, s.messages id = some m → t.messages id = some m

theorem BoundTo.mono {m : UUID} {row : Attachment} (h : BoundTo s m row) (hst : Sent s t) :
    BoundTo t m row := by
  obtain ⟨msg, hm, hrest⟩ := h
  exact ⟨msg, hst m msg hm, hrest⟩

/-- A row stays as rows have to be while identifiers are drawn and messages added. -/
theorem RowOk.mono {id : UUID} {row : Attachment} (h : RowOk cfg s id row)
    (hdrawn : s.drawn ⊆ t.drawn) (hsent : Sent s t) : RowOk cfg t id row :=
  ⟨hdrawn h.drawn, h.reserved, h.finalized, fun m hm ↦ (h.bound m hm).mono hsent⟩

/-- An attachment's key names the attachment. -/
theorem RowOk.attachmentId {id : UUID} {row : Attachment} (h : RowOk cfg s id row) :
    row.storageKey.attachmentId = id := by
  by_cases hup : row.uploadedAt = none
  · rw [(h.reserved hup).2]; rfl
  · rw [h.finalized hup]; rfl

/-- A held row is a committed row. -/
theorem Inv.rowOk (h : Inv cfg s) {q : Tx} {p : UUID × Attachment}
    (hp : p ∈ (s.phase q).held) : RowOk cfg s p.1 p.2 :=
  h.rows _ _ (h.held q p hp).2

theorem Inv.eq_of_held (h : Inv cfg s) {q : Tx} {p : UUID × Attachment}
    (hp : p ∈ (s.phase q).held) {row : Attachment} (hrow : s.attachments.row p.1 = some row) :
    p.2 = row :=
  Option.some.inj ((h.held q p hp).2.symm.trans hrow)

theorem Inv.ok_of (h : Inv cfg s) (hp : s.phase tx = ph) : ph.Ok cfg := hp ▸ h.ok tx

/-- Two operations hold different rows. -/
theorem Inv.held_ne (h : Inv cfg s) {q r : Tx} {p p' : UUID × Attachment} (hqr : q ≠ r)
    (hp : p ∈ (s.phase q).held) (hp' : p' ∈ (s.phase r).held) : p.1 ≠ p'.1 := fun e ↦ by
  have h' := h.held r p' hp'
  rw [← e] at h'
  exact hqr ((h.held q p hp).unique h')

theorem Inv.initial (h : Initial s) : Inv cfg s := by
  obtain ⟨hrow, -, hph⟩ := h
  refine ⟨?_, ?_, ?_, ?_, ?_, ?_, ?_⟩ <;> intro q <;>
    simp [hph, hrow, Phase.held, Phase.Ok, Phase.pendingId]

/-! ## One operation moves -/

/-- What a step of `tx` leaves to the other operations. -/
structure Frame (s t : State) (tx : Tx) : Prop where
  phase : ∀ q, q ≠ tx → t.phase q = s.phase q
  holds : ∀ q id row, q ≠ tx → s.attachments.Holds q id row → t.attachments.Holds q id row
  absent : ∀ q id row, q ≠ tx → s.phase q = .reserved id row → t.attachments.row id = none
  unsent : ∀ q id m l, q ≠ tx → s.phase q = .bound id m l → t.messages id = none
  drawn : s.drawn ⊆ t.drawn

/-- The invariant after a step of `tx`, from what the step leaves to the others
and from what is true of `tx` and of the rows afterwards. -/
theorem Inv.frame (h : Inv cfg s) (hf : Frame s t tx) (hph : t.phase tx = ph)
    (hheld : ∀ p ∈ ph.held, t.attachments.Holds tx p.1 p.2) (hok : ph.Ok cfg)
    (hdrawn : ∀ i, ph.pendingId = some i → i ∈ t.drawn)
    (hdistinct : ∀ i, ph.pendingId = some i → ∀ q, q ≠ tx → (s.phase q).pendingId ≠ some i)
    (habsent : ∀ id row, ph = .reserved id row → t.attachments.row id = none)
    (hunsent : ∀ id m l, ph = .bound id m l → t.messages id = none)
    (hrows : ∀ id row, t.attachments.row id = some row → RowOk cfg t id row) : Inv cfg t := by
  refine ⟨?_, ?_, ?_, ?_, ?_, ?_, hrows⟩
  · intro q p hp
    by_cases e : q = tx
    · subst e; exact hheld p (hph ▸ hp)
    · rw [hf.phase q e] at hp
      exact hf.holds q _ _ e (h.held q p hp)
  · intro q
    by_cases e : q = tx
    · subst e; exact hph ▸ hok
    · rw [hf.phase q e]; exact h.ok q
  · intro q i hi
    by_cases e : q = tx
    · subst e; exact hdrawn i (hph ▸ hi)
    · rw [hf.phase q e] at hi
      exact hf.drawn (h.drawn q i hi)
  · intro q r i hq hr
    by_cases e : q = tx
    · by_cases e' : r = tx
      · rw [e, e']
      · rw [e, hph] at hq
        rw [hf.phase r e'] at hr
        exact absurd hr (hdistinct i hq r e')
    · rw [hf.phase q e] at hq
      by_cases e' : r = tx
      · rw [e', hph] at hr
        exact absurd hq (hdistinct i hr q e)
      · rw [hf.phase r e'] at hr
        exact h.distinct q r i hq hr
  · intro q id row hq
    by_cases e : q = tx
    · subst e; exact habsent id row (hph ▸ hq)
    · rw [hf.phase q e] at hq
      exact hf.absent q id row e hq
  · intro q id m l hq
    by_cases e : q = tx
    · subst e; exact hunsent id m l (hph ▸ hq)
    · rw [hf.phase q e] at hq
      exact hf.unsent q id m l e hq

/-- A step of `tx` that commits nothing: only its phase, its locks and the
bucket change. -/
structure Local (s t : State) (tx : Tx) (ph : Phase) : Prop where
  phase : t.phase = Function.update s.phase tx ph
  row : t.attachments.row = s.attachments.row
  messages : t.messages = s.messages
  drawn : t.drawn = s.drawn

theorem Inv.of_local (h : Inv cfg s) (hl : Local s t tx ph)
    (howner : ∀ q id, q ≠ tx → s.attachments.owner id = some q → t.attachments.owner id = some q)
    (hheld : ∀ p ∈ ph.held, t.attachments.Holds tx p.1 p.2) (hok : ph.Ok cfg)
    (hpending : ph.pendingId = none) : Inv cfg t := by
  have hframe : Frame s t tx := by
    refine ⟨fun q e ↦ by rw [hl.phase, Function.update_of_ne e], ?_, ?_, ?_, by rw [hl.drawn]; simp⟩
    · intro q id row e hq
      exact ⟨howner q id e hq.1, by rw [hl.row]; exact hq.2⟩
    · intro q id row _ hq
      rw [hl.row]; exact h.absent q id row hq
    · intro q id m l _ hq
      rw [hl.messages]; exact h.unsent q id m l hq
  refine h.frame hframe (by rw [hl.phase, Function.update_self]) hheld hok ?_ ?_ ?_ ?_ ?_
  · simp [hpending]
  · simp [hpending]
  · rintro id row rfl
    cases hpending
  · rintro id m l rfl
    cases hpending
  · intro id row hrow
    rw [hl.row] at hrow
    exact (h.rows id row hrow).mono (by simp [hl.drawn])
      (fun i m hm ↦ by rw [hl.messages]; exact hm)

/-- The operation goes on with the locks it has. -/
theorem Inv.stay (h : Inv cfg s) (hl : Local s t tx ph) (htab : t.attachments = s.attachments)
    (hheld : ∀ p ∈ ph.held, p ∈ (s.phase tx).held) (hok : ph.Ok cfg)
    (hpending : ph.pendingId = none) : Inv cfg t := by
  refine h.of_local hl (fun q id _ ho ↦ by rw [htab]; exact ho) ?_ hok hpending
  intro p hp
  rw [htab]
  exact h.held tx p (hheld p hp)

/-- The operation gets one more row lock. -/
theorem Inv.take (h : Inv cfg s) (hl : Local s t tx ph) {id : UUID} {row : Attachment}
    (hlock : s.attachments.lock tx id = some t.attachments)
    (hrow : s.attachments.row id = some row)
    (hheld : ∀ p ∈ ph.held, p = (id, row) ∨ p ∈ (s.phase tx).held) (hok : ph.Ok cfg)
    (hpending : ph.pendingId = none) : Inv cfg t := by
  refine h.of_local hl (fun q id _ ho ↦ Table.lock_owner_of_some hlock ho) ?_ hok hpending
  intro p hp
  rcases hheld p hp with rfl | hp
  · exact ⟨Table.lock_owner_self hlock, by rw [hl.row]; exact hrow⟩
  · exact (h.held tx p hp).lock hlock

/-- The operation ends without a commit, perhaps after one more row lock. -/
theorem Inv.leave (h : Inv cfg s) {tab : Table UUID Tx Attachment}
    (hrow : tab.row = s.attachments.row)
    (howner : ∀ q id, s.attachments.owner id = some q → tab.owner id = some q)
    (hover : ph.IsOver) : Inv cfg ({ s with attachments := tab }.close tx ph) := by
  refine h.of_local ⟨rfl, hrow, rfl, rfl⟩
    (fun q id hq ho ↦ Table.release_owner_of_ne hq (howner q id ho)) ?_ hover.ok hover.pendingId
  rw [hover.held]
  exact fun p hp ↦ absurd hp List.not_mem_nil

/-- The operation draws an identifier, under which it is going to insert a row. -/
theorem Inv.draw (h : Inv cfg s) {id : UUID} (hfresh : id ∉ s.drawn)
    (hpending : ph.pendingId = some id) (hheld : ∀ p ∈ ph.held, p ∈ (s.phase tx).held)
    (hok : ph.Ok cfg) (hunsent : ∀ m l, ph = .bound id m l → s.messages id = none) :
    Inv cfg { s.set tx ph with drawn := id :: s.drawn } := by
  refine h.frame ⟨fun q e ↦ Function.update_of_ne e .., fun _ _ _ _ hq ↦ hq, ?_, ?_, ?_⟩
    (Function.update_self ..) (fun p hp ↦ h.held tx p (hheld p hp)) hok ?_ ?_ ?_ ?_ ?_
  · exact fun q i row _ hq ↦ h.absent q i row hq
  · exact fun q i m l _ hq ↦ h.unsent q i m l hq
  · exact fun i hi ↦ List.mem_cons_of_mem _ hi
  · intro i hi
    obtain rfl := Option.some.inj (hpending.symm.trans hi)
    exact List.mem_cons_self
  · intro i hi q _ hq
    obtain rfl := Option.some.inj (hpending.symm.trans hi)
    exact hfresh (h.drawn q _ hq)
  · rintro i row rfl
    obtain rfl := Option.some.inj hpending
    cases hrow : s.attachments.row i with
    | none => exact hrow
    | some r => exact absurd (h.rows i r hrow).drawn hfresh
  · rintro i m l rfl
    obtain rfl := Option.some.inj hpending
    exact hunsent m l rfl
  · exact fun i row hrow ↦
      (h.rows i row hrow).mono (List.subset_cons_self ..) fun _ _ hm ↦ hm

/-! ## The commits -/

/-- A transaction commits: it writes rows it holds, or one that nobody else has
reserved, and every row it writes is as rows have to be. -/
theorem Inv.of_commit (h : Inv cfg s) {ws : List (UUID × Option Attachment)}
    (hph : t.phase = Function.update s.phase tx ph)
    (htab : t.attachments = s.attachments.commit tx ws) (howns : s.attachments.Owns tx ws)
    (hkeys : ∀ q id row, q ≠ tx → s.phase q = .reserved id row → ∀ w ∈ ws, w.1 ≠ id)
    (hdrawn : t.drawn = s.drawn) (hsent : Sent s t)
    (hunsent : ∀ q id m l, q ≠ tx → s.phase q = .bound id m l → t.messages id = none)
    (hheld : ph.held = []) (hok : ph.Ok cfg) (hpending : ph.pendingId = none)
    (hrows : ∀ id row, (id, some row) ∈ ws → RowOk cfg t id row) : Inv cfg t := by
  refine h.frame ⟨fun q e ↦ by rw [hph, Function.update_of_ne e], ?_, ?_, hunsent,
    by rw [hdrawn]; exact fun _ hi ↦ hi⟩ (by rw [hph, Function.update_self]) (by simp [hheld]) hok
    (by simp [hpending]) (by simp [hpending]) ?_ ?_ ?_
  · intro q id row e hq
    rw [htab]
    exact hq.commit e howns
  · intro q id row e hq
    rw [htab, Table.commit_row_of_notMem (hkeys q id row e hq)]
    exact h.absent q id row hq
  · rintro id row rfl
    cases hpending
  · rintro id m l rfl
    cases hpending
  · intro id row hrow
    rw [htab] at hrow
    rcases Table.commit_row_cases s.attachments tx ws id with ⟨v, hmem, hv⟩ | ⟨-, hsame⟩
    · exact hrows id row (by rw [← hrow, hv]; exact hmem)
    · rw [hsame] at hrow
      exact (h.rows id row hrow).mono (by simp [hdrawn]) hsent

/-- The commit of a transaction that writes rows it holds. -/
theorem Inv.of_commit_held (h : Inv cfg s) (locked : Locked)
    (write : UUID × Attachment → Option Attachment) (hlocked : (s.phase tx).held = locked)
    (hph : t.phase = Function.update s.phase tx ph)
    (htab : t.attachments = s.attachments.commit tx (locked.map fun p ↦ (p.1, write p)))
    (hdrawn : t.drawn = s.drawn) (hsent : Sent s t)
    (hunsent : ∀ q id m l, q ≠ tx → s.phase q = .bound id m l → t.messages id = none)
    (hheld : ph.held = []) (hok : ph.Ok cfg) (hpending : ph.pendingId = none)
    (hrows : ∀ p ∈ locked, RowOk cfg s p.1 p.2 → ∀ row, write p = some row →
      RowOk cfg t p.1 row) : Inv cfg t := by
  subst hlocked
  refine h.of_commit hph htab ?_ ?_ hdrawn hsent hunsent hheld hok hpending ?_
  · intro w hw
    obtain ⟨p, hp, rfl⟩ := List.mem_map.mp hw
    exact Or.inl (h.held tx p hp).1
  · rintro q id row _ hq w hw rfl
    obtain ⟨p, hp, rfl⟩ := List.mem_map.mp hw
    have hrow := (h.held tx p hp).2
    rw [h.absent q _ row hq] at hrow
    cases hrow
  · intro id row hmem
    obtain ⟨p, hp, hw⟩ := List.mem_map.mp hmem
    obtain ⟨rfl, hrow⟩ := Prod.mk.inj hw
    exact hrows p hp (h.rowOk hp) row hrow

theorem Inv.commitReserved (h : Inv cfg s) {id : UUID} {row : Attachment}
    (hp : s.phase tx = .reserved id row) : Inv cfg { s.set tx .done with
      attachments := s.attachments.commit tx [(id, some { row with createdAt := s.now })] } := by
  have hok := h.ok_of hp
  refine h.of_commit rfl rfl ?_ ?_ rfl (fun _ _ hm ↦ hm)
    (fun q i m l _ hq ↦ h.unsent q i m l hq) rfl trivial rfl ?_
  · intro w hw
    obtain rfl := List.mem_singleton.mp hw
    exact Or.inr (h.absent tx id row hp)
  · rintro q i row' e hq w hw rfl
    obtain rfl := List.mem_singleton.mp hw
    exact e (h.distinct q tx id (by rw [hq]; rfl) (by rw [hp]; rfl))
  · intro i row' hmem
    obtain ⟨rfl, hrow⟩ := Prod.mk.inj (List.mem_singleton.mp hmem)
    obtain rfl := Option.some.inj hrow
    refine ⟨h.drawn tx i (by rw [hp]; rfl), fun _ ↦ ⟨hok.2.1, hok.2.2⟩,
      fun hup ↦ absurd hok.1 hup, fun m hm ↦ ?_⟩
    rw [hok.2.1] at hm
    cases hm

theorem Inv.commitCopied (h : Inv cfg s) {id : UUID} {row : Attachment} {read : Option CleanRead}
    (hp : s.phase tx = .copied id row read) : Inv cfg { s.set tx (.finalized id row.storageKey) with
      attachments := s.attachments.commit tx [(id, some (promote cfg id s.now row))] } := by
  have hok := h.ok_of hp
  have hrowOk : RowOk cfg s id row := h.rowOk (p := (id, row)) (by rw [hp]; exact .head _)
  refine h.of_commit_held [(id, row)] (fun p ↦ some (promote cfg p.1 s.now p.2)) (by rw [hp]; rfl)
    rfl rfl rfl (fun _ _ hm ↦ hm) (fun q i m l _ hq ↦ h.unsent q i m l hq) rfl
    (by rw [(hrowOk.reserved hok).2]; rfl) rfl ?_
  rintro p hmem hrow _ ⟨rfl⟩
  obtain rfl := List.mem_singleton.mp hmem
  refine ⟨hrow.drawn, fun hup ↦ (by cases hup), fun _ ↦ rfl, fun m hm ↦ ?_⟩
  have hnone := (hrow.reserved hok).1
  rw [show row.messageId = some m from hm] at hnone
  cases hnone

theorem Inv.commitBound (h : Inv cfg s) {id : UUID} {message : Message} {locked : Locked}
    (hp : s.phase tx = .bound id message locked) : Inv cfg { s.set tx .done with
      messages := Function.update s.messages id (some message)
      attachments := s.attachments.commit tx
        (locked.map fun p ↦ (p.1, some (bindTo id p.2))) } := by
  have hok := h.ok_of hp
  have hnone := h.unsent tx id message locked hp
  refine h.of_commit_held locked (fun p ↦ some (bindTo id p.2)) (by rw [hp]; rfl) rfl rfl rfl
    ?_ ?_ rfl trivial rfl ?_
  · intro i m hm
    have hi : i ≠ id := by
      rintro rfl
      rw [hnone] at hm
      cases hm
    rw [← hm]
    exact Function.update_of_ne hi ..
  · intro q i m l e hq
    have hi : i ≠ id := by
      rintro rfl
      exact e (h.distinct q tx i (by rw [hq]; rfl) (by rw [hp]; rfl))
    exact (Function.update_of_ne hi ..).trans (h.unsent q i m l hq)
  · rintro p hmem hrow _ ⟨rfl⟩
    have huse := hok p hmem
    simp only [unusable, not_or, not_not] at huse
    refine ⟨hrow.drawn, fun hup ↦ absurd hup huse.2.2.1, hrow.finalized, ?_⟩
    rintro m ⟨rfl⟩
    exact ⟨message, Function.update_self .., huse.1.symm, huse.2.1.symm⟩

theorem Inv.commit (h : Inv cfg s) (ht : Commit cfg s tx t) : Inv cfg t := by
  cases ht with
  | reserved phase => exact h.commitReserved phase
  | copied phase => exact h.commitCopied phase
  | bound phase => exact h.commitBound phase
  | @removing deleted phase =>
      refine h.of_commit_held deleted (fun _ ↦ none) (by rw [phase]; rfl) rfl rfl rfl
        (fun _ _ hm ↦ hm) (fun q i m l _ hq ↦ h.unsent q i m l hq) rfl trivial rfl ?_
      rintro p _ _ row ⟨⟩

/-! ## Every step -/

/-- Time passes, or a client uploads. -/
theorem Inv.of_idle (h : Inv cfg s) (hphase : t.phase = s.phase)
    (htab : t.attachments = s.attachments) (hmessages : t.messages = s.messages)
    (hdrawn : t.drawn = s.drawn) : Inv cfg t := by
  have hsent : Sent s t := fun id m hm ↦ by rw [hmessages]; exact hm
  refine ⟨?_, ?_, ?_, ?_, ?_, ?_, ?_⟩
  all_goals simp only [hphase, htab, hmessages, hdrawn]
  · exact h.held
  · exact h.ok
  · exact h.drawn
  · exact h.distinct
  · exact h.absent
  · exact h.unsent
  · exact fun id row hrow ↦ (h.rows id row hrow).mono (by rw [hdrawn]; exact fun _ hi ↦ hi) hsent

/-- The rows still to be removed and those that have been are rows the operation held. -/
theorem Inv.remove (h : Inv cfg s) {todo deleted todo' deleted' : Locked}
    (hp : s.phase tx = .removing todo deleted)
    (hl : Local s t tx (.removing todo' deleted')) (htab : t.attachments = s.attachments)
    (hsub : ∀ p ∈ todo' ++ deleted', p ∈ todo ++ deleted) : Inv cfg t := by
  have hok := h.ok_of hp
  refine h.stay hl htab (fun p hm ↦ ?_) (fun p hm ↦ hok p (hsub p hm)) rfl
  rw [hp]
  exact hsub p hm

/-- **The invariant survives every step.** -/
theorem Inv.step (h : Inv cfg s) {a : Action} (ht : Attachments.step cfg s a = some t) :
    Inv cfg t := by
  cases Move.of_step ht with
  | tick | put => exact h.of_idle rfl rfl rfl rfl
  | ended isOver => exact h.leave rfl (fun _ _ ho ↦ ho) isOver
  | unlocked lock isOver =>
      exact h.leave (Table.lock_row lock) (fun _ _ ho ↦ Table.lock_owner_of_some lock ho) isOver
  | reserve phase fresh => exact h.draw fresh rfl (fun _ hp ↦ by cases hp) ⟨rfl, rfl, rfl⟩ nofun
  | flushed phase usable fresh unsent =>
      exact h.draw fresh rfl (fun p hm ↦ by rw [phase]; exact hm) usable fun _ _ _ ↦ unsent
  | checked phase found lock pending =>
      exact h.take ⟨rfl, Table.lock_row lock, rfl, rfl⟩ lock found
        (fun p hm ↦ Or.inl (List.mem_singleton.mp hm)) pending rfl
  | locked phase found lock =>
      refine h.take ⟨rfl, Table.lock_row lock, rfl, rfl⟩ lock found (fun p hm ↦ ?_) trivial rfl
      rw [phase]
      exact List.mem_cons.mp hm
  | picked phase found unbound lock =>
      refine h.take ⟨rfl, Table.lock_row lock, rfl, rfl⟩ lock found (fun p hm ↦ ?_)
        (List.forall_mem_cons.mpr ⟨unbound.1, h.ok_of phase⟩) rfl
      rw [phase]
      exact List.mem_cons.mp hm
  | measured phase | unscanned phase | scanned phase | copied phase =>
      have hok := h.ok_of phase
      exact h.stay ⟨rfl, rfl, rfl, rfl⟩ rfl (fun p hm ↦ by rw [phase]; exact hm) hok rfl
  | complete | removeSource | create | dropped =>
      exact h.stay ⟨rfl, rfl, rfl, rfl⟩ rfl (fun _ hm ↦ by cases hm) trivial rfl
  | cleanup =>
      exact h.stay ⟨rfl, rfl, rfl, rfl⟩ rfl (fun _ hm ↦ by cases hm) (fun _ hm ↦ by cases hm) rfl
  | skipped phase =>
      exact h.stay ⟨rfl, rfl, rfl, rfl⟩ rfl (fun p hm ↦ by rw [phase]; exact hm) trivial rfl
  | @selected tx _ _ batch phase =>
      have hbatch : ∀ p ∈ batch ++ [], p ∈ batch := fun p hm ↦ by rwa [List.append_nil] at hm
      exact h.stay ⟨rfl, rfl, rfl, rfl⟩ rfl (fun p hm ↦ by rw [phase]; exact hbatch p hm)
        (fun p hm ↦ h.ok_of phase p (hbatch p hm)) rfl
  | removed phase => exact h.remove phase ⟨rfl, rfl, rfl, rfl⟩ rfl (by simp; tauto)
  | kept phase => exact h.remove phase ⟨rfl, rfl, rfl, rfl⟩ rfl (by simp; tauto)
  | commit committed => exact h.commit committed

theorem Inv.of_reachable {s₀ : State} (h₀ : Initial s₀) {as : List Action}
    (hrun : exec (Attachments.step cfg) s₀ as = some s) : Inv cfg s :=
  exec_invariant (P := Inv cfg) (fun h ht ↦ h.step ht) (.initial h₀) hrun

end Chatterbox.Attachments
