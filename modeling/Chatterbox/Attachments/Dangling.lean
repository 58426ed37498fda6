import Chatterbox.Attachments.Scan

/-!
# An object for every bound attachment

The bucket is not part of the transaction.  `complete` writes to it before its
commit and removes from it after; `cleanup_abandoned` removes the objects first and
commits the deletion of their rows afterwards.  When it stops in between, the rows
are back and their objects are not, and a row of an uploaded attachment that has
come back can be bound to a message like any other.

This is the only way to an attachment without its object: there is none after runs
in which no cleanup stops while the row of an uploaded attachment of which it has
removed the object is still to be deleted (`Finished`, `no_dangling_attachment`).
The invariant allows a finalized row without an object in exactly that situation
(`Kept`); the row lock keeps everybody else from binding it meanwhile.
-/

namespace Chatterbox.Attachments

variable {cfg : Config} {s t : State} {a : Action} {q : Tx} {id : UUID} {row : Attachment}
  {key : StorageKey}

/-- A cleanup that stops has not removed the object of an uploaded attachment. -/
def Finished (s : State) : Action → Prop
  | .abort tx => ∀ todo deleted, s.phase tx = .removing todo deleted →
      ∀ p ∈ deleted, p.2.uploadedAt = none
  | _ => True

/-- Some cleanup has removed the object of the attachment, and is going to delete the
row. -/
def Doomed (s : State) (id : UUID) : Prop :=
  ∃ q todo deleted, s.phase q = .removing todo deleted ∧ ∃ p ∈ deleted, p.1 = id

/-- The object of the attachment is there, or its row goes as well. -/
def Kept (s : State) (id : UUID) (key : StorageKey) : Prop :=
  (s.bucket key).isSome ∨ Doomed s id

/-- Every finalized attachment has its object, and so has one that is about to be
finalized. -/
structure Backed (cfg : Config) (s : State) : Prop where
  rows : ∀ id row, s.attachments.row id = some row → row.uploadedAt ≠ none →
    Kept s id row.storageKey
  copied : ∀ q id row read, s.phase q = .copied id row read →
    (s.bucket (finalKey cfg id row)).isSome

theorem Backed.initial (h : Initial s) : Backed cfg s where
  rows id row hrow := by
    rw [h.1 id] at hrow
    cases hrow
  copied q id row read hq := by
    rw [h.2.2 q] at hq
    cases hq

/-! ## What becomes of an operation between the two stores -/

/-- The operation has changed one of the two stores and is going to change the other. -/
def Phase.IsBetween : Phase → Prop
  | .copied .. | .finalized .. | .removing .. => True
  | _ => False

/-- An operation between the two stores stays there until it goes on by itself or stops. -/
theorem between_of_step (ht : step cfg s a = some t) (hq : (s.phase q).IsBetween) :
    t.phase q = s.phase q ∨ (∃ ok, a = .removeNext q ok) ∨ (∃ ok, a = .removeSource q ok) ∨
      a = .commit q ∨ a = .abort q := by
  by_cases hop : a.operation = some q
  · cases a with
    | tick | put => cases hop
    | removeNext tx ok =>
        cases hop
        exact .inr (.inl ⟨ok, rfl⟩)
    | removeSource tx ok =>
        cases hop
        exact .inr (.inr (.inl ⟨ok, rfl⟩))
    | commit tx =>
        cases hop
        exact .inr (.inr (.inr (.inl rfl)))
    | abort tx =>
        cases hop
        exact .inr (.inr (.inr (.inr rfl)))
    | reserve | complete | lockRow | stat | scan | copy | create | lockNext | flush | cleanup
    | pickNext | selected =>
        cases hop
        cases hph : s.phase q with
        | copied | finalized | removing =>
            simp [step, reserve, lockRow, stat, scan, copy, create, lockNext, flush, pickNext,
              hph] at ht
        | _ =>
            rw [hph] at hq
            cases hq
  · exact .inl (phase_of_step ht hop)

theorem Phase.IsOver.ne_of_isBetween {ph ph' : Phase} (h : ph'.IsOver) (hph : ph.IsBetween) :
    ph' ≠ ph := by
  rintro rfl
  cases ph' <;> first | exact False.elim h | exact False.elim hph

/-- A completion that has copied waits for its commit. -/
theorem copied_of_step {read : Option CleanRead} (ht : step cfg s a = some t)
    (hq : t.phase q = .copied id row read) :
    s.phase q = .copied id row read ∨ (t.bucket (finalKey cfg id row)).isSome := by
  cases Move.of_step ht with
  | tick | put => exact .inl hq
  | ended isOver => exact .inl (phase_back rfl hq (isOver.ne_of_isBetween trivial))
  | unlocked lock isOver => exact .inl (phase_back rfl hq (isOver.ne_of_isBetween trivial))
  | @copied tx id' row' etag read' object phase stored same =>
      by_cases hnew : Phase.copied id' row' read' = .copied id row read
      · cases hnew
        exact .inr (by simp)
      · exact .inl (phase_back rfl hq hnew)
  | commit committed =>
      cases committed <;> exact .inl (phase_back rfl hq nofun)
  | reserve | complete | checked | measured | unscanned | scanned | removeSource | create | skipped
  | locked | flushed | cleanup | picked | selected | removed | kept | dropped =>
      exact .inl (phase_back rfl hq nofun)

/-! ## One step -/

/-- Where a cleanup does not stop too early, a doomed attachment stays doomed until
its row goes. -/
theorem Doomed.step (h : Doomed s id) (hi : Inv cfg s) (hok : Finished s a)
    (ht : Attachments.step cfg s a = some t) (hrow : s.attachments.row id = some row)
    (hup : row.uploadedAt ≠ none) : Doomed t id ∨ t.attachments.row id = none := by
  obtain ⟨q, todo, deleted, hq, p, hp, rfl⟩ := h
  rcases between_of_step ht (by rw [hq]; trivial) with
    hstays | ⟨ok, rfl⟩ | ⟨ok, rfl⟩ | rfl | rfl
  · exact .inl ⟨q, todo, deleted, hstays.trans hq, p, hp, rfl⟩
  · cases todo with
    | nil => simp [Attachments.step, removeNext, hq] at ht
    | cons p' todo' =>
        simp only [Attachments.step, removeNext, hq] at ht
        split at ht
        · cases ht
          exact .inl ⟨q, todo', p' :: deleted, Function.update_self .., p, .tail _ hp, rfl⟩
        · cases ht
          exact .inl ⟨q, todo', deleted, Function.update_self .., p, hp, rfl⟩
  · simp [Attachments.step, removeSource, hq] at ht
  · cases Commit.of_commit ht with
    | reserved phase | copied phase | bound phase => cases hq.symm.trans phase
    | removing phase =>
        cases hq.symm.trans phase
        refine .inr ?_
        rcases Table.commit_row_cases s.attachments q (deleted.map fun p ↦ (p.1, none)) p.1 with
          ⟨v, hmem, hv⟩ | ⟨hne, -⟩
        · obtain ⟨p', -, e⟩ := List.mem_map.mp hmem
          obtain ⟨-, rfl⟩ := Prod.mk.inj e
          exact hv
        · exact absurd rfl (hne _ (List.mem_map_of_mem hp))
  · have hheld : p ∈ (s.phase q).held := by
      rw [hq]
      exact List.mem_append_right _ hp
    exact absurd (hi.eq_of_held hheld hrow ▸ hok todo deleted hq p hp) hup

/-- The object of a finalized attachment is there until the row goes. -/
theorem Kept.step (h : Kept s id key) (hi : Inv cfg s) (hok : Finished s a)
    (ht : Attachments.step cfg s a = some t) (hrow : s.attachments.row id = some row)
    (hup : row.uploadedAt ≠ none) (hkey : row.storageKey = key) :
    Kept t id key ∨ t.attachments.row id = none := by
  have hfinal : key = finalKey cfg id row := hkey.symm.trans ((hi.rows id row hrow).finalized hup)
  rcases h with hstored | hdoomed
  · have harea : key.area = .objects := by rw [hfinal]; rfl
    rcases step_bucket ht harea with
      hsame | ⟨tx, i, r, etag, read, hp, hk⟩ | ⟨tx, i, hp⟩ |
      ⟨tx, p, todo, deleted, hp, hk, hafter, -⟩
    · exact .inl (.inl (hsame ▸ hstored))
    · -- a completion has locked a row that is not finalized
      have hheld : (i, r) ∈ (s.phase tx).held := by rw [hp]; exact .head _
      obtain rfl : i = id := congrArg StorageKey.attachmentId (hk.symm.trans hfinal)
      exact absurd (hi.eq_of_held hheld hrow ▸ hi.ok_of hp) hup
    · have hpending := hi.ok_of hp
      rw [Phase.Ok, harea] at hpending
      cases hpending
    · have hheld : p ∈ (s.phase tx).held := by rw [hp]; exact .head _
      have hid : p.1 = id := by rw [← (hi.rowOk hheld).attachmentId, hk, hfinal]; rfl
      exact .inl (.inr ⟨tx, todo, p :: deleted, hafter, p, List.mem_cons_self, hid⟩)
  · exact (hdoomed.step hi hok ht hrow hup).imp_left .inr

theorem Backed.step (h : Backed cfg s) (hi : Inv cfg s) (hok : Finished s a)
    (ht : Attachments.step cfg s a = some t) : Backed cfg t where
  copied q id row read hq := by
    rcases copied_of_step ht hq with hold | hnew
    · rw [hi.finalKey_bucket ht hold]
      exact h.copied q id row read hold
    · exact hnew
  rows id row hrow hup := by
    have hstays : ∀ old, s.attachments.row id = some old → old.uploadedAt ≠ none →
        Kept t id old.storageKey := fun old hold hup' ↦ by
      rcases (h.rows id old hold hup').step hi hok ht hold hup' rfl with hkept | hgone
      · exact hkept
      · rw [hgone] at hrow
        cases hrow
    have hevolves := step_evolves hi ht id
    rw [hrow] at hevolves
    generalize hold : s.attachments.row id = r at hevolves
    cases hevolves with
    | same => exact hstays row hold hup
    | reserve hnone => exact absurd hnone hup
    | @finalize old now hnone =>
        obtain ⟨tx, old', read, hp, -, hbucket, e⟩ :=
          hi.finalizes_cases ht ⟨⟨old, hold, hnone⟩, hrow, hup⟩
        rw [e]
        exact .inl (hbucket ▸ h.copied tx id old' read hp)
    | @bind old message hup' => exact hstays old hold hup'

/-- **No attachment without its object.**  After a run in which no cleanup stops while
it has removed the object of an uploaded attachment, every attachment that is bound to a
message has an object stored under its key. -/
theorem no_dangling_attachment {s₀ : State} (h₀ : Initial s₀) {as : List Action}
    (hok : Along (Attachments.step cfg) Finished s₀ as)
    (hrun : exec (Attachments.step cfg) s₀ as = some s) {message : UUID}
    (hrow : s.attachments.row id = some row) (hbound : row.messageId = some message) :
    (s.bucket row.storageKey).isSome := by
  have h : Inv cfg s ∧ Backed cfg s :=
    exec_induction (P := fun u ↦ Inv cfg u ∧ Backed cfg u)
      (fun hu hok' hu' ↦ ⟨hu.1.step hu', hu.2.step hu.1 hok' hu'⟩)
      ⟨.initial h₀, .initial h₀⟩ hrun hok
  have hup : row.uploadedAt ≠ none := fun hnone ↦ by
    have hunbound := ((h.1.rows id row hrow).reserved hnone).1
    rw [hbound] at hunbound
    cases hunbound
  rcases h.2.rows id row hrow hup with hstored | ⟨q, todo, deleted, hq, p, hp, rfl⟩
  · exact hstored
  · -- a cleanup holds unbound rows only
    have hheld : p ∈ (s.phase q).held := by
      rw [hq]
      exact List.mem_append_right _ hp
    have hunbound := h.1.ok_of hq p (List.mem_append_right _ hp)
    rw [h.1.eq_of_held hheld hrow, hbound] at hunbound
    cases hunbound

theorem no_dangling_attachment_sending :
    ∃ s row, exec (Attachments.step unscanned) empty sending = some s ∧
      s.attachments.row 7 = some row ∧ row.messageId = some 8 ∧
        (s.bucket row.storageKey).isSome := by
  have h₀ : Initial empty := ⟨fun _ ↦ rfl, fun _ ↦ rfl, fun _ ↦ rfl⟩
  have hok : Along (Attachments.step unscanned) Finished empty sending := by
    repeat' first
      | exact trivial
      | refine ⟨trivial, fun _ _ ↦ ?_⟩
  exact ⟨_, _, rfl, rfl, rfl,
    @no_dangling_attachment unscanned _ 7 _ empty h₀ sending hok rfl 8 rfl rfl⟩

/-! ## A cleanup that stops too early -/

/-- User 2 uploads attachment 7.  A cleanup removes its object and stops before its
commit; then user 2 sends the attachment in message 8. -/
def stopping : List Action :=
  sending.take 10 ++ [.tick 1, .cleanup 3 1 100, .pickNext 3 7, .selected 3, .removeNext 3 true,
    .abort 3] ++ sending.drop 10

theorem stopped_cleanup_leaves_dangling : Initial empty ∧
    ∃ s row, exec (Attachments.step unscanned) empty stopping = some s ∧
      s.attachments.row 7 = some row ∧ row.messageId = some 8 ∧
        s.bucket row.storageKey = none := by
  have h₀ : Initial empty := ⟨fun _ ↦ rfl, fun _ ↦ rfl, fun _ ↦ rfl⟩
  exact ⟨h₀, _, _, rfl, rfl, rfl, rfl⟩

/-! ## The condition is exact -/

/-- What a cleanup has removed of uploaded attachments is not stored. -/
def Removed (s : State) : Prop :=
  ∀ q todo deleted, s.phase q = .removing todo deleted → ∀ p ∈ deleted, p.2.uploadedAt ≠ none →
    s.bucket p.2.storageKey = none

theorem Removed.initial (h : Initial s) : Removed s := by
  intro q todo deleted hq
  rw [h.2.2 q] at hq
  cases hq

/-- A cleanup had removed the object before the step, or removes it with the step. -/
theorem deleted_of_phase (ht : step cfg s a = some t) {todo deleted : Locked}
    (hq : t.phase q = .removing todo deleted) {p : UUID × Attachment} (hp : p ∈ deleted) :
    (∃ todo' deleted', s.phase q = .removing todo' deleted' ∧ p ∈ deleted') ∨
      t.bucket p.2.storageKey = none := by
  cases Move.of_step ht with
  | tick | put => exact .inl ⟨todo, deleted, hq, hp⟩
  | ended isOver =>
      exact .inl ⟨todo, deleted, phase_back rfl hq (isOver.ne_of_isBetween trivial), hp⟩
  | unlocked lock isOver =>
      exact .inl ⟨todo, deleted, phase_back rfl hq (isOver.ne_of_isBetween trivial), hp⟩
  | commit committed =>
      cases committed <;> exact .inl ⟨todo, deleted, phase_back rfl hq nofun, hp⟩
  | @selected tx _ _ batch =>
      by_cases hnew : Phase.removing batch [] = .removing todo deleted
      · cases hnew
        cases hp
      · exact .inl ⟨todo, deleted, phase_back rfl hq hnew, hp⟩
  | @removed tx p' todo' deleted' phase =>
      rcases phase_cases rfl hq with ⟨rfl, hnew⟩ | hold
      · cases hnew
        rcases List.mem_cons.mp hp with rfl | hp
        · exact .inr (Function.update_self ..)
        · exact .inl ⟨_, _, phase, hp⟩
      · exact .inl ⟨todo, deleted, hold, hp⟩
  | @kept tx p' todo' deleted' phase =>
      rcases phase_cases rfl hq with ⟨rfl, hnew⟩ | hold
      · cases hnew
        exact .inl ⟨_, _, phase, hp⟩
      · exact .inl ⟨todo, deleted, hold, hp⟩
  | reserve | complete | checked | measured | unscanned | scanned | copied | removeSource | create
  | skipped | locked | flushed | cleanup | picked | dropped =>
      exact .inl ⟨todo, deleted, phase_back rfl hq nofun, hp⟩

theorem Removed.step (h : Removed s) (hi : Inv cfg s) (ht : Attachments.step cfg s a = some t) :
    Removed t := by
  intro q todo deleted hq p hp hup
  rcases deleted_of_phase ht hq hp with ⟨todo', deleted', hq', hp'⟩ | hgone
  · have hheld : p ∈ (s.phase q).held := by
      rw [hq']
      exact List.mem_append_right _ hp'
    have hfinal := (hi.rowOk hheld).finalized hup
    have harea : p.2.storageKey.area = .objects := by rw [hfinal]; rfl
    rcases step_bucket ht harea with
      hsame | ⟨tx, i, r, etag, read, hscan, hk⟩ | ⟨tx, i, hscan⟩ | ⟨_, _, _, _, -, -, -, hnone⟩
    · rw [hsame]
      exact h q todo' deleted' hq' p hp' hup
    · -- nobody else can have locked the row
      have hheld' : (i, r) ∈ (s.phase tx).held := by rw [hscan]; exact .head _
      have hne : q ≠ tx := by rintro rfl; rw [hscan] at hq'; cases hq'
      exact absurd (congrArg StorageKey.attachmentId (hfinal.symm.trans hk))
        (hi.held_ne hne hheld hheld')
    · have hpending := hi.ok_of hscan
      rw [Phase.Ok, harea] at hpending
      cases hpending
    · exact hnone
  · exact hgone

/-- After a cleanup that stops where it may not, an uploaded attachment is there to be
bound, and its object is gone. -/
theorem dangling_of_stop {s₀ : State} (h₀ : Initial s₀) {as : List Action}
    (hrun : exec (Attachments.step cfg) s₀ as = some s) {tx : Tx} (hstop : ¬ Finished s (.abort tx))
    (ht : Attachments.step cfg s (.abort tx) = some t) : ∃ id row,
      t.attachments.row id = some row ∧ row.uploadedAt ≠ none ∧ row.messageId = none ∧
        t.bucket row.storageKey = none := by
  have h : Inv cfg s ∧ Removed s :=
    exec_invariant (P := fun u ↦ Inv cfg u ∧ Removed u)
      (fun hu hu' ↦ ⟨hu.1.step hu', hu.2.step hu.1 hu'⟩) ⟨.initial h₀, .initial h₀⟩ hrun
  simp only [Finished, not_forall] at hstop
  obtain ⟨todo, deleted, hq, p, hp, hup⟩ := hstop
  have hheld : p ∈ (s.phase tx).held := by
    rw [hq]
    exact List.mem_append_right _ hp
  simp only [Attachments.step, hq, Option.some.injEq] at ht
  subst ht
  exact ⟨p.1, p.2, (h.1.held tx p hheld).2, hup, h.1.ok_of hq p (List.mem_append_right _ hp),
    h.2 tx todo deleted hq p hp hup⟩

end Chatterbox.Attachments
