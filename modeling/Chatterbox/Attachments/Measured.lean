import Chatterbox.Attachments.Dangling

/-!
# What is delivered, and what was measured

The size that `complete` compares with the declared one is that of the staging object
at the time of `stat`.  The copy is made later, of what the object holds by then, and
the client may have uploaded something else in between.  Here the ETag is the tie that
is missing for the scanner: the copy is made only of a content with the ETag that
`stat` saw, and where equal ETags mean equal contents this is the content that was
measured (`Measured`).

From the copy on nobody writes to the delivery key: clients upload under the other
prefix, and a completion writes only under the key of a row that it has locked and
found not finalized.

Only a commit writes rows, and a completion that raises does so before its commit, with
one exception.  What `storage.remove` raises behind it is caught by `except Exception`,
but a cancellation is not caught: the completion raises, and the row is finalized.

| | |
|---|---|
| `finalized_is_measured` | the object has the declared size, from the commit on |
| `failed_changes_nothing` | what raises has written no row, or has been stopped behind its commit |
| `cancelled_changes` | a completion that is cancelled behind its commit |
-/

namespace Chatterbox.Attachments

variable {cfg : Config} {s t : State} {a : Action} {q tx : Tx} {id : UUID} {row : Attachment}
  {key : StorageKey}

/-! ## Downloads -/

/-- `AttachmentService.authorize_download`. -/
def authorizeDownload (cfg : Config) (s : State) (id userId : UUID) : Except AppError Attachment :=
  match s.attachments.row id with
  | none => .error attachmentNotFound
  | some row =>
      if row.messageId = none ∨ row.uploadedAt = none then .error attachmentNotFound
      else (getAuthorized cfg.members row.conversationId userId).map fun _ ↦ row

/-- What the route `download_attachment` answers with. -/
structure Download where
  mediaType : String
  contentLength : Nat
  body : Bytes

/-- The answer, once `storage.get` has found the object. -/
def download (row : Attachment) (object : Object) : Download where
  mediaType := row.mimeType
  contentLength := row.fileSize
  body := object.content

theorem authorizeDownload_eq_ok {userId : UUID} (h : authorizeDownload cfg s id userId = .ok row) :
    s.attachments.row id = some row ∧ row.uploadedAt ≠ none := by
  unfold authorizeDownload at h
  split at h
  · cases h
  · rename_i found
    split at h
    · cases h
    · rename_i hready
      cases hauth : getAuthorized cfg.members _ userId with
      | error e =>
          rw [hauth] at h
          cases h
      | ok c =>
          rw [hauth] at h
          cases h
          exact ⟨found, fun hup ↦ hready (.inr hup)⟩

/-! ## Nobody writes to a delivery key -/

/-- The key of a finalized attachment is written by no step.  A cleanup may remove the
object. -/
theorem Inv.delivered_bucket (h : Inv cfg s) (ht : Attachments.step cfg s a = some t)
    (harea : key.area = .objects)
    (hfinal : ∀ r, s.attachments.row key.attachmentId = some r → r.uploadedAt ≠ none) :
    t.bucket key = s.bucket key ∨ t.bucket key = none := by
  rcases step_bucket ht harea with
    hsame | ⟨tx, i, r, etag, read, hp, hk⟩ | ⟨tx, i, hp⟩ | ⟨_, _, _, _, -, -, -, hnone⟩
  · exact .inl hsame
  · -- a completion has locked a row that is not finalized
    have hheld : (i, r) ∈ (s.phase tx).held := by rw [hp]; exact .head _
    have hi : key.attachmentId = i := congrArg StorageKey.attachmentId hk
    exact absurd (h.ok_of hp) (hfinal r (hi ▸ (h.held tx _ hheld).2))
  · have hpending := h.ok_of hp
    rw [Phase.Ok, harea] at hpending
    cases hpending
  · exact .inr hnone

/-- The delivery key of a finalized attachment. -/
theorem Inv.deliveryKey (h : Inv cfg s) (hrow : s.attachments.row id = some row)
    (hup : row.uploadedAt ≠ none) :
    row.storageKey.area = .objects ∧ row.storageKey.attachmentId = id := by
  rw [(h.rows id row hrow).finalized hup]
  exact ⟨rfl, rfl⟩

/-- Over a whole run the object of a finalized attachment is as it was, or removed. -/
theorem Inv.delivered_run (h : Inv cfg s) (hrow : s.attachments.row id = some row)
    (hup : row.uploadedAt ≠ none) {as : List Action}
    (hrun : exec (Attachments.step cfg) s as = some t) :
    t.bucket row.storageKey = s.bucket row.storageKey ∨ t.bucket row.storageKey = none := by
  obtain ⟨harea, hid⟩ := h.deliveryKey hrow hup
  refine (exec_invariant (P := fun u ↦ (Inv cfg u ∧ Used u id) ∧
      Descends row (u.attachments.row id) ∧
        (u.bucket row.storageKey = s.bucket row.storageKey ∨ u.bucket row.storageKey = none))
    ?_ ⟨⟨h, h.used hrow⟩, hrow ▸ .refl row, .inl rfl⟩ hrun).2.2
  rintro u a v ⟨⟨hi, hu⟩, hd, hb⟩ hstep
  refine ⟨⟨hi.step hstep, hu.step hstep⟩, ?_, ?_⟩
  · have hlast : exec (Attachments.step cfg) u [a] = some v :=
      exec_cons_eq_some.mpr ⟨v, hstep, rfl⟩
    cases hcur : u.attachments.row id with
    | none =>
        rw [row_stays_deleted hi hu hcur hlast]
        exact hcur ▸ hd
    | some r =>
        rw [hcur] at hd
        exact hd.evolve (hcur ▸ step_evolves hi hstep id)
  · have hfinal : ∀ r, u.attachments.row row.storageKey.attachmentId = some r →
        r.uploadedAt ≠ none := by
      intro r hr
      rw [hid] at hr
      rw [hr] at hd
      rcases hd.2.1 with ⟨-, hsame⟩ | ⟨hnone, -⟩
      · rwa [hsame]
      · exact absurd hnone hup
    rcases hi.delivered_bucket hstep harea hfinal with hsame | hgone
    · exact hsame ▸ hb
    · exact .inr hgone

/-! ## What the ETag says about the size -/

/-- Whatever has the ETag has the declared size. -/
def Sized (cfg : Config) (row : Attachment) (etag : ETag) : Prop :=
  ∀ content, cfg.etag content = etag → content.length = row.fileSize

/-- What is stored under the key, if anything, has the declared size. -/
def Fits (s : State) (key : StorageKey) (row : Attachment) : Prop :=
  ∀ object, s.bucket key = some object → object.content.length = row.fileSize

theorem Fits.of_stored {object : Object} (h : s.bucket key = some object)
    (hsize : object.content.length = row.fileSize) : Fits s key row := by
  intro object' h'
  obtain rfl := Option.some.inj (h.symm.trans h')
  exact hsize

/-- Between `stat` and the commit a completion has in hand an ETag, and then a copy, of
an object of the declared size; the object of a finalized attachment has that size. -/
structure Measured (cfg : Config) (s : State) : Prop where
  measured : ∀ q id row etag, s.phase q = .measured id row etag → Sized cfg row etag
  scanned : ∀ q id row etag read, s.phase q = .scanned id row etag read → Sized cfg row etag
  copied : ∀ q id row read, s.phase q = .copied id row read → Fits s (finalKey cfg id row) row
  rows : ∀ id row, s.attachments.row id = some row → row.uploadedAt ≠ none →
    Fits s row.storageKey row

theorem Measured.initial (h : Initial s) : Measured cfg s := by
  constructor <;> intro q <;> simp [h.1, h.2.2]

theorem phase_set (s : State) (tx : Tx) (ph : Phase) : (s.set tx ph).phase tx = ph :=
  Function.update_self ..

theorem phase_fail (s : State) (tx : Tx) (e : AppError) :
    (s.fail tx e).phase tx = .failed (some e) :=
  Function.update_self ..

/-- Where equal ETags mean equal contents, the ETag that `stat` goes on with tells the size. -/
theorem sized_of_stat (hetag : Function.Injective cfg.etag) {etag : ETag}
    (ht : stat cfg s tx = some t) (hq : t.phase tx = .measured id row etag) :
    Sized cfg row etag := by
  unfold stat at ht
  split at ht
  · split at ht
    · cases ht
      cases (phase_fail s tx _).symm.trans hq
    · dsimp only at ht
      split at ht
      · cases ht
        cases (phase_fail s tx _).symm.trans hq
      · rename_i hsize
        split at ht
        · cases ht
          cases (phase_fail s tx _).symm.trans hq
        · cases ht
          cases (phase_set s tx _).symm.trans hq
          intro content hcontent
          rw [hetag hcontent]
          exact not_not.mp hsize
  · cases ht

/-- A row that is finalized after a step was finalized before it, under the same key and
with the same declared size, or the step finalizes it. -/
theorem Inv.finalized_before (h : Inv cfg s) (ht : Attachments.step cfg s a = some t)
    (hrow : t.attachments.row id = some row) (hup : row.uploadedAt ≠ none) :
    (∃ old, s.attachments.row id = some old ∧ old.uploadedAt ≠ none ∧
        old.storageKey = row.storageKey ∧ old.fileSize = row.fileSize) ∨
      Finalizes s t id row := by
  have hevolves := step_evolves h ht id
  rw [hrow] at hevolves
  generalize hold : s.attachments.row id = r at hevolves
  cases hevolves with
  | same => exact .inl ⟨row, rfl, hup, rfl, rfl⟩
  | reserve hnone => exact absurd hnone hup
  | @finalize old now hnone => exact .inr ⟨⟨old, hold, hnone⟩, hrow, hup⟩
  | @bind old message hup' => exact .inl ⟨old, rfl, hup', rfl, rfl⟩

/-- What the rows need after a step, from what the operations had in hand before it. -/
theorem Measured.rows_step (h : Measured cfg s) (hi : Inv cfg s)
    (ht : Attachments.step cfg s a = some t) (id : UUID) (row : Attachment)
    (hrow : t.attachments.row id = some row) (hup : row.uploadedAt ≠ none) :
    Fits t row.storageKey row := by
  intro object hobject
  rcases hi.finalized_before ht hrow hup with ⟨old, hold, hup', hkey, hsize⟩ | hfinalizes
  · obtain ⟨harea, hid⟩ := hi.deliveryKey hold hup'
    have hfinal : ∀ r, s.attachments.row old.storageKey.attachmentId = some r →
        r.uploadedAt ≠ none := by
      intro r hr
      rw [hid, hold] at hr
      cases hr
      exact hup'
    rw [← hkey] at hobject
    rcases hi.delivered_bucket ht harea hfinal with hsame | hgone
    · rw [hsame] at hobject
      rw [← hsize]
      exact h.rows id old hold hup' object hobject
    · rw [hgone] at hobject
      cases hobject
  · obtain ⟨tx, old, read, hp, -, hbucket, rfl⟩ := hi.finalizes_cases ht hfinalizes
    rw [hbucket] at hobject
    exact h.copied tx id old read hp object hobject

/-- An operation has an ETag in hand, or a copy. -/
def Phase.isMeasured : Phase → Bool
  | .measured .. | .scanned .. | .copied .. => true
  | _ => false

theorem Phase.IsOver.isMeasured {ph : Phase} (h : ph.IsOver) : ph.isMeasured = false := by
  cases ph <;> first | rfl | cases h

/-- One operation moves on; between `stat` and the commit it has in hand what it should. -/
theorem Measured.update (h : Measured cfg s) (hi : Inv cfg s)
    (ht : Attachments.step cfg s a = some t) {ph : Phase}
    (hph : t.phase = Function.update s.phase tx ph)
    (hmeasured : ∀ id row etag, ph = .measured id row etag → Sized cfg row etag)
    (hscanned : ∀ id row etag read, ph = .scanned id row etag read → Sized cfg row etag)
    (hcopied : ∀ id row read, ph = .copied id row read → Fits t (finalKey cfg id row) row) :
    Measured cfg t where
  measured q id row etag hq := by
    rcases phase_cases hph hq with ⟨-, hnew⟩ | hold
    · exact hmeasured id row etag hnew
    · exact h.measured q id row etag hold
  scanned q id row etag read hq := by
    rcases phase_cases hph hq with ⟨-, hnew⟩ | hold
    · exact hscanned id row etag read hnew
    · exact h.scanned q id row etag read hold
  copied q id row read hq := by
    rcases phase_cases hph hq with ⟨-, hnew⟩ | hold
    · exact hcopied id row read hnew
    · intro object hobject
      rw [hi.finalKey_bucket ht hold] at hobject
      exact h.copied q id row read hold object hobject
  rows := h.rows_step hi ht

/-- One operation moves on, and has no ETag in hand. -/
theorem Measured.pass (h : Measured cfg s) (hi : Inv cfg s)
    (ht : Attachments.step cfg s a = some t) {ph : Phase}
    (hph : t.phase = Function.update s.phase tx ph) (hno : ph.isMeasured = false) :
    Measured cfg t := by
  refine h.update hi ht hph ?_ ?_ ?_
  · rintro id row etag rfl
    cases hno
  · rintro id row etag read rfl
    cases hno
  · rintro id row read rfl
    cases hno

/-- No operation moves on. -/
theorem Measured.idle (h : Measured cfg s) (hi : Inv cfg s)
    (ht : Attachments.step cfg s a = some t) (hph : t.phase = s.phase) : Measured cfg t where
  measured q id row etag hq := h.measured q id row etag (hph ▸ hq)
  scanned q id row etag read hq := h.scanned q id row etag read (hph ▸ hq)
  copied q id row read hq object hobject := by
    rw [hph] at hq
    rw [hi.finalKey_bucket ht hq] at hobject
    exact h.copied q id row read hq object hobject
  rows := h.rows_step hi ht

theorem Measured.step (hetag : Function.Injective cfg.etag) (hi : Inv cfg s) (h : Measured cfg s)
    (ht : Attachments.step cfg s a = some t) : Measured cfg t := by
  cases Move.of_step ht with
  | tick | put => exact h.idle hi ht rfl
  | @measured tx id row object phase =>
      refine h.update hi ht rfl ?_ (fun _ _ _ _ e ↦ by cases e) fun _ _ _ e ↦ by cases e
      rintro id' row' etag ⟨rfl⟩
      exact sized_of_stat hetag ht (Function.update_self ..)
  | unscanned phase | scanned phase =>
      refine h.update hi ht rfl (fun _ _ _ e ↦ by cases e) ?_ fun _ _ _ e ↦ by cases e
      rintro _ _ _ _ ⟨rfl⟩
      exact h.measured _ _ _ _ phase
  | copied phase stored same =>
      refine h.update hi ht rfl (fun _ _ _ e ↦ by cases e) (fun _ _ _ _ e ↦ by cases e) ?_
      rintro _ _ _ ⟨rfl⟩
      -- the object that is copied has the ETag of the one that was measured
      exact .of_stored (Function.update_self ..) (h.scanned _ _ _ _ _ phase _ same)
  | ended isOver | unlocked lock isOver => exact h.pass hi ht rfl isOver.isMeasured
  | commit committed => cases committed <;> exact h.pass hi ht rfl rfl
  | reserve | complete | checked | removeSource | create | skipped | locked | flushed | cleanup
  | picked | selected | removed | kept | dropped => exact h.pass hi ht rfl rfl

theorem Measured.of_reachable (hetag : Function.Injective cfg.etag) {s₀ : State}
    (h₀ : Initial s₀) {as : List Action}
    (hrun : exec (Attachments.step cfg) s₀ as = some s) : Measured cfg s := by
  have h : Inv cfg s ∧ Measured cfg s :=
    exec_invariant (P := fun u ↦ Inv cfg u ∧ Measured cfg u)
      (fun hu hu' ↦ ⟨hu.1.step hu', hu.2.step hetag hu.1 hu'⟩) ⟨.initial h₀, .initial h₀⟩ hrun
  exact h.2

/-! ## Runs without a cleanup -/

/-- No cleanup is started. -/
def Uncleaned (_ : State) : Action → Prop
  | .cleanup .. => False
  | _ => True

/-- The operation is a cleanup. -/
def Phase.cleans : Phase → Bool
  | .selecting .. | .removing .. => true
  | _ => false

theorem Phase.IsOver.cleans {ph : Phase} (h : ph.IsOver) : ph.cleans = false := by
  cases ph <;> first | rfl | cases h

theorem cleans_of_step (h : ∀ q, (s.phase q).cleans = false) (hok : Uncleaned s a)
    (ht : step cfg s a = some t) (q : Tx) : (t.phase q).cleans = false := by
  have hmoves : ∀ {tx ph}, t.phase = Function.update s.phase tx ph → ph.cleans = false →
      (t.phase q).cleans = false := by
    intro tx ph hph hno
    rcases phase_cases hph rfl with ⟨-, hnew⟩ | hold
    · rw [← hnew]
      exact hno
    · rw [← hold]
      exact h q
  have hnone : ∀ {tx ph}, s.phase tx = ph → ph.cleans = true → (t.phase q).cleans = false := by
    intro tx ph hph hyes
    have hno := h tx
    rw [hph, hyes] at hno
    cases hno
  cases Move.of_step ht with
  | tick | put => exact h q
  | cleanup => exact hok.elim
  | picked phase | selected phase | removed phase | kept phase => exact hnone phase rfl
  | ended isOver | unlocked lock isOver => exact hmoves rfl isOver.cleans
  | commit committed => cases committed <;> exact hmoves rfl rfl
  | reserve | complete | checked | measured | unscanned | scanned | copied | removeSource | create
  | skipped | locked | flushed | dropped => exact hmoves rfl rfl

/-- Without a cleanup the object of a finalized attachment is there. -/
theorem stored_of_uncleaned {s₀ : State} (h₀ : Initial s₀) {as : List Action}
    (hrun : exec (Attachments.step cfg) s₀ as = some s)
    (hok : Along (Attachments.step cfg) Uncleaned s₀ as)
    (hrow : s.attachments.row id = some row) (hup : row.uploadedAt ≠ none) :
    (s.bucket row.storageKey).isSome := by
  have hfinished : ∀ {u : State} {a}, (∀ q, (u.phase q).cleans = false) → Finished u a := by
    intro u a hu
    cases a with
    | abort tx =>
        intro todo deleted hph
        have hno := hu tx
        rw [hph] at hno
        cases hno
    | _ => trivial
  have h : Inv cfg s ∧ Backed cfg s ∧ ∀ q, (s.phase q).cleans = false :=
    exec_induction (P := fun u ↦ Inv cfg u ∧ Backed cfg u ∧ ∀ q, (u.phase q).cleans = false)
      (fun hu hok' hu' ↦ ⟨hu.1.step hu', hu.2.1.step hu.1 (hfinished hu.2.2) hu',
        cleans_of_step hu.2.2 hok' hu'⟩)
      ⟨.initial h₀, .initial h₀, fun q ↦ by rw [h₀.2.2 q]; rfl⟩ hrun hok
  rcases h.2.1.rows id row hrow hup with hstored | ⟨q, todo, deleted, hq, -⟩
  · exact hstored
  · have hno := h.2.2 q
    rw [hq] at hno
    cases hno

/-! ## An operation that raises -/

/-- The operation has committed, or has returned without a commit. -/
def Phase.IsSettled : Phase → Prop
  | .done | .finalized .. => True
  | _ => False

theorem Phase.IsSettled.of_update {ph : Phase} (hph : t.phase = Function.update s.phase q ph)
    (h : ph.IsSettled) : (t.phase q).IsSettled := by
  rwa [hph, Function.update_self]

/-- A step of the operation that writes a row is its commit. -/
theorem settled_of_write (ht : step cfg s a = some t) (hop : a.operation = some q)
    (hwrites : t.attachments.row ≠ s.attachments.row) : (t.phase q).IsSettled := by
  rcases step_commit_or_quiet ht with ⟨tx, rfl, hc⟩ | hquiet
  · cases hop
    cases hc <;> exact .of_update rfl trivial
  · exact absurd hquiet.row hwrites

/-- The operation is a completion that has committed, and is stopped. -/
def StoppedLate (tx : Tx) (s : State) (a : Action) : Prop :=
  a = .abort tx ∧ ∃ id source, s.phase tx = .finalized id source

/-- An operation that has committed does not raise, unless it is stopped late. -/
theorem Phase.IsSettled.step (h : (s.phase q).IsSettled) (ht : Attachments.step cfg s a = some t) :
    (t.phase q).IsSettled ∨ StoppedLate q s a ∧ t.phase q = .failed none := by
  by_cases hop : a.operation = some q
  swap
  · rw [phase_of_step ht hop]
    exact .inl h
  cases hph : s.phase q with
  | finalized id source =>
      rcases between_of_step ht (by rw [hph]; trivial) with
        hstays | ⟨ok, rfl⟩ | ⟨ok, rfl⟩ | rfl | rfl
      · rw [hstays, hph]
        exact .inl trivial
      · simp [Attachments.step, removeNext, hph] at ht
      · simp only [Attachments.step, removeSource, hph, Option.some.injEq] at ht
        exact .inl (ht ▸ .of_update rfl trivial)
      · simp [Attachments.step, Attachments.commit, hph] at ht
      · simp only [Attachments.step, hph, Option.some.injEq] at ht
        exact .inr ⟨⟨rfl, id, source, hph⟩, ht ▸ Function.update_self ..⟩
  | done =>
      -- nothing is left to be done
      cases a with
      | tick | put => cases hop
      | _ =>
          cases hop
          simp [Attachments.step, reserve, lockRow, stat, scan, copy, removeSource, create,
            lockNext, flush, pickNext, removeNext, Attachments.commit, hph] at ht
  | _ =>
      rw [hph] at h
      exact h.elim

/-- An operation that has raised does nothing more. -/
theorem failed_of_step {e : Option AppError} (h : s.phase q = .failed e)
    (ht : step cfg s a = some t) : t.phase q = .failed e := by
  by_cases hop : a.operation = some q
  · cases a with
    | tick | put => cases hop
    | _ =>
        cases hop
        simp [Attachments.step, reserve, lockRow, stat, scan, copy, removeSource, create,
          lockNext, flush, pickNext, removeNext, Attachments.commit, h] at ht
  · exact (phase_of_step ht hop).trans h

/-- An operation that has committed, and raises in the end, is stopped late. -/
theorem stoppedLate_of_settled {as : List Action} (h : (s.phase q).IsSettled)
    (hrun : exec (step cfg) s as = some t) {e : Option AppError} (hfailed : t.phase q = .failed e) :
    e = none ∧ Once (step cfg) (StoppedLate q) s as := by
  induction as generalizing s with
  | nil =>
      obtain rfl : s = t := Option.some.inj hrun
      rw [hfailed] at h
      exact h.elim
  | cons a as ih =>
      obtain ⟨m, hm, hrest⟩ := exec_cons_eq_some.mp hrun
      rcases h.step hm with hsettled | ⟨hlate, hstopped⟩
      · obtain ⟨he, pre, b, post, n, rfl, hn, hevent⟩ := ih hsettled hrest
        exact ⟨he, a :: pre, b, post, n, rfl, exec_cons_eq_some.mpr ⟨m, hm, hn⟩, hevent⟩
      · have hstays : t.phase q = .failed none :=
          exec_invariant (P := fun u ↦ u.phase q = .failed none)
            (fun hu hu' ↦ failed_of_step hu hu') hstopped hrest
        exact ⟨Phase.failed.inj (hfailed.symm.trans hstays), [], a, as, s, rfl, rfl, hlate⟩

/-- The step writes no row, if it is one of the operation. -/
def Leaves (cfg : Config) (tx : Tx) (s : State) (a : Action) : Prop :=
  a.operation = some tx → ∀ t, step cfg s a = some t → t.attachments.row = s.attachments.row

/-- An operation that has raised has written no row in any of its steps, or has been stopped late,
which is not answered with an `AppError`. -/
theorem failed_changes_nothing {s₀ : State} {as : List Action}
    (hrun : exec (Attachments.step cfg) s₀ as = some s) {e : Option AppError}
    (hfailed : s.phase tx = .failed e) : Along (Attachments.step cfg) (Leaves cfg tx) s₀ as ∨
      e = none ∧ Once (Attachments.step cfg) (StoppedLate tx) s₀ as := by
  refine or_iff_not_imp_right.mpr fun hearly ↦ ?_
  rw [along_iff_forall]
  rintro pre a post m rfl hpre hop t ht
  by_contra hwrites
  obtain ⟨m', hm', hrest⟩ := exec_append_eq_some.mp hrun
  obtain rfl : m' = m := Option.some.inj (hm'.symm.trans hpre)
  obtain ⟨t', ht', hpost⟩ := exec_cons_eq_some.mp hrest
  obtain rfl : t' = t := Option.some.inj (ht'.symm.trans ht)
  obtain ⟨he, mid, b, rest, n, rfl, hn, hlate⟩ :=
    stoppedLate_of_settled (settled_of_write ht hop hwrites) hpost hfailed
  refine hearly ⟨he, pre ++ a :: mid, b, rest, n, by simp, ?_, hlate⟩
  exact exec_append_eq_some.mpr ⟨m', hpre, exec_cons_eq_some.mpr ⟨t', ht, hn⟩⟩

/-! ## The object that was measured -/

/-- **A finalized object is the one that was measured**, where equal ETags mean equal
contents.  In every reachable state the object of a finalized attachment has the
declared size, and is there unless a cleanup has removed it; no upload changes it, and
no other step of a later run does more than remove it, so that the length a download
announces is that of its body.  An operation that has raised has written no row, or has
been stopped behind its commit, and that with no `AppError`. -/
theorem finalized_is_measured (hetag : Function.Injective cfg.etag) {s₀ : State}
    (h₀ : Initial s₀) {as : List Action} (hrun : exec (Attachments.step cfg) s₀ as = some s) :
    (∀ id row, s.attachments.row id = some row → row.uploadedAt ≠ none →
      (∀ object, s.bucket row.storageKey = some object →
          object.content.length = row.fileSize) ∧
        (Along (Attachments.step cfg) Uncleaned s₀ as → (s.bucket row.storageKey).isSome) ∧
        (∀ key object t, Attachments.step cfg s (.put key object) = some t →
          t.bucket row.storageKey = s.bucket row.storageKey) ∧
        ∀ bs t, exec (Attachments.step cfg) s bs = some t →
          t.bucket row.storageKey = s.bucket row.storageKey ∨ t.bucket row.storageKey = none) ∧
      (∀ id userId row bs t object, authorizeDownload cfg s id userId = .ok row →
        exec (Attachments.step cfg) s bs = some t → t.bucket row.storageKey = some object →
          (download row object).contentLength = (download row object).body.length) ∧
      ∀ tx e, s.phase tx = .failed e → Along (Attachments.step cfg) (Leaves cfg tx) s₀ as ∨
        e = none ∧ Once (Attachments.step cfg) (StoppedLate tx) s₀ as := by
  have hi : Inv cfg s := .of_reachable h₀ hrun
  have hm : Measured cfg s := .of_reachable hetag h₀ hrun
  refine ⟨fun id row hrow hup ↦ ⟨hm.rows id row hrow hup,
    fun hok ↦ stored_of_uncleaned h₀ hrun hok hrow hup, fun key object t ht ↦ ?_,
    fun bs t hbs ↦ hi.delivered_run hrow hup hbs⟩, fun id userId row bs t object hauth hbs hobject ↦ ?_,
    fun tx e hfailed ↦ failed_changes_nothing hrun hfailed⟩
  · have harea := (hi.deliveryKey hrow hup).1
    simp only [Attachments.step] at ht
    split at ht
    · rename_i hpending
      cases ht
      refine Function.update_of_ne ?_ ..
      rintro rfl
      rw [harea] at hpending
      cases hpending
    · cases ht
  · obtain ⟨hrow, hup⟩ := authorizeDownload_eq_ok hauth
    rcases hi.delivered_run hrow hup hbs with hsame | hgone
    · exact (hm.rows id row hrow hup object (hsame ▸ hobject)).symm
    · rw [hgone] at hobject
      cases hobject

/-- User 2 replaces the upload while it is being completed, and completes it again. -/
def replacing : List Action :=
  [.reserve 0 1 2 "a" "text/plain" 1 7, .commit 0, .put ⟨.pending, 1, 2, 7, ""⟩ ⟨[65], "text/plain"⟩,
    .complete 1 7 2, .lockRow 1, .stat 1, .put ⟨.pending, 1, 2, 7, ""⟩ ⟨[66], "text/plain"⟩,
    .scan 1 .unavailable, .copy 1, .complete 2 7 2, .lockRow 2, .stat 2, .scan 2 .unavailable,
    .copy 2, .commit 2, .put ⟨.pending, 1, 2, 7, ""⟩ ⟨[67, 67], "text/plain"⟩]

theorem finalized_is_measured_replacing :
    ∃ s row, exec (Attachments.step unscanned) empty replacing = some s ∧
      s.attachments.row 7 = some row ∧ row.uploadedAt ≠ none ∧
        (∀ object, s.bucket row.storageKey = some object → object.content.length = 1) ∧
        Along (Attachments.step unscanned) (Leaves unscanned 1) empty replacing := by
  have h₀ : Initial empty := ⟨fun _ ↦ rfl, fun _ ↦ rfl, fun _ ↦ rfl⟩
  have h := @finalized_is_measured unscanned _ (fun _ _ h ↦ h) empty h₀ replacing rfl
  exact ⟨_, _, rfl, rfl, Option.some_ne_none _, (h.1 7 _ rfl (Option.some_ne_none _)).1,
    (h.2.2 1 _ rfl).resolve_right fun hlate ↦ Option.some_ne_none _ hlate.1⟩

/-- The request is cancelled while it removes the staging object. -/
def cancelled : List Action :=
  [.reserve 0 1 2 "a" "text/plain" 1 7, .commit 0, .put ⟨.pending, 1, 2, 7, ""⟩ ⟨[65], "text/plain"⟩,
    .complete 1 7 2, .lockRow 1, .stat 1, .scan 1 .unavailable, .copy 1, .commit 1, .abort 1]

/-- **A completion that raises can have finalized its attachment.** -/
theorem cancelled_changes : ¬ ∀ cfg s₀ as s tx e, Function.Injective cfg.etag → Initial s₀ →
    exec (Attachments.step cfg) s₀ as = some s → s.phase tx = .failed e →
      Along (Attachments.step cfg) (Leaves cfg tx) s₀ as := by
  intro h
  have h₀ : Initial empty := ⟨fun _ ↦ rfl, fun _ ↦ rfl, fun _ ↦ rfl⟩
  have hleaves := h unscanned empty cancelled _ 1 none (fun _ _ h ↦ h) h₀ rfl rfl
  rw [along_iff_forall] at hleaves
  have hcommit := hleaves (cancelled.take 8) (.commit 1) [.abort 1] _ rfl rfl rfl _ rfl
  exact Option.some_ne_none _ (congrArg (fun row ↦ (row 7).bind Attachment.uploadedAt) hcommit)

end Chatterbox.Attachments
