import Chatterbox.Attachments.Invariant

/-!
# The life of an attachment

An attachment is reserved, then finalized, then bound to a message; it may be
deleted as long as it is not bound.  `Evolves` is this diagram as a relation
between the committed row before a step and after it, and `step_evolves` says
that no interleaving of the four operations leaves it.  `Descends` is what the
diagram means over a whole run: the columns that an operation fills in are
written once.

The row locks carry both results: the commit of an operation writes the versions
it has locked, these are the committed ones still (`Inv.held`), and the checks it
made on them decide which arrow of the diagram it takes.
-/

namespace Chatterbox.Attachments

variable {cfg : Config} {s t : State} {tx : Tx} {a : Action}

/-- What one step may make of the committed row of an attachment. -/
inductive Evolves (cfg : Config) (id : UUID) : Option Attachment → Option Attachment → Prop
  | /-- The row is left alone. -/
    same (r : Option Attachment) : Evolves cfg id r r
  | /-- The attachment is reserved. -/
    reserve {row : Attachment} (hup : row.uploadedAt = none) (hmsg : row.messageId = none) :
      Evolves cfg id none (some row)
  | /-- A reserved attachment is finalized. -/
    finalize {row : Attachment} (now : Instant) (hup : row.uploadedAt = none)
      (hmsg : row.messageId = none) : Evolves cfg id (some row) (some (promote cfg id now row))
  | /-- A finalized attachment is bound to a message. -/
    bind {row : Attachment} (message : UUID) (hup : row.uploadedAt ≠ none)
      (hmsg : row.messageId = none) : Evolves cfg id (some row) (some (bindTo message row))
  | /-- An unbound attachment is deleted. -/
    delete {row : Attachment} (hmsg : row.messageId = none) : Evolves cfg id (some row) none

/-! ## One step -/

/-- A step that commits nothing: the rows stay, and a reservation that appears is
under a new identifier. -/
structure Quiet (s t : State) : Prop where
  row : t.attachments.row = s.attachments.row
  drawn : s.drawn ⊆ t.drawn
  reserved : ∀ q id row, t.phase q = .reserved id row → s.phase q = .reserved id row ∨ id ∉ s.drawn

theorem Quiet.of_update {ph : Phase} (hph : t.phase = Function.update s.phase tx ph)
    (hrow : t.attachments.row = s.attachments.row) (hdrawn : s.drawn ⊆ t.drawn)
    (hres : ∀ id row, ph = .reserved id row → id ∉ s.drawn) : Quiet s t := by
  refine ⟨hrow, hdrawn, fun q id row hq ↦ ?_⟩
  rcases phase_cases hph hq with ⟨-, hnew⟩ | hold
  · exact Or.inr (hres id row hnew)
  · exact Or.inl hold

/-- A step that only moves an operation to a phase without a reservation. -/
theorem Quiet.of_phase {ph : Phase} (hph : t.phase = Function.update s.phase tx ph)
    (hrow : t.attachments.row = s.attachments.row) (hdrawn : s.drawn ⊆ t.drawn)
    (hres : ph.pendingId = none) : Quiet s t :=
  .of_update hph hrow hdrawn fun id row e ↦ by rw [e] at hres; cases hres

/-- Every step is a commit or quiet. -/
theorem step_commit_or_quiet (ht : Attachments.step cfg s a = some t) :
    (∃ tx, a = .commit tx ∧ Commit cfg s tx t) ∨ Quiet s t := by
  cases Move.of_step ht with
  | commit committed => exact Or.inl ⟨_, rfl, committed⟩
  | tick | put => exact Or.inr ⟨rfl, fun _ hi ↦ hi, fun _ _ _ hq ↦ Or.inl hq⟩
  | reserve phase fresh =>
      refine Or.inr (.of_update rfl rfl (List.subset_cons_self ..) ?_)
      rintro i row ⟨rfl⟩
      exact fresh
  | flushed =>
      exact Or.inr (.of_update rfl rfl (List.subset_cons_self ..) fun i row e ↦ by cases e)
  | ended isOver => exact Or.inr (.of_phase rfl rfl (fun _ hi ↦ hi) isOver.pendingId)
  | unlocked lock isOver =>
      have hrow := Table.lock_row lock
      exact Or.inr (.of_phase rfl hrow (fun _ hi ↦ hi) isOver.pendingId)
  | checked phase found lock | locked phase found lock | picked phase found unbound lock =>
      exact Or.inr (.of_phase rfl (Table.lock_row lock) (fun _ hi ↦ hi) rfl)
  | complete | measured | unscanned | scanned | copied | removeSource | create | skipped | cleanup
  | selected | removed | kept | dropped =>
      exact Or.inr (.of_phase rfl rfl (fun _ hi ↦ hi) rfl)

/-- The commit of a transaction that writes what it holds takes each row along
the arrow its write is. -/
theorem evolves_commit_held (h : Inv cfg s) (locked : Locked)
    (write : UUID × Attachment → Option Attachment) (hlocked : (s.phase tx).held = locked)
    (hw : ∀ p ∈ locked, Evolves cfg p.1 (some p.2) (write p)) (id : UUID) :
    Evolves cfg id (s.attachments.row id)
      ((s.attachments.commit tx (locked.map fun p ↦ (p.1, write p))).row id) := by
  rcases Table.commit_row_cases s.attachments tx (locked.map fun p ↦ (p.1, write p)) id with
    ⟨v, hmem, hv⟩ | ⟨-, hsame⟩
  · obtain ⟨p, hp, hpv⟩ := List.mem_map.mp hmem
    obtain ⟨rfl, rfl⟩ := Prod.mk.inj hpv
    rw [hv, (h.held tx p (hlocked ▸ hp)).2]
    exact hw p hp
  · rw [hsame]
    exact .same _

/-- **No step leaves the diagram.** -/
theorem step_evolves (h : Inv cfg s) (ht : Attachments.step cfg s a = some t) (id : UUID) :
    Evolves cfg id (s.attachments.row id) (t.attachments.row id) := by
  rcases step_commit_or_quiet ht with ⟨tx, rfl, hc⟩ | hq
  swap
  · rw [hq.row]
    exact .same _
  cases hc with
  | @reserved i row phase =>
      have hok := h.ok_of phase
      by_cases e : id = i
      · subst e
        have hnew : (s.attachments.commit tx [(id, some { row with createdAt := s.now })]).row id =
            some { row with createdAt := s.now } := by simp
        rw [h.absent tx id row phase]
        show Evolves cfg id none
          ((s.attachments.commit tx [(id, some { row with createdAt := s.now })]).row id)
        rw [hnew]
        exact .reserve hok.1 hok.2.1
      · rw [Table.commit_row_of_notMem (by simpa using Ne.symm e)]
        exact .same _
  | @copied i row read phase =>
      have hrow : RowOk cfg s i row := h.rowOk (p := (i, row)) (by rw [phase]; exact .head _)
      have hpending := h.ok_of phase
      refine evolves_commit_held h [(i, row)] (fun p ↦ some (promote cfg p.1 s.now p.2))
        (by rw [phase]; rfl) ?_ id
      intro p hmem
      obtain rfl := List.mem_singleton.mp hmem
      exact .finalize s.now hpending (hrow.reserved hpending).1
  | @bound m message locked phase =>
      refine evolves_commit_held h locked _ (by rw [phase]; rfl) (fun p hmem ↦ ?_) id
      have huse := h.ok_of phase p hmem
      simp only [unusable, not_or, not_not] at huse
      exact .bind m huse.2.2.1 huse.2.2.2
  | @removing deleted phase =>
      exact evolves_commit_held h deleted _ (by rw [phase]; rfl)
        (fun p hmem ↦ .delete (h.ok_of phase p hmem)) id

/-! ## Whole runs -/

/-- What a run may have made of a committed row.  It may be gone if it was not
bound; otherwise what it was reserved with is as it was, a key and a completion
time that had been filled in are as they were, and a bound row has not changed
at all. -/
def Descends (row : Attachment) : Option Attachment → Prop
  | none => row.messageId = none
  | some row' =>
      (row'.conversationId = row.conversationId ∧ row'.uploaderId = row.uploaderId ∧
        row'.filename = row.filename ∧ row'.mimeType = row.mimeType ∧
        row'.fileSize = row.fileSize ∧ row'.createdAt = row.createdAt) ∧
      (row'.storageKey = row.storageKey ∧ row'.uploadedAt = row.uploadedAt ∨
        row.uploadedAt = none ∧ row'.uploadedAt ≠ none) ∧
      (row.messageId ≠ none → row' = row)

theorem Descends.refl (row : Attachment) : Descends row (some row) :=
  ⟨⟨rfl, rfl, rfl, rfl, rfl, rfl⟩, Or.inl ⟨rfl, rfl⟩, fun _ ↦ rfl⟩

/-- A row that has come this far goes on along the diagram. -/
theorem Descends.evolve {id : UUID} {row row' : Attachment} {r : Option Attachment}
    (h : Descends row (some row')) (he : Evolves cfg id (some row') r) : Descends row r := by
  obtain ⟨hfixed, hkey, hbound⟩ := h
  have hunbound : row'.messageId = none → row.messageId = none := by
    intro hnone
    by_contra hne
    rw [hbound hne] at hnone
    exact hne hnone
  cases he with
  | same => exact ⟨hfixed, hkey, hbound⟩
  | finalize now hup hmsg =>
      refine ⟨hfixed, Or.inr ⟨?_, by simp [promote]⟩, fun hne ↦ absurd (hunbound hmsg) hne⟩
      rcases hkey with ⟨-, he⟩ | ⟨hnone, -⟩
      · rw [← he, hup]
      · exact hnone
  | bind m hup hmsg => exact ⟨hfixed, hkey, fun hne ↦ absurd (hunbound hmsg) hne⟩
  | delete hmsg => exact hunbound hmsg

/-- The identifier has been used: nobody is going to reserve under it again. -/
def Used (s : State) (id : UUID) : Prop :=
  id ∈ s.drawn ∧ ∀ q row, s.phase q ≠ .reserved id row

theorem Inv.used (h : Inv cfg s) {id : UUID} {row : Attachment}
    (hrow : s.attachments.row id = some row) : Used s id := by
  refine ⟨(h.rows id row hrow).drawn, fun q r hq ↦ ?_⟩
  rw [h.absent q id r hq] at hrow
  cases hrow

theorem commit_phase_reserved (hc : Commit cfg s tx t) {q : Tx} {id : UUID} {row : Attachment}
    (hq : t.phase q = .reserved id row) : s.phase q = .reserved id row := by
  cases hc <;> exact phase_back rfl hq nofun

theorem commit_drawn (hc : Commit cfg s tx t) : t.drawn = s.drawn := by
  cases hc <;> rfl

theorem Used.step {id : UUID} (hu : Used s id) (ht : Attachments.step cfg s a = some t) :
    Used t id := by
  rcases step_commit_or_quiet ht with ⟨tx, rfl, hc⟩ | hq
  · exact ⟨by rw [commit_drawn hc]; exact hu.1,
      fun q row hqr ↦ hu.2 q row (commit_phase_reserved hc hqr)⟩
  · refine ⟨hq.drawn hu.1, fun q row hqr ↦ ?_⟩
    rcases hq.reserved q id row hqr with hold | hnew
    · exact hu.2 q row hold
    · exact hnew hu.1

/-- A deleted attachment stays deleted. -/
theorem step_row_none {id : UUID} (hu : Used s id) (hnone : s.attachments.row id = none)
    (h : Inv cfg s) (ht : Attachments.step cfg s a = some t) : t.attachments.row id = none := by
  rcases step_commit_or_quiet ht with ⟨tx, rfl, hc⟩ | hq
  swap
  · rw [hq.row, hnone]
  have hheld : ∀ p ∈ (s.phase tx).held, p.1 ≠ id := by
    rintro p hp rfl
    rw [(h.held tx p hp).2] at hnone
    cases hnone
  have hkeep : ∀ ws : List (UUID × Option Attachment), (∀ w ∈ ws, w.1 ≠ id) →
      (s.attachments.commit tx ws).row id = none := fun ws hws ↦ by
    rw [Table.commit_row_of_notMem hws, hnone]
  cases hc with
  | reserved phase =>
      refine hkeep _ fun w hw ↦ ?_
      obtain rfl := List.mem_singleton.mp hw
      rintro rfl
      exact hu.2 tx _ phase
  | @copied i row read phase =>
      refine hkeep _ fun w hw ↦ ?_
      obtain rfl := List.mem_singleton.mp hw
      exact hheld (i, row) (by rw [phase]; exact .head _)
  | bound phase | removing phase =>
      refine hkeep _ fun w hw ↦ ?_
      obtain ⟨p, hmem, rfl⟩ := List.mem_map.mp hw
      exact hheld p (by rw [phase]; exact hmem)

/-- Over a whole run a committed row only goes along the diagram. -/
theorem row_descends (h : Inv cfg s) {id : UUID} {row : Attachment}
    (hrow : s.attachments.row id = some row) {as : List Action}
    (hrun : exec (Attachments.step cfg) s as = some t) :
    Descends row (t.attachments.row id) := by
  refine (exec_invariant (P := fun u ↦ Inv cfg u ∧ Used u id ∧ Descends row (u.attachments.row id))
    ?_ ⟨h, h.used hrow, hrow ▸ .refl row⟩ hrun).2.2
  rintro u a v ⟨hi, hu, hd⟩ hstep
  refine ⟨hi.step hstep, hu.step hstep, ?_⟩
  cases hcur : u.attachments.row id with
  | none =>
      rw [step_row_none hu hcur hi hstep]
      exact hcur ▸ hd
  | some row' =>
      rw [hcur] at hd
      exact hd.evolve (hcur ▸ step_evolves hi hstep id)

/-- Once deleted, an attachment never comes back. -/
theorem row_stays_deleted (h : Inv cfg s) {id : UUID} (hu : Used s id)
    (hnone : s.attachments.row id = none) {as : List Action}
    (hrun : exec (Attachments.step cfg) s as = some t) : t.attachments.row id = none := by
  refine (exec_invariant (P := fun u ↦ Inv cfg u ∧ Used u id ∧ u.attachments.row id = none)
    ?_ ⟨h, hu, hnone⟩ hrun).2.2
  rintro u a v ⟨hi, hu, hn⟩ hstep
  exact ⟨hi.step hstep, hu.step hstep, step_row_none hu hn hi hstep⟩

/-- **The attachment lifecycle.**  In every reachable state: no step leaves the
diagram, whatever comes later only goes along it (so that what has been filled in
is never written again, and a bound attachment is neither deleted nor bound
again), what is deleted stays deleted, and a bound attachment is finalized and
bound to a message of its uploader in its conversation. -/
theorem attachment_lifecycle (cfg : Config) {s₀ s : State} (h₀ : Initial s₀) {as : List Action}
    (hrun : exec (Attachments.step cfg) s₀ as = some s) :
    (∀ a t id, Attachments.step cfg s a = some t →
        Evolves cfg id (s.attachments.row id) (t.attachments.row id)) ∧
      (∀ id row bs t, s.attachments.row id = some row →
        exec (Attachments.step cfg) s bs = some t → Descends row (t.attachments.row id)) ∧
      (∀ id row a t bs u, s.attachments.row id = some row →
        Attachments.step cfg s a = some t → t.attachments.row id = none →
        exec (Attachments.step cfg) t bs = some u → u.attachments.row id = none) ∧
      ∀ id row m, s.attachments.row id = some row → row.messageId = some m →
        row.uploadedAt ≠ none ∧ BoundTo s m row := by
  have h : Inv cfg s := .of_reachable h₀ hrun
  refine ⟨fun a t id ht ↦ step_evolves h ht id, fun id row bs t hrow hbs ↦ row_descends h hrow hbs,
    fun id row a t bs u hrow ht hnone hbs ↦ ?_, fun id row m hrow hm ↦ ⟨fun hup ↦ ?_, ?_⟩⟩
  · exact row_stays_deleted (h.step ht) ((h.used hrow).step ht) hnone hbs
  · have hunbound := ((h.rows id row hrow).reserved hup).1
    rw [hm] at hunbound
    cases hunbound
  · exact (h.rows id row hrow).bound m hm

/-! ## One attachment from its reservation to its message -/

/-- Two users in one conversation; nothing is scanned. -/
def unscanned : Config where
  text := ⟨fun _ ↦ "", id, id⟩
  etag := id
  attachmentMaxBytes := 10
  attachmentMaxPerMessage := 5
  scanMode := .disabled
  members := fun id ↦ if id = 1 then some [2, 3] else none

/-- An empty database and an empty bucket. -/
def empty : State where
  now := 0
  attachments := ⟨fun _ ↦ none, fun _ ↦ none⟩
  messages := fun _ ↦ none
  bucket := fun _ ↦ none
  drawn := []
  phase := fun _ ↦ .idle

/-- User 2 reserves attachment 7, uploads it and sends it in message 8. -/
def sending : List Action :=
  [.reserve 0 1 2 "a" "text/plain" 1 7, .commit 0, .put ⟨.pending, 1, 2, 7, ""⟩ ⟨[65], "text/plain"⟩,
    .complete 1 7 2, .lockRow 1, .stat 1, .scan 1 .unavailable, .copy 1, .commit 1,
    .removeSource 1 true, .create 2 1 2 "" [7], .lockNext 2 7, .flush 2 8, .commit 2]

theorem attachment_lifecycle_sending :
    ∃ s row, exec (Attachments.step unscanned) empty sending = some s ∧
      s.attachments.row 7 = some row ∧ row.messageId = some 8 ∧ row.uploadedAt ≠ none ∧
        BoundTo s 8 row := by
  have h₀ : Initial empty := ⟨fun _ ↦ rfl, fun _ ↦ rfl, fun _ ↦ rfl⟩
  exact ⟨_, _, rfl, rfl, rfl,
    (@attachment_lifecycle unscanned empty _ h₀ sending rfl).2.2.2 7 _ 8 rfl rfl⟩

end Chatterbox.Attachments
