import Chatterbox.Attachments.Lifecycle

/-!
# What is delivered, and what was scanned

`complete` reads the staging object three times: `stat` for its ETag, `scan` for
its content, and `copy` if the ETag is still the one that `stat` saw.  Nothing
ties the second reading to the other two, and the client may upload under the
staging key all the while, so the object that is copied need not be the one that
was scanned.

`Unswapped` is the missing tie, as a condition on the copy.  Where every copy of
a run meets it, what is delivered has been scanned (`delivered_is_scanned`);
where one does not, the commit after it delivers what has not been scanned
(`unscanned_of_swap`).
-/

namespace Chatterbox.Attachments

variable {cfg : Config} {s t : State} {tx : Tx} {a : Action}

/-- The copy that is about to be made is of the content the scanner has read: if
the staging object has the ETag that `stat` saw, it has that content. -/
def Unswapped (cfg : Config) (s : State) : Action → Prop
  | .copy tx => ∀ id row etag read object, s.phase tx = .scanned id row etag (some read) →
      s.bucket row.storageKey = some object → cfg.etag object.content = etag →
      object.content = read.content
  | _ => True

/-- What is stored under the key is what the scanner has read and found clean. -/
def Stores (s : State) (key : StorageKey) (read : CleanRead) : Prop :=
  ∃ object, s.bucket key = some object ∧ object.content = read.content

/-- Some `complete` of the attachment is about to commit, and its call of the
scanner has read and found clean what will be stored under the row's key. -/
def DeliversScanned (s t : State) (id : UUID) (row : Attachment) : Prop :=
  ∃ tx old read, s.phase tx = .copied id old (some read) ∧ Stores t row.storageKey read

/-- The attachment becomes finalized: `uploaded_at` is set from the one state to
the other, and the row is `row` from then on. -/
def Finalizes (s t : State) (id : UUID) (row : Attachment) : Prop :=
  (∃ old, s.attachments.row id = some old ∧ old.uploadedAt = none) ∧
    t.attachments.row id = some row ∧ row.uploadedAt ≠ none

/-! ## The keys under which objects are delivered -/

/-- What a step does to the keys under which objects are delivered. -/
theorem step_bucket (ht : Attachments.step cfg s a = some t) {key : StorageKey}
    (hkey : key.area = .objects) :
    t.bucket key = s.bucket key ∨
      (∃ tx id row etag read, s.phase tx = .scanned id row etag read ∧ key = finalKey cfg id row) ∨
      (∃ tx id, s.phase tx = .finalized id key) ∨
      ∃ tx p todo deleted, s.phase tx = .removing (p :: todo) deleted ∧ p.2.storageKey = key ∧
        t.phase tx = .removing todo (p :: deleted) ∧ t.bucket key = none := by
  cases Move.of_step ht with
  | put staging =>
      refine Or.inl (Function.update_of_ne ?_ ..)
      rintro rfl
      rw [staging] at hkey
      cases hkey
  | @copied tx id row etag read object phase =>
      by_cases e : key = finalKey cfg id row
      · exact Or.inr (Or.inl ⟨tx, id, row, etag, read, phase, e⟩)
      · exact Or.inl (Function.update_of_ne e ..)
  | @removeSource tx ok id source phase =>
      by_cases e : key = source
      · exact Or.inr (Or.inr (Or.inl ⟨tx, id, e ▸ phase⟩))
      · cases ok with
        | true => exact Or.inl (Function.update_of_ne e ..)
        | false => exact Or.inl rfl
  | @removed tx p todo deleted phase =>
      by_cases e : key = p.2.storageKey
      · have hafter := Function.update_self tx (Phase.removing todo (p :: deleted)) s.phase
        have hgone : Function.update s.bucket p.2.storageKey none key = none := by
          rw [e, Function.update_self]
        exact Or.inr (Or.inr (Or.inr ⟨tx, p, todo, deleted, phase, e.symm, hafter, hgone⟩))
      · exact Or.inl (Function.update_of_ne e ..)
  | commit committed =>
      cases committed <;> exact Or.inl rfl
  | tick | ended | reserve | complete | checked | unlocked | measured | unscanned | scanned | create
  | skipped | locked | flushed | cleanup | picked | selected | kept | dropped =>
      exact Or.inl rfl

/-! ## What an operation past the scanner has in hand -/

/-- The operation is past the scanner and has not committed. -/
def Phase.isScanned : Phase → Bool
  | .scanned .. | .copied .. => true
  | _ => false

theorem Phase.IsOver.isScanned {ph : Phase} (h : ph.IsOver) : ph.isScanned = false := by
  cases ph <;> first | rfl | cases h

/-- With scanning enabled, an operation past the scanner has a clean reading, and
once it has copied, that is what its delivery key stores. -/
structure Scanned (cfg : Config) (s : State) : Prop where
  scanned : ∀ q id row etag read, s.phase q = .scanned id row etag read → ∃ r, read = some r
  copied : ∀ q id row read, s.phase q = .copied id row read →
    ∃ r, read = some r ∧ Stores s (finalKey cfg id row) r

theorem Scanned.initial (h : Initial s) : Scanned cfg s := by
  constructor <;> intro q <;> simp [h.2.2]

/-- No step of another operation, and no client, touches the key under which an
operation is going to deliver. -/
theorem Inv.finalKey_bucket (h : Inv cfg s) (ht : Attachments.step cfg s a = some t) {q : Tx}
    {id : UUID} {row : Attachment} {read : Option CleanRead}
    (hq : s.phase q = .copied id row read) :
    t.bucket (finalKey cfg id row) = s.bucket (finalKey cfg id row) := by
  have hmine : (id, row) ∈ (s.phase q).held := by rw [hq]; exact .head _
  have hkey : (finalKey cfg id row).area = .objects := rfl
  rcases step_bucket ht hkey with
    hsame | ⟨tx, i, r, etag, read', hp, hk⟩ | ⟨tx, i, hp⟩ | ⟨tx, p, todo, deleted, hp, hk, -⟩
  · exact hsame
  · have hne : q ≠ tx := by rintro rfl; rw [hp] at hq; cases hq
    have hid : id = i := congrArg StorageKey.attachmentId hk
    have hheld : (i, r) ∈ (s.phase tx).held := by rw [hp]; exact .head _
    exact absurd hid (h.held_ne hne hmine hheld)
  · have hok := h.ok tx
    rw [hp] at hok
    cases hok
  · have hne : q ≠ tx := by rintro rfl; rw [hp] at hq; cases hq
    have hheld : p ∈ (s.phase tx).held := by rw [hp]; exact .head _
    have hid : p.1 = id := by rw [← (h.rowOk hheld).attachmentId, hk]; rfl
    exact absurd hid.symm (h.held_ne hne hmine hheld)

/-- One operation moves on; past the scanner it has what it should have in hand. -/
theorem Scanned.update (h : Scanned cfg s) {ph : Phase}
    (hph : t.phase = Function.update s.phase tx ph)
    (hkeep : ∀ q id row read, s.phase q = .copied id row read →
      t.bucket (finalKey cfg id row) = s.bucket (finalKey cfg id row))
    (hscanned : ∀ id row etag read, ph = .scanned id row etag read → ∃ r, read = some r)
    (hcopied : ∀ id row read, ph = .copied id row read →
      ∃ r, read = some r ∧ Stores t (finalKey cfg id row) r) : Scanned cfg t := by
  constructor
  · intro q id row etag read hq
    rcases phase_cases hph hq with ⟨-, hnew⟩ | hold
    · exact hscanned id row etag read hnew
    · exact h.scanned q id row etag read hold
  · intro q id row read hq
    rcases phase_cases hph hq with ⟨-, hnew⟩ | hold
    · exact hcopied id row read hnew
    · obtain ⟨r, hr, object, hb, hc⟩ := h.copied q id row read hold
      exact ⟨r, hr, object, by rw [hkeep q id row read hold, hb], hc⟩

/-- One operation moves on, and is not past the scanner. -/
theorem Scanned.pass (h : Scanned cfg s) {ph : Phase}
    (hph : t.phase = Function.update s.phase tx ph)
    (hkeep : ∀ q id row read, s.phase q = .copied id row read →
      t.bucket (finalKey cfg id row) = s.bucket (finalKey cfg id row))
    (hno : ph.isScanned = false) : Scanned cfg t := by
  refine h.update hph hkeep ?_ ?_
  · rintro id row etag read rfl
    cases hno
  · rintro id row read rfl
    cases hno

theorem Scanned.step (hmode : cfg.scanMode = .clamav) (hi : Inv cfg s) (h : Scanned cfg s)
    (hok : Unswapped cfg s a) (ht : Attachments.step cfg s a = some t) : Scanned cfg t := by
  have hkeep : ∀ q id row read, s.phase q = .copied id row read →
      t.bucket (finalKey cfg id row) = s.bucket (finalKey cfg id row) :=
    fun q id row read hq ↦ hi.finalKey_bucket ht hq
  cases Move.of_step ht with
  | unscanned phase mode =>
      rw [hmode] at mode
      cases mode
  | scanned =>
      refine h.update rfl hkeep ?_ fun _ _ _ e ↦ by cases e
      rintro _ _ _ _ ⟨rfl⟩
      exact ⟨_, rfl⟩
  | copied phase stored same =>
      refine h.update rfl hkeep (fun _ _ _ _ e ↦ by cases e) ?_
      rintro _ _ _ ⟨rfl⟩
      obtain ⟨r, rfl⟩ := h.scanned _ _ _ _ _ phase
      exact ⟨r, rfl, _, Function.update_self .., hok _ _ _ _ _ phase stored same⟩
  | tick | put =>
      refine ⟨h.scanned, fun q id row read hq ↦ ?_⟩
      obtain ⟨r, hr, object, hb, hc⟩ := h.copied q id row read hq
      exact ⟨r, hr, object, by rw [hkeep q id row read hq, hb], hc⟩
  | ended isOver | unlocked lock isOver => exact h.pass rfl hkeep isOver.isScanned
  | commit committed => cases committed <;> exact h.pass rfl hkeep rfl
  | reserve | complete | checked | measured | removeSource | create | skipped | locked | flushed
  | cleanup | picked | selected | removed | kept | dropped => exact h.pass rfl hkeep rfl

/-! ## The commit that finalizes -/

/-- Only the commit of a `complete` that has copied finalizes an attachment. -/
theorem Inv.finalizes_cases (h : Inv cfg s) (ht : Attachments.step cfg s a = some t) {id : UUID}
    {row : Attachment} (hf : Finalizes s t id row) :
    ∃ tx old read, s.phase tx = .copied id old read ∧
      t.phase tx = .finalized id old.storageKey ∧ t.bucket = s.bucket ∧
        row = promote cfg id s.now old := by
  obtain ⟨⟨old, hold, hup⟩, hrow, hup'⟩ := hf
  rcases step_commit_or_quiet ht with ⟨tx, rfl, hc⟩ | hq
  swap
  · rw [hq.row, hold] at hrow
    cases hrow
    exact absurd hup hup'
  have hwritten : ∀ ws : List (UUID × Option Attachment),
      (s.attachments.commit tx ws).row id = some row → (id, some row) ∈ ws := by
    intro ws hws
    rcases Table.commit_row_cases s.attachments tx ws id with ⟨v, hmem, hv⟩ | ⟨-, hsame⟩
    · rwa [← hws, hv]
    · rw [hsame, hold] at hws
      cases hws
      exact absurd hup hup'
  cases hc with
  | @reserved i row' phase =>
      obtain ⟨rfl, -⟩ := Prod.mk.inj (List.mem_singleton.mp (hwritten _ hrow))
      rw [h.absent tx id row' phase] at hold
      cases hold
  | @copied i row' read phase =>
      obtain ⟨rfl, hnew⟩ := Prod.mk.inj (List.mem_singleton.mp (hwritten _ hrow))
      exact ⟨tx, row', read, phase, Function.update_self .., rfl, Option.some.inj hnew⟩
  | @bound m message locked phase =>
      obtain ⟨p, hmem, hpw⟩ := List.mem_map.mp (hwritten _ hrow)
      obtain ⟨rfl, hnew⟩ := Prod.mk.inj hpw
      -- binding leaves `uploaded_at` as it was
      have hheld := (h.held tx p (by rw [phase]; exact hmem)).2
      rw [hold] at hheld
      cases hheld
      cases hnew
      exact absurd hup hup'
  | removing phase =>
      obtain ⟨p, -, hpw⟩ := List.mem_map.mp (hwritten _ hrow)
      cases hpw

/-- **What is delivered has been scanned**, where every copy is of the content the
scanner has read: whenever an attachment becomes finalized, its new key stores
what the scanner read, and found clean, in that same call. -/
theorem delivered_is_scanned (hmode : cfg.scanMode = .clamav) {s₀ : State} (h₀ : Initial s₀)
    {as : List Action} (hrun : exec (Attachments.step cfg) s₀ as = some s)
    (hok : Along (Attachments.step cfg) (Unswapped cfg) s₀ as)
    (ht : Attachments.step cfg s a = some t) {id : UUID} {row : Attachment}
    (hf : Finalizes s t id row) : DeliversScanned s t id row := by
  have h : Inv cfg s ∧ Scanned cfg s :=
    exec_induction (P := fun u ↦ Inv cfg u ∧ Scanned cfg u)
      (fun hu hok' hu' ↦ ⟨hu.1.step hu', hu.2.step hmode hu.1 hok' hu'⟩)
      ⟨.initial h₀, .initial h₀⟩ hrun hok
  obtain ⟨tx, old, read, hp, -, hb, rfl⟩ := h.1.finalizes_cases ht hf
  obtain ⟨r, rfl, object, hobj, hc⟩ := h.2.copied tx id old read hp
  exact ⟨tx, old, r, hp, object, by rw [hb]; exact hobj, hc⟩

/-- The condition is exact: after a copy that does not meet it, the commit
delivers something the scanner did not read. -/
theorem unscanned_of_swap (hswap : ¬ Unswapped cfg s (.copy tx)) :
    ∃ u t id old read row, Attachments.step cfg s (.copy tx) = some u ∧
      Attachments.step cfg u (.commit tx) = some t ∧ u.phase tx = .copied id old (some read) ∧
      t.attachments.row id = some row ∧ row.uploadedAt ≠ none ∧ ¬ Stores t row.storageKey read := by
  simp only [Unswapped, not_forall] at hswap
  obtain ⟨id, row, etag, read, object, hp, hb, he, hne⟩ := hswap
  have hcopy : Attachments.step cfg s (.copy tx) = some { s.set tx (.copied id row (some read)) with
      bucket := Function.update s.bucket (finalKey cfg id row) (some object) } := by
    simp [Attachments.step, Attachments.copy, hp, hb, he]
  have hcommit : ∀ u : State, u.phase tx = .copied id row (some read) →
      Attachments.step cfg u (.commit tx) = some { u.set tx (.finalized id row.storageKey) with
        attachments := u.attachments.commit tx [(id, some (promote cfg id u.now row))] } := by
    intro u hu
    simp only [Attachments.step, Attachments.commit, hu]
  have hphase : (s.set tx (.copied id row (some read))).phase tx = .copied id row (some read) :=
    Function.update_self ..
  refine ⟨_, _, id, row, read, promote cfg id s.now row, hcopy, hcommit _ hphase, hphase, ?_, ?_,
    ?_⟩
  · simp [State.set]
  · simp [promote]
  · rintro ⟨object', hb', hc⟩
    have hnew : Function.update s.bucket (finalKey cfg id row) (some object) (finalKey cfg id row) =
        some object' := hb'
    rw [Function.update_self, Option.some.injEq] at hnew
    exact hne (hnew ▸ hc)

/-! ## A schedule that delivers what was not scanned -/

/-- As `unscanned`, with the scanner on; the ETag tells all contents apart. -/
def scannedBy : Config := { unscanned with scanMode := .clamav }

/-- User 2 uploads `[65]`, has `[66]` scanned in its place, and puts `[65]` back. -/
def swapping : List Action :=
  [.reserve 0 1 2 "a" "text/plain" 1 7, .commit 0, .put ⟨.pending, 1, 2, 7, ""⟩ ⟨[65], "text/plain"⟩,
    .complete 1 7 2, .lockRow 1, .stat 1, .put ⟨.pending, 1, 2, 7, ""⟩ ⟨[66], "text/plain"⟩,
    .scan 1 (.text ['O', 'K']), .put ⟨.pending, 1, 2, 7, ""⟩ ⟨[65], "text/plain"⟩, .copy 1]

theorem swapping_delivers_unscanned : Initial empty ∧
    ∃ s t row, exec (Attachments.step scannedBy) empty swapping = some s ∧
      Attachments.step scannedBy s (.commit 1) = some t ∧ Finalizes s t 7 row ∧
        ¬ DeliversScanned s t 7 row := by
  have h₀ : Initial empty := ⟨fun _ ↦ rfl, fun _ ↦ rfl, fun _ ↦ rfl⟩
  refine ⟨h₀, _, _, _, rfl, rfl, ⟨⟨_, rfl, rfl⟩, rfl, nofun⟩, ?_⟩
  rintro ⟨tx, old, read, hp, object, hb, hc⟩
  have h : Inv scannedBy _ := @Inv.of_reachable scannedBy _ empty h₀ swapping rfl
  by_cases e : tx = 1
  · subst e
    cases hp
    cases hb
    exact absurd hc (by decide)
  · exact h.held_ne e (p := (7, old)) (by rw [hp]; exact .head _) (.head _) rfl

/-- User 2 uploads `[65]` and leaves it there. -/
def waiting : List Action :=
  [.reserve 0 1 2 "a" "text/plain" 1 7, .commit 0, .put ⟨.pending, 1, 2, 7, ""⟩ ⟨[65], "text/plain"⟩,
    .complete 1 7 2, .lockRow 1, .stat 1, .scan 1 (.text ['O', 'K']), .copy 1]

theorem delivered_is_scanned_waiting :
    ∃ s t row, exec (Attachments.step scannedBy) empty waiting = some s ∧
      Attachments.step scannedBy s (.commit 1) = some t ∧ Finalizes s t 7 row ∧
        DeliversScanned s t 7 row := by
  have h₀ : Initial empty := ⟨fun _ ↦ rfl, fun _ ↦ rfl, fun _ ↦ rfl⟩
  have hok : Along (Attachments.step scannedBy) (Unswapped scannedBy) empty waiting := by
    refine .cons trivial rfl (.cons trivial rfl (.cons trivial rfl (.cons trivial rfl
      (.cons trivial rfl (.cons trivial rfl (.cons trivial rfl (.cons ?_ rfl trivial)))))))
    rintro id row etag read object ⟨⟩ ⟨⟩ -
    rfl
  refine ⟨_, _, _, rfl, rfl, ⟨⟨_, rfl, rfl⟩, rfl, nofun⟩, ?_⟩
  exact @delivered_is_scanned scannedBy _ _ (.commit 1) rfl empty h₀ waiting rfl hok rfl 7 _
    ⟨⟨_, rfl, rfl⟩, rfl, nofun⟩

end Chatterbox.Attachments
