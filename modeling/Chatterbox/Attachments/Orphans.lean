import Chatterbox.Attachments.Dangling

/-!
# A row for every object

The only record of where an object is stored is the column `storage_key` of a row,
and `complete` overwrites it.  An object that no row names is never found again: the
cleanup goes through the table, not through the bucket.

The clients are part of the picture here.  `World` adds to the state of the
operations the upload URLs that `reserve` has handed out, and a client may upload
only under a URL that has not expired.

| object | recorded by |
|---|---|
| staging object of a reserved attachment | the row |
| copy made by a completion | the completion, until its commit; then the row |
| staging object of a finalized attachment | the completion, until it has removed it |

Four things leave an object that nothing records: a client uploads after the
attachment has been finalized or deleted; the removal of a staging object fails or is
not reached; a completion stops between its copy and its commit; an upload comes in
between a removal and the deletion of the row.  `no_orphaned_object` says that there
are no others: after runs without them (`Traced`) every object has its row as soon as
no operation is in flight.
-/

namespace Chatterbox.Attachments.Uploads

variable {cfg : Config}

/-! ## Clients and their URLs -/

/-- The operations, and the upload URLs that clients have, with the time at which each
one expires. -/
structure World where
  state : State
  urls : StorageKey → Option Instant

/-- The settings that the operations themselves do not read. -/
structure Lifetimes where
  /-- `attachment_upload_expire_minutes`. -/
  uploadExpire : Nat
  /-- `attachment_pending_ttl_hours`. -/
  pendingTtl : Nat

/-- `reserve` signs the URL before its commit and returns it after. -/
def issue (l : Lifetimes) (w : World) : Action → StorageKey → Option Instant
  | .commit tx =>
      match w.state.phase tx with
      | .reserved _ row =>
          Function.update w.urls row.storageKey (some (row.createdAt + l.uploadExpire))
      | _ => w.urls
  | _ => w.urls

/-- A client uploads under a URL that it has and that has not expired. -/
def Signed (w : World) : Action → Prop
  | .put key _ => ∃ expiry ∈ w.urls key, w.state.now < expiry
  | _ => True

instance (w : World) : DecidablePred (Signed w) := fun a ↦ by
  unfold Signed
  split <;> infer_instance

/-- One step. -/
def step (cfg : Config) (l : Lifetimes) (w : World) (a : Action) : Option World :=
  if Signed w a then
    (Attachments.step cfg w.state a).map fun state ↦ { state, urls := issue l w a }
  else none

/-- Nothing is stored, and no URL has been handed out. -/
structure Fresh (w : World) : Prop where
  state : Initial w.state
  bucket : ∀ key, w.state.bucket key = none
  urls : ∀ key, w.urls key = none

/-- The operation has not begun, or has come to its end. -/
def AtRest : Phase → Prop
  | .idle => True
  | ph => ph.IsOver

/-- Some row names the key. -/
def Named (s : State) (key : StorageKey) : Prop :=
  ∃ id row, s.attachments.row id = some row ∧ row.storageKey = key

/-- Every object is stored under the key of a row. -/
def Referenced (s : State) : Prop := ∀ key, (s.bucket key).isSome → Named s key

/-- The run ends with a pass of the cleanup: batches with one cutoff, the last of which is
not full.  None of its removals has failed, and when it began no row was pending that was
younger than the time to live. -/
def Swept (cfg : Config) (l : Lifetimes) (w₀ : World) (as : List Action) : Prop :=
  ∃ pre mid earlier tx cutoff limit batch,
    as = pre ++ mid ++ .cleanup tx cutoff limit :: batch ++ [.commit tx] ∧
    (∀ q ∈ earlier, .cleanup q cutoff limit ∈ mid) ∧
    (∀ q ∈ tx :: earlier, .removeNext q false ∉ as) ∧
    (∀ m, exec (step cfg l) w₀ pre = some m → cutoff = m.state.now - l.pendingTtl ∧
      ∀ id row, m.state.attachments.row id = some row → row.uploadedAt = none →
        row.createdAt < cutoff) ∧
    ∀ m, exec (step cfg l) w₀ (pre ++ mid ++ .cleanup tx cutoff limit :: batch) = some m →
      ∃ deleted, m.state.phase tx = .removing [] deleted ∧ deleted.length < limit

/-- No operation is in flight, every URL has expired, and a pass of the cleanup has just
been made. -/
structure Settled (cfg : Config) (l : Lifetimes) (w₀ : World) (as : List Action) (w : World) :
    Prop where
  atRest : ∀ tx, AtRest (w.state.phase tx)
  expired : ∀ key expiry, w.urls key = some expiry → expiry ≤ w.state.now
  swept : Swept cfg l w₀ as

/-! ## What is recorded -/

/-- Some completion is going to remove what is stored under the key. -/
def Leaving (s : State) (key : StorageKey) : Prop := ∃ q id, s.phase q = .finalized id key

/-- Some completion has made a copy under the key, and is going to commit. -/
def Arriving (cfg : Config) (s : State) (key : StorageKey) : Prop :=
  ∃ q id row read, s.phase q = .copied id row read ∧ finalKey cfg id row = key

/-- The step leaves no object that nothing records: clients upload under the keys of
rows, or where a completion is going to clean up; completions get past their copy to
their end, with the staging object removed; and nothing is uploaded between the removal
of an object and the deletion of its row. -/
def Traced (w : World) : Action → Prop
  | .put key _ => Named w.state key ∨ Leaving w.state key
  | .removeSource _ ok => ok = true
  | .abort tx => (∀ id row read, w.state.phase tx ≠ .copied id row read) ∧
      ∀ id source, w.state.phase tx ≠ .finalized id source
  | .commit tx => ∀ deleted, w.state.phase tx = .removing [] deleted →
      ∀ p ∈ deleted, w.state.bucket p.2.storageKey = none
  | _ => True

/-- Every object is recorded. -/
def Recorded (cfg : Config) (s : State) : Prop :=
  ∀ key, (s.bucket key).isSome → Named s key ∨ Leaving s key ∨ Arriving cfg s key

variable {l : Lifetimes} {w v : World} {t : State} {a : Action} {key : StorageKey}

/-- An object appears because a client has uploaded it or a completion has copied it. -/
theorem stored_of_step (ht : Attachments.step cfg w.state a = some t)
    (hkey : (t.bucket key).isSome) :
    (w.state.bucket key).isSome ∨ (∃ object, a = .put key object) ∨ Arriving cfg t key := by
  cases Move.of_step ht with
  | @put key' object =>
      by_cases e : key = key'
      · subst e
        exact .inr (.inl ⟨object, rfl⟩)
      · exact .inl (by simpa [Function.update_of_ne e] using hkey)
  | @copied tx id row etag read =>
      by_cases e : key = finalKey cfg id row
      · exact .inr (.inr ⟨tx, id, row, read, Function.update_self .., e.symm⟩)
      · exact .inl (by simpa [Function.update_of_ne e] using hkey)
  | @removeSource tx ok id source =>
      cases ok with
      | false => exact .inl hkey
      | true =>
          by_cases e : key = source
          · subst e
            simp at hkey
          · exact .inl (by simpa [Function.update_of_ne e] using hkey)
  | @removed tx p =>
      by_cases e : key = p.2.storageKey
      · subst e
        simp at hkey
      · exact .inl (by simpa [Function.update_of_ne e] using hkey)
  | commit committed => cases committed <;> exact .inl hkey
  | tick | ended | reserve | complete | checked | unlocked | measured | unscanned | scanned | create
  | skipped | locked | flushed | cleanup | picked | selected | kept | dropped => exact .inl hkey

/-- A row goes when a cleanup commits. -/
theorem deleted_of_step (hi : Inv cfg w.state) (ht : Attachments.step cfg w.state a = some t)
    {id : UUID} {row : Attachment} (hrow : w.state.attachments.row id = some row)
    (hgone : t.attachments.row id = none) : ∃ tx deleted, a = .commit tx ∧
      w.state.phase tx = .removing [] deleted ∧ (id, row) ∈ deleted ∧
        t.bucket = w.state.bucket := by
  rcases step_commit_or_quiet ht with ⟨tx, rfl, hc⟩ | hq
  swap
  · rw [hq.row, hrow] at hgone
    cases hgone
  have hwritten : ∀ ws : List (UUID × Option Attachment),
      (w.state.attachments.commit tx ws).row id = none → (id, none) ∈ ws := fun ws hws ↦ by
    rcases Table.commit_row_cases w.state.attachments tx ws id with ⟨v, hmem, hv⟩ | ⟨-, hsame⟩
    · rwa [← hws, hv]
    · rw [hsame, hrow] at hws
      cases hws
  cases hc with
  | reserved | copied =>
      obtain ⟨-, e⟩ := Prod.mk.inj (List.mem_singleton.mp (hwritten _ hgone))
      cases e
  | bound =>
      obtain ⟨p, -, e⟩ := List.mem_map.mp (hwritten _ hgone)
      cases e
  | @removing deleted phase =>
      obtain ⟨p, hp, e⟩ := List.mem_map.mp (hwritten _ hgone)
      obtain ⟨rfl, -⟩ := Prod.mk.inj e
      obtain rfl : p.2 = row := hi.eq_of_held (by rw [phase]; exact hp) hrow
      exact ⟨tx, deleted, rfl, phase, hp, rfl⟩

/-- A name is lost when the attachment is finalized, and then the completion is going to
remove what is stored under it. -/
theorem Named.step (h : Named w.state key) (hi : Inv cfg w.state) (hok : Traced w a)
    (ht : Attachments.step cfg w.state a = some t) (hkey : (t.bucket key).isSome) :
    Named t key ∨ Leaving t key := by
  obtain ⟨id, row, hrow, rfl⟩ := h
  have hevolves := step_evolves hi ht id
  rw [hrow] at hevolves
  generalize hnew : t.attachments.row id = r at hevolves
  cases hevolves with
  | same => exact .inl ⟨id, row, hnew, rfl⟩
  | finalize now hup =>
      obtain ⟨tx, old, read, hp, hafter, -, -⟩ :=
        hi.finalizes_cases ht ⟨⟨row, hrow, hup⟩, hnew, by simp [promote]⟩
      obtain rfl : old = row := hi.eq_of_held (p := (id, old)) (by rw [hp]; exact .head _) hrow
      exact .inr ⟨tx, id, hafter⟩
  | bind message => exact .inl ⟨id, bindTo message row, hnew, rfl⟩
  | delete =>
      obtain ⟨tx, deleted, rfl, hp, hmem, hbucket⟩ := deleted_of_step hi ht hrow hnew
      rw [hbucket, hok deleted hp _ hmem] at hkey
      cases hkey

/-- A completion that has committed removes the staging object. -/
theorem Leaving.step (h : Leaving w.state key) (hok : Traced w a)
    (ht : Attachments.step cfg w.state a = some t) (hkey : (t.bucket key).isSome) :
    Leaving t key := by
  obtain ⟨q, id, hq⟩ := h
  rcases between_of_step ht (by rw [hq]; trivial) with
    hstays | ⟨ok, rfl⟩ | ⟨ok, rfl⟩ | rfl | rfl
  · exact ⟨q, id, hstays.trans hq⟩
  · simp [Attachments.step, removeNext, hq] at ht
  · obtain rfl : ok = true := hok
    simp only [Attachments.step, removeSource, hq, Option.some.injEq] at ht
    subst ht
    simp at hkey
  · simp [Attachments.step, commit, hq] at ht
  · exact absurd hq (hok.2 id key)

/-- A completion that has copied commits, and the row then names the copy. -/
theorem Arriving.step (h : Arriving cfg w.state key) (hok : Traced w a)
    (ht : Attachments.step cfg w.state a = some t) : Named t key ∨ Arriving cfg t key := by
  obtain ⟨q, id, row, read, hq, rfl⟩ := h
  rcases between_of_step ht (by rw [hq]; trivial) with
    hstays | ⟨ok, rfl⟩ | ⟨ok, rfl⟩ | rfl | rfl
  · exact .inr ⟨q, id, row, read, hstays.trans hq, rfl⟩
  · simp [Attachments.step, removeNext, hq] at ht
  · simp [Attachments.step, removeSource, hq] at ht
  · simp only [Attachments.step, commit, hq, Option.some.injEq] at ht
    subst ht
    exact .inl ⟨id, promote cfg id w.state.now row, by simp, rfl⟩
  · exact absurd hq (hok.1 id row read)

/-- **Every object stays recorded.** -/
theorem Recorded.step (h : Recorded cfg w.state) (hi : Inv cfg w.state) (hok : Traced w a)
    (ht : Attachments.step cfg w.state a = some t) : Recorded cfg t := by
  intro key hkey
  have hrecorded : Named w.state key ∨ Leaving w.state key ∨ Arriving cfg w.state key ∨
      Arriving cfg t key := by
    rcases stored_of_step ht hkey with hold | ⟨object, rfl⟩ | hcopy
    · exact (h key hold).imp_right fun h ↦ h.imp_right .inl
    · exact hok.imp_right .inl
    · exact .inr (.inr (.inr hcopy))
  rcases hrecorded with hnamed | hleaving | harriving | hcopy
  · exact (hnamed.step hi hok ht hkey).imp_right .inl
  · exact .inr (.inl (hleaving.step hok ht hkey))
  · exact (harriving.step hok ht).imp_right .inr
  · exact .inr (.inr hcopy)

/-! ## Runs -/

theorem state_of_step (hw : step cfg l w a = some v) :
    Attachments.step cfg w.state a = some v.state := by
  simp only [step] at hw
  split at hw
  · obtain ⟨state, hstate, rfl⟩ := Option.map_eq_some_iff.mp hw
    exact hstate
  · cases hw

theorem inv_of_exec {w₀ : World} (h₀ : Fresh w₀) {as : List Action}
    (hrun : exec (step cfg l) w₀ as = some w) : Inv cfg w.state :=
  exec_invariant (P := fun u ↦ Inv cfg u.state) (fun hu hu' ↦ hu.step (state_of_step hu'))
    (.initial h₀.state) hrun

/-- With no operation in flight, it is a row that records an object. -/
theorem Recorded.referenced (h : Recorded cfg w.state)
    (hrest : ∀ tx, AtRest (w.state.phase tx)) : Referenced w.state := by
  intro key hkey
  rcases h key hkey with hnamed | ⟨q, id, hq⟩ | ⟨q, id, row, read, hq, -⟩
  · exact hnamed
  · exact absurd (hrest q) (by rw [hq]; exact fun h ↦ h)
  · exact absurd (hrest q) (by rw [hq]; exact fun h ↦ h)

/-- **No orphaned object.**  After a run whose steps leave nothing unrecorded, once no
operation is in flight, every URL has expired and a pass of the cleanup has been made,
every object is stored under the key of a row. -/
theorem no_orphaned_object {w₀ : World} (h₀ : Fresh w₀) {as : List Action}
    (hok : Along (step cfg l) Traced w₀ as) (hrun : exec (step cfg l) w₀ as = some w)
    (hsettled : Settled cfg l w₀ as w) : Referenced w.state := by
  have hinitial : Recorded cfg w₀.state := fun key hkey ↦ by
    rw [h₀.bucket key] at hkey
    cases hkey
  have h : Inv cfg w.state ∧ Recorded cfg w.state :=
    exec_induction (P := fun u ↦ Inv cfg u.state ∧ Recorded cfg u.state)
      (fun hu hok' hu' ↦ ⟨hu.1.step (state_of_step hu'),
        hu.2.step hu.1 hok' (state_of_step hu')⟩)
      ⟨.initial h₀.state, hinitial⟩ hrun hok
  exact h.2.referenced hsettled.atRest

/-! ## One attachment sent, another abandoned -/

/-- Nothing has happened yet. -/
def blank : World := ⟨empty, fun _ ↦ none⟩

theorem blank_fresh : Fresh blank where
  state := ⟨fun _ ↦ rfl, fun _ ↦ rfl, fun _ ↦ rfl⟩
  bucket _ := rfl
  urls _ := rfl

/-- URLs expire after one unit of time, attachments are abandoned after two. -/
def brief : Lifetimes := ⟨1, 2⟩

/-- User 2 sends attachment 7 and abandons attachment 9. -/
def abandoning : List Action :=
  sending ++ [.reserve 4 1 2 "b" "text/plain" 1 9, .commit 4, .tick 3]

/-- A batch of the cleanup that takes one attachment. -/
def sweeping (id : UUID) : List Action := [.pickNext 3 id, .selected 3, .removeNext 3 true]

theorem abandoning_traced : Along (step unscanned brief) Traced blank
    (abandoning ++ .cleanup 3 1 100 :: sweeping 9 ++ [.commit 3]) := by
  repeat' first
    | exact trivial
    | refine Along.cons ?_ rfl ?_
  · rintro _ ⟨⟩
  · exact .inl ⟨7, _, rfl, rfl⟩
  · rintro _ ⟨⟩
  · rfl
  · rintro _ ⟨⟩
  · rintro _ ⟨⟩
  · rintro _ ⟨⟩ _ (_ | ⟨_, ⟨⟩⟩)
    rfl

theorem expired_update {urls : StorageKey → Option Instant} {now e : Instant} {k : StorageKey}
    (h : ∀ key expiry, urls key = some expiry → expiry ≤ now) (he : e ≤ now) :
    ∀ key expiry, Function.update urls k (some e) key = some expiry → expiry ≤ now := by
  intro key expiry hkey
  by_cases hk : key = k
  · rw [hk, Function.update_self, Option.some.injEq] at hkey
    exact hkey ▸ he
  · exact h key expiry ((Function.update_of_ne hk ..).symm.trans hkey)

/-- What a run evaluates to. -/
theorem eq_of_exec {β : Type*} {f : World → β} {b : β} {w₀ : World} {as : List Action}
    (h : (exec (step cfg l) w₀ as).map f = some b) (hrun : exec (step cfg l) w₀ as = some w) :
    f w = b := by
  rw [hrun] at h
  exact Option.some.inj h

/-- The last pass of both runs takes one attachment, the only one pending. -/
theorem swept_of_exec {pre : List Action} {i : UUID} {row : Attachment}
    (hpre : .removeNext 3 false ∉ pre)
    (hnow : (exec (step unscanned brief) blank pre).map (fun m ↦ m.state.now) = some 3)
    (hrows : (exec (step unscanned brief) blank pre).map (fun m ↦ m.state.drawn.all fun id ↦
      (m.state.attachments.row id).all fun row ↦ row.uploadedAt ≠ none ∨ row.createdAt < 1) =
        some true)
    (hlast : (exec (step unscanned brief) blank (pre ++ .cleanup 3 1 100 :: sweeping i)).map
      (fun m ↦ m.state.phase 3) = some (.removing [] [(i, row)])) :
    Swept unscanned brief blank (pre ++ .cleanup 3 1 100 :: sweeping i ++ [.commit 3]) := by
  refine ⟨pre, [], [], 3, 1, 100, sweeping i, by rw [List.append_nil], nofun, ?_,
    fun m hm ↦ ⟨?_, fun id r hr hup ↦ ?_⟩, fun m hm ↦ ⟨_, eq_of_exec hlast ?_, by simp⟩⟩
  · simpa [sweeping] using hpre
  · rw [eq_of_exec hnow hm]
    rfl
  · have hdrawn := ((inv_of_exec blank_fresh hm).rows id r hr).drawn
    have hold := List.all_eq_true.mp (eq_of_exec hrows hm) id hdrawn
    rw [hr] at hold
    simpa [hup] using hold
  · rwa [List.append_nil] at hm

/-- The cleanup deletes attachment 9, and the object of attachment 7 has its row. -/
theorem no_orphaned_object_abandoning : ∃ w,
    exec (step unscanned brief) blank
      (abandoning ++ .cleanup 3 1 100 :: sweeping 9 ++ [.commit 3]) = some w ∧
    (w.state.bucket ⟨.objects, 1, 2, 7, ""⟩).isSome ∧ w.state.attachments.row 9 = none ∧
      Referenced w.state := by
  refine ⟨_, rfl, rfl, rfl, @no_orphaned_object unscanned brief _ _ blank_fresh _
    abandoning_traced rfl ⟨?_, ?_, ?_⟩⟩
  · exact fun
      | 0 | 1 | 2 | 3 | 4 => trivial
      | _ + 5 => trivial
  · exact expired_update (expired_update nofun (by decide)) (by decide)
  · exact @swept_of_exec abandoning 9 _ (by simp [abandoning, sending]) rfl rfl rfl

/-! ## A completion that stops too early -/

/-- The completion of attachment 7 stops between its copy and its commit. -/
def interrupted : List Action := sending.take 8 ++ [.abort 1, .tick 3]

/-- The cleanup deletes the attachment with its staging object; the copy stays. -/
theorem interrupted_completion_orphans : Fresh blank ∧ ∃ w,
    exec (step unscanned brief) blank
      (interrupted ++ .cleanup 3 1 100 :: sweeping 7 ++ [.commit 3]) = some w ∧
    Settled unscanned brief blank (interrupted ++ .cleanup 3 1 100 :: sweeping 7 ++ [.commit 3]) w ∧
    ¬ Referenced w.state := by
  obtain ⟨w, hw, hstored, hdrawn, hgone, hsettled⟩ : ∃ w,
      exec (step unscanned brief) blank
        (interrupted ++ .cleanup 3 1 100 :: sweeping 7 ++ [.commit 3]) = some w ∧
      (w.state.bucket ⟨.objects, 1, 2, 7, ""⟩).isSome ∧ w.state.drawn = [7] ∧
      w.state.attachments.row 7 = none ∧
      Settled unscanned brief blank
        (interrupted ++ .cleanup 3 1 100 :: sweeping 7 ++ [.commit 3]) w := by
    refine ⟨_, rfl, rfl, rfl, rfl, ?_, ?_, ?_⟩
    · exact fun
        | 0 | 1 | 2 | 3 => trivial
        | _ + 4 => trivial
    · exact expired_update nofun (by decide)
    · exact @swept_of_exec interrupted 7 _ (by simp [interrupted, sending]) rfl rfl rfl
  refine ⟨blank_fresh, w, hw, hsettled, fun hreferenced ↦ ?_⟩
  obtain ⟨id, row, hrow, -⟩ := hreferenced _ hstored
  have hid := ((inv_of_exec blank_fresh hw).rows id row hrow).drawn
  rw [hdrawn, List.mem_singleton] at hid
  rw [hid, hgone] at hrow
  cases hrow

end Chatterbox.Attachments.Uploads
