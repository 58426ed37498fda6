import Chatterbox.Services.Lasting

/-!
# What becomes of a file

A row of `attachments` and the object that it names.  A row is made by `reserve`, and after that
two transactions change it, each of them once: `complete`, which gives it another key and moves the
object there, and `MessageService.create`, which gives it to a message.  A cleanup takes both away.

All of this is about one row: whatever is done to the others, neither it nor its object changes
(`file_lasts`), for the identifier of the row is a part of the key (`Filed`).
-/

namespace Chatterbox.Services

open Attachments (Attachment StorageKey Object bindTo promote abandoned unusable)
open Messages (Message MessageTable)

variable {st : Settings} {s t : Store} {env : Env} {c u id : UUID} {row : Attachment}

/-! ## The transactions that change files -/

/-- The row that `reserve` adds. -/
def reservedRow (st : Settings) (s : Store) (id conversationId uploaderId : UUID)
    (filename mimeType : String) (fileSize : ℕ) (now : Instant) : Attachment :=
  ⟨conversationId, uploaderId, none, filename, mimeType, fileSize,
    Attachments.pendingKey (st.config s) id conversationId uploaderId filename, now, none⟩

section Reserve

variable {filename mimeType : String} {size : ℕ}

/-- What `reserve` does, and what it has found out before. -/
theorem reserve_eq_ok {response : AttachmentUploadResponse}
    (h : reserve st env s c u filename mimeType size = .ok (response, t)) :
    (∀ p ∈ s.attachments, p.1 ≠ env.draw 0) ∧ t = { s with attachments :=
      (env.draw 0, reservedRow st s (env.draw 0) c u filename mimeType size env.now) ::
        s.attachments } ∧ response.attachment.id = env.draw 0 ∧
          response.uploadHeaders = [("Content-Type", mimeType)] := by
  unfold reserve at h
  split at h
  · cases h
  · split at h
    · cases h
    · split at h
      · cases h
      · rename_i hfresh
        cases h
        exact ⟨fun p hp e ↦ hfresh ⟨p, hp, e⟩, rfl, rfl, rfl⟩

/-- A member may reserve a file of an allowed type and size. -/
theorem reserve_of_allowed (hc : s.Exists c) (hu : u ∈ s.memberIds c)
    (htype : mimeType ∈ Attachments.allowedMimeTypes) (hsize : size ≤ st.attachmentMaxBytes)
    {e : AppError} : reserve st env s c u filename mimeType size ≠ .error (.app e) := by
  have hauth : authorize s c u = .ok (s.memberIds c) := authorize_eq_ok.mpr ⟨hc, rfl, hu⟩
  have hvalid : Attachments.validateMetadata (st.config s) mimeType size = .ok () := by
    unfold Attachments.validateMetadata
    rw [if_neg (not_not.mpr htype)]
    exact if_neg (not_lt.mpr hsize)
  unfold reserve
  rw [hauth]
  dsimp only
  rw [hvalid]
  dsimp only
  split <;> simp

end Reserve

/-- What `complete` does, and what it has found out before. -/
theorem complete_eq_ok (hinv : Inv s) {response : AttachmentResponse}
    (h : complete st env s id u = .ok (response, t)) : ∃ row, (id, row) ∈ s.attachments ∧
      row.uploaderId = u ∧ (row.uploadedAt ≠ none ∧ t = s ∨ row.uploadedAt = none ∧
        ∃ object, t = promoteRow st env s id row object) := by
  unfold complete at h
  split at h
  · cases h
  · rename_i id' row hfound
    obtain ⟨hrow, rfl⟩ := (find?_key hinv.attachmentIds).mp hfound
    refine ⟨row, hrow, ?_⟩
    split at h
    · cases h
    · rename_i huploader
      refine ⟨not_not.mp huploader, ?_⟩
      split at h
      · cases h
      · split at h
        · cases h
          exact .inl ⟨‹_›, rfl⟩
        · rename_i hnew
          split at h
          · cases h
          · cases h
            exact .inr ⟨not_not.mp hnew, _, rfl⟩

/-- What a transaction has to do with files. -/
inductive Touches (st : Settings) (s : Store) : Action → Store → Prop
  | none {a : Action} {t : Store} (attachments : t.attachments = s.attachments)
      (bucket : t.bucket = s.bucket) : Touches st s a t
  | put {key : StorageKey} (object : Object) (pending : key.area = .pending) :
      Touches st s (.put key object) { s with bucket := Function.update s.bucket key (some object) }
  | cleanup (cutoff : Instant) (limit : ℕ) (fails : UUID → Bool) :
      Touches st s (.cleanup cutoff limit fails) (cleanupAbandoned s cutoff limit fails)
  | reserve {env : Env} {c u : UUID} {filename mimeType : String} {size : ℕ}
      (fresh : ∀ p ∈ s.attachments, p.1 ≠ env.draw 0) :
      Touches st s (.request env u (.reserve c filename mimeType size)) { s with attachments :=
        (env.draw 0, reservedRow st s (env.draw 0) c u filename mimeType size env.now) ::
          s.attachments }
  | promote {env : Env} {id : UUID} {row : Attachment} (object : Object)
      (found : (id, row) ∈ s.attachments) (pending : row.uploadedAt = Option.none) :
      Touches st s (.request env row.uploaderId (.complete id)) (promoteRow st env s id row object)
  | bind {env : Env} {u c : UUID} {content : String} {ids : List UUID}
      {ordered : List (UUID × Attachment)} (message : Message) (messages : MessageTable)
      (recipientIds : List UUID) (usable : attachmentsFor s c u ids = .ok ordered) :
      Touches st s (.request env u (.createMessage c content ids))
        (addMessage env s message messages recipientIds ids)

theorem touches_of_step (hinv : Inv s) {a : Action} (ht : step st s a = some t) :
    Touches st s a t := by
  cases hop : a.operation s with
  | some op =>
      rw [step_operation ht hop]
      exact .none rfl rfl
  | none =>
      cases a with
      | register user =>
          simp only [step] at ht
          split at ht
          · cases ht
          · cases ht
            exact .none rfl rfl
      | setLastSeen userId lastSeen =>
          cases ht
          exact .none rfl rfl
      | put key object =>
          simp only [step] at ht
          split at ht
          · rename_i harea
            cases ht
            exact .put object harea
          · cases ht
      | cleanup cutoff limit fails =>
          cases ht
          exact .cleanup cutoff limit fails
      | markDelivered now messageId userIds => cases hop
      | request env userId request =>
          simp only [step] at ht
          split at ht
          · rename_i response t' hserve
            cases ht
            cases request with
            | createMessage c content ids =>
                obtain ⟨⟨response, _⟩, hok, hpair⟩ := serve_eq_ok hserve
                cases hpair
                obtain ⟨memberIds, ordered, messages, -, husable, -, -, rfl, -⟩ :=
                  createMessage_eq_ok hok
                exact .bind _ messages _ husable
            | createDirect v =>
                obtain ⟨⟨response, _⟩, hok, hpair⟩ := serve_eq_ok hserve
                cases hpair
                obtain ⟨-, -, ⟨x, -, rfl, -⟩ | ⟨-, -, rfl, -⟩⟩ := createDirect_eq_ok hok
                · exact .none rfl rfl
                · exact .none rfl rfl
            | reserve c filename mimeType size =>
                obtain ⟨⟨response, _⟩, hok, hpair⟩ := serve_eq_ok hserve
                cases hpair
                obtain ⟨hfresh, rfl, -⟩ := reserve_eq_ok hok
                exact .reserve hfresh
            | complete id =>
                obtain ⟨⟨response, _⟩, hok, hpair⟩ := serve_eq_ok hserve
                cases hpair
                obtain ⟨row, hrow, rfl, ⟨-, rfl⟩ | ⟨hpending, object, rfl⟩⟩ :=
                  complete_eq_ok hinv hok
                · exact .none rfl rfl
                · exact .promote object hrow hpending
            | listConversations =>
                cases hserve
                exact .none rfl rfl
            | getConversation | listMessages | authorizeDownload =>
                obtain ⟨_, -, hpair⟩ := serve_eq_ok hserve
                cases hpair
                exact .none rfl rfl
            | markRead c id =>
                obtain ⟨_, hread, -⟩ := serve_eq_ok hserve
                obtain ⟨target, hfound, -⟩ := markRead_eq_ok hread
                rw [Action.operation, hfound] at hop
                cases hop
            | markPendingDelivered => cases hop
          · cases ht

theorem Reachable.step (h : Reachable st s) {a : Action} (ht : Services.step st s a = some t) :
    Reachable st t :=
  h.run (exec_cons_eq_some.mpr ⟨t, ht, rfl⟩ : exec (Services.step st) s [a] = some t)

/-! ## What a completion leaves -/

section Complete

variable {object : Object}

/-- An upload that is as it was declared is completed. -/
theorem complete_of_stored (hinv : Inv s) (hc : s.Exists row.conversationId)
    (hu : row.uploaderId ∈ s.memberIds row.conversationId) (hrow : (id, row) ∈ s.attachments)
    (hpending : row.uploadedAt = none) (hbucket : s.bucket row.storageKey = some object)
    (hsize : object.content.length = row.fileSize) (hne : object.contentType ≠ "")
    (htype : st.text.mimeType object.contentType = row.mimeType)
    (hscan : scan st object = .ok ()) : complete st env s id row.uploaderId =
      .ok (toAttachmentResponse (id, promote (st.config s) id env.now row),
        promoteRow st env s id row object) := by
  have hfound : s.attachment id = some (id, row) := (find?_key hinv.attachmentIds).mpr ⟨hrow, rfl⟩
  have hauth : authorize s row.conversationId row.uploaderId =
      .ok (s.memberIds row.conversationId) := authorize_eq_ok.mpr ⟨hc, rfl, hu⟩
  have hcheck : checkObject st s row = .ok object := by
    unfold checkObject
    rw [hbucket]
    dsimp only [Attachments.metadata]
    rw [if_neg (not_not.mpr hsize), if_neg hne, if_neg (not_not.mpr htype), hscan]
  unfold complete
  rw [hfound]
  dsimp only
  rw [if_neg (not_not.mpr rfl), hauth]
  dsimp only
  rw [if_neg (not_not.mpr hpending), hcheck]

theorem mem_promoteRow (hrow : (id, row) ∈ s.attachments) :
    (id, promote (st.config s) id env.now row) ∈ (promoteRow st env s id row object).attachments :=
  List.mem_map.mpr ⟨_, hrow, if_pos rfl⟩

/-- The object is under the new key, whether it has been removed under the old one or not. -/
theorem bucket_promoteRow (h : row.storageKey.area = .pending) :
    (promoteRow st env s id row object).bucket (Attachments.finalKey (st.config s) id row) =
      some object := by
  have hne : Attachments.finalKey (st.config s) id row ≠ row.storageKey := by
    intro e
    rw [← e] at h
    cases h
  unfold promoteRow
  dsimp only
  split
  · rw [Function.update_of_ne hne, Function.update_self]
  · exact Function.update_self ..

end Complete

/-! ## What a message takes -/

theorem attachmentsFor_eq_ok {ids : List UUID} {ordered : List (UUID × Attachment)}
    (h : attachmentsFor s c u ids = .ok ordered) : ordered = ids.filterMap s.attachment := by
  unfold attachmentsFor at h
  dsimp only at h
  split at h
  · cases h
  · split at h
    · cases h
    · exact (Except.ok.inj h).symm

/-- Files that are usable go with a message. -/
theorem createMessage_of_usable {content : String} {ids : List UUID} (hinv : Inv s)
    (hc : s.Exists c) (hu : u ∈ s.memberIds c) (hids : ids ≠ []) (hnodup : ids.Nodup)
    (hcount : ids.length ≤ st.attachmentMaxPerMessage)
    (husable : ∀ id ∈ ids, ∃ row, (id, row) ∈ s.attachments ∧ ¬ unusable c u row) {e : AppError} :
    createMessage st env s c u content ids ≠ .error (.app e) := by
  have hauth : authorize s c u = .ok (s.memberIds c) := authorize_eq_ok.mpr ⟨hc, rfl, hu⟩
  have hfind : ∀ id ∈ ids, ∃ row, s.attachment id = some (id, row) ∧ ¬ unusable c u row := by
    intro id hid
    obtain ⟨row, hrow, hfree⟩ := husable id hid
    exact ⟨row, (find?_key hinv.attachmentIds).mpr ⟨hrow, rfl⟩, hfree⟩
  have hlength : (ids.filterMap s.attachment).length = ids.length := by
    refine List.filterMap_length_eq_length.mpr fun id hid ↦ ?_
    obtain ⟨row, hfound, -⟩ := hfind id hid
    rw [hfound]
    rfl
  have hordered : attachmentsFor s c u ids = .ok (ids.filterMap s.attachment) := by
    unfold attachmentsFor
    dsimp only
    rw [if_neg (not_not.mpr hlength), if_neg]
    rintro ⟨p, hp, hbad⟩
    obtain ⟨id, hid, hfound⟩ := List.mem_filterMap.mp hp
    obtain ⟨row, hrow, hfree⟩ := hfind id hid
    obtain rfl := Option.some.inj (hfound.symm.trans hrow)
    exact hfree hbad
  unfold createMessage
  rw [hauth]
  dsimp only
  rw [if_neg fun h ↦ hids h.2, if_neg (not_lt.mpr hcount), if_neg (not_not.mpr hnodup), hordered]
  dsimp only
  split
  · simp
  · split <;> simp

/-! ## Keys -/

/-- The key of an attachment: in the staging area until it has been uploaded. -/
def keyOf (st : Settings) (id : UUID) (row : Attachment) : StorageKey :=
  ⟨if row.uploadedAt = none then .pending else .objects, row.conversationId, row.uploaderId, id,
    st.text.suffix row.filename⟩

/-- Every row has its own key. -/
def Filed (st : Settings) (s : Store) : Prop :=
  ∀ p ∈ s.attachments, p.2.storageKey = keyOf st p.1 p.2

theorem Filed.step (h : Filed st s) (hinv : Inv s) {a : Action}
    (ht : Services.step st s a = some t) : Filed st t := by
  cases touches_of_step hinv ht with
  | none attachments bucket =>
      unfold Filed
      rw [attachments]
      exact h
  | put object pending => exact h
  | cleanup cutoff limit fails => exact fun p hp ↦ h p (List.mem_of_mem_filter hp)
  | reserve fresh => exact List.forall_mem_cons.mpr ⟨rfl, h⟩
  | promote object found pending =>
      intro p hp
      obtain ⟨q, hq, rfl⟩ := List.mem_map.mp hp
      split
      · rfl
      · exact h q hq
  | bind message messages recipientIds usable =>
      intro p hp
      obtain ⟨q, hq, rfl⟩ := List.mem_map.mp hp
      split
      · exact h q hq
      · exact h q hq

theorem Reachable.filed (h : Reachable st s) : Filed st s := by
  obtain ⟨as, hrun⟩ := h
  have hboth : Inv s ∧ Filed st s :=
    exec_invariant (P := fun s ↦ Inv s ∧ Filed st s) (fun h ht ↦ ⟨h.1.step ht, h.2.step h.1 ht⟩)
      ⟨.initial, fun _ h ↦ absurd h List.not_mem_nil⟩ hrun
  exact hboth.2

theorem Filed.attachmentId (h : Filed st s) (hp : (id, row) ∈ s.attachments) :
    row.storageKey.attachmentId = id := by rw [h _ hp, keyOf]

/-- A row is the only one of its attachment. -/
theorem Inv.eq_of_row (h : Inv s) {p : UUID × Attachment} (hp : p ∈ s.attachments)
    (hrow : (id, row) ∈ s.attachments) (hid : p.1 = id) : p = (id, row) :=
  List.inj_on_of_nodup_map h.attachmentIds hp hrow hid

/-! ## Files last -/

/-- The transaction has nothing to do with this file. -/
structure Harmless (id : UUID) (row : Attachment) (a : Action) : Prop where
  put : row.uploadedAt = none → ∀ object, a ≠ .put row.storageKey object
  complete : row.uploadedAt = none → ∀ env, a ≠ .request env row.uploaderId (.complete id)
  message : row.messageId = none → ∀ env c content ids, id ∈ ids →
    a ≠ .request env row.uploaderId (.createMessage c content ids)
  cleanup : ∀ cutoff limit fails, a = .cleanup cutoff limit fails → ¬ abandoned cutoff row

/-- Nothing has to do with a file that has been sent. -/
theorem Harmless.of_sent {a : Action} (huploaded : row.uploadedAt ≠ none)
    (hsent : row.messageId ≠ none) : Harmless id row a where
  put h := absurd h huploaded
  complete h := absurd h huploaded
  message h := absurd h hsent
  cleanup _ _ _ _ h := hsent h.1

/-- **Files last.**  Neither the row nor the object is changed by what is done to others. -/
theorem file_lasts (hinv : Inv s) (hfiled : Filed st s) (hrow : (id, row) ∈ s.attachments)
    {a : Action} (ha : Harmless id row a) (ht : step st s a = some t) :
    (id, row) ∈ t.attachments ∧ t.bucket row.storageKey = s.bucket row.storageKey := by
  cases touches_of_step hinv ht with
  | none attachments bucket => rw [attachments, bucket]; exact ⟨hrow, rfl⟩
  | @put key object pending =>
      refine ⟨hrow, Function.update_of_ne (fun e ↦ ?_) ..⟩
      by_cases hpending : row.uploadedAt = none
      · exact ha.put hpending object (e ▸ rfl)
      · rw [← e, hfiled _ hrow, keyOf, if_neg hpending] at pending
        cases pending
  | cleanup cutoff limit fails =>
      have hkept : ∀ p ∈ s.attachments, abandoned cutoff p.2 → p ≠ (id, row) := by
        rintro p - habandoned rfl
        exact ha.cleanup _ _ _ rfl habandoned
      have hremoved : ∀ p, p ∈ (((s.attachments.filter fun p ↦ abandoned cutoff p.2).mergeSort
          fun p q ↦ p.2.createdAt ≤ q.2.createdAt).take limit).filter (fun p ↦ !fails p.1) →
            p ∈ s.attachments ∧ p ≠ (id, row) := by
        intro p hp
        have hmem := List.mem_mergeSort.mp (List.mem_of_mem_take (List.mem_of_mem_filter hp))
        obtain ⟨hp, habandoned⟩ := List.mem_filter.mp hmem
        exact ⟨hp, hkept p hp (of_decide_eq_true habandoned)⟩
      refine ⟨List.mem_filter.mpr ⟨hrow, ?_⟩, if_neg ?_⟩
      · exact decide_eq_true fun hmem ↦ (hremoved _ hmem).2 rfl
      · rintro ⟨p, hp, hkey⟩
        obtain ⟨hmem, hne⟩ := hremoved p hp
        refine hne (hinv.eq_of_row hmem hrow ?_)
        have hsame : p.2.storageKey.attachmentId = p.1 := hfiled.attachmentId hmem
        rw [← hsame, ← hfiled.attachmentId hrow, hkey]
  | reserve fresh => exact ⟨List.mem_cons_of_mem _ hrow, rfl⟩
  | @promote env id' row' object found pending =>
      have hne : id ≠ id' := by
        rintro rfl
        obtain ⟨-, rfl⟩ := Prod.mk.inj (hinv.eq_of_row found hrow rfl)
        exact ha.complete pending env rfl
      have hkey : ∀ key : StorageKey, key.attachmentId = id' → row.storageKey ≠ key := by
        rintro key rfl rfl
        exact hne (hfiled.attachmentId hrow).symm
      refine ⟨List.mem_map.mpr ⟨_, hrow, if_neg hne⟩, ?_⟩
      have hcopied : Function.update s.bucket (Attachments.finalKey (st.config s) id' row')
          (some object) row.storageKey = s.bucket row.storageKey :=
        Function.update_of_ne (hkey _ rfl) ..
      unfold promoteRow
      dsimp only
      split
      · rw [Function.update_of_ne (hkey _ (hfiled.attachmentId found)), hcopied]
      · exact hcopied
  | @bind env u c content ids ordered message messages recipientIds usable =>
      refine ⟨List.mem_map.mpr ⟨_, hrow, if_neg fun hid ↦ ?_⟩, rfl⟩
      have huser := hinv.usable usable hrow hid
      simp only [unusable, not_or, not_not] at huser
      obtain ⟨-, rfl, -, hfree⟩ := huser
      exact ha.message hfree env c content ids hid rfl

end Chatterbox.Services
