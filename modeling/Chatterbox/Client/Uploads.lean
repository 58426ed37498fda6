import Chatterbox.Attachments.Keys
import Chatterbox.Services.Files

/-!
# Files on their way

`submitMessage` with files.  Each file is reserved, uploaded and completed, all files at the same
time, and when all of them are there the message is sent that names them.  In between, and after,
anybody else does what they like with the server.

| step | source |
|---|---|
| `reserve`, `put`, `complete` | `uploadAttachment`, of one of the files |
| `send` | `sendRealtimeMessage`, or `chatApi.sendMessage` |
| `other` | any other transaction |

Each request is answered before the next one for the same file is made; that it fails for other
reasons than an `AppError` (an identifier is drawn twice, the connection is gone) is not a step.

What `selectFiles` lets through, the server takes (`files_arrive`), and what a member then downloads
is the file that has been selected.  For that nobody else may have a hand in the uploads
(`Undisturbed`); once the message is sent nobody can.
-/

namespace Chatterbox.Client.Uploads

open Attachments (Object StorageKey)
open Services (Env Settings Store Failure MessageResponse AttachmentResponse Harmless
  toAttachmentResponse)

/-! ## Selecting files -/

/-- A `File`. -/
structure File where
  name : String
  type : String
  content : Attachments.Bytes
deriving DecidableEq, Repr

/-- `ALLOWED_ATTACHMENT_TYPES`. -/
def allowedAttachmentTypes : List String :=
  ["application/pdf", "application/zip", "image/gif", "image/jpeg", "image/png", "image/webp",
    "text/plain"]

/-- `MAX_ATTACHMENT_BYTES`. -/
def maxAttachmentBytes : ℕ := 10 * 1024 * 1024

/-- `MAX_ATTACHMENTS`. -/
def maxAttachments : ℕ := 5

/-- `selectFiles`. -/
def selectFiles (current files : List File) : List File :=
  (current ++ files.filter fun file ↦
    file.type ∈ allowedAttachmentTypes ∧ file.content.length ≤ maxAttachmentBytes).take
      maxAttachments

/-- What the user does with `pendingFiles`. -/
inductive Edit where
  | select (files : List File)
  | remove (index : ℕ)

def edit (current : List File) : Edit → List File
  | .select files => selectFiles current files
  | .remove index => current.eraseIdx index

/-- `pendingFiles`, which are none at first. -/
def pendingFiles (edits : List Edit) : List File := edits.foldl edit []

/-! ## What the server makes of a request -/

/-- `AttachmentReserveRequest`. -/
def attachmentReserveRequest (m : CaseMapping) (filename mimeType : String) (fileSize : ℕ) :
    Option (String × String × ℕ) :=
  if (1 ≤ mimeType.length ∧ mimeType.length ≤ 120) ∧ 0 < fileSize then
    (Attachments.acceptFilename filename.toList).map fun name ↦ (.ofList name,
      .ofList (m.lower (Realtime.Envelope.strip Realtime.Envelope.isspace mimeType.toList)),
      fileSize)
  else none

/-- `MessageCreate`, and `MessageSendEvent`. -/
def messageCreate (st : Settings) (content : String) (attachmentIds : List UUID) :
    Option (String × List UUID) :=
  if content.length ≤ 4000 ∧ attachmentIds.length ≤ 10 ∧
      (st.text.strip content ≠ "" ∨ attachmentIds ≠ []) ∧ attachmentIds.Nodup then
    some (st.text.strip content, attachmentIds)
  else none

/-- `validation_error_handler`. -/
def validationError : AppError := ⟨422, "VALIDATION_ERROR", "The request is invalid"⟩

/-! ## Uploading -/

/-- How far `uploadAttachment` has got with a file. -/
inductive Progress where
  | selected
  /-- The answer has come: the upload URL is signed for this key, and the headers name a type. -/
  | reserved (id : UUID) (key : StorageKey) (contentType : String)
  | uploaded (id : UUID)
  | completed (id : UUID)
deriving DecidableEq, Repr

/-- The identifier that the server has given. -/
def Progress.id : Progress → Option UUID
  | .selected => none
  | .reserved id .. | .uploaded id | .completed id => some id

/-- What `uploadAttachment` has returned. -/
def Progress.attachmentId : Progress → Option UUID
  | .completed id => some id
  | _ => none

/-- The server, the files, the message if it has been sent, and what has made an end of it. -/
structure State where
  store : Store
  uploads : List (File × Progress)
  message : Option MessageResponse
  refused : Option AppError

def start (store : Store) (files : List File) : State :=
  ⟨store, files.map (·, .selected), none, none⟩

/-- A file gets on. -/
def State.advance (s : State) (i : ℕ) (file : File) (progress : Progress) (store : Store) :
    State :=
  { s with store, uploads := s.uploads.set i (file, progress) }

inductive Action where
  | reserve (i : ℕ) (env : Env)
  | put (i : ℕ)
  | complete (i : ℕ) (env : Env)
  | send (env : Env)
  | other (a : Services.Action)

/-- An answer; an `AppError` ends it all. -/
def State.answer {α : Type} (s : State) (x : Except Failure α) (next : α → State) : Option State :=
  match x with
  | .ok a => some (next a)
  | .error (.app e) => some { s with refused := some e }
  | .error .other => none

/-- One step of a user who sends files to a conversation, or of somebody else. -/
def step (m : CaseMapping) (st : Settings) (conversationId userId : UUID) (content : String)
    (s : State) : Action → Option State
  | .reserve i env =>
      match s.uploads[i]? with
      | some (file, .selected) =>
          match attachmentReserveRequest m file.name file.type file.content.length with
          | none => some { s with refused := some validationError }
          | some (filename, mimeType, size) =>
              s.answer
                (Services.reserve st env s.store conversationId userId filename mimeType size)
                fun (upload, store) ↦ s.advance i file (.reserved upload.attachment.id
                  (Attachments.pendingKey (st.config s.store) upload.attachment.id conversationId
                    userId filename) ((upload.uploadHeaders.lookup "Content-Type").getD "")) store
      | _ => none
  | .put i =>
      match s.uploads[i]? with
      | some (file, .reserved id key contentType) =>
          (Services.step st s.store (.put key ⟨file.content, contentType⟩)).map
            (s.advance i file (.uploaded id))
      | _ => none
  | .complete i env =>
      match s.uploads[i]? with
      | some (file, .uploaded id) =>
          s.answer (Services.complete st env s.store id userId) fun (_, store) ↦
            s.advance i file (.completed id) store
      | _ => none
  | .send env =>
      let ids := s.uploads.filterMap fun p ↦ p.2.attachmentId
      if s.message = none ∧ s.refused = none ∧ ids.length = s.uploads.length then
        match messageCreate st content ids with
        | none => some { s with refused := some validationError }
        | some (content, ids) =>
            s.answer (Services.createMessage st env s.store conversationId userId content ids)
              fun (response, store) ↦ { s with store, message := some response }
      else none
  | .other a => (Services.step st s.store a).map fun store ↦ { s with store }

/-- Until the message is sent, others keep off its files. -/
def Undisturbed (s : State) : Action → Prop
  | .other a => s.message = none → ∀ p ∈ s.uploads, ∀ id row, p.2.id = some id →
      (id, row) ∈ s.store.attachments → Harmless id row a
  | _ => True

variable {m : CaseMapping} {st : Settings} {c u : UUID} {content : String} {file : File}
  {files : List File} {s t : State} {store : Store} {edits : List Edit}

/-! ## What is selected -/

/-- Files as `selectFiles` lets them through. -/
structure Selected (files : List File) : Prop where
  count : files.length ≤ maxAttachments
  type : ∀ file ∈ files, file.type ∈ allowedAttachmentTypes
  size : ∀ file ∈ files, file.content.length ≤ maxAttachmentBytes

theorem Selected.nil : Selected [] :=
  ⟨Nat.zero_le _, fun _ h ↦ absurd h List.not_mem_nil, fun _ h ↦ absurd h List.not_mem_nil⟩

theorem Selected.edit (h : Selected files) (e : Edit) : Selected (edit files e) := by
  cases e with
  | select more =>
      have hmem : ∀ file ∈ selectFiles files more, file ∈ files ∨
          file.type ∈ allowedAttachmentTypes ∧ file.content.length ≤ maxAttachmentBytes := by
        intro file hfile
        refine (List.mem_append.mp (List.mem_of_mem_take hfile)).imp_right fun hfile ↦ ?_
        exact of_decide_eq_true (List.mem_filter.mp hfile).2
      exact ⟨List.length_take_le .., fun file hfile ↦ (hmem file hfile).elim (h.type file) And.left,
        fun file hfile ↦ (hmem file hfile).elim (h.size file) And.right⟩
  | remove index =>
      exact ⟨(List.length_eraseIdx_le ..).trans h.count,
        fun file hfile ↦ h.type file (List.mem_of_mem_eraseIdx hfile),
        fun file hfile ↦ h.size file (List.mem_of_mem_eraseIdx hfile)⟩

theorem selected_pendingFiles (edits : List Edit) : Selected (pendingFiles edits) := by
  unfold pendingFiles
  induction edits using List.reverseRecOn with
  | nil => exact .nil
  | append_singleton edits e ih =>
      rw [List.foldl_concat]
      exact ih.edit e

/-! ## What is accepted -/

/-- The page and the server allow the same types. -/
theorem allowedAttachmentTypes_eq : allowedAttachmentTypes = Attachments.allowedMimeTypes := rfl

theorem chars_of_allowed {type : String} (h : type ∈ allowedAttachmentTypes) :
    type ≠ "" ∧ (1 ≤ type.length ∧ type.length ≤ 120) ∧ ∀ x ∈ type.toList,
      Realtime.Envelope.isspace x = false ∧ x ≠ ';' ∧ x.toNat < 128 ∧ x.toLower = x := by
  have hall : ∀ type ∈ allowedAttachmentTypes,
      type ≠ "" ∧ (1 ≤ type.length ∧ type.length ≤ 120) ∧ (type.toList.all fun x ↦
        Realtime.Envelope.isspace x = false ∧ x ≠ ';' ∧ x.toNat < 128 ∧ x.toLower = x) = true := by
    decide
  obtain ⟨hne, hlength, hchars⟩ := hall type h
  exact ⟨hne, hlength, fun x hx ↦ of_decide_eq_true (List.all_eq_true.mp hchars x hx)⟩

/-- A type that is allowed is in normal form. -/
theorem lower_strip_of_allowed {type : String} (h : type ∈ allowedAttachmentTypes) :
    m.lower (Realtime.Envelope.strip Realtime.Envelope.isspace type.toList) = type.toList := by
  obtain ⟨-, -, hchars⟩ := chars_of_allowed h
  rw [Realtime.Envelope.strip_eq_self fun x hx ↦ by rw [(hchars x hx).1]; exact Bool.false_ne_true,
    CaseMapping.lower_of_ascii fun x hx ↦ (hchars x hx).2.2.1]
  exact (List.map_congr_left fun x hx ↦ (hchars x hx).2.2.2).trans (List.map_id' _)

theorem mimeType_of_allowed {type : String} (h : type ∈ allowedAttachmentTypes) :
    (Attachments.textOf m).mimeType type = type := by
  have hchars := (chars_of_allowed h).2.2
  have hwhole : type.toList.takeWhile (· ≠ ';') = type.toList :=
    List.takeWhile_eq_self_iff.mpr fun x hx ↦ decide_eq_true (hchars x hx).2.1
  show String.ofList _ = type
  rw [hwhole, lower_strip_of_allowed h, String.ofList_toList]

/-- The name under which the server knows a file. -/
def filename (file : File) : String :=
  .ofList ((Attachments.acceptFilename file.name.toList).getD [])

/-- Nothing is wrong with the file that the page does not look for. -/
structure Sound (st : Settings) (file : File) : Prop where
  nonempty : file.content ≠ []
  name : ∃ name, Attachments.acceptFilename file.name.toList = some name
  clean : Services.scan st ⟨file.content, file.type⟩ = .ok ()

theorem attachmentReserveRequest_eq (h : Sound st file)
    (htype : file.type ∈ allowedAttachmentTypes) :
    attachmentReserveRequest m file.name file.type file.content.length =
      some (filename file, file.type, file.content.length) := by
  obtain ⟨name, hname⟩ := h.name
  have hlength := (chars_of_allowed htype).2.1
  unfold attachmentReserveRequest filename
  rw [if_pos ⟨hlength, List.length_pos_of_ne_nil h.nonempty⟩, hname, Option.map_some,
    lower_strip_of_allowed htype, String.ofList_toList, Option.getD_some]

/-! ## The files on the server -/

/-- The row says of the file what there is to say. -/
structure Describes (c u : UUID) (file : File) (row : Attachments.Attachment) : Prop where
  conversationId : row.conversationId = c
  uploaderId : row.uploaderId = u
  filename : row.filename = filename file
  mimeType : row.mimeType = file.type
  fileSize : row.fileSize = file.content.length

/-- What the server has of a file that has not been sent. -/
def Held (c u : UUID) (store : Store) : File × Progress → Prop
  | (_, .selected) => True
  | (file, .reserved id key contentType) => ∃ row, (id, row) ∈ store.attachments ∧
      Describes c u file row ∧ row.messageId = none ∧ row.uploadedAt = none ∧
        key = row.storageKey ∧ contentType = file.type
  | (file, .uploaded id) => ∃ row, (id, row) ∈ store.attachments ∧ Describes c u file row ∧
      row.messageId = none ∧ row.uploadedAt = none ∧
        store.bucket row.storageKey = some ⟨file.content, file.type⟩
  | (file, .completed id) => ∃ row, (id, row) ∈ store.attachments ∧ Describes c u file row ∧
      row.messageId = none ∧ row.uploadedAt ≠ none ∧
        store.bucket row.storageKey = some ⟨file.content, file.type⟩

/-- A file that has been sent, as an attachment of the message. -/
def Arrived (c u : UUID) (store : Store) (file : File) (attachment : AttachmentResponse) : Prop :=
  ∃ row, (attachment.id, row) ∈ store.attachments ∧ Describes c u file row ∧
    row.messageId ≠ none ∧ row.uploadedAt ≠ none ∧
      store.bucket row.storageKey = some ⟨file.content, file.type⟩ ∧
        toAttachmentResponse (attachment.id, row) = attachment

theorem Held.row {p : File × Progress} (h : Held c u store p) {id : UUID} (hid : p.2.id = some id) :
    ∃ row, (id, row) ∈ store.attachments ∧ row.uploaderId = u ∧ row.messageId = none := by
  obtain ⟨file, progress⟩ := p
  cases progress with
  | selected => cases hid
  | reserved id' key contentType =>
      obtain rfl := Option.some.inj hid
      obtain ⟨row, hrow, hdescribes, hmessage, -⟩ := h
      exact ⟨row, hrow, hdescribes.uploaderId, hmessage⟩
  | uploaded id' | completed id' =>
      obtain rfl := Option.some.inj hid
      obtain ⟨row, hrow, hdescribes, hmessage, -⟩ := h
      exact ⟨row, hrow, hdescribes.uploaderId, hmessage⟩

/-- What is held stays while others keep off. -/
theorem Held.step {store' : Store} {p : File × Progress} (h : Held c u store p)
    (hreach : Services.Reachable st store) {a : Services.Action}
    (ha : ∀ id row, p.2.id = some id → (id, row) ∈ store.attachments → Harmless id row a)
    (ht : Services.step st store a = some store') : Held c u store' p := by
  obtain ⟨file, progress⟩ := p
  cases progress with
  | selected => trivial
  | reserved id key contentType =>
      obtain ⟨row, hrow, hrest⟩ := h
      obtain ⟨hrow', -⟩ := Services.file_lasts hreach.inv hreach.filed hrow (ha id row rfl hrow) ht
      exact ⟨row, hrow', hrest⟩
  | uploaded id | completed id =>
      obtain ⟨row, hrow, hdescribes, hmessage, huploaded, hbucket⟩ := h
      obtain ⟨hrow', hsame⟩ :=
        Services.file_lasts hreach.inv hreach.filed hrow (ha id row rfl hrow) ht
      exact ⟨row, hrow', hdescribes, hmessage, huploaded, hsame.trans hbucket⟩

/-- What has arrived stays, whatever happens. -/
theorem Arrived.step {store' : Store} {attachment : AttachmentResponse}
    (h : Arrived c u store file attachment) (hreach : Services.Reachable st store)
    {a : Services.Action} (ht : Services.step st store a = some store') :
    Arrived c u store' file attachment := by
  obtain ⟨row, hrow, hdescribes, hmessage, huploaded, hbucket, hresponse⟩ := h
  obtain ⟨hrow', hsame⟩ :=
    Services.file_lasts hreach.inv hreach.filed hrow (.of_sent huploaded hmessage) ht
  exact ⟨row, hrow', hdescribes, hmessage, huploaded, hsame.trans hbucket, hresponse⟩

/-! ## While files are uploaded -/

/-- All goes well, and the message is still to be sent. -/
structure Uploading (st : Settings) (c u : UUID) (files : List File) (s : State) : Prop where
  reachable : Services.Reachable st s.store
  exists_ : s.store.Exists c
  member : u ∈ s.store.memberIds c
  files : s.uploads.map Prod.fst = files
  held : ∀ (i : ℕ) p, s.uploads[i]? = some p → Held c u s.store p
  ids : ∀ (i j : ℕ) p q, s.uploads[i]? = some p → s.uploads[j]? = some q → ∀ id,
    p.2.id = some id → q.2.id = some id → i = j
  message : s.message = none
  refused : s.refused = none

theorem Uploading.start (hreach : Services.Reachable st store) (hc : store.Exists c)
    (hu : u ∈ store.memberIds c) : Uploading st c u files (start store files) where
  reachable := hreach
  exists_ := hc
  member := hu
  files := by
    show (files.map _).map Prod.fst = files
    rw [List.map_map]
    exact List.map_id _
  held i p hp := by
    obtain ⟨file, -, rfl⟩ := List.mem_map.mp (List.mem_of_getElem? hp)
    trivial
  ids i j p q hp hq id hid := by
    obtain ⟨file, -, rfl⟩ := List.mem_map.mp (List.mem_of_getElem? hp)
    cases hid
  message := rfl
  refused := rfl

/-- Somebody else does something. -/
theorem Uploading.other (h : Uploading st c u files s) {a : Services.Action}
    (ha : ∀ p ∈ s.uploads, ∀ id row, p.2.id = some id → (id, row) ∈ s.store.attachments →
      Harmless id row a) (ht : Services.step st s.store a = some store) :
    Uploading st c u files { s with store } where
  reachable := h.reachable.step ht
  exists_ := Services.exists_of_step ht h.exists_
  member := by rw [Services.memberIds_of_step ht h.exists_]; exact h.member
  files := h.files
  held i p hp := (h.held i p hp).step h.reachable (ha p (List.mem_of_getElem? hp)) ht
  ids := h.ids
  message := h.message
  refused := h.refused

/-- One of the files gets on, by a transaction that keeps off the others. -/
theorem Uploading.advance (h : Uploading st c u files s) {i : ℕ} {before progress : Progress}
    (hi : s.uploads[i]? = some (file, before)) {a : Services.Action}
    (ha : ∀ (j : ℕ) p, j ≠ i → s.uploads[j]? = some p → ∀ id row, p.2.id = some id →
      (id, row) ∈ s.store.attachments → Harmless id row a)
    (ht : Services.step st s.store a = some store) (hheld : Held c u store (file, progress))
    (hid : ∀ id, progress.id = some id →
      before.id = some id ∨ ∀ p ∈ s.store.attachments, p.1 ≠ id) :
    Uploading st c u files (s.advance i file progress store) := by
  obtain ⟨hlt, -⟩ := List.getElem?_eq_some_iff.mp hi
  have hother : ∀ (j : ℕ) p, (s.uploads.set i (file, progress))[j]? = some p →
      j = i ∧ p = (file, progress) ∨ j ≠ i ∧ s.uploads[j]? = some p := by
    intro j p hp
    rw [List.getElem?_set] at hp
    split at hp
    · next hij => exact .inl ⟨hij.symm, (Option.some.inj hp).symm⟩
    · next hij => exact .inr ⟨Ne.symm hij, hp⟩
  -- a new identifier is of no other file, for those have rows
  have hfresh : ∀ (j : ℕ) q, j ≠ i → s.uploads[j]? = some q → ∀ id, progress.id = some id →
      q.2.id ≠ some id := by
    intro j q hj hq id hprogress hsame
    rcases hid id hprogress with hbefore | hnew
    · exact hj (h.ids j i q _ hq hi id hsame hbefore)
    · obtain ⟨row, hrow, -⟩ := (h.held j q hq).row hsame
      exact hnew _ hrow rfl
  exact {
    reachable := h.reachable.step ht
    exists_ := Services.exists_of_step ht h.exists_
    member := by
      show u ∈ store.memberIds c
      rw [Services.memberIds_of_step ht h.exists_]
      exact h.member
    files := by
      show (s.uploads.set i (file, progress)).map Prod.fst = files
      rw [List.map_set, ← h.files]
      refine List.ext_getElem? fun j ↦ ?_
      rw [List.getElem?_set]
      split
      · next hij =>
          rw [if_pos (by rwa [List.length_map]), ← hij, List.getElem?_map, hi, Option.map_some]
      · rfl
    held := fun j p hp ↦ by
      rcases hother j p hp with ⟨-, rfl⟩ | ⟨hj, hp'⟩
      · exact hheld
      · exact (h.held j p hp').step h.reachable (ha j p hj hp') ht
    ids := fun j k p q hp hq id hpid hqid ↦ by
      rcases hother j p hp with ⟨rfl, rfl⟩ | ⟨hj, hp'⟩
      · rcases hother k q hq with ⟨rfl, -⟩ | ⟨hk, hq'⟩
        · rfl
        · exact absurd hqid (hfresh k q hk hq' id hpid)
      · rcases hother k q hq with ⟨rfl, rfl⟩ | ⟨hk, hq'⟩
        · exact absurd hpid (hfresh j p hj hp' id hqid)
        · exact h.ids j k p q hp' hq' id hpid hqid
    message := h.message
    refused := h.refused }

/-! ## Each of the requests -/

/-- The page, the server and the files fit together. -/
structure Fits (m : CaseMapping) (st : Settings) (content : String) (files : List File) : Prop where
  text : st.text = Attachments.textOf m
  bytes : maxAttachmentBytes ≤ st.attachmentMaxBytes
  count : maxAttachments ≤ st.attachmentMaxPerMessage
  selected : Selected files
  sound : ∀ file ∈ files, Sound st file
  some_ : files ≠ []
  length : content.length ≤ 4000

theorem answer_eq_some {α : Type} {x : Except Failure α} {next : α → State} :
    s.answer x next = some t ↔ (∃ a, x = .ok a ∧ next a = t) ∨
      ∃ e, x = .error (.app e) ∧ { s with refused := some e } = t := by
  unfold State.answer
  split
  · simp
  · simp
  · simp

theorem Uploading.mem (h : Uploading st c u files s) {i : ℕ} {progress : Progress}
    (hi : s.uploads[i]? = some (file, progress)) : file ∈ files := by
  rw [← h.files]
  exact List.mem_map_of_mem (List.mem_of_getElem? hi)

/-- Others have rows of other attachments. -/
theorem Uploading.ne_of_ne (h : Uploading st c u files s) {i j : ℕ} {p q : File × Progress}
    (hp : s.uploads[i]? = some p) (hq : s.uploads[j]? = some q) (hij : j ≠ i) {id id' : UUID}
    (hpid : p.2.id = some id) (hqid : q.2.id = some id') : id' ≠ id := by
  rintro rfl
  exact hij (h.ids j i q p hq hp _ hqid hpid)

theorem Uploading.reserve (h : Uploading st c u files s) (hfits : Fits m st content files) {i : ℕ}
    {env : Env} (ht : Uploads.step m st c u content s (.reserve i env) = some t) :
    Uploading st c u files t := by
  simp only [Uploads.step] at ht
  split at ht
  · rename_i file hi
    have hmem : file ∈ files := h.mem hi
    have htype := hfits.selected.type file hmem
    rw [attachmentReserveRequest_eq (hfits.sound file hmem) htype] at ht
    rcases answer_eq_some.mp ht with ⟨⟨upload, store⟩, hok, rfl⟩ | ⟨e, he, -⟩
    · have hstep : Services.step st s.store (.request env u (.reserve c (filename file) file.type
          file.content.length)) = some store := by
        rw [Services.step, Services.serve, hok]
        rfl
      obtain ⟨hfresh, rfl, hid, hheaders⟩ := Services.reserve_eq_ok hok
      refine h.advance hi (fun j p hj hp id row hpid hrow ↦ ?_) hstep ?_ fun id hprogress ↦ ?_
      · exact ⟨fun _ _ ↦ by simp, fun _ _ ↦ by simp, fun _ _ _ _ _ _ ↦ by simp,
          fun _ _ _ hcleanup ↦ by cases hcleanup⟩
      · rw [hid, hheaders]
        exact ⟨_, List.mem_cons_self, ⟨rfl, rfl, rfl, rfl, rfl⟩, rfl, rfl, rfl, rfl⟩
      · rw [hid] at hprogress
        obtain rfl := Option.some.inj hprogress
        exact .inr hfresh
    · refine absurd he (Services.reserve_of_allowed h.exists_ h.member ?_ ?_)
      · rwa [← allowedAttachmentTypes_eq]
      · exact (hfits.selected.size file hmem).trans hfits.bytes
  · cases ht

theorem Uploading.put (h : Uploading st c u files s) {i : ℕ}
    (ht : Uploads.step m st c u content s (.put i) = some t) : Uploading st c u files t := by
  simp only [Uploads.step] at ht
  split at ht
  · rename_i file id key contentType hi
    obtain ⟨store, hstep, rfl⟩ := Option.map_eq_some_iff.mp ht
    obtain ⟨row, hrow, hdescribes, hmessage, hpending, rfl, rfl⟩ := h.held i _ hi
    have hid := h.reachable.filed.attachmentId hrow
    refine h.advance hi (fun j p hj hp id' row' hpid hrow' ↦ ?_) hstep ?_ fun _ h ↦ .inl h
    · refine ⟨fun _ object e ↦ ?_, fun _ _ ↦ by simp, fun _ _ _ _ _ _ ↦ by simp,
        fun _ _ _ hcleanup ↦ by cases hcleanup⟩
      injection e with hkey
      refine h.ne_of_ne hi hp hj rfl hpid ?_
      rw [← hid, ← h.reachable.filed.attachmentId hrow', hkey]
    · simp only [Services.step] at hstep
      split at hstep
      · cases hstep
        exact ⟨row, hrow, hdescribes, hmessage, hpending, Function.update_self ..⟩
      · cases hstep
  · cases ht

theorem Uploading.complete (h : Uploading st c u files s) (hfits : Fits m st content files) {i : ℕ}
    {env : Env} (ht : Uploads.step m st c u content s (.complete i env) = some t) :
    Uploading st c u files t := by
  simp only [Uploads.step] at ht
  split at ht
  · rename_i file id hi
    have hmem : file ∈ files := h.mem hi
    have htype := hfits.selected.type file hmem
    obtain ⟨row, hrow, hdescribes, hmessage, hpending, hbucket⟩ := h.held i _ hi
    obtain ⟨rfl, rfl, hname, hmime, hsize⟩ := hdescribes
    have hnormal : st.text.mimeType file.type = row.mimeType := by
      rw [hfits.text, hmime]
      exact mimeType_of_allowed htype
    have hok : Services.complete st env s.store id row.uploaderId =
        .ok (toAttachmentResponse (id, Attachments.promote (st.config s.store) id env.now row),
          Services.promoteRow st env s.store id row ⟨file.content, file.type⟩) :=
      Services.complete_of_stored h.reachable.inv h.exists_ h.member hrow hpending hbucket
        hsize.symm (chars_of_allowed htype).1 hnormal (hfits.sound file hmem).clean
    have hstep : Services.step st s.store (.request env row.uploaderId (.complete id)) =
        some (Services.promoteRow st env s.store id row ⟨file.content, file.type⟩) := by
      rw [Services.step, Services.serve, hok]
      rfl
    rw [hok] at ht
    obtain rfl := Option.some.inj ht
    refine h.advance hi (fun j p hj hp id' row' hpid hrow' ↦ ?_) hstep ?_ fun _ h ↦ .inl h
    · refine ⟨fun _ _ ↦ by simp, fun _ _ e ↦ ?_, fun _ _ _ _ _ _ ↦ by simp,
        fun _ _ _ hcleanup ↦ by cases hcleanup⟩
      injection e with _ _ hrequest
      injection hrequest with hid
      exact h.ne_of_ne hi hp hj rfl hpid hid.symm
    · have hkey := h.reachable.filed _ hrow
      refine ⟨_, Services.mem_promoteRow hrow, ⟨rfl, rfl, hname, hmime, hsize⟩, hmessage,
        Option.some_ne_none _, Services.bucket_promoteRow ?_⟩
      rw [hkey, Services.keyOf, if_pos hpending]
  · cases ht

/-! ## The message -/

/-- The message has been sent, and all files are there. -/
structure Delivered (st : Settings) (c u : UUID) (files : List File) (response : MessageResponse)
    (s : State) : Prop where
  reachable : Services.Reachable st s.store
  exists_ : s.store.Exists c
  message : s.message = some response
  completed : ∀ p ∈ s.uploads, ∃ id, p.2 = .completed id
  arrived : files.Forall₂ (Arrived c u s.store) response.attachments
  refused : s.refused = none

/-- Somebody else does something; by then it does not matter what. -/
theorem Delivered.other {response : MessageResponse} (h : Delivered st c u files response s)
    {a : Services.Action} (ht : Services.step st s.store a = some store) :
    Delivered st c u files response { s with store } where
  reachable := h.reachable.step ht
  exists_ := Services.exists_of_step ht h.exists_
  message := h.message
  completed := h.completed
  arrived := h.arrived.imp fun _ _ harrived ↦ harrived.step h.reachable ht
  refused := h.refused

/-- The identifiers that are sent, once all files are completed. -/
theorem Uploading.attachmentIds (h : Uploading st c u files s)
    (hall : (s.uploads.filterMap fun p ↦ p.2.attachmentId).length = s.uploads.length) :
    (∀ p ∈ s.uploads, ∃ id row, p.2 = .completed id ∧ (id, row) ∈ s.store.attachments ∧
      Describes c u p.1 row ∧ row.messageId = none ∧ row.uploadedAt ≠ none ∧
        s.store.bucket row.storageKey = some ⟨p.1.content, p.1.type⟩) ∧
      (s.uploads.filterMap fun p ↦ p.2.attachmentId).Nodup := by
  have hcompleted : ∀ p ∈ s.uploads, ∃ id, p.2 = .completed id := by
    intro p hp
    have hsome := List.filterMap_length_eq_length.mp hall p hp
    obtain ⟨file, progress⟩ := p
    cases progress with
    | completed id => exact ⟨id, rfl⟩
    | selected | reserved id key contentType | uploaded id => cases hsome
  refine ⟨fun ⟨file, progress⟩ hp ↦ ?_, ?_⟩
  · obtain ⟨id, rfl⟩ := hcompleted _ hp
    obtain ⟨i, hi⟩ := List.mem_iff_getElem?.mp hp
    obtain ⟨row, hrow⟩ := h.held i _ hi
    exact ⟨id, row, rfl, hrow⟩
  · refine List.pairwise_filterMap.mpr (List.pairwise_iff_getElem.mpr fun i j hi hj hij ↦ ?_)
    rintro id hid _ hid' rfl
    have hof : ∀ progress : Progress, progress.attachmentId = some id → progress.id = some id := by
      intro progress hprogress
      cases progress with
      | completed id' => exact hprogress
      | selected | reserved id' key contentType | uploaded id' => cases hprogress
    exact hij.ne (h.ids i j _ _ (List.getElem?_eq_getElem hi) (List.getElem?_eq_getElem hj) id
      (hof _ hid) (hof _ hid'))

/-- The files of a message are found in the order of their identifiers. -/
theorem forall₂_of_completed {R : File → AttachmentResponse → Prop}
    {g : UUID × Attachments.Attachment → AttachmentResponse} {uploads : List (File × Progress)}
    (h : ∀ p ∈ uploads, ∃ id row, p.2 = .completed id ∧ store.attachment id = some (id, row) ∧
      R p.1 (g (id, row))) :
    (uploads.map Prod.fst).Forall₂ R
      (((uploads.filterMap fun p ↦ p.2.attachmentId).filterMap store.attachment).map g) := by
  induction uploads with
  | nil => exact .nil
  | cons p uploads ih =>
      obtain ⟨hp, hrest⟩ := List.forall_mem_cons.mp h
      obtain ⟨id, row, hcompleted, hfound, hR⟩ := hp
      rw [List.filterMap_cons_some (f := fun p : File × Progress ↦ p.2.attachmentId) (b := id)
        (by rw [hcompleted]; rfl), List.filterMap_cons_some hfound]
      exact .cons hR (ih hrest)

theorem Uploading.send (h : Uploading st c u files s) (hfits : Fits m st content files) {env : Env}
    (ht : Uploads.step m st c u content s (.send env) = some t) :
    ∃ response, Delivered st c u files response t := by
  simp only [Uploads.step] at ht
  split at ht
  · rename_i hready
    obtain ⟨hall, hnodup⟩ := h.attachmentIds hready.2.2
    set ids := s.uploads.filterMap fun p ↦ p.2.attachmentId with hids
    have hlength : ids.length = files.length := by
      rw [hready.2.2, ← h.files, List.length_map]
    have hne : ids ≠ [] := by
      rw [← List.length_pos_iff, hlength]
      exact List.length_pos_of_ne_nil hfits.some_
    have hcount : ids.length ≤ maxAttachments := hlength.trans_le hfits.selected.count
    have hten : maxAttachments ≤ 10 := by decide
    have hfound : ∀ p ∈ s.uploads, ∃ id row, p.2 = .completed id ∧
        s.store.attachment id = some (id, row) ∧ Describes c u p.1 row ∧ row.messageId = none ∧
          row.uploadedAt ≠ none ∧
            s.store.bucket row.storageKey = some ⟨p.1.content, p.1.type⟩ := by
      intro p hp
      obtain ⟨id, row, hcompleted, hrow, hrest⟩ := hall p hp
      have hkey := (Services.find?_key h.reachable.inv.attachmentIds).mpr ⟨hrow, rfl⟩
      exact ⟨id, row, hcompleted, hkey, hrest⟩
    have husable : ∀ id ∈ ids, ∃ row, (id, row) ∈ s.store.attachments ∧
        ¬ Attachments.unusable c u row := by
      intro id hid
      obtain ⟨p, hp, hpid⟩ := List.mem_filterMap.mp hid
      obtain ⟨id', row, hcompleted, hrow, hdescribes, hmessage, huploaded, -⟩ := hall p hp
      rw [hcompleted] at hpid
      obtain rfl := Option.some.inj hpid
      refine ⟨row, hrow, ?_⟩
      simp only [Attachments.unusable, hdescribes.conversationId, hdescribes.uploaderId, hmessage,
        huploaded, ne_eq, not_true_eq_false, or_self, not_false_eq_true]
    have hcreate : messageCreate st content ids = some (st.text.strip content, ids) :=
      if_pos ⟨hfits.length, hcount.trans hten, .inr hne, hnodup⟩
    rw [hcreate] at ht
    rcases answer_eq_some.mp ht with ⟨⟨response, store⟩, hok, rfl⟩ | ⟨e, he, -⟩
    · have hstep : Services.step st s.store
          (.request env u (.createMessage c (st.text.strip content) ids)) = some store := by
        rw [Services.step, Services.serve, hok]
        rfl
      obtain ⟨memberIds, ordered, messages, -, hordered, -, -, hstore, hresponse⟩ :=
        Services.createMessage_eq_ok hok
      refine ⟨response, h.reachable.step hstep, Services.exists_of_step hstep h.exists_, rfl,
        fun p hp ↦ ?_, ?_, h.refused⟩
      · obtain ⟨id, -, hcompleted, -⟩ := hall p hp
        exact ⟨id, hcompleted⟩
      · rw [hresponse, ← h.files, Services.attachmentsFor_eq_ok hordered]
        show List.Forall₂ _ _ (List.map _ (List.map _ _))
        rw [List.map_map]
        refine forall₂_of_completed fun p hp ↦ ?_
        obtain ⟨id, row, hcompleted, hrow, hdescribes, -, huploaded, hbucket⟩ := hfound p hp
        obtain ⟨rfl, rfl, hname, hmime, hsize⟩ := hdescribes
        have hmem : id ∈ ids := List.mem_filterMap.mpr ⟨p, hp, by rw [hcompleted]; rfl⟩
        refine ⟨id, row, hcompleted, hrow, Attachments.bindTo (env.draw 0) row, ?_,
          ⟨rfl, rfl, hname, hmime, hsize⟩, Option.some_ne_none _, huploaded, ?_, rfl⟩
        · rw [hstore]
          exact List.mem_map.mpr ⟨_, List.mem_of_find?_eq_some hrow, if_pos hmem⟩
        · rw [hstore]
          exact hbucket
    · exact absurd he (Services.createMessage_of_usable h.reachable.inv h.exists_ h.member hne
        hnodup (hcount.trans hfits.count) husable)
  · cases ht

/-! ## All of it -/

/-- Files are being uploaded, or the message that has them is there. -/
def Inv (st : Settings) (c u : UUID) (files : List File) (s : State) : Prop :=
  Uploading st c u files s ∨ ∃ response, Delivered st c u files response s

theorem Inv.step (h : Inv st c u files s) (hfits : Fits m st content files) {a : Action}
    (ha : Undisturbed s a) (ht : Uploads.step m st c u content s a = some t) :
    Inv st c u files t := by
  rcases h with h | ⟨response, h⟩
  · cases a with
    | reserve i env => exact .inl (h.reserve hfits ht)
    | put i => exact .inl (h.put ht)
    | complete i env => exact .inl (h.complete hfits ht)
    | send env => exact .inr (h.send hfits ht)
    | other a =>
        obtain ⟨store, hstep, rfl⟩ := Option.map_eq_some_iff.mp ht
        exact .inl (h.other (ha h.message) hstep)
  · -- nothing is left to do for the user
    have hdone : ∀ {i : ℕ} {file progress}, s.uploads[i]? = some (file, progress) →
        ∃ id, progress = .completed id := fun hi ↦ h.completed _ (List.mem_of_getElem? hi)
    cases a with
    | reserve i env | put i | complete i env =>
        simp only [Uploads.step] at ht
        split at ht
        · rename_i hi
          obtain ⟨id, hid⟩ := hdone hi
          cases hid
        · cases ht
    | send env =>
        simp only [Uploads.step] at ht
        split at ht
        · rename_i hready
          rw [h.message] at hready
          exact absurd hready.1 (Option.some_ne_none _)
        · cases ht
    | other a =>
        obtain ⟨store, hstep, rfl⟩ := Option.map_eq_some_iff.mp ht
        exact .inr ⟨response, h.other hstep⟩

/-- What a member downloads is the file. -/
def Downloadable (store : Store) (c : UUID) (file : File) (attachment : AttachmentResponse) :
    Prop :=
  attachment.filename = filename file ∧ attachment.mimeType = file.type ∧
    attachment.fileSize = file.content.length ∧ ∀ v ∈ store.memberIds c, ∃ row,
      Services.authorizeDownload store attachment.id v = .ok (attachment.id, row) ∧
        toAttachmentResponse (attachment.id, row) = attachment ∧
          store.bucket row.storageKey = some ⟨file.content, file.type⟩

theorem Arrived.downloadable {attachment : AttachmentResponse}
    (h : Arrived c u store file attachment) (hinv : Services.Inv store) :
    Downloadable store c file attachment := by
  obtain ⟨row, hrow, ⟨rfl, rfl, hname, hmime, hsize⟩, hmessage, huploaded, hbucket, hresponse⟩ := h
  refine ⟨?_, ?_, ?_, fun v hv ↦ ⟨row, ?_, hresponse, hbucket⟩⟩
  · rw [← hresponse]
    exact hname
  · rw [← hresponse]
    exact hmime
  · rw [← hresponse]
    exact hsize
  · have hfound : store.attachment attachment.id = some (attachment.id, row) :=
      (Services.find?_key hinv.attachmentIds).mpr ⟨hrow, rfl⟩
    have hauth : Services.authorize store row.conversationId v =
        .ok (store.memberIds row.conversationId) :=
      Services.authorize_eq_ok.mpr ⟨hinv.exists_of_mem hv, rfl, hv⟩
    unfold Services.authorizeDownload
    rw [hfound]
    dsimp only
    rw [if_neg (not_or.mpr ⟨hmessage, huploaded⟩), hauth]

/-- **Files arrive.**  Whatever files a member has selected, if they are not empty, have names that
are no directories, and are clean: while they are uploaded, all at the same time and among the
transactions of others that keep off them, nothing is refused.  Once the message is sent its
attachments are these files, in order; and whatever anybody does from then on, what every member of
the conversation downloads are the bytes that have been selected. -/
theorem files_arrive (hreach : Services.Reachable st store) (hu : u ∈ store.memberIds c)
    (htext : st.text = Attachments.textOf m) (hbytes : maxAttachmentBytes ≤ st.attachmentMaxBytes)
    (hcount : maxAttachments ≤ st.attachmentMaxPerMessage)
    (hsome : pendingFiles edits ≠ []) (hlength : content.length ≤ 4000)
    (hsound : ∀ file ∈ pendingFiles edits, Sound st file) {as : List Action}
    (hrun : exec (step m st c u content) (start store (pendingFiles edits)) as = some s)
    (hok : Along (step m st c u content) Undisturbed (start store (pendingFiles edits)) as) :
    s.refused = none ∧ ∀ response, s.message = some response →
      (pendingFiles edits).Forall₂ (Downloadable s.store c) response.attachments := by
  have hfits : Fits m st content (pendingFiles edits) :=
    ⟨htext, hbytes, hcount, selected_pendingFiles edits, hsound, hsome, hlength⟩
  have hall : Inv st c u (pendingFiles edits) s :=
    exec_induction (fun h ha ht ↦ h.step hfits ha ht)
      (.inl (.start hreach (hreach.inv.exists_of_mem hu) hu)) hrun hok
  rcases hall with h | ⟨response, h⟩
  · refine ⟨h.refused, fun response hmessage ↦ ?_⟩
    rw [h.message] at hmessage
    cases hmessage
  · refine ⟨h.refused, fun response' hmessage ↦ ?_⟩
    obtain rfl := Option.some.inj (h.message.symm.trans hmessage)
    exact h.arrived.imp fun _ _ harrived ↦ harrived.downloadable h.reachable.inv

/-- The settings as they are by default, for texts in ASCII. -/
def spacious : Settings :=
  { Services.plain with
    text := Attachments.textOf asciiCase
    attachmentMaxBytes := maxAttachmentBytes
    attachmentMaxPerMessage := maxAttachments }

/-- Two files; of a third one the type is not allowed, and a fourth one is removed. -/
def picked : List Edit :=
  [.select [⟨"notes.txt", "text/plain", [72, 105]⟩, ⟨"run.exe", "application/x-msdownload", [1]⟩,
    ⟨"old.png", "image/png", [2]⟩], .remove 1, .select [⟨"cat.png", "image/png", [3, 4, 5]⟩]]

def met : List Services.Action :=
  [.register ⟨1, "one", none⟩, .register ⟨2, "two", none⟩,
    .request ⟨5, fun _ ↦ 10, true⟩ 1 (.createDirect 2)]

/-- The files overtake each other. -/
def sending : List Action :=
  [.reserve 0 ⟨6, fun _ ↦ 20, true⟩, .reserve 1 ⟨6, fun _ ↦ 21, true⟩, .put 1,
    .other (.setLastSeen 2 7), .complete 1 ⟨7, fun _ ↦ 0, false⟩, .put 0,
    .complete 0 ⟨8, fun _ ↦ 0, true⟩, .send ⟨9, fun n ↦ if n = 0 then 30 else 31, true⟩]

/-- Afterwards all is cleaned up that has been abandoned. -/
theorem files_arrive_picked : ∃ store s response,
    exec (Services.step spacious) .initial met = some store ∧
      exec (step asciiCase spacious 10 1 "") (start store (pendingFiles picked))
        (sending ++ [.other (.cleanup 99 9 fun _ ↦ false)]) = some s ∧
          s.message = some response ∧ (pendingFiles picked).length = 2 ∧
            (pendingFiles picked).Forall₂ (Downloadable s.store 10) response.attachments := by
  obtain ⟨store, sent, s, response, hmet, hsent, hmessage, hlast, hresponse, hu⟩ :
      ∃ store sent s response, exec (Services.step spacious) .initial met = some store ∧
        exec (step asciiCase spacious 10 1 "") (start store (pendingFiles picked)) sending =
          some sent ∧ sent.message = some response ∧
            exec (step asciiCase spacious 10 1 "") sent
              [.other (.cleanup 99 9 fun _ ↦ false)] = some s ∧
                s.message = some response ∧ 1 ∈ store.memberIds 10 :=
    ⟨_, _, _, _, rfl, rfl, rfl, rfl, rfl, by decide⟩
  have hrun : exec (step asciiCase spacious 10 1 "") (start store (pendingFiles picked))
      (sending ++ [.other (.cleanup 99 9 fun _ ↦ false)]) = some s :=
    exec_append_eq_some.mpr ⟨sent, hsent, hlast⟩
  have hpicked : pendingFiles picked =
      [⟨"notes.txt", "text/plain", [72, 105]⟩, ⟨"cat.png", "image/png", [3, 4, 5]⟩] := by decide
  have hsound : ∀ file ∈ pendingFiles picked, Sound spacious file := by
    rw [hpicked]
    exact List.forall_mem_cons.mpr ⟨⟨by decide, ⟨_, rfl⟩, rfl⟩,
      List.forall_mem_singleton.mpr ⟨by decide, ⟨_, rfl⟩, rfl⟩⟩
  have hseen : ∀ s, Undisturbed s (.other (.setLastSeen 2 7)) := fun s _ p _ id row _ _ ↦
    ⟨fun _ _ ↦ by simp, fun _ _ ↦ by simp, fun _ _ _ _ _ _ ↦ by simp, fun _ _ _ h ↦ by cases h⟩
  have hbefore : Along (step asciiCase spacious 10 1 "") Undisturbed
      (start store (pendingFiles picked)) sending :=
    ⟨trivial, fun _ _ ↦ ⟨trivial, fun _ _ ↦ ⟨trivial, fun _ _ ↦ ⟨hseen _, fun _ _ ↦
      ⟨trivial, fun _ _ ↦ ⟨trivial, fun _ _ ↦ ⟨trivial, fun _ _ ↦ ⟨trivial, fun _ _ ↦
        trivial⟩⟩⟩⟩⟩⟩⟩⟩
  have hok : Along (step asciiCase spacious 10 1 "") Undisturbed
      (start store (pendingFiles picked)) (sending ++ [.other (.cleanup 99 9 fun _ ↦ false)]) :=
    hbefore.append hsent ⟨fun hnone ↦ absurd (hmessage.symm.trans hnone)
      (Option.some_ne_none _), fun _ _ ↦ trivial⟩
  have harrive := files_arrive ⟨met, hmet⟩ hu rfl le_rfl le_rfl (by rw [hpicked]; simp) (by decide)
    hsound hrun hok
  exact ⟨store, s, response, hmet, hrun, hresponse, by rw [hpicked]; rfl,
    harrive.2 response hresponse⟩

end Chatterbox.Client.Uploads
