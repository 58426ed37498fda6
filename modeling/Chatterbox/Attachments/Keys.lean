import Chatterbox.Attachments.Model
import Chatterbox.Lowercase
import Chatterbox.Realtime.Envelope

/-!
# Storage keys

The keys of the bucket are texts, and a part of them comes from the client: the suffix of a file
name.  Here the names that `AttachmentReserveRequest` accepts, their suffixes and the keys are spelt
out, and with them what the other modules of this directory take for granted, that keys are the same
only if all of their parts are (`text_inj`).

What there is to see is that a suffix has no slash: the name is what comes behind the last one, and
no character but a slash is a slash in lower case.  How it is cut off does not matter.
-/

namespace Chatterbox.Attachments

open Realtime.Envelope (strip isspace uuidOf)

/-! ## File names -/

/-- `normalize_filename`; `none` is its `ValueError`. -/
def normalizeFilename (value : List Char) : Option (List Char) :=
  let normalized :=
    (((strip isspace value).map fun c ↦ if c = '\\' then '/' else c).splitOn '/').getLast
      (List.splitOn_ne_nil _ _)
  if normalized = [] ∨ normalized ∈ [['.'], ['.', '.']] then none else some normalized

/-- The field `filename` of `AttachmentReserveRequest`. -/
def acceptFilename (value : List Char) : Option (List Char) :=
  if 1 ≤ value.length ∧ value.length ≤ 255 then normalizeFilename value else none

/-- `Path(filename).name`. -/
def pathName (filename : List Char) : List Char :=
  ((filename.splitOn '/').filter fun part ↦ part ≠ [] ∧ part ≠ ['.']).getLast?.getD []

/-- `Path(filename).suffix`.  Without a dot, `i` is 0 here and -1 there. -/
def pathSuffix (filename : List Char) : List Char :=
  let name := pathName filename
  let i := name.length - (name.rtakeWhile (· ≠ '.')).length - 1
  if 0 < i ∧ i < name.length - 1 then name.drop i else []

/-- `Path(filename).suffix.lower()[:16]`. -/
def suffix (m : CaseMapping) (filename : List Char) : List Char :=
  (m.lower (pathSuffix filename)).take 16

/-- The string functions of the library. -/
def textOf (m : CaseMapping) : Text where
  suffix filename := .ofList (suffix m filename.toList)
  mimeType contentType :=
    .ofList (m.lower (strip isspace (contentType.toList.takeWhile (· ≠ ';'))))
  strip content := .ofList (strip isspace content.toList)

/-! ## Keys -/

def Area.text : Area → List Char
  | .pending => ['p', 'e', 'n', 'd', 'i', 'n', 'g']
  | .objects => ['o', 'b', 'j', 'e', 'c', 't', 's']

/-- The key, as the bucket has it. -/
def StorageKey.text (k : StorageKey) : List Char :=
  k.area.text ++ '/' :: (Conversations.str k.conversationId ++
    '/' :: (Conversations.str k.uploaderId ++
      '/' :: (Conversations.str k.attachmentId ++ k.suffix.toList)))

/-- What a key says about its conversation, its uploader and its attachment. -/
def idsOf (key : List Char) : Option (UUID × UUID × UUID) :=
  match key.splitOn '/' with
  | [_, conversationId, uploaderId, name] => do
      return (← uuidOf conversationId, ← uuidOf uploaderId, ← uuidOf (name.take 36))
  | _ => none

/-! ## Suffixes have no slash -/

variable {α : Type*} [DecidableEq α]

theorem notMem_of_mem_splitOn {a : α} {xs part : List α} (h : part ∈ xs.splitOn a) :
    a ∉ part := by
  induction xs generalizing part with
  | nil =>
      rw [List.splitOn_nil, List.mem_singleton] at h
      rw [h]
      exact List.not_mem_nil
  | cons x xs ih =>
      rw [List.splitOn_cons_eq_if_modifyHead] at h
      split at h
      · rcases List.mem_cons.mp h with rfl | h
        · exact List.not_mem_nil
        · exact ih h
      · next hx =>
          obtain ⟨first, parts, hparts⟩ := List.exists_cons_of_ne_nil (List.splitOn_ne_nil a xs)
          rw [hparts, List.modifyHead_cons, List.mem_cons] at h
          rw [hparts] at ih
          rcases h with rfl | h
          · have hne : a ≠ x := fun e ↦ hx (beq_iff_eq.mpr e.symm)
            exact List.not_mem_cons_of_ne_of_not_mem hne (ih (.head _))
          · exact ih (.tail _ h)

variable {value filename : List Char} {m : CaseMapping}

/-- What is accepted is the name of a file, and of no directory. -/
theorem of_acceptFilename (h : acceptFilename value = some filename) :
    '/' ∉ filename ∧ filename ≠ [] ∧ filename ≠ ['.'] := by
  unfold acceptFilename at h
  split at h
  · unfold normalizeFilename at h
    extract_lets normalized at h
    split at h
    · cases h
    · next hvalid =>
        rw [← Option.some.inj h]
        refine ⟨notMem_of_mem_splitOn (List.getLast_mem _), fun e ↦ hvalid (.inl e), ?_⟩
        intro hdot
        exact hvalid (.inr (by rw [hdot]; exact .head _))
  · cases h

/-- `Path` leaves it as it is. -/
theorem pathName_eq_self (hslash : '/' ∉ filename) (hnil : filename ≠ [])
    (hdot : filename ≠ ['.']) : pathName filename = filename := by
  rw [pathName, List.splitOn_eq_singleton hslash]
  simp [hnil, hdot]

theorem slash_notMem_suffix (h : acceptFilename value = some filename) :
    '/' ∉ suffix m filename := by
  obtain ⟨hslash, hnil, hdot⟩ := of_acceptFilename h
  have hpath : '/' ∉ pathSuffix filename := by
    rw [pathSuffix, pathName_eq_self hslash hnil hdot]
    split
    · exact fun hmem ↦ hslash (List.mem_of_mem_drop hmem)
    · exact List.not_mem_nil
  intro hmem
  have hlower := List.mem_of_mem_take hmem
  exact hpath ((CaseMapping.mem_lower_iff (by decide) (by decide) (by decide)).mp hlower)

/-! ## The parts of a key -/

theorem slash_notMem_str (u : UUID) : '/' ∉ Conversations.str u := fun h ↦
  absurd (Realtime.Envelope.mem_str h) (by decide)

variable {k k' : StorageKey}

theorem slash_notMem_area (area : Area) : '/' ∉ area.text := by
  cases area <;> decide

theorem area_text_injective : Function.Injective Area.text := by
  rintro (_ | _) (_ | _) h
  · rfl
  · exact absurd h (by decide)
  · exact absurd h (by decide)
  · rfl

/-- There are three slashes. -/
theorem splitOn_text (h : '/' ∉ k.suffix.toList) : k.text.splitOn '/' =
    [k.area.text, Conversations.str k.conversationId, Conversations.str k.uploaderId,
      Conversations.str k.attachmentId ++ k.suffix.toList] := by
  have hlast : '/' ∉ Conversations.str k.attachmentId ++ k.suffix.toList := fun hmem ↦
    (List.mem_append.mp hmem).elim (slash_notMem_str _) h
  rw [StorageKey.text, List.splitOn_append_cons_self_of_not_mem (slash_notMem_area _),
    List.splitOn_append_cons_self_of_not_mem (slash_notMem_str _),
    List.splitOn_append_cons_self_of_not_mem (slash_notMem_str _), List.splitOn_eq_singleton hlast]

theorem idsOf_text (h : '/' ∉ k.suffix.toList) :
    idsOf k.text = some (k.conversationId, k.uploaderId, k.attachmentId) := by
  have htake : (Conversations.str k.attachmentId ++ k.suffix.toList).take 36 =
      Conversations.str k.attachmentId := by
    rw [← Conversations.length_str k.attachmentId, List.take_left]
  rw [idsOf, splitOn_text h]
  simp only [htake, Realtime.Envelope.uuidOf_str, Option.bind_eq_bind, Option.bind_some]
  rfl

/-- **Keys are the same only if all of their parts are.** -/
theorem text_inj (h : '/' ∉ k.suffix.toList) (h' : '/' ∉ k'.suffix.toList) :
    k.text = k'.text ↔ k = k' := by
  refine ⟨fun e ↦ ?_, congrArg _⟩
  have hparts := congrArg (List.splitOn '/') e
  rw [splitOn_text h, splitOn_text h'] at hparts
  obtain ⟨harea, hconversation, huploader, hlast⟩ : k.area.text = k'.area.text ∧
      Conversations.str k.conversationId = Conversations.str k'.conversationId ∧
      Conversations.str k.uploaderId = Conversations.str k'.uploaderId ∧
      Conversations.str k.attachmentId ++ k.suffix.toList =
        Conversations.str k'.attachmentId ++ k'.suffix.toList := by
    simpa only [List.cons.injEq, and_true] using hparts
  obtain ⟨hid, hsuffix⟩ := List.append_inj hlast
    (by rw [Conversations.length_str, Conversations.length_str])
  cases k
  cases k'
  rw [StorageKey.mk.injEq]
  exact ⟨area_text_injective harea, Conversations.str_injective hconversation,
    Conversations.str_injective huploader, Conversations.str_injective hid,
    String.toList_inj.mp hsuffix⟩

/-- No key is anywhere near as long as its column. -/
theorem length_text_le (h : k.suffix.toList.length ≤ 16) : k.text.length ≤ 134 := by
  have harea : k.area.text.length = 7 := by cases k.area <;> rfl
  simp only [StorageKey.text, List.length_append, List.length_cons, Conversations.length_str, harea]
  omega

/-! ## Reserved attachments -/

/-- An attachment that has been reserved under a name that is accepted. -/
structure Reservation where
  id : UUID
  row : Attachment
  accepted : ∃ value, acceptFilename value = some row.filename.toList

namespace Reservation

/-- The settings, with the string functions that the library has. -/
def configOf (cfg : Config) (m : CaseMapping) : Config := { cfg with text := textOf m }

variable (cfg : Config) (m : CaseMapping)

/-- The key of `reserve`. -/
def pendingKey (r : Reservation) : StorageKey :=
  Attachments.pendingKey (configOf cfg m) r.id r.row.conversationId r.row.uploaderId r.row.filename

/-- The key of `complete`. -/
def finalKey (r : Reservation) : StorageKey := Attachments.finalKey (configOf cfg m) r.id r.row

/-- Where its objects are. -/
def keys (r : Reservation) : List StorageKey := [r.pendingKey cfg m, r.finalKey cfg m]

variable {cfg m} {r : Reservation} {k : StorageKey}

theorem of_mem_keys (h : k ∈ r.keys cfg m) :
    '/' ∉ k.suffix.toList ∧ k.suffix.toList.length ≤ 16 ∧
      k.conversationId = r.row.conversationId ∧ k.uploaderId = r.row.uploaderId ∧
        k.attachmentId = r.id := by
  have htext : ((textOf m).suffix r.row.filename).toList = suffix m r.row.filename.toList :=
    String.toList_ofList
  obtain ⟨value, haccept⟩ := r.accepted
  have hslash : '/' ∉ ((textOf m).suffix r.row.filename).toList :=
    htext ▸ slash_notMem_suffix haccept
  have hlength : ((textOf m).suffix r.row.filename).toList.length ≤ 16 :=
    htext ▸ List.length_take_le ..
  rcases List.mem_pair.mp h with rfl | rfl
  · exact ⟨hslash, hlength, rfl, rfl, rfl⟩
  · exact ⟨hslash, hlength, rfl, rfl, rfl⟩

/-- Keys of different attachments differ. -/
theorem text_ne {r' : Reservation} {k' : StorageKey} (h : k ∈ r.keys cfg m)
    (h' : k' ∈ r'.keys cfg m) (hid : r.id ≠ r'.id) : k.text ≠ k'.text := by
  obtain ⟨hslash, -, -, -, hk⟩ := of_mem_keys h
  obtain ⟨hslash', -, -, -, hk'⟩ := of_mem_keys h'
  intro e
  rw [text_inj hslash hslash'] at e
  exact hid (by rw [← hk, ← hk', e])

theorem text_pendingKey_ne {r' : Reservation} :
    (r.pendingKey cfg m).text ≠ (r'.finalKey cfg m).text := by
  have h : r.pendingKey cfg m ∈ r.keys cfg m := .head _
  have h' : r'.finalKey cfg m ∈ r'.keys cfg m := .tail _ (.head _)
  intro e
  rw [text_inj (of_mem_keys h).1 (of_mem_keys h').1] at e
  have harea : Area.pending = Area.objects := congrArg StorageKey.area e
  cases harea

end Reservation

/-- An object is uploaded with a presigned URL, which is for one key. -/
def presignedPut (bucket : List Char → Option Object) (key : List Char) (object : Object) :
    List Char → Option Object :=
  Function.update bucket key (some object)

/-- **Storage keys do not collide.**  Keys of different attachments differ, and so do keys for
uploads and keys for delivery; each fits in its column and has four segments, from which its
identifiers are read back.  So an upload goes to the object of its own attachment, and to none that
is delivered. -/
theorem storage_keys_distinct (cfg : Config) (m : CaseMapping) (a b : Reservation)
    (hfresh : a.id ≠ b.id) :
    (a.pendingKey cfg m).text ≠ (b.pendingKey cfg m).text ∧
      (a.finalKey cfg m).text ≠ (b.finalKey cfg m).text ∧
      (∀ c d : Reservation, (c.pendingKey cfg m).text ≠ (d.finalKey cfg m).text) ∧
      (∀ c : Reservation, ∀ k ∈ c.keys cfg m,
        k.text.length ≤ 512 ∧ (k.text.splitOn '/').length = 4 ∧
          idsOf k.text = some (c.row.conversationId, c.row.uploaderId, c.id)) ∧
      ∀ bucket object,
        presignedPut bucket (a.pendingKey cfg m).text object (b.pendingKey cfg m).text =
            bucket (b.pendingKey cfg m).text ∧
          ∀ c : Reservation,
            presignedPut bucket (a.pendingKey cfg m).text object (c.finalKey cfg m).text =
              bucket (c.finalKey cfg m).text := by
  have hpending : (a.pendingKey cfg m).text ≠ (b.pendingKey cfg m).text :=
    Reservation.text_ne (.head _) (.head _) hfresh
  have hfinal : (a.finalKey cfg m).text ≠ (b.finalKey cfg m).text :=
    Reservation.text_ne (.tail _ (.head _)) (.tail _ (.head _)) hfresh
  refine ⟨hpending, hfinal, fun c d ↦ Reservation.text_pendingKey_ne, ?_, ?_⟩
  · intro c k hk
    obtain ⟨hslash, hlength, hconversation, huploader, hid⟩ := Reservation.of_mem_keys hk
    refine ⟨(length_text_le hlength).trans (by decide), ?_, ?_⟩
    · rw [splitOn_text hslash]
      rfl
    · rw [idsOf_text hslash, hconversation, huploader, hid]
  · exact fun bucket object ↦ ⟨Function.update_of_ne hpending.symm .., fun c ↦
      Function.update_of_ne Reservation.text_pendingKey_ne.symm ..⟩

/-- A row for the file `A.PDF`, which the client has as `C:\A.PDF`. -/
def pdfRow : Attachment where
  conversationId := 1
  uploaderId := 2
  messageId := none
  filename := .ofList ['A', '.', 'P', 'D', 'F']
  mimeType := "application/pdf"
  fileSize := 1
  storageKey := ⟨.pending, 1, 2, 7, ""⟩
  createdAt := 0
  uploadedAt := none

/-- It is reserved. -/
def pdf (id : UUID) : Reservation where
  id := id
  row := pdfRow
  accepted := ⟨[' ', 'C', ':', '\\', 'A', '.', 'P', 'D', 'F'], by
    rw [pdfRow, String.toList_ofList]
    decide⟩

/-- No setting matters here. -/
def pdfConfig : Config := ⟨textOf asciiCase, id, 1, 1, .disabled, fun _ ↦ none⟩

theorem storage_keys_distinct_twice :
    ((pdf 7).finalKey pdfConfig asciiCase).text ≠
      ((pdf 8).finalKey pdfConfig asciiCase).text :=
  (storage_keys_distinct pdfConfig asciiCase (pdf 7) (pdf 8) (by decide)).2.1

end Chatterbox.Attachments
