import Chatterbox.Attachments.Measured
import Chatterbox.PercentEncoding
import Mathlib.Data.Bool.AllAny

/-!
# The headers of a download

The answer of `download_attachment` says in its headers what the body is, and both the type and
the name of the file come from whoever has uploaded it.  The name may have any character: line
breaks, quotes and semicolons too.  A browser that reads the header has to find that name and
nothing else, and it must not take a file that is no image for something it may display
(`download_headers`).
-/

namespace Chatterbox.Attachments

open PercentEncoding

variable {cfg : Config} {s t : State} {a : Action} {q tx : Tx} {id : UUID} {row : Attachment}

/-! ## Headers -/

/-- The bytes that `quote` does not quote. -/
def isQuoteSafe (b : UInt8) : Bool :=
  b < 0x80 ∧ ((Char.ofNat b.toNat).isAlphanum ∨ Char.ofNat b.toNat ∈ ['_', '.', '-', '~', '/'])

/-- `attachment.mime_type.startswith("image/")`. -/
def isImage (mimeType : String) : Bool := "image/".toList.isPrefixOf mimeType.toList

/-- `Content-Disposition`. -/
def contentDisposition (row : Attachment) : List Char :=
  (if isImage row.mimeType then "inline" else "attachment").toList ++
    "; filename*=UTF-8''".toList ++ quote isQuoteSafe row.filename.toList

/-- `Content-Type`, as `Response.init_headers` of the framework makes it of the `media_type`: a text
that names no charset is in UTF-8. -/
def contentType (mimeType : String) : List Char :=
  if "text/".toList.isPrefixOf mimeType.toList ∧
      ¬ "charset=".toList <:+: mimeType.toList.map Char.toLower then
    mimeType.toList ++ "; charset=utf-8".toList
  else mimeType.toList

/-- The headers of the answer, by their names. -/
def headers (row : Attachment) : List (String × List Char) :=
  [("Content-Type", contentType row.mimeType),
    ("Content-Length", Nat.toDigits 10 row.fileSize),
    ("Content-Disposition", contentDisposition row),
    ("Cache-Control", "private, max-age=300".toList),
    ("X-Content-Type-Options", "nosniff".toList)]

/-- How a browser reads the disposition: its type, and the file name that is given in UTF-8. -/
def readDisposition (header : List Char) : Option (List Char × List Char) :=
  match header.splitOn ';' with
  | [kind, parameter] =>
      let (name, value) := splitPair (parameter.dropWhile (· = ' '))
      match value.splitOn '\x27' with
      | [charset, _, encoded] =>
          if name = "filename*".toList ∧ charset = "UTF-8".toList then
            some (kind, unquote encoded)
          else none
      | _ => none
  | _ => none

/-- A character that a line of the header may have. -/
def Visible (c : Char) : Prop := 0x20 ≤ c.toNat ∧ c.toNat < 0x7f

instance : DecidablePred Visible := fun _ ↦ inferInstanceAs (Decidable (_ ∧ _))

theorem isQuoteSafe_iff : ∀ b, isQuoteSafe b → b < 0x80 ∧ Visible (Char.ofNat b.toNat) ∧
    Char.ofNat b.toNat ∉ ['%', ';', '\x27', '=', '\x22'] :=
  forall_byte (by decide +kernel)

variable {filename : List Char}

theorem visible_quote : ∀ c ∈ quote isQuoteSafe filename, Visible c :=
  forall_quote (fun b hb ↦ (isQuoteSafe_iff b hb).2.1) (by decide) (by decide) filename

theorem notMem_quote {c : Char} (hc : c ∈ [';', '\x27', '=', '\x22']) :
    c ∉ quote isQuoteSafe filename := by
  intro hmem
  refine forall_quote (P := (· ∉ [';', '\x27', '=', '\x22'])) (fun b hb h ↦ ?_) (by decide)
    (by decide) filename c hmem hc
  exact (isQuoteSafe_iff b hb).2.2 (.tail _ h)

/-- A file name is read back. -/
theorem readDisposition_contentDisposition (row : Attachment) :
    readDisposition (contentDisposition row) =
      some ((if isImage row.mimeType then "inline" else "attachment").toList,
        row.filename.toList) := by
  generalize hkind : (if isImage row.mimeType then "inline" else "attachment").toList = kind
  have hkindSafe : ';' ∉ kind := by
    rw [← hkind]
    split <;> decide
  have hsafe : ∀ b, isQuoteSafe b → b < 0x80 ∧ Char.ofNat b.toNat ≠ '%' := fun b hb ↦
    ⟨(isQuoteSafe_iff b hb).1, fun e ↦ (isQuoteSafe_iff b hb).2.2 (e ▸ .head _)⟩
  have hunquote : unquote (quote isQuoteSafe row.filename.toList) = row.filename.toList :=
    unquote_quote hsafe
  have hsemicolon : ';' ∉ quote isQuoteSafe row.filename.toList := notMem_quote (by decide)
  have hquote : '\x27' ∉ quote isQuoteSafe row.filename.toList := notMem_quote (by decide)
  rw [contentDisposition, hkind]
  generalize quote isQuoteSafe row.filename.toList = encoded at hunquote hsemicolon hquote
  -- The semicolon and the two apostrophes are those that have been put there.
  have hparts : (kind ++ "; filename*=UTF-8''".toList ++ encoded).splitOn ';' =
      [kind, " filename*=UTF-8''".toList ++ encoded] := by
    have hjoin : (List.intercalate [';'] [kind, " filename*=UTF-8''".toList ++ encoded]).splitOn
        ';' = [kind, " filename*=UTF-8''".toList ++ encoded] :=
      List.splitOn_intercalate ';' (by simp [hkindSafe, hsemicolon]) (by simp)
    rw [← hjoin]
    simp [List.intercalate]
  have hvalue : ("UTF-8''".toList ++ encoded).splitOn '\x27' = ["UTF-8".toList, [], encoded] := by
    have hjoin : (List.intercalate ['\x27'] ["UTF-8".toList, [], encoded]).splitOn '\x27' =
        ["UTF-8".toList, [], encoded] :=
      List.splitOn_intercalate '\x27' (by simp [hquote]) (by simp)
    rw [← hjoin]
    simp [List.intercalate]
  have hpair : splitPair ((" filename*=UTF-8''".toList ++ encoded).dropWhile (· = ' ')) =
      ("filename*".toList, "UTF-8''".toList ++ encoded) :=
    splitPair_append (s := "filename*".toList) (by decide)
  simp only [readDisposition, hparts, hpair, hvalue, and_self, if_true, hunquote]

/-! ## What has been checked stays so -/

/-- What `_validate_metadata` has seen. -/
def Validated (cfg : Config) (row : Attachment) : Prop :=
  row.mimeType ∈ allowedMimeTypes ∧ row.fileSize ≤ cfg.attachmentMaxBytes

/-- Every row, and every row that is going to be one, has been validated. -/
structure AllValidated (cfg : Config) (s : State) : Prop where
  rows : ∀ id row, s.attachments.row id = some row → Validated cfg row
  reserved : ∀ q id row, s.phase q = .reserved id row → Validated cfg row

theorem AllValidated.initial (h : Initial s) : AllValidated cfg s where
  rows id row hrow := by
    rw [h.1 id] at hrow
    cases hrow
  reserved q id row hq := by
    rw [h.2.2 q] at hq
    cases hq

theorem validateMetadata_eq_ok {mimeType : String} {fileSize : ℕ} {u : Unit}
    (h : validateMetadata cfg mimeType fileSize = .ok u) :
    mimeType ∈ allowedMimeTypes ∧ fileSize ≤ cfg.attachmentMaxBytes := by
  unfold validateMetadata at h
  split at h
  · cases h
  · next hmime =>
      split at h
      · cases h
      · next hsize => exact ⟨not_not.mp hmime, Nat.le_of_not_lt hsize⟩

/-- A reservation is made behind the check. -/
theorem validated_of_reserve {conversationId uploaderId i : UUID} {filename mimeType : String}
    {fileSize : ℕ} (ht : reserve cfg s tx conversationId uploaderId filename mimeType fileSize i =
      some t) (hq : t.phase q = .reserved id row) : s.phase q = .reserved id row ∨
        Validated cfg row := by
  unfold reserve at ht
  split at ht
  · split at ht
    · cases ht
      exact .inl (phase_back rfl hq nofun)
    · split at ht
      · cases ht
        exact .inl (phase_back rfl hq nofun)
      · next hvalid =>
          split at ht
          · cases ht
            refine (phase_cases rfl hq).symm.imp_right fun ⟨_, hphase⟩ ↦ ?_
            obtain ⟨-, rfl⟩ := Phase.reserved.inj hphase
            exact validateMetadata_eq_ok hvalid
          · cases ht
  · cases ht

theorem validated_of_step (ht : Attachments.step cfg s a = some t)
    (hq : t.phase q = .reserved id row) : s.phase q = .reserved id row ∨ Validated cfg row := by
  cases Move.of_step ht with
  | reserve phase fresh => exact validated_of_reserve ht hq
  | tick | put => exact .inl hq
  | ended isOver | unlocked lock isOver =>
      refine .inl (phase_back rfl hq ?_)
      rintro rfl
      exact isOver
  | commit committed => cases committed <;> exact .inl (phase_back rfl hq nofun)
  | complete | checked | measured | unscanned | scanned | copied | removeSource | create | skipped
  | locked | flushed | cleanup | picked | selected | removed | kept | dropped =>
      exact .inl (phase_back rfl hq nofun)

/-- A commit writes what has been validated, if what it has locked has been. -/
theorem validated_of_commit (h : AllValidated cfg s) {ws : List (UUID × Option Attachment)}
    (hws : ∀ id row, (id, some row) ∈ ws → Validated cfg row)
    (hrow : (s.attachments.commit tx ws).row id = some row) : Validated cfg row := by
  rcases Table.commit_row_cases s.attachments tx ws id with ⟨v, hmem, hv⟩ | ⟨-, hsame⟩
  · rw [hrow] at hv
    exact hws id row (hv ▸ hmem)
  · exact h.rows id row (hsame ▸ hrow)

theorem AllValidated.commit (hi : Inv cfg s) (h : AllValidated cfg s) (hc : Commit cfg s tx t)
    (hrow : t.attachments.row id = some row) : Validated cfg row := by
  have hheld : ∀ p ∈ (s.phase tx).held, Validated cfg p.2 := fun p hp ↦
    h.rows p.1 p.2 (hi.held tx p hp).2
  cases hc with
  | reserved phase =>
      refine validated_of_commit h (fun i r hmem ↦ ?_) hrow
      obtain ⟨-, rfl⟩ := Prod.mk.inj (List.mem_singleton.mp hmem) |>.imp_right Option.some.inj
      have hvalid := h.reserved tx _ _ phase
      exact hvalid
  | copied phase =>
      refine validated_of_commit h (fun i r hmem ↦ ?_) hrow
      obtain ⟨-, rfl⟩ := Prod.mk.inj (List.mem_singleton.mp hmem) |>.imp_right Option.some.inj
      rw [phase] at hheld
      exact hheld _ (.head _)
  | bound phase =>
      refine validated_of_commit h (fun i r hmem ↦ ?_) hrow
      obtain ⟨p, hp, hpr⟩ := List.mem_map.mp hmem
      obtain ⟨-, rfl⟩ := Prod.mk.inj hpr |>.imp_right Option.some.inj
      rw [phase] at hheld
      exact hheld p hp
  | removing phase =>
      refine validated_of_commit h (fun i r hmem ↦ ?_) hrow
      obtain ⟨p, -, hpr⟩ := List.mem_map.mp hmem
      cases hpr

theorem AllValidated.step (hi : Inv cfg s) (h : AllValidated cfg s)
    (ht : Attachments.step cfg s a = some t) : AllValidated cfg t where
  rows id row hrow := by
    rcases step_commit_or_quiet ht with ⟨tx, rfl, hc⟩ | hquiet
    · exact h.commit hi hc hrow
    · exact h.rows id row (hquiet.row ▸ hrow)
  reserved q id row hq := (validated_of_step ht hq).elim (h.reserved q id row) fun hv ↦ hv

theorem AllValidated.of_reachable {s₀ : State} (h₀ : Initial s₀) {as : List Action}
    (hrun : exec (Attachments.step cfg) s₀ as = some s) : AllValidated cfg s :=
  (exec_invariant (P := fun u ↦ Inv cfg u ∧ AllValidated cfg u)
    (fun hu ht ↦ ⟨hu.1.step ht, hu.2.step hu.1 ht⟩) ⟨.initial h₀, .initial h₀⟩ hrun).2

/-! ## What a browser is told -/

/-- The headers are lines of their own. -/
theorem visible_headers (hmime : row.mimeType ∈ allowedMimeTypes) :
    ∀ p ∈ headers row, ∀ c ∈ p.2, Visible c := by
  have hmimes : ∀ mimeType ∈ allowedMimeTypes, ∀ c ∈ contentType mimeType, Visible c := by
    have hall : ∀ mimeType ∈ allowedMimeTypes, (contentType mimeType).all (Visible ·) := by decide
    exact fun mimeType h ↦ List.all_iff_forall_prop.mp (hall mimeType h)
  have hdigits : ∀ c ∈ Nat.toDigits 10 row.fileSize, Visible c := fun c hc ↦ by
    have hdigit : '0'.toNat ≤ c.toNat ∧ c.toNat ≤ '9'.toNat :=
      Char.isDigit_iff_toNat.mp (Nat.isDigit_of_mem_toDigits (by decide) (by decide) hc)
    exact ⟨le_trans (by decide) hdigit.1, lt_of_le_of_lt hdigit.2 (by decide)⟩
  have hdisposition : ∀ c ∈ contentDisposition row, Visible c := by
    intro c hc
    rw [contentDisposition, List.mem_append, List.mem_append] at hc
    rcases hc with (hc | hc) | hc
    · refine List.all_iff_forall_prop.mp ?_ c hc
      split <;> decide
    · exact List.all_iff_forall_prop.mp (by decide) c hc
    · exact visible_quote c hc
  intro p hp
  simp only [headers, List.mem_cons, List.not_mem_nil, or_false] at hp
  rcases hp with rfl | rfl | rfl | rfl | rfl
  · exact hmimes _ hmime
  · exact hdigits
  · exact hdisposition
  · exact List.all_iff_forall_prop.mp (by decide)
  · exact List.all_iff_forall_prop.mp (by decide)

/-- **A download is what it says it is.**  Whatever any number of clients have done, in whatever
order: the type of a file that may be downloaded is one of those that are allowed, and only images
are displayed; the headers have no character that could end a line; and the name that a browser
reads is the name of the file. -/
theorem download_headers {s₀ : State} (h₀ : Initial s₀) {as : List Action}
    (hrun : exec (Attachments.step cfg) s₀ as = some s) {userId : UUID}
    (hauth : authorizeDownload cfg s id userId = .ok row) :
    row.mimeType ∈ allowedMimeTypes ∧ row.fileSize ≤ cfg.attachmentMaxBytes ∧
      (∀ p ∈ headers row, ∀ c ∈ p.2, Visible c) ∧
        ∃ kind, readDisposition (contentDisposition row) = some (kind, row.filename.toList) ∧
          (kind = "inline".toList ↔
            row.mimeType ∈ ["image/gif", "image/jpeg", "image/png", "image/webp"]) := by
  have hrow := (authorizeDownload_eq_ok hauth).1
  obtain ⟨hmime, hsize⟩ := (AllValidated.of_reachable h₀ hrun).rows id row hrow
  refine ⟨hmime, hsize, visible_headers hmime, _, readDisposition_contentDisposition row, ?_⟩
  have hkinds : ∀ mimeType ∈ allowedMimeTypes,
      (if isImage mimeType then "inline" else "attachment").toList = "inline".toList ↔
        mimeType ∈ ["image/gif", "image/jpeg", "image/png", "image/webp"] := by
    decide
  exact hkinds _ hmime

/-- User 2 sends a file whose name has a line break, a quote and a semicolon in it, and user 3
downloads it. -/
def sendingOddName : List Action :=
  [.reserve 0 1 2 "a\n\x22;\u00e9.png" "image/png" 1 7, .commit 0,
    .put ⟨.pending, 1, 2, 7, ""⟩ ⟨[65], "image/png"⟩, .complete 1 7 2, .lockRow 1, .stat 1,
    .scan 1 .unavailable, .copy 1, .commit 1, .create 2 1 2 "" [7], .lockNext 2 7, .flush 2 8,
    .commit 2]

theorem download_headers_oddName :
    ∃ s row, exec (Attachments.step unscanned) empty sendingOddName = some s ∧
      authorizeDownload unscanned s 7 3 = .ok row ∧
        readDisposition (contentDisposition row) =
          some ("inline".toList, "a\n\x22;\u00e9.png".toList) ∧
        '\n' ∉ contentDisposition row := by
  have h₀ : Initial empty := ⟨fun _ ↦ rfl, fun _ ↦ rfl, fun _ ↦ rfl⟩
  obtain ⟨s, row, hrun, hauth, hname, hmime⟩ : ∃ s row,
      exec (Attachments.step unscanned) empty sendingOddName = some s ∧
        authorizeDownload unscanned s 7 3 = .ok row ∧
          row.filename = "a\n\x22;\u00e9.png" ∧ row.mimeType = "image/png" :=
    ⟨_, _, rfl, rfl, rfl, rfl⟩
  obtain ⟨-, -, hvisible, kind, hread, hkind⟩ := download_headers h₀ hrun hauth
  refine ⟨s, row, hrun, hauth, ?_, fun h ↦ ?_⟩
  · rw [hread, hname, hkind.mpr (by rw [hmime]; decide)]
  · have hline : Visible '\n' := hvisible _ (.tail _ (.tail _ (.head _))) _ h
    exact absurd hline (by decide)

end Chatterbox.Attachments
