import Chatterbox.Base64
import Chatterbox.Isoformat
import Chatterbox.Json.Spaced
import Chatterbox.Messages.Pages
import Chatterbox.Realtime.Envelope

/-!
# The text of a cursor

`Pages` has cursors as what they decode to.  Here they are texts, as clients get them and send them
back: `encode_cursor` writes the instant and the identifier of a message into a JSON object, and
that in Base64; `decode_cursor` is the way back, through four decoders.

| decoder | what it raises |
|---|---|
| `urlsafe_b64decode` | `ValueError`, `binascii.Error` |
| `bytes.decode` | `UnicodeDecodeError` |
| `json.loads` | `JSONDecodeError`, `ValueError`, `RecursionError` |
| the two fields | `TypeError`, `KeyError`, `ValueError`, `AttributeError` |

All but two of them are in the `except` of `decode_cursor`.
-/

namespace Chatterbox.Messages.CursorText

open Base64 (urlsafeEncode urlsafeDecode pad rstrip Urlsafe)
open Isoformat (ZonedDateTime Zone isoformat fromisoformat)
open Json (Text Str Floats Limits Value chars dumpsTexts loads strMember)
open Realtime.Envelope (key uuidOf)

/-! ## The encoder -/

/-- `str.encode`. -/
def encodeUtf8 (s : Text) : List UInt8 := s.flatMap String.utf8EncodeChar

/-- `bytes.decode`; `none` where it raises a `UnicodeDecodeError`. -/
def decodeUtf8 (bytes : List UInt8) : Option Text :=
  bytes.toByteArray.utf8Decode?.map Array.toList

/-- What a cursor says of a message. -/
def payload (createdAt : ZonedDateTime) (id : UUID) : List (Str × Str) :=
  [(key "created_at", Json.str (isoformat createdAt)), (key "id", Json.str (Conversations.str id))]

/-- The Base64 of a text, without `=`. -/
def encodeText (s : Text) : Text := rstrip (urlsafeEncode (encodeUtf8 s))

/-- `encode_cursor`. -/
def encodeCursor (createdAt : ZonedDateTime) (id : UUID) : Text :=
  encodeText (dumpsTexts (payload createdAt id))

/-! ## The decoder -/

/-- The exceptions of the decoders. -/
inductive Exn where
  | binasciiError
  | unicodeDecodeError
  | valueError
  | typeError
  | keyError
  | jsonDecodeError
  | attributeError
  | recursionError
deriving DecidableEq, Repr

/-- The exceptions that the `except` of `decode_cursor` has. -/
def Exn.caught : Exn → Bool
  | .binasciiError | .unicodeDecodeError | .valueError | .typeError | .keyError
  | .jsonDecodeError => true
  | .attributeError | .recursionError => false

def Exn.ofJson : Json.Error → Exn
  | .jsonDecodeError => .jsonDecodeError
  | .valueError => .valueError
  | .recursionError => .recursionError

/-- `urlsafe_b64decode`. -/
def urlsafeB64decode (s : Text) : Except Exn (List UInt8) :=
  if s.all (·.toNat < 128) then
    match urlsafeDecode s with
    | some bytes => .ok bytes
    | none => .error .binasciiError
  else .error .valueError

/-- The characters of a string; `none` is a surrogate that is not in a pair. -/
def points : Str → List (Option Char)
  | [] => []
  | u :: s =>
      if u < 0xd800 ∨ 0xe000 ≤ u then some (Char.ofNat u) :: points s
      else
        match s with
        | [] => [none]
        | v :: s =>
            if u < 0xdc00 ∧ 0xdc00 ≤ v ∧ v < 0xe000 then
              some (Char.ofNat (0x10000 + (u - 0xd800) * 0x400 + (v - 0xdc00))) :: points s
            else none :: points (v :: s)

/-- The characters, and U+FFFD for a surrogate: both are characters that no identifier has. -/
def scalars (s : Str) : Text := (points s).map (·.getD '\ufffd')

variable {F : Type}

/-- `payload[name]`. -/
def item (name : Str) : Value F → Except Exn (Value F)
  | .object members =>
      match Json.get name members with
      | some v => .ok v
      | none => .error .keyError
  -- The indices of lists and strings are numbers; others have none.
  | _ => .error .typeError

/-- `datetime.fromisoformat(value)`. -/
def datetimeOf : Value F → Except Exn ZonedDateTime
  | .str s =>
      match fromisoformat (points s) with
      | some d => .ok d
      | none => .error .valueError
  | _ => .error .typeError

/-- `UUID(value)`. -/
def uuidOfValue : Value F → Except Exn UUID
  | .str s =>
      match uuidOf (scalars s) with
      | some u => .ok u
      | none => .error .valueError
  | .null => .error .typeError
  -- All others have no `replace`.
  | _ => .error .attributeError

/-- The JSON value in a cursor. -/
def jsonOf (fl : Floats F) (lim : Limits) (cursor : Text) : Except Exn (Value F) := do
  let bytes ← urlsafeB64decode (pad cursor)
  match decodeUtf8 bytes with
  | none => .error .unicodeDecodeError
  | some text => (loads fl lim text).mapError Exn.ofJson

/-- The position that a JSON value says. -/
def positionOf (payload : Value F) : Except Exn (ZonedDateTime × UUID) := do
  let createdAt ← item (key "created_at") payload
  let createdAt ← datetimeOf createdAt
  let id ← item (key "id") payload
  let id ← uuidOfValue id
  pure (createdAt, id)

/-- What `decode_cursor` raises. -/
inductive Raised where
  | appError (e : AppError)
  | exception (e : Exn)
deriving DecidableEq, Repr

/-- `decode_cursor`. -/
def decodeCursor (fl : Floats F) (lim : Limits) (cursor : Text) :
    Except Raised (ZonedDateTime × UUID) :=
  match (jsonOf fl lim cursor).bind positionOf with
  | .ok position => .ok position
  | .error e => .error (if e.caught then .appError invalidCursor else .exception e)

/-! ## Texts are read back -/

variable {fl : Floats F} {lim : Limits} {s : Text} {d : ZonedDateTime} {id : UUID}

theorem decodeUtf8_encodeUtf8 (s : Text) : decodeUtf8 (encodeUtf8 s) = some s := by
  have h : s.utf8Encode.utf8Decode? = some s.toArray := List.utf8Decode?_utf8Encode
  rw [decodeUtf8, encodeUtf8]
  exact congrArg (Option.map Array.toList) h

theorem isAscii_of_urlsafe {c : Char} (h : Urlsafe c) : c.toNat < 128 := by
  have htoNat : c.toNat = c.val.toNat := rfl
  have hupper : 'Z'.val.toNat = 90 := rfl
  have hlower : 'z'.val.toNat = 122 := rfl
  have hdigit : '9'.val.toNat = 57 := rfl
  rcases h with h | rfl | rfl
  · change (decide (c.val ≥ 'A'.val ∧ c.val ≤ 'Z'.val) ||
      decide (c.val ≥ 'a'.val) && decide (c.val ≤ 'z'.val) ||
      decide (c.val ≥ '0'.val) && decide (c.val ≤ '9'.val)) = true at h
    simp only [Bool.or_eq_true, Bool.and_eq_true, decide_eq_true_eq, UInt32.le_iff_toNat_le,
      ge_iff_le] at h
    omega
  · decide
  · decide

theorem urlsafeB64decode_pad_encodeText (s : Text) :
    urlsafeB64decode (pad (encodeText s)) = .ok (encodeUtf8 s) := by
  have hascii : (pad (encodeText s)).all (·.toNat < 128) := by
    refine List.all_eq_true.mpr fun c hc ↦ decide_eq_true ?_
    rcases List.mem_append.mp hc with hc | hc
    · exact isAscii_of_urlsafe (Base64.urlsafe_rstrip hc)
    · rw [List.eq_of_mem_replicate hc]
      decide
  rw [urlsafeB64decode, if_pos hascii, encodeText, Base64.pad_rstrip,
    Base64.urlsafeDecode_urlsafeEncode]

/-- **What is in a cursor is the text that it has been made of.** -/
theorem jsonOf_encodeText (s : Text) :
    jsonOf fl lim (encodeText s) = (loads fl lim s).mapError Exn.ofJson := by
  simp only [jsonOf, urlsafeB64decode_pad_encodeText, decodeUtf8_encodeUtf8, bind, Except.bind]

/-- Surrogates in pairs are read as characters. -/
theorem points_eq {u : Str} {t : Text} (h : chars u = some t) : points u = t.map some := by
  fun_induction chars u generalizing t with
  | case1 =>
      obtain rfl := Option.some.inj h
      rfl
  | case2 u s hu ih =>
      obtain ⟨t, ht, rfl⟩ := Option.map_eq_some_iff.mp h
      rw [points.eq_def]
      simp only [hu, if_true, ih ht, List.map_cons]
  | case3 => cases h
  | case4 u hu v s hpair ih =>
      obtain ⟨t, ht, rfl⟩ := Option.map_eq_some_iff.mp h
      rw [points.eq_def]
      simp only [hu, if_false, hpair, and_self, if_true, ih ht, List.map_cons]
  | case5 => cases h

theorem points_str (t : Text) : points (Json.str t) = t.map some := points_eq (Json.chars_str t)

theorem scalars_str (t : Text) : scalars (Json.str t) = t := by
  rw [scalars, points_str, List.map_map]
  exact List.map_id t

theorem key_ne : key "created_at" ≠ key "id" := by decide

theorem nodup_payload (d : ZonedDateTime) (id : UUID) : ((payload d id).map Prod.fst).Nodup := by
  have hkeys : [key "created_at", key "id"].Nodup := by decide
  exact hkeys

/-! ## A cursor is read back -/

/-- The fields are those of the message. -/
theorem positionOf_payload {minutes : ℤ} (h : minutes.natAbs < 1440)
    (hzone : d.tzinfo = some (.ofMinutes minutes h)) (id : UUID) :
    positionOf (.object ((payload d id).map strMember) : Value F) = .ok (d, id) := by
  have hcreatedAt : item (key "created_at") (.object ((payload d id).map strMember) : Value F) =
      .ok (.str (Json.str (isoformat d))) := by
    simp [item, payload, strMember, Json.get]
  have hid : item (key "id") (.object ((payload d id).map strMember) : Value F) =
      .ok (.str (Json.str (Conversations.str id))) := by
    simp [item, payload, strMember, Json.get, key_ne]
  have hdatetime : datetimeOf (.str (Json.str (isoformat d)) : Value F) = .ok d := by
    rw [datetimeOf, points_str, Isoformat.fromisoformat_isoformat h hzone]
  have huuid : uuidOfValue (.str (Json.str (Conversations.str id)) : Value F) = .ok id := by
    rw [uuidOfValue, scalars_str, Realtime.Envelope.uuidOf_str]
  simp only [positionOf, hcreatedAt, hid, hdatetime, huuid, bind, Except.bind]
  rfl

theorem jsonOf_encodeCursor (hdepth : 0 < lim.depth) (d : ZonedDateTime) (id : UUID) :
    jsonOf fl lim (encodeCursor d id) = .ok (.object ((payload d id).map strMember)) := by
  rw [encodeCursor, jsonOf_encodeText, Json.loads_dumpsTexts hdepth (nodup_payload d id)]
  rfl

theorem decodeCursor_encodeCursor (hdepth : 0 < lim.depth) {minutes : ℤ}
    (h : minutes.natAbs < 1440) (hzone : d.tzinfo = some (.ofMinutes minutes h)) (id : UUID) :
    decodeCursor fl lim (encodeCursor d id) = .ok (d, id) := by
  have hposition : (jsonOf fl lim (encodeCursor d id)).bind positionOf = .ok (d, id) := by
    rw [jsonOf_encodeCursor hdepth]
    exact positionOf_payload h hzone id
  rw [decodeCursor, hposition]

/-- Different texts make different cursors. -/
theorem encodeCursor_inj {d' : ZonedDateTime} {id' : UUID}
    (h : encodeCursor d id = encodeCursor d' id') :
    isoformat d = isoformat d' ∧ Conversations.str id = Conversations.str id' := by
  -- Any interpreter can tell them apart.
  have hjson : jsonOf Floats.written ⟨0, 1⟩ (encodeCursor d id) =
      .ok (.object ((payload d id).map strMember)) := jsonOf_encodeCursor Nat.one_pos d id
  have hjson' : jsonOf Floats.written ⟨0, 1⟩ (encodeCursor d' id') =
      .ok (.object ((payload d' id').map strMember)) := jsonOf_encodeCursor Nat.one_pos d' id'
  rw [h, hjson'] at hjson
  have hmembers := Value.object.inj (Except.ok.inj hjson)
  simp only [payload, List.map_cons, List.map_nil, strMember, List.cons.injEq, Prod.mk.injEq,
    Value.str.injEq, true_and, and_true] at hmembers
  have hstr : Function.Injective Json.str := fun s t hst ↦ by
    rw [← scalars_str s, hst, scalars_str]
  exact ⟨hstr hmembers.1.symm, hstr hmembers.2.symm⟩

/-! ## The length -/

/-- The characters of a date and a time. -/
def isoChars : List Char := digitChars.take 10 ++ ['-', 'T', ':', '.', '+']

theorem mem_isoformat {c : Char} (h : c ∈ isoformat d) : c ∈ isoChars := by
  have hdigits : ∀ {width n}, c ∈ digits 10 width n → c ∈ isoChars := fun hc ↦
    List.mem_append_left _ (mem_digits (by decide) (by decide) hc)
  have hfraction : ∀ {microsecond}, c ∈ Isoformat.fraction microsecond → c ∈ isoChars := by
    intro microsecond hc
    rw [Isoformat.fraction] at hc
    split at hc
    · cases hc
    · rcases List.mem_cons.mp hc with rfl | hc
      · decide
      · exact hdigits hc
  have hsign : ∀ {p : Prop} [Decidable p], c = (if p then '-' else '+') → c ∈ isoChars := by
    rintro p _ rfl
    split <;> decide
  have hoffset : ∀ z, c ∈ Isoformat.formatOffset z → c ∈ isoChars := by
    intro z hc
    simp only [Isoformat.formatOffset, List.mem_cons, List.mem_append] at hc
    rcases hc with hc | hc | rfl | hc | hc
    · exact hsign hc
    · exact hdigits hc
    · decide
    · exact hdigits hc
    · split at hc
      · cases hc
      · simp only [List.mem_cons, List.mem_append] at hc
        rcases hc with rfl | hc | hc
        · decide
        · exact hdigits hc
        · exact hfraction hc
  simp only [isoformat, Isoformat.formatDate, Isoformat.formatTime, List.mem_append,
    List.mem_cons] at h
  rcases h with (h | rfl | h | rfl | h) | rfl | (h | rfl | h | rfl | h | h) | h
  · exact hdigits h
  · decide
  · exact hdigits h
  · decide
  · exact hdigits h
  · decide
  · exact hdigits h
  · decide
  · exact hdigits h
  · decide
  · exact hdigits h
  · exact hfraction h
  · cases hzone : d.tzinfo with
    | none =>
        rw [hzone] at h
        cases h
    | some z =>
        rw [hzone] at h
        exact hoffset z h

theorem plain_of_mem {c : Char} (h : c ∈ isoChars ∨ c ∈ '-' :: digitChars) :
    Json.Plain c := by
  have hiso : ∀ c ∈ isoChars, Json.Plain c := by simp [isoChars, digitChars, Json.Plain]
  have huuid : ∀ c ∈ '-' :: digitChars, Json.Plain c := by
    simp [digitChars, Json.Plain]
  exact h.elim (hiso c) (huuid c)

theorem length_isoformat_le {minutes : ℤ} (h : minutes.natAbs < 1440)
    (hzone : d.tzinfo = some (.ofMinutes minutes h)) : (isoformat d).length ≤ 32 := by
  have hfraction : ∀ microsecond, (Isoformat.fraction microsecond).length ≤ 7 := by
    intro microsecond
    rw [Isoformat.fraction]
    split
    · exact Nat.zero_le 7
    · rw [List.length_cons, length_digits]
  have hlength := hfraction d.microsecond
  rw [isoformat, hzone]
  simp only [Option.map_some, Option.getD_some, Isoformat.formatOffset_ofMinutes,
    Isoformat.formatDate, Isoformat.formatTime, List.length_append, List.length_cons,
    length_digits]
  omega

/-- The text in a cursor, as it is. -/
theorem dumpsTexts_payload (d : ZonedDateTime) (id : UUID) : dumpsTexts (payload d id) =
    ['\x7b', '"', 'c', 'r', 'e', 'a', 't', 'e', 'd', '_', 'a', 't', '"', ':', ' ', '"'] ++
      isoformat d ++ ['"', ',', ' ', '"', 'i', 'd', '"', ':', ' ', '"'] ++ Conversations.str id ++
      ['"', '\x7d'] := by
  have hcreatedAt : Json.quote (key "created_at") =
      ['"', 'c', 'r', 'e', 'a', 't', 'e', 'd', '_', 'a', 't', '"'] := by decide
  have hid : Json.quote (key "id") = ['"', 'i', 'd', '"'] := by decide
  have hdate := Json.quote_plain fun c hc ↦ plain_of_mem (.inl (mem_isoformat (d := d) hc))
  have hstr := Json.quote_plain fun c hc ↦ plain_of_mem
    (.inr (Realtime.Envelope.mem_str (u := id) hc))
  simp [dumpsTexts, payload, Json.spaced, Json.spacedMember, hcreatedAt, hid, hdate, hstr]

theorem length_encodeUtf8 (hs : ∀ c ∈ s, c.toNat ≤ 0x7f) : (encodeUtf8 s).length = s.length := by
  induction s with
  | nil => rfl
  | cons c s ih =>
      obtain ⟨hc, hs⟩ := List.forall_mem_cons.mp hs
      have hone : String.utf8EncodeChar c = [UInt8.ofNat c.toNat] := if_pos hc
      rw [encodeUtf8, List.flatMap_cons, hone, ← encodeUtf8, List.length_append, ih hs,
        List.length_singleton, List.length_cons, Nat.add_comm]

/-- A cursor is not too long for the query. -/
theorem length_encodeCursor_le {minutes : ℤ} (h : minutes.natAbs < 1440)
    (hzone : d.tzinfo = some (.ofMinutes minutes h)) (id : UUID) :
    (encodeCursor d id).length ≤ 128 := by
  have hascii : ∀ c ∈ dumpsTexts (payload d id), c.toNat ≤ 0x7f := by
    have hplain : ∀ {c}, Json.Plain c → c.toNat ≤ 0x7f := fun hc ↦ hc.2.1.trans (by decide)
    intro c hc
    rw [dumpsTexts_payload] at hc
    simp only [List.mem_append, or_assoc] at hc
    rcases hc with hc | hc | hc | hc | hc
    · exact (by simp : ∀ c ∈ ['\x7b', '"', 'c', 'r', 'e', 'a', 't', 'e', 'd', '_', 'a', 't', '"',
        ':', ' ', '"'], c.toNat ≤ 0x7f) c hc
    · exact hplain (plain_of_mem (.inl (mem_isoformat hc)))
    · exact (by simp : ∀ c ∈ ['"', ',', ' ', '"', 'i', 'd', '"', ':', ' ', '"'],
        c.toNat ≤ 0x7f) c hc
    · exact hplain (plain_of_mem (.inr (Realtime.Envelope.mem_str hc)))
    · exact (by simp : ∀ c ∈ ['"', '\x7d'], c.toNat ≤ 0x7f) c hc
  have hiso := length_isoformat_le h hzone
  have hlength : (dumpsTexts (payload d id)).length ≤ 96 := by
    rw [dumpsTexts_payload]
    simp only [List.length_append, List.length_cons, List.length_nil, Conversations.length_str]
    omega
  have hle := Base64.length_rstrip_le (encodeUtf8 (dumpsTexts (payload d id)))
  rw [length_encodeUtf8 hascii] at hle
  rw [encodeCursor, encodeText]
  omega

/-- **A cursor is read back**, with the instant in its zone, and is safe in a URL and short enough
for the query; and cursors of different texts are different. -/
theorem cursor_round_trip (fl : Floats F) (lim : Limits) (hdepth : 0 < lim.depth)
    (createdAt : DateTime) (minutes : ℤ) (h : minutes.natAbs < 1440) (id : UUID) :
    decodeCursor fl lim (encodeCursor ⟨createdAt, some (.ofMinutes minutes h)⟩ id) =
        .ok (⟨createdAt, some (.ofMinutes minutes h)⟩, id) ∧
      (∀ c ∈ encodeCursor ⟨createdAt, some (.ofMinutes minutes h)⟩ id, Urlsafe c) ∧
      (encodeCursor ⟨createdAt, some (.ofMinutes minutes h)⟩ id).length ≤ 512 ∧
      ∀ d' id', (isoformat ⟨createdAt, some (.ofMinutes minutes h)⟩,
          Conversations.str id) ≠ (isoformat d', Conversations.str id') →
        encodeCursor ⟨createdAt, some (.ofMinutes minutes h)⟩ id ≠ encodeCursor d' id' := by
  refine ⟨decodeCursor_encodeCursor hdepth h rfl id, fun c hc ↦ Base64.urlsafe_rstrip hc, ?_, ?_⟩
  · exact (length_encodeCursor_le h rfl id).trans (by decide)
  · intro d' id' hne heq
    obtain ⟨hiso, hstr⟩ := encodeCursor_inj heq
    exact hne (by rw [hiso, hstr])

/-- The first instant there is. -/
def first : DateTime := ⟨⟨1, 1, 1, 0, 0, 0, 0⟩, by decide⟩

/-- With the limits that the interpreter has by default. -/
theorem first_round_trip : ∃ d, d.tzinfo = some (.ofMinutes 330 (by decide)) ∧
    decodeCursor Floats.written ⟨4300, 1000⟩ (encodeCursor d 7) = .ok (d, 7) :=
  ⟨⟨first, some (.ofMinutes 330 (by decide))⟩, rfl,
    (cursor_round_trip Floats.written ⟨4300, 1000⟩ (by decide) first 330 (by decide) 7).1⟩

/-! ## Cursors that are no cursors -/

variable {cursor : Text} {v : Value F}

/-- A position, or the error that clients are told. -/
def Total (fl : Floats F) (lim : Limits) (cursor : Text) : Prop :=
  (∃ position, decodeCursor fl lim cursor = .ok position) ∨
    decodeCursor fl lim cursor = .error (.appError invalidCursor)

/-- An identifier that `UUID` reads, or refuses with an exception that is expected. -/
def IsTextOrNull : Value F → Prop
  | .str _ | .null => True
  | _ => False

/-- The JSON in a cursor does not lie too deep; and if it is an object with a `created_at` that is
the text of an instant, its `id` is a text or `null`, if it has one. -/
structure Expected (fl : Floats F) (lim : Limits) (cursor : Text) : Prop where
  shallow : jsonOf fl lim cursor ≠ .error .recursionError
  id : ∀ members createdAt id, jsonOf fl lim cursor = .ok (.object members) →
    Json.get (key "created_at") members = some (.str createdAt) →
    (fromisoformat (points createdAt)).isSome → Json.get (key "id") members = some id →
    IsTextOrNull id

theorem total_iff_caught : Total fl lim cursor ↔
    ∀ e, (jsonOf fl lim cursor).bind positionOf = .error e → e.caught := by
  rw [Total, decodeCursor]
  cases (jsonOf fl lim cursor).bind positionOf with
  | ok position => simp
  | error e => simp

/-- The first three decoders raise no `AttributeError`. -/
theorem jsonOf_caught {e : Exn} (h : jsonOf fl lim cursor = .error e) :
    e.caught ∨ e = .recursionError := by
  simp only [jsonOf, bind, Except.bind] at h
  split at h
  · next e' hbytes =>
      cases h
      rw [urlsafeB64decode] at hbytes
      split at hbytes
      · split at hbytes
        · cases hbytes
        · cases hbytes
          exact .inl rfl
      · cases hbytes
        exact .inl rfl
  · split at h
    · cases h
      exact .inl rfl
    · next text _ =>
        cases hloads : loads fl lim text with
        | ok v =>
            rw [hloads] at h
            cases h
        | error e' =>
            rw [hloads] at h
            cases h
            cases e' with
            | jsonDecodeError | valueError => exact .inl rfl
            | recursionError => exact .inr rfl

theorem uuidOfValue_caught_iff :
    (∀ e, uuidOfValue v = .error e → e.caught) ↔ IsTextOrNull v := by
  cases v with
  | str s =>
      refine iff_of_true (fun e h ↦ ?_) trivial
      rw [uuidOfValue] at h
      split at h
      · cases h
      · cases h
        rfl
  | null =>
      refine iff_of_true (fun e h ↦ ?_) trivial
      cases h
      rfl
  | bool | int | float | array | object =>
      exact iff_of_false (fun h ↦ Bool.false_ne_true (h .attributeError rfl)) id

/-- The fields of an object with an instant and an identifier. -/
theorem positionOf_object {members : List (Str × Value F)} {createdAt : Str}
    (hcreatedAt : Json.get (key "created_at") members = some (.str createdAt))
    (hdate : fromisoformat (points createdAt) = some d)
    (hid : Json.get (key "id") members = some v) :
    positionOf (.object members) = (uuidOfValue v).map (d, ·) := by
  simp only [positionOf, item, hcreatedAt, hid, datetimeOf, hdate, bind, Except.bind, pure,
    Except.pure, Except.map]

theorem item_caught {name : Str} {e : Exn} (h : item name v = .error e) : e.caught := by
  rw [item.eq_def] at h
  split at h
  · split at h
    · cases h
    · cases h
      rfl
  · cases h
    rfl

theorem item_eq_ok {name : Str} {w : Value F} : item name v = .ok w ↔
    ∃ members, v = .object members ∧ Json.get name members = some w := by
  rw [item.eq_def]
  split
  · next members =>
      split
      · next w' hw =>
          simp [hw]
      · next hw =>
          simp [hw]
  · next hne =>
      refine iff_of_false nofun ?_
      rintro ⟨members, rfl, -⟩
      exact hne members rfl

theorem datetimeOf_caught {e : Exn} (h : datetimeOf v = .error e) : e.caught := by
  rw [datetimeOf.eq_def] at h
  split at h
  · split at h
    · cases h
    · cases h
      rfl
  · cases h
    rfl

theorem datetimeOf_eq_ok (h : datetimeOf v = .ok d) :
    ∃ s, v = .str s ∧ fromisoformat (points s) = some d := by
  rw [datetimeOf.eq_def] at h
  split at h
  · next s =>
      split at h
      · next d' hd =>
          cases h
          exact ⟨s, rfl, hd⟩
      · cases h
  · cases h

/-- The fields raise an exception that is not expected for the identifier only. -/
theorem positionOf_caught_iff : (∀ e, positionOf v = .error e → e.caught) ↔
    ∀ members createdAt id, v = .object members →
      Json.get (key "created_at") members = some (.str createdAt) →
      (fromisoformat (points createdAt)).isSome → Json.get (key "id") members = some id →
      IsTextOrNull id := by
  constructor
  · rintro h members createdAt id rfl hcreatedAt hdate hid
    obtain ⟨d, hdate⟩ := Option.isSome_iff_exists.mp hdate
    rw [positionOf_object hcreatedAt hdate hid] at h
    refine uuidOfValue_caught_iff.mp fun e he ↦ h e ?_
    rw [he]
    rfl
  · intro h e he
    cases hcreatedAt : item (key "created_at") v with
    | error e' =>
        rw [positionOf, hcreatedAt] at he
        cases he
        exact item_caught hcreatedAt
    | ok createdAt =>
        cases hdate : datetimeOf createdAt with
        | error e' =>
            simp only [positionOf, hcreatedAt, hdate, bind, Except.bind] at he
            cases he
            exact datetimeOf_caught hdate
        | ok d =>
            obtain ⟨members, rfl, hget⟩ := item_eq_ok.mp hcreatedAt
            obtain ⟨s, rfl, hread⟩ := datetimeOf_eq_ok hdate
            cases hid : item (key "id") (.object members) with
            | error e' =>
                simp only [positionOf, hcreatedAt, hdate, hid, bind, Except.bind] at he
                cases he
                exact item_caught hid
            | ok id =>
                obtain ⟨_, ⟨⟩, hgetId⟩ := item_eq_ok.mp hid
                have hkind := h members s id rfl hget (by rw [hread]; rfl) hgetId
                rw [positionOf_object hget hread hgetId] at he
                cases huuid : uuidOfValue id with
                | error e' =>
                    rw [huuid] at he
                    cases he
                    exact uuidOfValue_caught_iff.mpr hkind _ huuid
                | ok u =>
                    rw [huuid] at he
                    cases he

/-- **Decoding is total for the cursors that are expected, and for no others.** -/
theorem total_iff (fl : Floats F) (lim : Limits) (cursor : Text) :
    Total fl lim cursor ↔ Expected fl lim cursor := by
  rw [total_iff_caught]
  cases hjson : jsonOf fl lim cursor with
  | error e =>
      constructor
      · intro h
        refine ⟨?_, ?_⟩
        · rw [hjson]
          rintro ⟨⟩
          exact Bool.false_ne_true (h .recursionError rfl)
        · rw [hjson]
          rintro _ _ _ ⟨⟩
      · rintro ⟨hshallow, -⟩ e' he
        cases he
        exact (jsonOf_caught hjson).resolve_right fun h ↦ hshallow (h ▸ hjson)
  | ok v =>
      show (∀ e, positionOf v = .error e → e.caught) ↔ _
      rw [positionOf_caught_iff]
      constructor
      · intro h
        refine ⟨by rw [hjson]; rintro ⟨⟩, ?_⟩
        rw [hjson]
        rintro members createdAt id ⟨⟩
        exact h members createdAt id rfl
      · rintro ⟨-, h⟩ members createdAt id rfl
        exact h members createdAt id hjson

/-- An object whose `id` is a number. -/
def numbered : Value { n : Json.Number // n.Valid ∧ n.IsFloat } :=
  .object [(key "created_at", .str (key "2024-01-01")), (key "id", .int 5)]

theorem not_total {e : Exn} (hjson : jsonOf fl lim cursor = .ok v)
    (hposition : positionOf v = .error e) (he : e.caught = false) : ¬ Total fl lim cursor := by
  have hbind : (jsonOf fl lim cursor).bind positionOf = .error e := by
    rw [hjson]
    exact hposition
  rw [total_iff_caught]
  intro h
  exact Bool.false_ne_true (he.symm.trans (h e hbind))

theorem positionOf_numbered : positionOf numbered = .error .attributeError := by
  have hsome : (fromisoformat (points (key "2024-01-01"))).isSome := by
    rw [key, points_str]
    decide
  obtain ⟨d, hdate⟩ := Option.isSome_iff_exists.mp hsome
  have hid : Json.get (key "id") [(key "created_at", .str (key "2024-01-01")),
      (key "id", .int 5)] = some (.int 5 : Value { n : Json.Number // n.Valid ∧ n.IsFloat }) := by
    simp [Json.get, key_ne]
  rw [numbered, positionOf_object (by simp [Json.get]) hdate hid]
  rfl

theorem distinct_numbered : numbered.Distinct := by
  have hkeys : [key "created_at", key "id"].Nodup := by decide
  refine .object hkeys fun m hm ↦ ?_
  rcases List.mem_cons.mp hm with rfl | hm
  · exact .str _
  · rw [List.mem_singleton.mp hm]
    exact .int 5

theorem loads_numbered :
    loads Floats.written ⟨4300, 1000⟩ (numbered.text Floats.written) = .ok numbered :=
  Json.loads_dumps distinct_numbered rfl

/-- Its cursor, `eyJjcmVhdGVkX2F0IjoiMjAyNC0wMS0wMSIsImlkIjo1fQ`, leads to an `AttributeError`. -/
theorem numbered_not_total :
    ¬ Total Floats.written ⟨4300, 1000⟩ (encodeText (numbered.text Floats.written)) := by
  have hjson : jsonOf Floats.written ⟨4300, 1000⟩ (encodeText (numbered.text Floats.written)) =
      .ok numbered := by
    rw [jsonOf_encodeText, loads_numbered, Except.mapError]
  exact not_total hjson positionOf_numbered rfl

end Chatterbox.Messages.CursorText
