import Chatterbox.Attachments.ClamAV
import Chatterbox.Frames

/-!
# The object is sent in frames

`ClamAVAttachmentScanner._scan_response`, up to where it begins to read.  Each chunk that the
storage yields is sent behind its length, in four bytes, and a length of zero is the end.  The
daemon has the whole object once all has been sent, and nothing before that; so its reply is about
the object, and not about how the storage has cut it (`framing_faithful`).
-/

namespace Chatterbox.Attachments.Instream

open ClamAV (Connection)

/-- What `response.stream(amt=amt)` yields. -/
structure Chunks (amt : ℕ) where
  chunks : List Bytes
  nonempty : ∀ chunk ∈ chunks, chunk ≠ []
  length_le : ∀ chunk ∈ chunks, chunk.length ≤ amt

/-- The object. -/
def Chunks.content {amt : ℕ} (c : Chunks amt) : Bytes := c.chunks.flatten

inductive Raised where
  | osError
  | structError

/-- What a program has sent, whatever it returns or raises. -/
abbrev Sending := EStateM Raised Bytes

/-- `struct.pack("!I", n)`. -/
def pack (n : ℕ) : Sending Bytes :=
  if n < 2 ^ 32 then pure (bigEndian 4 n) else throw .structError

/-- `connection.sendall(data)`, where the connection takes so many bytes in all before it fails. -/
def sendall (room : ℕ) (data : Bytes) : Sending Unit := fun sent ↦
  if room < (sent ++ data).length then .error .osError ((sent ++ data).take room)
  else .ok () (sent ++ data)

/-- `b"zINSTREAM\0"`. -/
def command : Bytes :=
  ['z', 'I', 'N', 'S', 'T', 'R', 'E', 'A', 'M', '\x00'].map Char.toUInt8

/-- The loop over the chunks. -/
def sendChunks (room : ℕ) : List Bytes → Sending Unit
  | [] => pure ()
  | chunk :: chunks => do
      sendall room (← pack chunk.length)
      sendall room chunk
      sendChunks room chunks

/-- `_scan_response`, up to where it begins to read. -/
def sendObject (room : ℕ) (response : Chunks (64 * 1024)) : Sending Unit := do
  sendall room command
  sendChunks room response.chunks
  sendall room (← pack 0)

/-- `ClamAVAttachmentScanner.scan`: `daemon` is what comes from the daemon for what has been sent to
it.  It is `none` for an exception that is not expected. -/
def scan (room : ℕ) (daemon : Bytes → Connection) (response : Chunks (64 * 1024)) :
    Option (Except AppError Unit) :=
  match (sendObject room response).run [] with
  | .ok _ sent => some (ClamAV.scan (daemon sent))
  | .error .osError _ => some (scanResult .unavailable)
  | .error .structError _ => none

/-! ## The grammar -/

/-- A length is four bytes. -/
def instream : Header UInt8 := .bigEndian 4 (by decide)

/-- The object that a daemon has got: there is the command, and behind it a stream and no more. -/
def received (sent : Bytes) : Option Bytes :=
  if command <+: sent then
    match instream.decode (sent.drop command.length) with
    | some (content, []) => some content
    | _ => none
  else none

/-! ## What is sent -/

variable {room n : ℕ} {content frames : Bytes} {chunks : List Bytes}

/-- It makes no difference in how many pieces something is sent. -/
theorem sendall_append (room : ℕ) (data data' : Bytes) :
    (do sendall room data; sendall room data') = sendall room (data ++ data') := by
  funext sent
  change EStateM.run _ sent = _
  rw [EStateM.run_bind]
  by_cases h : room < (sent ++ data).length
  · have hrun : (sendall room data).run sent = .error .osError ((sent ++ data).take room) :=
      if_pos h
    have hlonger : room < (sent ++ (data ++ data')).length := by
      rw [← List.append_assoc, List.length_append]
      omega
    rw [hrun, sendall, if_pos hlonger, ← List.append_assoc,
      List.take_append_of_le_length (Nat.le_of_lt h)]
  · have hrun : (sendall room data).run sent = .ok () (sent ++ data) := if_neg h
    rw [hrun, sendall, ← List.append_assoc]
    rfl

theorem pack_of_lt (h : n < 2 ^ 32) : pack n = pure (instream.write n) := if_pos h

/-- The chunks go out in their frames. -/
theorem sendChunks_eq (h : ∀ chunk ∈ chunks, chunk.length < 2 ^ 32) (data : Bytes) :
    (do sendChunks room chunks; sendall room data) =
      sendall room (chunks.flatMap instream.frame ++ data) := by
  induction chunks with
  | nil => rfl
  | cons chunk chunks ih =>
      have htail := ih fun c hc ↦ h c (.tail _ hc)
      rw [sendChunks, pack_of_lt (h chunk (.head _)), pure_bind, bind_assoc]
      simp only [bind_assoc, htail, sendall_append]
      rw [List.flatMap_cons, Header.frame, List.append_assoc, List.append_assoc]

/-- All that is sent is the command and a stream. -/
theorem sendObject_eq (room : ℕ) (response : Chunks (64 * 1024)) :
    sendObject room response = sendall room (command ++ instream.encode response.chunks) := by
  have hlength : ∀ chunk ∈ response.chunks, chunk.length < 2 ^ 32 := by
    intro chunk hchunk
    have hle := response.length_le chunk hchunk
    omega
  rw [sendObject, pack_of_lt (by decide)]
  simp only [pure_bind, sendChunks_eq hlength, sendall_append]
  rfl

/-! ## What the daemon gets -/

theorem received_eq_some (h : instream.decode frames = some (content, [])) :
    received (command ++ frames) = some content := by
  rw [received, if_pos (List.prefix_append _ _), List.drop_left, h]

/-- Before all has been sent, there is no object. -/
theorem received_eq_none (h : ∀ p, p <+: frames → p.length < frames.length →
    instream.decode p = none) (hroom : room < (command ++ frames).length) :
    received ((command ++ frames).take room) = none := by
  rw [received]
  split
  · next hcommand =>
      obtain ⟨p, hp⟩ := hcommand
      have hprefix : p <+: frames := by
        rw [← List.prefix_append_right_inj command, hp]
        exact List.take_prefix _ _
      have hlt : p.length < frames.length := by
        have hlength := congrArg List.length hp
        rw [List.length_take, List.length_append, List.length_append] at hlength
        rw [List.length_append] at hroom
        omega
      rw [← hp, List.drop_left, h p hprefix hlt]
  · rfl

/-- **The scanner is sent the whole object.**  However the storage has cut it, what is behind the
command is a stream of exactly its bytes, and no part of that is one; so a reply is about the whole
object, unless the connection fails before it is there. -/
theorem framing_faithful (response : Chunks (64 * 1024)) :
    ∃ frames, instream.decode frames = some (response.content, []) ∧
      ∀ (room : ℕ) (verdict : Option Bytes → Connection),
        if room < (command ++ frames).length then
          (sendObject room response).run [] = .error .osError ((command ++ frames).take room) ∧
            received ((command ++ frames).take room) = none ∧
            scan room (verdict ∘ received) response = some (scanResult .unavailable)
        else
          (sendObject room response).run [] = .ok () (command ++ frames) ∧
            scan room (verdict ∘ received) response =
              some (ClamAV.scan (verdict (some response.content))) := by
  have hbound : ∀ chunk ∈ response.chunks, chunk.length < instream.bound := by
    intro chunk hchunk
    exact (response.length_le chunk hchunk).trans_lt (by decide)
  have hdecode := Header.decode_encode response.nonempty hbound []
  rw [List.append_nil] at hdecode
  refine ⟨instream.encode response.chunks, hdecode, fun room verdict ↦ ?_⟩
  have hrun := congrFun (sendObject_eq room response) []
  rw [sendall, List.nil_append] at hrun
  split
  · next hroom =>
      rw [if_pos hroom] at hrun
      have hpart (p : Bytes) (hp : p <+: instream.encode response.chunks) :=
        Header.decode_of_lt response.nonempty hbound hp
      refine ⟨hrun, received_eq_none hpart hroom, ?_⟩
      rw [scan, EStateM.run, hrun]
  · next hroom =>
      rw [if_neg hroom] at hrun
      refine ⟨hrun, ?_⟩
      rw [scan, EStateM.run, hrun]
      exact congrArg (some ∘ ClamAV.scan ∘ verdict) (received_eq_some hdecode)

example : (sendObject 100 ⟨[[1, 2], [3]], by decide, by decide⟩).run [] =
    .ok () (command ++ [0, 0, 0, 2, 1, 2, 0, 0, 0, 1, 3, 0, 0, 0, 0]) := rfl

end Chatterbox.Attachments.Instream
