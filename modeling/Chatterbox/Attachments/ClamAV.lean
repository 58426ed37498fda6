import Chatterbox.Attachments.Model
import Chatterbox.Utf8
import Mathlib.Data.List.DropRight

/-!
# What the scanner makes of a reply

`ClamAVAttachmentScanner.scan`, from where the object has been streamed to the daemon.  The reply is
a text and a NUL, and arrives in segments; the scanner reads until a NUL, until the connection is
closed or until it has 4096 bytes, whichever comes first, and judges by how the text ends that it
has by then.  It does not ask which of the three it was.

So a reply that is no `OK` passes where the connection closes, or the 4096 bytes are full, behind
two letters `OK` in it, and nowhere else (`fails_closed_iff`).
-/

namespace Chatterbox.Attachments.ClamAV

/-- What is still to come from the daemon, and how it ends: the connection is closed, or fails. -/
structure Connection where
  segments : List Bytes
  fails : Bool
  nonempty : ∀ s ∈ segments, s ≠ []

namespace Connection

/-- All that is still to come. -/
def arriving (c : Connection) : Bytes := c.segments.flatten

/-- `connection.recv(n)`: at most `n` bytes of the segment that is there, nothing once the connection
is closed, and `none` for an `OSError` or a timeout. -/
def recv (n : ℕ) : Connection → Option (Bytes × Connection)
  | ⟨[], fails, h⟩ => if fails then none else some ([], ⟨[], fails, h⟩)
  | ⟨s :: segments, fails, h⟩ =>
      if hs : s.drop n = [] then
        some (s.take n, ⟨segments, fails, fun s' hs' ↦ h s' (.tail _ hs')⟩)
      else
        some (s.take n, ⟨s.drop n :: segments, fails, by
          simpa only [List.forall_mem_cons] using ⟨hs, (List.forall_mem_cons.mp h).2⟩⟩)

variable {c c' : Connection} {n : ℕ} {part : Bytes}

/-- A part is what comes next; an empty one is the end. -/
theorem recv_spec (h : c.recv n = some (part, c')) :
    part ++ c'.arriving = c.arriving ∧ c'.fails = c.fails ∧ part.length ≤ n ∧
      (part = [] → n = 0 ∨ c.arriving = []) := by
  obtain ⟨_ | ⟨s, segments⟩, fails, hne⟩ := c
  · simp only [recv] at h
    split at h
    · cases h
    · cases h
      exact ⟨rfl, rfl, Nat.zero_le _, fun _ ↦ .inr rfl⟩
  · have hs : s ≠ [] := hne s (.head _)
    have hlength : (s.take n).length ≤ n := List.length_take_le n s
    have hnil : s.take n = [] → n = 0 ∨ arriving ⟨s :: segments, fails, hne⟩ = [] :=
      fun h ↦ .inl ((List.take_eq_nil_iff.mp h).resolve_right hs)
    simp only [recv] at h
    split at h
    · next hdrop =>
        cases h
        refine ⟨?_, rfl, hlength, hnil⟩
        rw [List.take_of_length_le (List.drop_eq_nil_iff.mp hdrop)]
        rfl
    · cases h
      refine ⟨?_, rfl, hlength, hnil⟩
      simp only [arriving, List.flatten_cons, ← List.append_assoc, List.take_append_drop]

theorem recv_isSome (h : c.fails = false) : ∃ part c', c.recv n = some (part, c') := by
  obtain ⟨_ | ⟨s, segments⟩, fails, hne⟩ := c
  · cases h
    exact ⟨_, _, rfl⟩
  · simp only [recv]
    split <;> exact ⟨_, _, rfl⟩

end Connection

/-- The loop of `_scan_response`. -/
def readLoop (c : Connection) (result : Bytes) : Option Bytes :=
  if result.length < 4096 then
    match c.recv (4096 - result.length) with
    | none => none
    | some (part, c') =>
        if part = [] then some result
        else if 0 ∈ part then some (result ++ part)
        else readLoop c' (result ++ part)
  else some result
termination_by 4096 - result.length
decreasing_by
  have hpos := List.length_pos_of_ne_nil ‹part ≠ []›
  rw [List.length_append]
  omega

/-- `_scan_response`, from the loop on. -/
def scanResponse (c : Connection) : Reply :=
  match readLoop c [] with
  | none => .unavailable
  | some result => .text (Utf8.decodeReplace (result.rdropWhile (· = 0)))

/-- `ClamAVAttachmentScanner.scan`, once the object has been streamed to the daemon. -/
def scan (c : Connection) : Except AppError Unit := scanResult (scanResponse c)

variable {text result : Bytes} {c : Connection}

/-! ## What has been read when the loop ends -/

/-- Behind the NUL there is nothing. -/
theorem eq_nil_of_zero_mem {xs ys : Bytes} (htext : 0 ∉ text) (h : xs ++ ys <+: text ++ [0])
    (hxs : 0 ∈ xs) : ys = [] := by
  by_contra hys
  obtain ⟨ys, y, rfl⟩ := (List.eq_nil_or_concat' ys).resolve_left hys
  rw [← List.append_assoc, List.prefix_concat_iff] at h
  have hinit : xs ++ ys <+: text := by
    rcases h with h | h
    · exact (List.append_inj' h rfl).1 ▸ List.prefix_rfl
    · exact (List.prefix_append _ _).trans h
  exact htext (hinit.subset (List.mem_append_left _ hxs))

/-- Whatever the segments, the loop reads what arrives, up to its limit. -/
theorem readLoop_eq (htext : 0 ∉ text) (hfails : c.fails = false)
    (hinit : result ++ c.arriving <+: text ++ [0]) (hlength : result.length ≤ 4096) :
    readLoop c result = some ((result ++ c.arriving).take 4096) := by
  induction c, result using readLoop.induct with
  | case1 c result hlt hrecv =>
      obtain ⟨part, c', h⟩ := c.recv_isSome (n := 4096 - result.length) hfails
      rw [h] at hrecv
      cases hrecv
  | case2 c result hlt c' hrecv =>
      obtain ⟨-, -, -, hnil⟩ := Connection.recv_spec hrecv
      have harriving : c.arriving = [] := (hnil rfl).resolve_left (by omega)
      rw [readLoop, if_pos hlt, hrecv, harriving, List.append_nil, List.take_of_length_le hlength]
      rfl
  | case3 c result hlt part c' hrecv hpart hzero =>
      obtain ⟨harriving, -, hle, -⟩ := Connection.recv_spec hrecv
      rw [← harriving, ← List.append_assoc] at hinit
      have hrest := eq_nil_of_zero_mem htext hinit (List.mem_append_right _ hzero)
      have hfull : (result ++ part).length ≤ 4096 := by
        rw [List.length_append]
        omega
      rw [readLoop, if_pos hlt, hrecv, ← harriving, hrest, List.append_nil,
        List.take_of_length_le hfull]
      simp only [if_neg hpart, if_pos hzero]
  | case4 c result hlt part c' hrecv hpart hzero ih =>
      obtain ⟨harriving, hfails', hle, -⟩ := Connection.recv_spec hrecv
      rw [← harriving, ← List.append_assoc] at hinit ⊢
      have hfull : (result ++ part).length ≤ 4096 := by
        rw [List.length_append]
        omega
      rw [readLoop, if_pos hlt, hrecv]
      simp only [if_neg hpart, if_neg hzero]
      exact ih (hfails'.trans hfails) hinit hfull
  | case5 c result hge =>
      have hfull : result.length = 4096 := by omega
      rw [readLoop, if_neg hge, ← hfull, List.take_left]

/-! ## How it ends -/

/-- `b"OK"`. -/
def ok : Bytes := [0x4f, 0x4b]

theorem not_ok_suffix_concat_zero (xs : Bytes) : ¬ ok <:+ xs ++ [0] := by
  rw [ok, ← List.singleton_append, Utf8.suffix_concat_concat]
  exact fun h ↦ absurd h.2 (by decide)

/-- A text is clean if it ends in `OK`. -/
theorem scanResult_text {result : List Char} :
    (∃ e, scanResult (.text result) = .error e) ↔ ¬ ['O', 'K'] <:+ result := by
  by_cases hfound : ['F', 'O', 'U', 'N', 'D'] <:+ result
  · have hnot : ¬ ['O', 'K'] <:+ result := by
      rintro ⟨pre, rfl⟩
      obtain ⟨pre', h⟩ := hfound
      have hlast := congrArg List.getLast? h
      simp at hlast
    simp [scanResult, hfound, hnot]
  · by_cases hok : ['O', 'K'] <:+ result <;> simp [scanResult, hfound, hok]

theorem rdropWhile_of_zero_not_mem {bs : Bytes} (h : 0 ∉ bs) : bs.rdropWhile (· = 0) = bs :=
  List.rdropWhile_eq_self_iff.mpr fun hne hlast ↦
    h (of_decide_eq_true hlast ▸ List.getLast_mem hne)

/-- The NULs that are stripped hide an `OK` only where the reply is complete. -/
theorem ok_suffix_rdropWhile {arrived : Bytes} (htext : 0 ∉ text) (hok : ¬ ok <:+ text)
    (h : arrived <+: text ++ [0]) :
    ok <:+ arrived.rdropWhile (· = 0) ↔ ok <:+ arrived := by
  rcases List.prefix_concat_iff.mp h with rfl | h
  · rw [List.rdropWhile_concat_pos _ _ _ (by simp), rdropWhile_of_zero_not_mem htext]
    exact iff_of_false hok (not_ok_suffix_concat_zero text)
  · rw [rdropWhile_of_zero_not_mem fun hzero ↦ htext (h.subset hzero)]

theorem scan_eq (htext : 0 ∉ text) (hfails : c.fails = false)
    (harrived : c.arriving <+: text ++ [0]) :
    scan c = scanResult (.text
      (Utf8.decodeReplace ((c.arriving.take 4096).rdropWhile (· = 0)))) := by
  rw [scan, scanResponse, readLoop_eq htext hfails harrived (Nat.zero_le _)]
  rfl

/-- **What passes the scan.**  A reply that does not end in `OK` is turned down unless what is read
of it does: unless the connection closes, or the limit is reached, right behind an `OK`. -/
theorem fails_closed_iff (htext : 0 ∉ text) (hok : ¬ ok <:+ text) (hfails : c.fails = false)
    (harrived : c.arriving <+: text ++ [0]) :
    (∃ e, scan c = .error e) ↔ ¬ ok <:+ c.arriving.take 4096 := by
  have hword : ∀ b ∈ ok, b < 0x80 := by simp [ok]
  rw [scan_eq htext hfails harrived, scanResult_text, ← ok_suffix_rdropWhile htext hok
    ((List.take_prefix _ _).trans harrived), ← Utf8.suffix_decodeReplace hword]
  rfl

/-! ## A reply that is cut off -/

/-- `stream: Eicar FOUND`. -/
def eicar : Bytes :=
  ['s', 't', 'r', 'e', 'a', 'm', ':', ' ', 'E', 'i', 'c', 'a', 'r', ' ', 'F', 'O', 'U', 'N',
    'D'].map Char.toUInt8

/-- The connection closes behind the signature, of which the last letter comes by itself. -/
def eicarCut : Connection := ⟨[eicar.take 12, [0x72]], false, by decide⟩

theorem eicar_fails_closed : ∃ e, scan eicarCut = .error e := by
  have htext : 0 ∉ eicar := by decide
  exact (fails_closed_iff htext (by decide) rfl (by decide)).mpr (by decide)

/-- `stream: OKCash FOUND`. -/
def okCash : Bytes :=
  ['s', 't', 'r', 'e', 'a', 'm', ':', ' ', 'O', 'K', 'C', 'a', 's', 'h', ' ', 'F', 'O', 'U', 'N',
    'D'].map Char.toUInt8

/-- The connection closes within the signature. -/
def okCashCut : Connection := ⟨[okCash.take 10], false, by decide⟩

/-- The object is infected, and passes. -/
theorem okCash_passes : 0 ∉ okCash ∧ ¬ ok <:+ okCash ∧ okCashCut.fails = false ∧
    okCashCut.arriving <+: okCash ++ [0] ∧ scan okCashCut = .ok () := by
  have htext : 0 ∉ okCash := by decide
  have harrived : okCashCut.arriving <+: okCash ++ [0] := by decide
  refine ⟨htext, by decide, rfl, harrived, ?_⟩
  rw [scan_eq htext rfl harrived]
  rfl

end Chatterbox.Attachments.ClamAV
