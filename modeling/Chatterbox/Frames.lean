import Mathlib.Algebra.GroupWithZero.Nat
import Mathlib.Data.List.Basic
import Mathlib.Data.List.Flatten

/-!
# Frames with their length in front

A stream is a sequence of frames.  In front of each is a header, which says how long it is, and a
frame of length zero ends the stream.  A reader that is given the stream and more reads its frames
and leaves the rest (`decode_encode`); one that is given only a part of it does not come to an end
(`decode_of_lt`).

`Header.bigEndian` are the headers whose digits are bytes, the first one the highest.
-/

namespace Chatterbox

universe u

/-- How the lengths below a bound are written, all of them in the same width. -/
structure Header (α : Type u) where
  width : ℕ
  bound : ℕ
  write : ℕ → List α
  read : List α → ℕ
  width_pos : 0 < width
  bound_pos : 0 < bound
  length_write {n : ℕ} : n < bound → (write n).length = width
  read_write {n : ℕ} : n < bound → read (write n) = n

namespace Header

variable {α : Type u} (hd : Header α)

/-- A frame with its header. -/
def frame (body : List α) : List α := hd.write body.length ++ body

/-- A frame, and what is behind it. -/
def readFrame (xs : List α) : Option (List α × List α) :=
  let size := hd.read (xs.take hd.width)
  let rest := xs.drop hd.width
  if xs.length < hd.width ∨ rest.length < size then none
  else some (rest.take size, rest.drop size)

variable {hd} {xs more body rest content part : List α} {frames : List (List α)}

theorem length_lt_of_readFrame (h : hd.readFrame xs = some (body, rest)) :
    rest.length < xs.length := by
  have hwidth := hd.width_pos
  rw [readFrame] at h
  split at h
  · cases h
  · next hlong =>
      cases h
      rw [List.length_drop, List.length_drop]
      omega

theorem readFrame_frame (h : body.length < hd.bound) (xs : List α) :
    hd.readFrame (hd.frame body ++ xs) = some (body, xs) := by
  have hwidth := hd.length_write h
  have htake : (hd.frame body ++ xs).take hd.width = hd.write body.length := by
    rw [frame, List.append_assoc, List.take_left' hwidth]
  have hdrop : (hd.frame body ++ xs).drop hd.width = body ++ xs := by
    rw [frame, List.append_assoc, List.drop_left' hwidth]
  have hlong : ¬ ((hd.frame body ++ xs).length < hd.width ∨
      (body ++ xs).length < body.length) := by
    rw [frame, List.length_append, List.length_append, List.length_append, hwidth]
    omega
  simp only [readFrame, htake, hdrop, hd.read_write h, if_neg hlong, List.take_left,
    List.drop_left]

/-- What follows a frame does not change how it is read. -/
theorem readFrame_append (h : hd.readFrame xs = some (body, rest)) (more : List α) :
    hd.readFrame (xs ++ more) = some (body, rest ++ more) := by
  rw [readFrame] at h
  split at h
  · cases h
  · next hlong =>
      obtain ⟨hwidth, hsize⟩ := not_or.mp hlong
      cases h
      have hmore : ¬ ((xs ++ more).length < hd.width ∨
          (xs.drop hd.width ++ more).length < hd.read (xs.take hd.width)) := by
        rw [List.length_append, List.length_append]
        omega
      simp only [readFrame, List.take_append_of_le_length (Nat.not_lt.mp hwidth),
        List.drop_append_of_le_length (Nat.not_lt.mp hwidth), if_neg hmore,
        List.take_append_of_le_length (Nat.not_lt.mp hsize),
        List.drop_append_of_le_length (Nat.not_lt.mp hsize)]

variable (hd)

/-- A stream of frames. -/
def encode (frames : List (List α)) : List α := frames.flatMap hd.frame ++ hd.frame []

/-- The content of a stream, and what is behind it. -/
def decode (xs : List α) : Option (List α × List α) :=
  match _h : hd.readFrame xs with
  | none => none
  | some ([], rest) => some ([], rest)
  | some (x :: body, rest) =>
      (decode rest).map fun (content, left) ↦ (x :: body ++ content, left)
termination_by xs.length
decreasing_by exact length_lt_of_readFrame ‹_›

variable {hd}

theorem decode_none (h : hd.readFrame xs = none) : hd.decode xs = none := by
  rw [decode]
  split <;> simp_all

theorem decode_end (h : hd.readFrame xs = some ([], rest)) : hd.decode xs = some ([], rest) := by
  rw [decode]
  split <;> simp_all

theorem decode_frame (h : hd.readFrame xs = some (body, rest)) (hne : body ≠ []) :
    hd.decode xs = (hd.decode rest).map fun (content, left) ↦ (body ++ content, left) := by
  rw [decode]
  split <;> simp_all

/-- A stream is read as its frames one after the other, and no further. -/
theorem decode_encode (hne : ∀ body ∈ frames, body ≠ [])
    (hbound : ∀ body ∈ frames, body.length < hd.bound) (xs : List α) :
    hd.decode (hd.encode frames ++ xs) = some (frames.flatten, xs) := by
  induction frames with
  | nil =>
      have hempty : ([] : List α).length < hd.bound := hd.bound_pos
      exact decode_end (readFrame_frame hempty xs)
  | cons body frames ih =>
      have htail := ih (fun b hb ↦ hne b (.tail _ hb)) fun b hb ↦ hbound b (.tail _ hb)
      have hframe := readFrame_frame (hbound body (.head _)) (hd.encode frames ++ xs)
      have hencode : hd.encode (body :: frames) = hd.frame body ++ hd.encode frames := by
        rw [encode, encode, List.flatMap_cons, List.append_assoc]
      rw [hencode, List.append_assoc, decode_frame hframe (hne body (.head _)), htail]
      rfl

/-- What follows a stream does not change how it is read. -/
theorem decode_append (h : hd.decode xs = some (content, rest)) (more : List α) :
    hd.decode (xs ++ more) = some (content, rest ++ more) := by
  induction xs using decode.induct hd generalizing content rest with
  | case1 xs hnone =>
      rw [decode_none hnone] at h
      cases h
  | case2 xs rest' hend =>
      rw [decode_end hend] at h
      cases h
      exact decode_end (readFrame_append hend more)
  | case3 xs x body rest' hframe ih =>
      have hne : x :: body ≠ [] := List.cons_ne_nil x body
      rw [decode_frame hframe hne] at h
      obtain ⟨⟨content', left⟩, hrest, h⟩ := Option.map_eq_some_iff.mp h
      cases h
      rw [decode_frame (readFrame_append hframe more) hne, ih hrest]
      rfl

/-- A part of a stream is not a stream. -/
theorem decode_of_lt (hne : ∀ body ∈ frames, body ≠ [])
    (hbound : ∀ body ∈ frames, body.length < hd.bound) (hpart : part <+: hd.encode frames)
    (hlt : part.length < (hd.encode frames).length) : hd.decode part = none := by
  obtain ⟨more, hmore⟩ := hpart
  rw [Option.eq_none_iff_forall_ne_some]
  rintro ⟨content, rest⟩ h
  have hencode := decode_encode hne hbound []
  rw [List.append_nil, ← hmore, decode_append h more] at hencode
  have hnil : rest ++ more = [] := congrArg Prod.snd (Option.some.inj hencode)
  rw [← hmore, (List.append_eq_nil_iff.mp hnil).2, List.append_nil] at hlt
  exact Nat.lt_irrefl _ hlt

end Header

/-! ## Bytes -/

/-- So many bytes, the highest first. -/
def bigEndian : ℕ → ℕ → List UInt8
  | 0, _ => []
  | width + 1, n => bigEndian width (n / 256) ++ [UInt8.ofNat n]

def fromBigEndian (bs : List UInt8) : ℕ := bs.foldl (fun n b ↦ n * 256 + b.toNat) 0

@[simp] theorem length_bigEndian (width n : ℕ) : (bigEndian width n).length = width := by
  induction width generalizing n with
  | zero => rfl
  | succ width ih => rw [bigEndian, List.length_append, ih, List.length_singleton]

theorem fromBigEndian_bigEndian {width n : ℕ} (h : n < 256 ^ width) :
    fromBigEndian (bigEndian width n) = n := by
  induction width generalizing n with
  | zero =>
      rw [Nat.pow_zero] at h
      exact (Nat.lt_one_iff.mp h).symm
  | succ width ih =>
      have hdiv : n / 256 < 256 ^ width := Nat.div_lt_of_lt_mul (Nat.pow_succ' ▸ h)
      have hinit := ih hdiv
      rw [fromBigEndian] at hinit
      rw [bigEndian, fromBigEndian, List.foldl_append, hinit, List.foldl_cons, List.foldl_nil,
        UInt8.toNat_ofNat', Nat.div_add_mod']

/-- Headers of so many bytes. -/
def Header.bigEndian (width : ℕ) (h : 0 < width) : Header UInt8 where
  width := width
  bound := 256 ^ width
  write := Chatterbox.bigEndian width
  read := fromBigEndian
  width_pos := h
  bound_pos := Nat.pow_pos (by decide)
  length_write _ := length_bigEndian width _
  read_write := fromBigEndian_bigEndian

end Chatterbox
