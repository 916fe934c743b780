import Mathlib.Tactic.Common
import Mathlib.Algebra.Order.Ring.Int

/-!
# Chunks with their lengths

A stream of chunks of bytes, each behind its length in four bytes, of which a length of zero is the end.

* **`be32`**, **`readBe32`** — a number in four bytes, the greatest first, and back.
* **`slices`** — a text cut into chunks of one size, of which the last may be shorter.
* **`encode`** — the stream of some chunks.
* **`decode`** — the chunks of a stream, and what is behind its end.
* **`decode_encode`** — the chunks come back, as long as none is empty or too long for its length.
-/

namespace AcaSocial.LengthPrefix

/-! ## Lengths

A length is written in four bytes, the highest one first. -/

/-- `writeUInt32BE`. -/
def be32 (n : Nat) : List UInt8 :=
  [UInt8.ofNat (n / 256 / 256 / 256), UInt8.ofNat (n / 256 / 256), UInt8.ofNat (n / 256), UInt8.ofNat n]

def readBe32 (a b c d : UInt8) : Nat :=
  256 * (256 * (256 * a.toNat + b.toNat) + c.toNat) + d.toNat

/-- A number below `2 ^ 32` is read as it was written. -/
theorem readBe32_be32 {n : Nat} (h : n < 2 ^ 32) :
    readBe32 (UInt8.ofNat (n / 256 / 256 / 256)) (UInt8.ofNat (n / 256 / 256)) (UInt8.ofNat (n / 256)) (UInt8.ofNat n)
      = n := by
  simp only [readBe32, UInt8.toNat_ofNat']
  omega

/-! ## Slices

A text cut into pieces of one size, the last of which may be shorter. -/

/-- The slices from `offset` on, at steps of `size`. -/
def slices (size : Nat) (bytes : List UInt8) (offset : Nat) : List (List UInt8) :=
  if 0 < size ∧ offset < bytes.length then
    (bytes.drop offset).take size :: slices size bytes (offset + size)
  else []
termination_by bytes.length - offset

variable {size : Nat} {bytes : List UInt8} {offset : Nat}

/-- A slice is not empty and not too long. -/
theorem length_slices {slice : List UInt8} (h : slice ∈ slices size bytes offset) :
    1 ≤ slice.length ∧ slice.length ≤ size := by
  fun_induction slices size bytes offset with
  | case1 offset hlt ih =>
    rcases List.mem_cons.mp h with rfl | h
    · rw [List.length_take, List.length_drop]
      omega
    · exact ih h
  | case2 offset _ => exact absurd h List.not_mem_nil

/-- Together the slices are the text. -/
theorem flatten_slices (hsize : 0 < size) : (slices size bytes offset).flatten = bytes.drop offset := by
  fun_induction slices size bytes offset with
  | case1 offset hlt ih =>
    rw [List.flatten_cons, ih, ← List.drop_drop, List.take_append_drop]
  | case2 offset hend =>
    have hge : bytes.length ≤ offset := Nat.le_of_not_lt fun hlt => hend ⟨hsize, hlt⟩
    rw [List.drop_eq_nil_of_le hge]
    rfl

/-! ## Streams

Each slice is sent with its length before it, and a length of zero ends the stream. -/

/-- A chunk behind its length. -/
def frame (chunk : List UInt8) : List UInt8 := be32 chunk.length ++ chunk

def encode (chunks : List (List UInt8)) : List UInt8 := chunks.flatMap frame ++ be32 0

/-- The chunks up to the length zero, and what is behind it. Nothing comes of a stream that is cut. -/
def decode : List UInt8 → Option (List (List UInt8) × List UInt8)
  | a :: b :: c :: d :: bytes =>
    if readBe32 a b c d = 0 then some ([], bytes)
    else if bytes.length < readBe32 a b c d then none
    else
      (decode (bytes.drop (readBe32 a b c d))).map fun decoded => (bytes.take (readBe32 a b c d) :: decoded.1, decoded.2)
  | _ => none
termination_by bytes => bytes.length
decreasing_by
  generalize readBe32 a b c d = n
  simp only [List.length_drop, List.length_cons]
  omega

/-- A length of zero ends the stream. -/
theorem decode_end (rest : List UInt8) : decode (be32 0 ++ rest) = some ([], rest) := by
  have hzero : readBe32 0 0 0 0 = 0 := rfl
  show decode (0 :: 0 :: 0 :: 0 :: rest) = _
  rw [decode, if_pos hzero]

/-- A chunk that is not empty is read, and the stream goes on behind it. -/
theorem decode_frame {chunk : List UInt8} (hpos : 0 < chunk.length) (hlt : chunk.length < 2 ^ 32)
    (rest : List UInt8) :
    decode (frame chunk ++ rest) = (decode rest).map fun decoded => (chunk :: decoded.1, decoded.2) := by
  have hread := readBe32_be32 hlt
  show decode (_ :: _ :: _ :: _ :: (chunk ++ rest)) = _
  rw [decode, hread, if_neg (by omega), List.drop_left, List.take_left]
  rw [if_neg]
  rw [List.length_append]
  omega

/-- **The chunks come back**, and with them all that is behind the stream. -/
theorem decode_encode {chunks : List (List UInt8)} (h : ∀ chunk ∈ chunks, 0 < chunk.length ∧ chunk.length < 2 ^ 32)
    (rest : List UInt8) : decode (encode chunks ++ rest) = some (chunks, rest) := by
  induction chunks with
  | nil => exact decode_end rest
  | cons chunk chunks ih =>
    obtain ⟨hpos, hlt⟩ := h chunk List.mem_cons_self
    have hrest := ih fun other hother => h other (List.mem_cons_of_mem _ hother)
    have hcons : encode (chunk :: chunks) ++ rest = frame chunk ++ (encode chunks ++ rest) := by
      rw [encode, encode, List.flatMap_cons, List.append_assoc, List.append_assoc, List.append_assoc]
    rw [hcons, decode_frame hpos hlt, hrest]
    rfl

end AcaSocial.LengthPrefix
