import Telemetry.Adler32
import Telemetry.Zlib.Compressor

/-!
# Stored blocks

The simplest of all compressors (`Compressor.stored`): it keeps the content as it is, in blocks of at most 65535
bytes, which every reader accepts and which keeps the inverse law short. The compression level is recorded in the
header, as the class of effort it stands for.

## Reading them back

A stream of stored blocks is read a whole byte at a time but for the three bits at the head of each block:
`readBlocks_storedBlocks` goes block by block, and a block always ends where a byte does. How far a reader looks ahead
does not matter, since there is no fault to be met.
-/

namespace Telemetry.Adler32

theorem Sums.add_lt (s : Sums) (b : UInt8) : (s.add b).low < 65521 ∧ (s.add b).high < 65521 :=
  ⟨Nat.mod_lt _ (by decide), Nat.mod_lt _ (by decide)⟩

/-- Both sums stay below their modulus. -/
theorem Sums.foldl_add_lt (bytes : Bytes) {s : Sums} (hlow : s.low < 65521) (hhigh : s.high < 65521) :
    (bytes.foldl Sums.add s).low < 65521 ∧ (bytes.foldl Sums.add s).high < 65521 := by
  induction bytes generalizing s with
  | nil => exact ⟨hlow, hhigh⟩
  | cons b bytes ih =>
    obtain ⟨hlow', hhigh'⟩ := s.add_lt b
    exact ih hlow' hhigh'

/-- The check of a stream fits four bytes. -/
theorem checksum_lt (bytes : Bytes) : checksum bytes < Bytes.bound 4 := by
  obtain ⟨hlow, hhigh⟩ := Sums.foldl_add_lt bytes (s := Sums.start) (by decide) (by decide)
  have hbound : Bytes.bound 4 = 4294967296 := rfl
  rw [checksum, Sums.value, hbound]
  omega

end Telemetry.Adler32

namespace Telemetry.Zlib

/-- The most bytes a stored block holds. -/
def maxStored : Nat := 65535

/-- The class of effort of a level from 0 to 9, as the header records it. -/
def effort (level : Nat) : Nat :=
  if level ≤ 1 then 0 else if level ≤ 5 then 1 else if level = 6 then 2 else 3

/-- The two header bytes: deflate with a window of 32 KiB, the effort, and what makes the whole a
multiple of 31. -/
def header (level : Nat) : Bytes :=
  let flags := 64 * effort level
  [0x78, UInt8.ofNat (flags + (31 - (0x78 * 256 + flags) % 31))]

/-- A stored block. -/
def storedBlock (last : Bool) (content : Bytes) : Bytes :=
  (if last then 1 else 0) :: Bytes.ofNat 2 content.length ++
    Bytes.ofNat 2 (maxStored - content.length) ++ content

/-- The content as stored blocks; `more` bounds how many precede the last. -/
def storedBlocks : (more : Nat) → Bytes → Bytes
  | 0, content => storedBlock true content
  | more + 1, content =>
    if content.length ≤ maxStored then storedBlock true content
    else storedBlock false (content.take maxStored) ++ storedBlocks more (content.drop maxStored)

/-- A zlib stream that inflates to the content. -/
def deflate (level : Nat) (content : Bytes) : Bytes :=
  header level ++ storedBlocks (content.length / maxStored) content ++
    (Bytes.ofNat 4 (Adler32.checksum content)).reverse

/-! ## Blocks -/

/-- The head of a stored block: whether it is the last, and the kind. -/
theorem readHead_stored (last : Bool) (rest : Bytes) :
    readHead ⟨[], (if last then 1 else 0) :: rest⟩ =
      .ok ((last, 0), ⟨List.replicate 5 false, rest⟩) := by
  cases last <;> rfl

/-- A length comes back with its complement. -/
theorem readStoredLength_ofNat {length : Nat} (h : length ≤ maxStored) (pending : List Bool)
    (rest : Bytes) :
    readStoredLength ⟨pending, Bytes.ofNat 2 length ++ (Bytes.ofNat 2 (maxStored - length) ++ rest)⟩ =
      .ok (length, ⟨[], rest⟩) := by
  have hsplit : Bytes.split? 4
      (Bytes.ofNat 2 length ++ (Bytes.ofNat 2 (maxStored - length) ++ rest)) =
        some (Bytes.ofNat 2 length ++ Bytes.ofNat 2 (maxStored - length), rest) := by
    rw [Bytes.split?_eq_some_iff]
    simp
  have hlow : Bytes.toNat (Bytes.ofNat 2 length) = length :=
    Bytes.toNat_ofNat_of_lt (Nat.lt_of_le_of_lt h (by decide))
  have hhigh : Bytes.toNat (Bytes.ofNat 2 (maxStored - length)) = maxStored - length :=
    Bytes.toNat_ofNat_of_lt (Nat.lt_of_le_of_lt (Nat.sub_le _ _) (by decide))
  have hfront : (Bytes.ofNat 2 length ++ Bytes.ofNat 2 (maxStored - length)).take 2 =
      Bytes.ofNat 2 length := List.take_left' (by simp)
  have hback : (Bytes.ofNat 2 length ++ Bytes.ofNat 2 (maxStored - length)).drop 2 =
      Bytes.ofNat 2 (maxStored - length) := List.drop_left' (by simp)
  simp only [readStoredLength, Bits.bytes, hsplit, bind, Except.bind, hfront, hback, hlow, hhigh]
  rw [if_pos]
  simp only [maxStored] at h ⊢
  omega

/-- The content of a stored block. -/
theorem readContent_stored {content : Bytes} (h : content.length ≤ maxStored) (pending : List Bool)
    (rest : Bytes) (out : Array UInt8) :
    readContent 0 ⟨pending, Bytes.ofNat 2 content.length ++
        (Bytes.ofNat 2 (maxStored - content.length) ++ (content ++ rest))⟩ out =
      (out ++ content, .ok ⟨[], rest⟩) := by
  simp only [readContent, readStoredLength_ofNat h, readStored]
  simp [Bits.bytes]

/-- One stored block, with what follows it. -/
theorem readBlocks_storedBlock {content : Bytes} (h : content.length ≤ maxStored) (last : Bool)
    (bound : Nat) (rest : Bytes) (out : Array UInt8) :
    readBlocks (bound + 1) ⟨[], storedBlock last content ++ rest⟩ out =
      if last then (out ++ content, .ok ⟨[], rest⟩)
      else readBlocks bound ⟨[], rest⟩ (out ++ content) := by
  simp only [storedBlock, List.cons_append, List.append_assoc, readBlocks, readHead_stored,
    readContent_stored h]

/-- Stored blocks give back their content, up to the block that is marked as the last. -/
theorem readBlocks_storedBlocks {more bound : Nat} {content : Bytes}
    (hlen : content.length ≤ (more + 1) * maxStored) (hbound : more < bound) (rest : Bytes)
    (out : Array UInt8) :
    readBlocks bound ⟨[], storedBlocks more content ++ rest⟩ out =
      (out ++ content, .ok ⟨[], rest⟩) := by
  induction more generalizing bound content out with
  | zero =>
    obtain ⟨bound, rfl⟩ : ∃ b, bound = b + 1 := ⟨bound - 1, by omega⟩
    rw [storedBlocks, readBlocks_storedBlock (by omega), if_pos rfl]
  | succ more ih =>
    obtain ⟨bound, rfl⟩ : ∃ b, bound = b + 1 := ⟨bound - 1, by omega⟩
    rw [storedBlocks]
    split
    next hshort => rw [readBlocks_storedBlock hshort, if_pos rfl]
    next hlong =>
      -- the front fills a block, and what is behind it needs one block less
      have hfront : (content.take maxStored).length ≤ maxStored :=
        List.length_take_le maxStored content
      have hback : (content.drop maxStored).length ≤ (more + 1) * maxStored := by
        rw [List.length_drop]
        rw [Nat.add_mul (more + 1)] at hlen
        omega
      rw [List.append_assoc, readBlocks_storedBlock hfront, if_neg (by decide),
        ih hback (by omega)]
      have hjoin : out ++ content.take maxStored ++ content.drop maxStored = out ++ content := by
        apply Array.toList_inj.mp
        simp
      rw [hjoin]

/-! ## Streams -/

theorem isHeader_header (level : Nat) : ∃ method flags,
    header level = [method, flags] ∧ isHeader method flags = true := by
  refine ⟨_, _, rfl, ?_⟩
  have heffort : effort level = 0 ∨ effort level = 1 ∨ effort level = 2 ∨ effort level = 3 := by
    rw [effort]
    split
    · simp
    · split
      · simp
      · split <;> simp
  rcases heffort with h | h | h | h <;> rw [h] <;> decide

/-- The trailer of a stream agrees with its content. -/
theorem trailerFault?_checksum (content : Bytes) :
    trailerFault? content ⟨[], (Bytes.ofNat 4 (Adler32.checksum content)).reverse⟩ = none := by
  have hsplit := Bytes.split?_append (Bytes.ofNat 4 (Adler32.checksum content)).reverse []
  rw [List.append_nil, List.length_reverse, Bytes.length_ofNat] at hsplit
  simp only [trailerFault?, Bits.bytes, hsplit, List.reverse_reverse]
  rw [if_pos (Bytes.toNat_ofNat_of_lt (Adler32.checksum_lt content))]

/-- Blocks are longer than their content. -/
theorem length_lt_storedBlocks (more : Nat) (content : Bytes) :
    content.length < (storedBlocks more content).length := by
  induction more generalizing content with
  | zero => simp only [storedBlocks, storedBlock, List.length_append, List.length_cons]; omega
  | succ more ih =>
    have hback := ih (content.drop maxStored)
    rw [storedBlocks]
    split <;> simp only [storedBlock, List.length_append, List.length_cons, List.length_take,
      List.length_drop] at hback ⊢ <;> omega

/-- Each block adds five bytes to its content. -/
theorem length_storedBlocks_le (more : Nat) (content : Bytes) :
    (storedBlocks more content).length ≤ content.length + 5 * (more + 1) := by
  induction more generalizing content with
  | zero => simp only [storedBlocks, storedBlock, List.length_append, List.length_cons, Bytes.length_ofNat]; omega
  | succ more ih =>
    have hback := ih (content.drop maxStored)
    rw [storedBlocks]
    split <;> simp only [storedBlock, List.length_append, List.length_cons, List.length_take,
      List.length_drop, Bytes.length_ofNat] at hback ⊢ <;> omega

/-- Inflating gives back what was deflated, without fault. -/
theorem inflate_deflate (level : Nat) (content : Bytes) :
    (inflate (deflate level content)).content = content ∧
      (inflate (deflate level content)).fault? = none := by
  obtain ⟨method, flags, hheader, hvalid⟩ := isHeader_header level
  have hlen : content.length ≤ (content.length / maxStored + 1) * maxStored := by
    have := Nat.lt_div_mul_add (a := content.length) (b := maxStored) (by decide)
    rw [Nat.add_mul]
    omega
  have hmore := length_lt_storedBlocks (content.length / maxStored) content
  have hdiv := Nat.div_le_self content.length maxStored
  have hbound : content.length / maxStored <
      (Bits.ofBytes (storedBlocks (content.length / maxStored) content ++
        (Bytes.ofNat 4 (Adler32.checksum content)).reverse)).length + 1 := by
    simp only [Bits.length, Bits.ofBytes, List.length_append]
    omega
  have hblocks := readBlocks_storedBlocks hlen hbound
    (Bytes.ofNat 4 (Adler32.checksum content)).reverse #[]
  have hempty : (#[] : Array UInt8) ++ content = content.toArray := by simp
  rw [hempty] at hblocks
  simp only [deflate, hheader, List.cons_append, List.nil_append, inflate, hvalid]
  simp only [Bits.ofBytes] at hblocks ⊢
  simp [hblocks, trailerFault?_checksum]

theorem deflates_deflate (level : Nat) (content : Bytes) : Deflates (deflate level content) content where
  content_eq := (inflate_deflate level content).1
  fault?_eq := (inflate_deflate level content).2
  length_le := by
    have hblocks := length_storedBlocks_le (content.length / maxStored) content
    have hmore := Nat.div_mul_le_self content.length maxStored
    simp only [deflate, header, List.length_append, List.length_cons, List.length_nil, List.length_reverse,
      Bytes.length_ofNat]
    rw [maxStored] at hblocks hmore ⊢
    omega

end Telemetry.Zlib

namespace Telemetry

/-- The compressor that stores all content as it is. -/
def Compressor.stored : Compressor :=
  ⟨Zlib.deflate, Zlib.deflates_deflate⟩

end Telemetry
