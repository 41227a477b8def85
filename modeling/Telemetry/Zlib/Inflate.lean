import Telemetry.Adler32
import Telemetry.Zlib.Huffman

/-!
# Inflating a zlib stream

A zlib stream is two header bytes, a sequence of blocks of which the last is marked, and the Adler-32
of the content. A block holds bytes as they are, or symbols of two prefix codes: bytes, the end of the
block, and copies of what was written before, given as a length and a distance. The codes are the fixed
ones or are written at the head of the block.

## Shape of the decoder

Everything read comes off a `Bits`, and what is written goes onto the end of an array, which copies look
back into. Every symbol and every block takes at least one bit, so the number of bits bounds how many
there are; that bound is the first argument of the two loops.

The window behind the first byte counts as filled with zeros, so that a copy may reach back before the
beginning.

What was written before a fault is kept, since a reader that wants no more than a certain number of bytes
may never get as far as the fault. So is the room that there must be for content to get there (`Break`): a
symbol is read whether or not what it says can be written, a byte that stands as it is only when it can.
-/

namespace Telemetry.Zlib

/-! ## Lengths and distances -/

/-- The least length of each length symbol from 257 on, with the number of bits that add to it. -/
def lengthTable : List (Nat × Nat) :=
  [(3, 0), (4, 0), (5, 0), (6, 0), (7, 0), (8, 0), (9, 0), (10, 0), (11, 1), (13, 1), (15, 1),
   (17, 1), (19, 2), (23, 2), (27, 2), (31, 2), (35, 3), (43, 3), (51, 3), (59, 3), (67, 4), (83, 4),
   (99, 4), (115, 4), (131, 5), (163, 5), (195, 5), (227, 5), (258, 0)]

/-- The least distance of each distance symbol, with the number of bits that add to it. -/
def distanceTable : List (Nat × Nat) :=
  [(1, 0), (2, 0), (3, 0), (4, 0), (5, 1), (7, 1), (9, 2), (13, 2), (17, 3), (25, 3), (33, 4),
   (49, 4), (65, 5), (97, 5), (129, 6), (193, 6), (257, 7), (385, 7), (513, 8), (769, 8), (1025, 9),
   (1537, 9), (2049, 10), (3073, 10), (4097, 11), (6145, 11), (8193, 12), (12289, 12), (16385, 13),
   (24577, 13)]

/-- The number an entry of a table stands for, its extra bits taken from the stream. -/
def readEntry (table : List (Nat × Nat)) (index : Nat) (bits : Bits) :
    Except StreamFault (Nat × Bits) :=
  match table[index]? with
  | none => .error .corrupt
  | some (least, extra) => do
    let (more, bits) ← bits.number extra
    .ok (least + more, bits)

/-- The output with `length` bytes copied from `distance` bytes back, one after the other, so that a
copy may read what it has itself written. -/
def copyBack (distance : Nat) : (length : Nat) → Array UInt8 → Array UInt8
  | 0, out => out
  | length + 1, out =>
    let b := if distance ≤ out.size then out.getD (out.size - distance) 0 else 0
    copyBack distance length (out.push b)

/-! ## Symbols -/

/-- What one symbol of a block says: a byte, the end of the block, or a copy of what was written before. -/
inductive Step where
  | byte (b : UInt8)
  | stop
  | copy (length distance : Nat)

/-- The symbol that ends a block. -/
def endOfBlock : Nat := 256

/-- The next symbol, with the distance that belongs to it if it is a length. -/
def readStep (symbols distances : CodeTree) (bits : Bits) : Except StreamFault (Step × Bits) := do
  let (s, bits) ← symbols.read bits
  if s < endOfBlock then .ok (.byte (UInt8.ofNat s), bits)
  else if s = endOfBlock then .ok (.stop, bits)
  else
    let (length, bits) ← readEntry lengthTable (s - 257) bits
    let (d, bits) ← distances.read bits
    let (distance, bits) ← readEntry distanceTable d bits
    .ok (.copy length distance, bits)

/-- Why nothing more can be read, and how much content there must be room for to get this far. -/
structure Break where
  fault : StreamFault
  room : Nat

/-- What has been written, and what is left to read or why nothing more can be. -/
abbrev Written := Array UInt8 × Except Break Bits

/-- The content of a block, up to its end. -/
def readSymbols (symbols distances : CodeTree) : (bound : Nat) → Bits → Array UInt8 → Written
  | 0, _, out => (out, .error ⟨.incomplete, out.size⟩)
  | bound + 1, bits, out =>
    match readStep symbols distances bits with
    | .error fault => (out, .error ⟨fault, out.size⟩)
    | .ok (.byte b, bits) => readSymbols symbols distances bound bits (out.push b)
    | .ok (.stop, bits) => (out, .ok bits)
    | .ok (.copy length distance, bits) =>
      readSymbols symbols distances bound bits (copyBack distance length out)

/-- The word lengths of the fixed code for bytes and lengths. -/
def fixedSymbolLengths : List Nat :=
  List.replicate 144 8 ++ List.replicate 112 9 ++ List.replicate 24 7 ++ List.replicate 8 8

/-- The word lengths of the fixed code for distances. -/
def fixedDistanceLengths : List Nat :=
  List.replicate 32 5

/-! ## Codes at the head of a block -/

/-- The order in which the lengths of the code for lengths are written. -/
def lengthOrder : List Nat :=
  [16, 17, 18, 0, 8, 7, 9, 6, 10, 5, 11, 4, 12, 3, 13, 2, 14, 1, 15]

/-- `count` numbers of three bits. -/
def readTriples : (count : Nat) → Bits → Except StreamFault (List Nat × Bits)
  | 0, bits => .ok ([], bits)
  | count + 1, bits => do
    let (n, bits) ← bits.number 3
    let (rest, bits) ← readTriples count bits
    .ok (n :: rest, bits)

/-- `total` word lengths, written in runs: a length itself, or a repeat of the last one, or a run of
zeros. The lengths read so far come last first; a run may not go beyond the total. -/
def readLengths (code : CodeTree) (total : Nat) :
    (bound : Nat) → (reversed : List Nat) → Bits → Except StreamFault (List Nat × Bits)
  | 0, _, _ => .error .incomplete
  | bound + 1, reversed, bits =>
    if reversed.length = total then .ok (reversed.reverse, bits)
    else if total < reversed.length then .error .corrupt
    else do
      let (s, bits) ← code.read bits
      if s < 16 then readLengths code total bound (s :: reversed) bits
      else if s = 16 then
        match reversed with
        | [] => .error .corrupt
        | last :: _ =>
          let (n, bits) ← bits.number 2
          readLengths code total bound (List.replicate (n + 3) last ++ reversed) bits
      else
        let (n, bits) ← if s = 17 then bits.number 3 else bits.number 7
        let run := if s = 17 then n + 3 else n + 11
        readLengths code total bound (List.replicate run 0 ++ reversed) bits

/-- The two codes written at the head of a block. -/
def readCodes (bits : Bits) : Except StreamFault ((CodeTree × CodeTree) × Bits) := do
  let (n, bits) ← bits.number 5
  let symbolCount := n + 257
  let (n, bits) ← bits.number 5
  let distanceCount := n + 1
  let (n, bits) ← bits.number 4
  -- symbols 286 and 287 and distances 30 and 31 have no meaning
  if 286 < symbolCount ∨ 30 < distanceCount then .error .corrupt
  else
    let (triples, bits) ← readTriples (n + 4) bits
    let written := lengthOrder.zip triples
    let code ← fullCodeTree? ((List.range 19).map fun s => (written.lookup s).getD 0)
    let total := symbolCount + distanceCount
    let (lengths, bits) ← readLengths code total (total + 1) [] bits
    let symbols ← codeTree? (lengths.take symbolCount)
    let distances ← codeTree? (lengths.drop symbolCount)
    .ok ((symbols, distances), bits)

/-! ## Blocks -/

/-- The length of a block of bytes as they are, which is written twice. -/
def readStoredLength (bits : Bits) : Except StreamFault (Nat × Bits) := do
  let (header, bits) ← bits.bytes 4
  let length := Bytes.toNat (header.take 2)
  if length + Bytes.toNat (header.drop 2) = 0xFFFF then .ok (length, bits) else .error .corrupt

/-- The next `length` bytes as they are. The byte that is missing, if one is, would have been read only
with room for it. -/
def readStored (length : Nat) (bits : Bits) (out : Array UInt8) : Written :=
  let out := out ++ bits.rest.take length
  match bits.bytes length with
  | .error fault => (out, .error ⟨fault, out.size + 1⟩)
  | .ok (_, bits) => (out, .ok bits)

/-- The content of a block of the given kind. -/
def readContent (kind : Nat) (bits : Bits) (out : Array UInt8) : Written :=
  let bound := bits.length + 1
  match kind with
  | 0 =>
    match readStoredLength bits with
    | .error fault => (out, .error ⟨fault, out.size⟩)
    | .ok (length, bits) => readStored length bits out
  | 1 => readSymbols (codeTree fixedSymbolLengths) (codeTree fixedDistanceLengths) bound bits out
  | 2 =>
    match readCodes bits with
    | .error fault => (out, .error ⟨fault, out.size⟩)
    | .ok ((symbols, distances), bits) => readSymbols symbols distances bound bits out
  | _ => (out, .error ⟨.corrupt, out.size⟩)

/-- Whether a block is the last, and its kind. -/
def readHead (bits : Bits) : Except StreamFault ((Bool × Nat) × Bits) := do
  let (last, bits) ← bits.next
  let (kind, bits) ← bits.number 2
  .ok ((last, kind), bits)

/-- The blocks up to the last one. -/
def readBlocks : (bound : Nat) → Bits → Array UInt8 → Written
  | 0, _, out => (out, .error ⟨.incomplete, out.size⟩)
  | bound + 1, bits, out =>
    match readHead bits with
    | .error fault => (out, .error ⟨fault, out.size⟩)
    | .ok ((last, kind), bits) =>
      match readContent kind bits out with
      | (out, .error stop) => (out, .error stop)
      | (out, .ok bits) => if last then (out, .ok bits) else readBlocks bound bits out

/-! ## The stream -/

/-- Whether two bytes begin a zlib stream: the method is deflate with a window of at most 32 KiB, there
is no preset dictionary, and the header is a multiple of 31. -/
def isHeader (method flags : UInt8) : Bool :=
  method.toNat % 16 == 8 && method.toNat / 16 ≤ 7 && !flags.toNat.testBit 5 &&
    (method.toNat * 256 + flags.toNat) % 31 == 0

/-- What comes of inflating a stream: the content, as far as it could be had, what is wrong with the stream, and how
much content there must be room for to get as far as the end or the fault. -/
structure Inflation where
  content : Bytes
  fault? : Option StreamFault
  room : Nat
  deriving DecidableEq, Repr

/-- What is wrong with the end of a stream of the given content: its check. -/
def trailerFault? (content : Bytes) (bits : Bits) : Option StreamFault :=
  match bits.bytes 4 with
  | .error fault => some fault
  | .ok (trailer, _) =>
    if Bytes.toNat trailer.reverse = Adler32.checksum content then none else some .corrupt

/-- The content of a zlib stream. Bytes after the stream are ignored. -/
def inflate : Bytes → Inflation
  | method :: flags :: rest =>
    if !isHeader method flags then ⟨[], some .corrupt, 0⟩
    else
      let bits := Bits.ofBytes rest
      match readBlocks (bits.length + 1) bits #[] with
      | (out, .error stop) => ⟨out.toList, some stop.fault, stop.room⟩
      | (out, .ok bits) => ⟨out.toList, trailerFault? out.toList bits, out.size⟩
  | _ => ⟨[], some .incomplete, 0⟩

end Telemetry.Zlib
