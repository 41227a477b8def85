import Telemetry.Zlib.Bits

/-!
# Prefix codes

A code is described by the length of each symbol's word, zero for a symbol that is not used. Words of
one length are consecutive numbers in the order of their symbols, and shorter words come first; that
fixes them all.

A code is held as a binary tree that is walked bit by bit. A code either takes up all words or is one of
two that leave some free: the code without symbols, and the code of one symbol with a word of one bit. A
word that leads into a gap is an error of the stream.
-/

namespace Telemetry.Zlib

/-- A binary tree of code words. No word leads to a gap; a symbol stands at the end of its word, and at a fork the
word goes on with a zero or a one. -/
inductive CodeTree where
  | gap
  | symbol (s : Nat)
  | fork (zero one : CodeTree)
  deriving Inhabited

namespace CodeTree

/-- The tree with a word added; the word is `length` bits long, highest bit first. -/
def insert (word s : Nat) : (length : Nat) → CodeTree → CodeTree
  | 0, _ => .symbol s
  | length + 1, tree =>
    let (zero, one) := match tree with
      | .fork zero one => (zero, one)
      | _ => (.gap, .gap)
    if word.testBit length then .fork zero (insert word s length one)
    else .fork (insert word s length zero) one

/-- The symbol whose word stands at the front of a stream. -/
def read : CodeTree → Bits → Except StreamFault (Nat × Bits)
  | .gap, _ => .error .corrupt
  | .symbol s, bits => .ok (s, bits)
  | .fork zero one, bits => do
    let (bit, bits) ← bits.next
    if bit then one.read bits else zero.read bits

end CodeTree

/-- The longest word of any code. -/
def maxWordLength : Nat := 15

/-- The symbols with words of the given length, in order. -/
def symbolsOfLength (lengths : List Nat) (length : Nat) : List Nat :=
  (lengths.zipIdx.filter fun (l, _) => l = length).map (·.2)

/-- The tree of a code. Words are handed out in order of length, then of symbol: the next word is the
last one plus one, extended by zeros to the new length. -/
def codeTree (lengths : List Nat) : CodeTree :=
  let step (state : Nat × CodeTree) (length : Nat) : Nat × CodeTree :=
    let (word, tree) := state
    (symbolsOfLength lengths length).foldl
      (fun (word, tree) s => (word + 1, tree.insert word s length)) (2 * word, tree)
  (((List.range maxWordLength).map (· + 1)).foldl step (0, .fork .gap .gap)).2

/-- The share of all words of the greatest length that the code takes up, out of
`2 ^ maxWordLength`. -/
def codeSpace (lengths : List Nat) : Nat :=
  (lengths.filter (· ≠ 0)).foldr (fun length space => 1 <<< (maxWordLength - length) + space) 0

/-- Whether the words fill the code space exactly. -/
def isFull (lengths : List Nat) : Bool :=
  codeSpace lengths == 1 <<< maxWordLength

/-- Whether no symbol is used, or one with a word of one bit. -/
def isSparse (lengths : List Nat) : Bool :=
  match lengths.filter (· ≠ 0) with
  | [] => true
  | [length] => length == 1
  | _ => false

/-- The tree of a code that is full or sparse. -/
def codeTree? (lengths : List Nat) : Except StreamFault CodeTree :=
  if isFull lengths || isSparse lengths then .ok (codeTree lengths) else .error .corrupt

/-- The tree of a code that is full. -/
def fullCodeTree? (lengths : List Nat) : Except StreamFault CodeTree :=
  if isFull lengths then .ok (codeTree lengths) else .error .corrupt

end Telemetry.Zlib
