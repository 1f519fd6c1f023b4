/-!
# Inflating

Compressed contents of archive entries: blocks that are stored or coded with two
prefix codes, one for bytes and lengths of copies, the other for distances of
copies. The codes of a block are fixed or given at its start by the lengths of
their words. What was inflated before a fault is kept, since contents that are
cut off count as ended there.
-/

set_option autoImplicit false

namespace Linkage.Archive

/-! ## Bits -/

/-- Why inflating stops before the last block has ended. -/
inductive InflateFault where
  | truncated
  | corrupt
  deriving DecidableEq, Repr

/-- What is left of the input, as the bits of the byte that has been started and
the bytes after it, and the output so far. -/
structure InflateState where
  bits : List Bool
  bytes : List UInt8
  output : Array UInt8

/-- Steps of inflating. The output before a fault stays. -/
abbrev InflateM (α : Type) : Type := ExceptT InflateFault (StateM InflateState) α

/-- Bits of a byte, the lowest one first. -/
def bitsOf (b : UInt8) : List Bool := (List.range 8).map b.toNat.testBit

/-- Next bit. -/
def takeBit : InflateM Bool := fun s =>
  match s with
  | ⟨b :: bits, bytes, output⟩ => (.ok b, ⟨bits, bytes, output⟩)
  | ⟨[], byte :: bytes, output⟩ =>
      match bitsOf byte with
      | b :: bits => (.ok b, ⟨bits, bytes, output⟩)
      | [] => (.error .truncated, ⟨[], bytes, output⟩)
  | ⟨[], [], output⟩ => (.error .truncated, ⟨[], [], output⟩)

/-- Number of the next bits, the lowest one first. -/
def takeBits : Nat → InflateM Nat
  | 0 => return 0
  | count + 1 => do
      let low ← takeBit
      return low.toNat + 2 * (← takeBits count)

/-- Leaves the bits of the byte that has been started. -/
def alignToByte : InflateM Unit := modify fun s => { s with bits := [] }

/-- Adds a byte to the output. -/
def emit (b : UInt8) : InflateM Unit := fun s =>
  match s with
  | ⟨bits, bytes, output⟩ => (.ok (), ⟨bits, bytes, output.push b⟩)

/-- Stops with a fault unless the condition holds. -/
def require (condition : Bool) : InflateM Unit :=
  if condition then return () else throw .corrupt

/-! ## Prefix codes -/

/-- Prefix code: the numbers of words of the lengths from one on, and the symbols
in the order of their words. -/
structure PrefixCode where
  counts : List Nat
  symbols : Array Nat

namespace PrefixCode

/-- Greatest length of a word. -/
def maxLength : Nat := 15

/-- Code in which the symbols from zero on have words of the given lengths; a
symbol of length zero has none. -/
def ofLengths (lengths : List Nat) : PrefixCode :=
  let wordLengths := (List.range maxLength).map (· + 1)
  ⟨wordLengths.map fun n => lengths.count n,
    (wordLengths.flatMap fun n =>
      lengths.zipIdx.filterMap fun entry => if entry.1 = n then some entry.2 else none).toArray⟩

/-- Words that could still be added, in words of the greatest length; none if there
are too many already. -/
def room (c : PrefixCode) : Option Nat :=
  c.counts.foldl (fun room count =>
    room.bind fun room => if count ≤ 2 * room then some (2 * room - count) else none) (some 1)

/-- Whether the words fill the code, or there is at most one word, of length one. -/
def isUsable (c : PrefixCode) : Bool :=
  match c.room with
  | none => false
  | some room => room = 0 || c.symbols.isEmpty || (c.symbols.size = 1 && c.counts.head? = some 1)

/-- Symbol of the next word, given the numbers of words of the lengths to come, the
bits of the word so far, the first word of their length and the number of shorter
words. -/
def symbolAfter (symbols : Array Nat) : List Nat → Nat → Nat → Nat → InflateM Nat
  | [], _, _, _ => throw .corrupt
  | count :: counts, word, first, shorter => do
      let word := 2 * word + (← takeBit).toNat
      let first := 2 * first
      if word < first + count then
        match symbols[shorter + (word - first)]? with
        | some symbol => return symbol
        | none => throw .corrupt
      else symbolAfter symbols counts word (first + count) (shorter + count)

/-- Symbol of the next word. -/
def symbol (c : PrefixCode) : InflateM Nat := symbolAfter c.symbols c.counts 0 0 0

/-- Fixed code of bytes and lengths. -/
def fixedLengths : PrefixCode :=
  ofLengths (List.replicate 144 8 ++ List.replicate 112 9 ++ List.replicate 24 7 ++
    List.replicate 8 8)

/-- Fixed code of distances. -/
def fixedDistances : PrefixCode := ofLengths (List.replicate 32 5)

end PrefixCode

/-! ## Blocks -/

/-- Least lengths of copies with their numbers of further bits, for the symbols
from 257 on. -/
def copyLengths : Array (Nat × Nat) := #[
  (3, 0), (4, 0), (5, 0), (6, 0), (7, 0), (8, 0), (9, 0), (10, 0), (11, 1), (13, 1), (15, 1),
  (17, 1), (19, 2), (23, 2), (27, 2), (31, 2), (35, 3), (43, 3), (51, 3), (59, 3), (67, 4),
  (83, 4), (99, 4), (115, 4), (131, 5), (163, 5), (195, 5), (227, 5), (258, 0)]

/-- Least distances of copies with their numbers of further bits. -/
def copyDistances : Array (Nat × Nat) := #[
  (1, 0), (2, 0), (3, 0), (4, 0), (5, 1), (7, 1), (9, 2), (13, 2), (17, 3), (25, 3), (33, 4),
  (49, 4), (65, 5), (97, 5), (129, 6), (193, 6), (257, 7), (385, 7), (513, 8), (769, 8),
  (1025, 9), (1537, 9), (2049, 10), (3073, 10), (4097, 11), (6145, 11), (8193, 12),
  (12289, 12), (16385, 13), (24577, 13)]

/-- Number that a symbol of a table stands for, with its further bits. -/
def takeExtended (table : Array (Nat × Nat)) (symbol : Nat) : InflateM Nat :=
  match table[symbol]? with
  | some (least, further) => do return least + (← takeBits further)
  | none => throw .corrupt

/-- Repeats the output from a distance back. -/
def copyBack (distance : Nat) : Nat → InflateM Unit
  | 0 => return ()
  | count + 1 => do
      let output := (← get).output
      match output[output.size - distance]? with
      | some b => emit b
      | none => throw .corrupt
      copyBack distance count

/-- Symbols of a block up to its end. The fuel bounds their number; every symbol
takes at least one bit. -/
def inflateSymbols (lengths distances : PrefixCode) : Nat → InflateM Unit
  | 0 => throw .corrupt
  | fuel + 1 => do
      let symbol ← lengths.symbol
      if symbol < 256 then
        emit (UInt8.ofNat symbol)
        inflateSymbols lengths distances fuel
      else if symbol = 256 then return ()
      else
        let count ← takeExtended copyLengths (symbol - 257)
        let distance ← takeExtended copyDistances (← distances.symbol)
        require (distance ≤ (← get).output.size)
        copyBack distance count
        inflateSymbols lengths distances fuel

/-- Bytes of a stored block. -/
def inflateStored : Nat → InflateM Unit
  | 0 => return ()
  | count + 1 => do
      emit (UInt8.ofNat (← takeBits 8))
      inflateStored count

/-- Order in which the lengths of the words for lengths are given. -/
def lengthOrder : List Nat := [16, 17, 18, 0, 8, 7, 9, 6, 10, 5, 11, 4, 12, 3, 13, 2, 14, 1, 15]

/-- Lengths of words, after the lengths that have been read so far, which are held
backwards. The fuel bounds the number of symbols. -/
def takeLengths (code : PrefixCode) (total : Nat) : Nat → List Nat → InflateM (List Nat)
  | 0, _ => throw .corrupt
  | fuel + 1, done =>
      if done.length = total then return done.reverse
      else do
        let symbol ← code.symbol
        if symbol < 16 then takeLengths code total fuel (symbol :: done)
        else
          let value ←
            if symbol = 16 then
              match done with
              | last :: _ => pure last
              | [] => throw .corrupt
            else pure 0
          let count ←
            if symbol = 16 then do pure (3 + (← takeBits 2))
            else if symbol = 17 then do pure (3 + (← takeBits 3))
            else do pure (11 + (← takeBits 7))
          require (done.length + count ≤ total)
          takeLengths code total fuel (List.replicate count value ++ done)

/-- Codes given at the start of a block. -/
def takeCodes : InflateM (PrefixCode × PrefixCode) := do
  let lengthCount := 257 + (← takeBits 5)
  let distanceCount := 1 + (← takeBits 5)
  let orderCount := 4 + (← takeBits 4)
  require (lengthCount ≤ 286 && distanceCount ≤ 30)
  let given ← (lengthOrder.take orderCount).mapM fun symbol => do
    return (symbol, ← takeBits 3)
  let code := PrefixCode.ofLengths ((List.range 19).map fun symbol => (given.lookup symbol).getD 0)
  require (code.room = some 0)
  let total := lengthCount + distanceCount
  let lengths ← takeLengths code total (total + 1) []
  require (lengths[256]? ≠ some 0)
  let byLength := PrefixCode.ofLengths (lengths.take lengthCount)
  let byDistance := PrefixCode.ofLengths (lengths.drop lengthCount)
  require (byLength.isUsable && byDistance.isUsable)
  return (byLength, byDistance)

/-- Blocks up to the last one. The fuel bounds the number of blocks and the number
of symbols in each. -/
def inflateBlocks (symbolFuel : Nat) : Nat → InflateM Unit
  | 0 => throw .corrupt
  | fuel + 1 => do
      let isLast ← takeBit
      match ← takeBits 2 with
      | 0 =>
          alignToByte
          let count ← takeBits 16
          let check ← takeBits 16
          require (count + check = 0xffff)
          inflateStored count
      | 1 => inflateSymbols .fixedLengths .fixedDistances symbolFuel
      | 2 =>
          let (lengths, distances) ← takeCodes
          inflateSymbols lengths distances symbolFuel
      | _ => throw .corrupt
      if isLast then return () else inflateBlocks symbolFuel fuel

/-- Inflated contents, with the fault at which they end, if any. -/
structure Inflated where
  contents : List UInt8
  fault : Option InflateFault

/-- Contents of a list of compressed bytes. Bytes after the last block are ignored. -/
def inflate (bytes : List UInt8) : Inflated :=
  let fuel := 8 * bytes.length + 1
  match (inflateBlocks fuel fuel).run ⟨[], bytes, #[]⟩ with
  | (.ok _, s) => ⟨s.output.toList, none⟩
  | (.error e, s) => ⟨s.output.toList, some e⟩

end Linkage.Archive
