import Linkage.ClassFile.Reader

/-!
# Instructions

Only the instructions that carry an index into the constant pool are told apart;
every other one is an opcode with its operand bytes. An array of code has no
separators, so the number of operand bytes of every instruction has to be known:
it is fixed for most opcodes, `wide` takes it from the opcode that follows, and
the two switches take it from the header of their jump table, which starts at the
next offset that is divisible by four.
-/

set_option autoImplicit false

namespace Linkage

/-- Kinds of method calls. A call through an interface has a count of arguments. -/
inductive InvokeKind where
  | virtual
  | special
  | static
  | interface (count : UInt8)
  deriving DecidableEq, Repr

/-- One instruction. Loads of constants of width one have a short and a long form,
which are not told apart. -/
inductive Instruction where
  | getStatic (index : PoolIndex)
  | putStatic (index : PoolIndex)
  | getField (index : PoolIndex)
  | putField (index : PoolIndex)
  | invoke (kind : InvokeKind) (index : PoolIndex)
  | invokeDynamic (index : PoolIndex)
  | newObject (index : PoolIndex)
  | newArray (index : PoolIndex)
  | checkCast (index : PoolIndex)
  | instanceOf (index : PoolIndex)
  | newMultiArray (index : PoolIndex) (dimensions : UInt8)
  | load (index : PoolIndex)
  | loadWide (index : PoolIndex)
  | other (opcode : UInt8) (operands : List UInt8)
  deriving DecidableEq, Repr

namespace Instruction

/-! ## Encoding -/

open ClassWriter in
/-- Bytes of an instruction. A load is short if its index fits into one byte. -/
def encode : Instruction → List UInt8
  | .getStatic index => 0xb2 :: u16 index
  | .putStatic index => 0xb3 :: u16 index
  | .getField index => 0xb4 :: u16 index
  | .putField index => 0xb5 :: u16 index
  | .invoke .virtual index => 0xb6 :: u16 index
  | .invoke .special index => 0xb7 :: u16 index
  | .invoke .static index => 0xb8 :: u16 index
  | .invoke (.interface count) index => 0xb9 :: u16 index ++ [count, 0]
  | .invokeDynamic index => 0xba :: u16 index ++ [0, 0]
  | .newObject index => 0xbb :: u16 index
  | .newArray index => 0xbd :: u16 index
  | .checkCast index => 0xc0 :: u16 index
  | .instanceOf index => 0xc1 :: u16 index
  | .newMultiArray index dimensions => 0xc5 :: u16 index ++ [dimensions]
  | .load index => if index < 256 then [0x12, index.toUInt8] else 0x13 :: u16 index
  | .loadWide index => 0x14 :: u16 index
  | .other opcode operands => opcode :: operands

/-! ## Number of operand bytes -/

/-- How the number of operand bytes of an opcode is found. -/
inductive OperandLayout where
  | fixed (count : Nat)
  | tableSwitch
  | lookupSwitch
  | wide
  | undefined
  deriving DecidableEq, Repr

/-- Layout of the operands of an opcode. -/
def OperandLayout.of (opcode : UInt8) : OperandLayout :=
  let op := opcode.toNat
  if op ≤ 0x0f then .fixed 0
  else if op = 0x10 then .fixed 1
  else if op = 0x11 then .fixed 2
  else if op = 0x12 then .fixed 1
  else if op ≤ 0x14 then .fixed 2
  else if op ≤ 0x19 then .fixed 1
  else if op ≤ 0x35 then .fixed 0
  else if op ≤ 0x3a then .fixed 1
  else if op ≤ 0x83 then .fixed 0
  else if op = 0x84 then .fixed 2
  else if op ≤ 0x98 then .fixed 0
  else if op ≤ 0xa8 then .fixed 2
  else if op = 0xa9 then .fixed 1
  else if op = 0xaa then .tableSwitch
  else if op = 0xab then .lookupSwitch
  else if op ≤ 0xb1 then .fixed 0
  else if op ≤ 0xb8 then .fixed 2
  else if op ≤ 0xba then .fixed 4
  else if op = 0xbb then .fixed 2
  else if op = 0xbc then .fixed 1
  else if op = 0xbd then .fixed 2
  else if op ≤ 0xbf then .fixed 0
  else if op ≤ 0xc1 then .fixed 2
  else if op ≤ 0xc3 then .fixed 0
  else if op = 0xc4 then .wide
  else if op = 0xc5 then .fixed 3
  else if op ≤ 0xc7 then .fixed 2
  else if op ≤ 0xc9 then .fixed 4
  else .undefined

/-- Bytes between the opcode of a switch at the given offset and its jump table. -/
def switchPadding (offset : Nat) : Nat := (4 - (offset + 1) % 4) % 4

/-- Signed number in the four bytes from a position on, if they are there. -/
def wordAt? (bs : List UInt8) (position : Nat) : Option Int :=
  let word := (bs.drop position).take 4
  if word.length = 4 then some (Int.bmod (ofBigEndian word) 0x100000000) else none

/-- Number of operand bytes of the instruction at an offset, given all bytes after
its opcode. A jump table with a negative number of entries counts as cut off. -/
def operandCount (offset : Nat) (opcode : UInt8) (following : List UInt8) :
    Except ClassError Nat :=
  let padding := switchPadding offset
  match OperandLayout.of opcode with
  | .fixed count => .ok count
  | .tableSwitch =>
      match wordAt? following (padding + 4), wordAt? following (padding + 8) with
      | some low, some high =>
          if high - low + 1 < 0 then .error (.truncatedCode offset)
          else .ok (padding + 12 + 4 * (high - low + 1).toNat)
      | _, _ => .error (.truncatedCode offset)
  | .lookupSwitch =>
      match wordAt? following (padding + 4) with
      | some pairs =>
          if pairs < 0 then .error (.truncatedCode offset)
          else .ok (padding + 8 + 8 * pairs.toNat)
      | none => .error (.truncatedCode offset)
  | .wide =>
      match following with
      | [] => .error (.truncatedCode offset)
      | widened :: _ => .ok (if widened = 0x84 then 5 else 3)
  | .undefined => .error (.unknownOpcode opcode offset)

/-! ## Decoding -/

/-- Index in two bytes. -/
def indexOf (high low : UInt8) : PoolIndex := UInt16.ofNat (256 * high.toNat + low.toNat)

/-- Instruction of an opcode with all of its operand bytes. -/
def ofOperands (opcode : UInt8) (operands : List UInt8) : Instruction :=
  match opcode.toNat, operands with
  | 0x12, [index] => .load index.toUInt16
  | 0x13, [high, low] => .load (indexOf high low)
  | 0x14, [high, low] => .loadWide (indexOf high low)
  | 0xb2, [high, low] => .getStatic (indexOf high low)
  | 0xb3, [high, low] => .putStatic (indexOf high low)
  | 0xb4, [high, low] => .getField (indexOf high low)
  | 0xb5, [high, low] => .putField (indexOf high low)
  | 0xb6, [high, low] => .invoke .virtual (indexOf high low)
  | 0xb7, [high, low] => .invoke .special (indexOf high low)
  | 0xb8, [high, low] => .invoke .static (indexOf high low)
  | 0xb9, [high, low, count, _] => .invoke (.interface count) (indexOf high low)
  | 0xba, [high, low, _, _] => .invokeDynamic (indexOf high low)
  | 0xbb, [high, low] => .newObject (indexOf high low)
  | 0xbd, [high, low] => .newArray (indexOf high low)
  | 0xc0, [high, low] => .checkCast (indexOf high low)
  | 0xc1, [high, low] => .instanceOf (indexOf high low)
  | 0xc5, [high, low, dimensions] => .newMultiArray (indexOf high low) dimensions
  | _, _ => .other opcode operands

/-- Instruction at an offset, with the number of its operand bytes. -/
def decode (offset : Nat) (opcode : UInt8) (following : List UInt8) :
    Except ClassError (Instruction × Nat) := do
  let count ← operandCount offset opcode following
  let operands := following.take count
  if operands.length < count then throw (.truncatedCode offset)
  return (ofOperands opcode operands, count)

end Instruction

/-! ## Arrays of code -/

/-- Instructions of an array of code with their offsets, and the fault at which
decoding ended, if any. -/
structure Disassembly where
  instructions : List (Nat × Instruction)
  fault : Option ClassError
  deriving DecidableEq, Repr

namespace Disassembly

/-- Decodes the code from an offset on, after the instructions that have been
decoded so far, which are held backwards. -/
def resume (offset : Nat) (done : List (Nat × Instruction)) : List UInt8 → Disassembly
  | [] => ⟨done.reverse, none⟩
  | opcode :: following =>
      match Instruction.decode offset opcode following with
      | .error e => ⟨done.reverse, some e⟩
      | .ok (instruction, count) =>
          resume (offset + 1 + count) ((offset, instruction) :: done) (following.drop count)
termination_by code => code.length
decreasing_by
  simp only [List.length_drop, List.length_cons]
  omega

/-- Instructions of an array of code. -/
def ofCode (code : List UInt8) : Disassembly := resume 0 [] code

end Disassembly

/-- Array of code of a list of instructions. -/
def Instruction.assemble (instructions : List Instruction) : List UInt8 :=
  instructions.flatMap Instruction.encode

end Linkage
