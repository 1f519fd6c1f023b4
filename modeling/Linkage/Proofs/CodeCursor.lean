import Linkage.Proofs.Tiling

/-!
# A cursor over code in words

Decoding takes positions and lengths from the bytes of the code. On a machine they are words of 64
bits, and the code is an array that must not be left. This module reads the code that way, with every
operation checked:

* `CodeCursor.Step`: a step is trapped by a number that is no word or by bytes outside the array, or it
  finds the code faulty, or it has a value.
* `CodeCursor.next`: a cursor that gives one item at a call; `CodeCursor.Emits`: all of its items.
* `CodeCursor.decode_eq`: an instruction is read without a trap, as it is decoded.
* `Disassembly.ofCode_tiles`: the main result. The cursor comes to an end without a trap on all bytes,
  with as many items as the code is long at most, and the items lie in the code like tiles.
-/

set_option autoImplicit false

namespace Linkage

open Fallible

/-! ## Checked operations -/

namespace CodeCursor

/-- What stops a machine: a number that does not fit into a word, or bytes that are not in the array. -/
inductive Trap where
  | overflow
  | outside
  deriving DecidableEq, Repr

/-- A step that can be trapped, and that can find the code faulty. -/
abbrev Step (α : Type) : Type := ExceptT ClassError (Except Trap) α

/-- Item of a cursor: an instruction with its offset, or a fault. -/
abbrev Item : Type := Except ClassError (Nat × Instruction)

/-- Words with a sign are below this number, and words without one are below its double. No array is so
long that its length is not a word with a sign. -/
def signedLimit : Nat := 0x8000000000000000

/-- Number as a word without a sign. -/
def word (n : Nat) : Except Trap Nat := if n < 2 * signedLimit then .ok n else .error .overflow

/-- Number as a word with a sign. -/
def signed (n : Int) : Except Trap Int :=
  if -signedLimit ≤ n ∧ n < signedLimit then .ok n else .error .overflow

/-- Difference of two words. -/
def minus (a b : Nat) : Except Trap Nat := if b ≤ a then .ok (a - b) else .error .overflow

/-- The bytes of an array from a position up to another one. -/
def slice (code : List UInt8) (start stop : Nat) : Except Trap (List UInt8) :=
  if start ≤ stop ∧ stop ≤ code.length then .ok ((code.drop start).take (stop - start))
  else .error .outside

/-! ## Reading an instruction -/

variable (code : List UInt8) (offset : Nat)

/-- Byte at a position. Beyond the end, the instruction at the offset is cut off. -/
def byteAt (position : Nat) : Step UInt8 :=
  match code[position]? with
  | some byte => pure byte
  | none => throw (.truncatedCode offset)

/-- Signed number in the four bytes from a position on. -/
def signedAt (position : Nat) : Step Int := do
  let first ← byteAt code offset position
  let second ← byteAt code offset (← word (position + 1))
  let third ← byteAt code offset (← word (position + 2))
  let fourth ← byteAt code offset (← word (position + 3))
  return signedWord [first, second, third, fourth]

/-- Bytes between the opcode of a switch at the offset and its jump table. -/
def paddingAt : Step Nat := do
  let next ← word (offset + 1)
  let missing ← minus 4 (next % 4)
  return missing % 4

/-- Number of operand bytes of an opcode at the offset. -/
def operandCount (opcode : UInt8) : Step Nat :=
  match Instruction.OperandLayout.of opcode with
  | .fixed count => pure count
  | .tableSwitch => do
      let padding ← paddingAt offset
      let table ← word ((← word (offset + 1)) + padding)
      let low ← signedAt code offset (← word (table + 4))
      let high ← signedAt code offset (← word (table + 8))
      let entries ← signed ((← signed (high - low)) + 1)
      if entries < 0 then throw (.truncatedCode offset)
      word ((← word (padding + 12)) + (← word (4 * entries.toNat)))
  | .lookupSwitch => do
      let padding ← paddingAt offset
      let table ← word ((← word (offset + 1)) + padding)
      let pairs ← signedAt code offset (← word (table + 4))
      if pairs < 0 then throw (.truncatedCode offset)
      word ((← word (padding + 8)) + (← word (8 * pairs.toNat)))
  | .wide => do
      let widened ← byteAt code offset (← word (offset + 1))
      return if widened = 0x84 then 5 else 3
  | .undefined => throw (.unknownOpcode opcode offset)

/-- Instruction at the offset with its length. All of its bytes are taken from the array at once. -/
def decode : Step (Instruction × Nat) := do
  let opcode ← byteAt code offset offset
  let count ← operandCount code offset opcode
  let last ← word (offset + count)
  if code.length ≤ last then throw (.truncatedCode offset)
  let start ← word (offset + 1)
  let operands ← slice code start (← word (start + count))
  return (Instruction.ofOperands opcode operands, ← word (1 + count))

/-! ## No trap -/

variable {code offset} {position n count : Nat} {opcode : UInt8} {following : List UInt8}

theorem liftM_word (hn : n < 2 * signedLimit) : (liftM (word n) : Step Nat) = pure n := by
  rw [word, if_pos hn]
  rfl

theorem liftM_signed {n : Int} (hlow : -signedLimit ≤ n) (hhigh : n < signedLimit) :
    (liftM (signed n) : Step Int) = pure n := by
  rw [signed, if_pos ⟨hlow, hhigh⟩]
  rfl

theorem liftM_minus {a b : Nat} (h : b ≤ a) : (liftM (minus a b) : Step Nat) = pure (a - b) := by
  rw [minus, if_pos h]
  rfl

/-- Reading a byte depends on what the code holds from the position on. -/
theorem byteAt_eq (code : List UInt8) (offset position : Nat) :
    byteAt code offset position =
      match code.drop position with
      | [] => throw (.truncatedCode offset)
      | byte :: _ => pure byte := by
  rw [byteAt, ← List.head?_drop]
  cases code.drop position <;> rfl

/-- The four bytes of a number are read one after the other. -/
theorem signedAt_eq (hposition : position + 3 < 2 * signedLimit) :
    signedAt code offset position =
      match Instruction.wordAt? code position with
      | some n => pure n
      | none => throw (.truncatedCode offset) := by
  have hdrop : ∀ k, code.drop (position + k) = (code.drop position).drop k := fun k =>
    List.drop_drop.symm
  have hword : ∀ k < 4, (liftM (word (position + k)) : Step Nat) = pure (position + k) :=
    fun k hk => liftM_word (by omega)
  simp only [signedAt, hword 1 (by decide), hword 2 (by decide), hword 3 (by decide), pure_bind,
    byteAt_eq, hdrop, Instruction.wordAt?]
  rcases code.drop position with _ | ⟨a, _ | ⟨b, _ | ⟨c, _ | ⟨d, rest⟩⟩⟩⟩
  · rfl
  · rfl
  · rfl
  · rfl
  · simp [signedWord, BitVec.toInt_ofNat']

theorem paddingAt_eq (hoffset : offset + 1 < 2 * signedLimit) :
    paddingAt offset = pure (Instruction.switchPadding offset) := by
  rw [paddingAt, liftM_word hoffset, pure_bind, liftM_minus (by omega), pure_bind]
  rfl

/-- Signed numbers in the code have 32 bits. -/
theorem bounds_of_wordAt? {n : Int} (h : Instruction.wordAt? code position = some n) :
    -0x80000000 ≤ n ∧ n < 0x80000000 := by
  rw [Instruction.wordAt?] at h
  split at h
  · rw [← Option.some.inj h]
    have hlow := Int.le_bmod (x := ofBigEndian ((code.drop position).take 4)) (m := 0x100000000)
      (by decide)
    have hhigh := Int.bmod_lt (x := ofBigEndian ((code.drop position).take 4)) (m := 0x100000000)
      (by decide)
    omega
  · cases h

/-- The number of operand bytes is counted without a trap. -/
theorem operandCount_eq (hsize : code.length < signedLimit)
    (hcode : code.drop offset = opcode :: following) :
    (operandCount code offset opcode).run =
      .ok (Instruction.operandCount offset opcode following) := by
  have hlimit : signedLimit = 0x8000000000000000 := rfl
  have hoffset : offset < code.length := by
    by_contra hge
    rw [List.drop_eq_nil_of_le (by omega)] at hcode
    cases hcode
  have hbehind : code.drop (offset + 1) = following := by
    rw [← List.drop_drop, hcode]
    rfl
  have hpadding : Instruction.switchPadding offset < 4 := Nat.mod_lt _ (by decide)
  have hword : ∀ position, Instruction.wordAt? following position =
      Instruction.wordAt? code (offset + 1 + position) := by
    intro position
    rw [Instruction.wordAt?, Instruction.wordAt?, ← hbehind, List.drop_drop]
  cases hlayout : Instruction.OperandLayout.of opcode with
  | fixed n => simp only [operandCount, Instruction.operandCount, hlayout]; rfl
  | undefined => simp only [operandCount, Instruction.operandCount, hlayout]; rfl
  | wide =>
      simp (disch := omega) only [operandCount, Instruction.operandCount, hlayout, liftM_word,
        pure_bind, byteAt_eq, hbehind]
      cases following with
      | nil => rfl
      | cons widened _ => rfl
  | tableSwitch =>
      simp (disch := omega) only [operandCount, Instruction.operandCount, hlayout, hword, paddingAt_eq,
        liftM_word, pure_bind, signedAt_eq, ← Nat.add_assoc]
      cases hlow : Instruction.wordAt? code (offset + 1 + Instruction.switchPadding offset + 4) with
      | none => rfl
      | some low =>
          cases hhigh : Instruction.wordAt? code (offset + 1 + Instruction.switchPadding offset + 8) with
          | none => rfl
          | some high =>
              -- the difference of two numbers of 32 bits, and four times as much, are words
              have hlowBounds := bounds_of_wordAt? hlow
              have hhighBounds := bounds_of_wordAt? hhigh
              simp (disch := omega) only [liftM_signed, pure_bind]
              split
              · rfl
              · simp (disch := omega) only [liftM_word, pure_bind]
                rfl
  | lookupSwitch =>
      simp (disch := omega) only [operandCount, Instruction.operandCount, hlayout, hword, paddingAt_eq,
        liftM_word, pure_bind, signedAt_eq, ← Nat.add_assoc]
      cases hpairs : Instruction.wordAt? code (offset + 1 + Instruction.switchPadding offset + 4) with
      | none => rfl
      | some pairs =>
          have hpairsBounds := bounds_of_wordAt? hpairs
          simp only [pure_bind]
          split
          · rfl
          · simp (disch := omega) only [liftM_word, pure_bind]
            rfl

/-- Operands whose number depends on the opcode alone are few. -/
theorem le_of_layout_fixed (h : Instruction.OperandLayout.of opcode = .fixed n) : n ≤ 4 := by
  have hlayouts : Instruction.OperandLayout.of opcode ∈
      [.fixed 0, .fixed 1, .fixed 2, .fixed 3, .fixed 4, .tableSwitch, .lookupSwitch, .wide,
        .undefined] :=
    Instruction.forall_opcode (p := (Instruction.OperandLayout.of · ∈ _)) (by decide +kernel) opcode
  rw [h] at hlayouts
  simp only [List.mem_cons, Instruction.OperandLayout.fixed.injEq, reduceCtorEq, List.not_mem_nil,
    or_false] at hlayouts
  omega

/-- No instruction is longer than the longest jump table. -/
theorem operandCount_lt (h : Instruction.operandCount offset opcode following = .ok count) :
    count < 0x800000000 := by
  have hpadding : Instruction.switchPadding offset < 4 := Nat.mod_lt _ (by decide)
  cases hlayout : Instruction.OperandLayout.of opcode with
  | undefined =>
      simp only [Instruction.operandCount, hlayout] at h
      cases h
  | fixed n =>
      simp only [Instruction.operandCount, hlayout] at h
      cases h
      have hfew := le_of_layout_fixed hlayout
      omega
  | wide =>
      simp only [Instruction.operandCount, hlayout] at h
      split at h
      · cases h
      · cases h
        split <;> decide
  | tableSwitch =>
      simp only [Instruction.operandCount, hlayout] at h
      split at h
      · rename_i low high hlow hhigh
        have hlowBounds := bounds_of_wordAt? hlow
        have hhighBounds := bounds_of_wordAt? hhigh
        split at h
        · cases h
        · cases h
          omega
      · cases h
  | lookupSwitch =>
      simp only [Instruction.operandCount, hlayout] at h
      split at h
      · rename_i pairs hpairs
        have hpairsBounds := bounds_of_wordAt? hpairs
        split at h
        · cases h
        · cases h
          omega
      · cases h

theorem liftM_slice {start stop : Nat} (hstart : start ≤ stop) (hstop : stop ≤ code.length) :
    (liftM (slice code start stop) : Step (List UInt8)) =
      pure ((code.drop start).take (stop - start)) := by
  rw [slice, if_pos ⟨hstart, hstop⟩]
  rfl

/-- An instruction is read without a trap, as it is decoded. -/
theorem decode_eq (hsize : code.length < signedLimit)
    (hcode : code.drop offset = opcode :: following) :
    (decode code offset).run =
      .ok ((Instruction.decode offset opcode following).map fun p => (p.1, 1 + p.2)) := by
  have hlimit : signedLimit = 0x8000000000000000 := rfl
  have hlength : code.length = offset + (following.length + 1) := by
    have hdrop := congrArg List.length hcode
    rw [List.length_drop, List.length_cons] at hdrop
    omega
  have hbehind : code.drop (offset + 1) = following := by
    rw [← List.drop_drop, hcode]
    rfl
  rw [decode, byteAt_eq, hcode, pure_bind]
  cases hcount : Instruction.operandCount offset opcode following with
  | error e =>
      have hrun : operandCount code offset opcode = throw e :=
        (operandCount_eq hsize hcode).trans (congrArg Except.ok hcount)
      rw [hrun, Instruction.decode, hcount]
      rfl
  | ok count =>
      have hrun : operandCount code offset opcode = pure count :=
        (operandCount_eq hsize hcode).trans (congrArg Except.ok hcount)
      -- the count is added to an offset in the array, which leaves it far below the limit of words
      have hlt := operandCount_lt hcount
      rw [hrun, pure_bind, liftM_word (by omega), pure_bind]
      by_cases hthere : count ≤ following.length
      · have hdecode := Instruction.decode_eq_ok_iff.2 ⟨hcount, hthere, rfl⟩
        rw [if_neg (by omega), hdecode]
        simp (disch := omega) only [liftM_word, liftM_slice, pure_bind, hbehind,
          Nat.add_sub_cancel_left]
        rfl
      · have hshort : (following.take count).length < count := by
          rw [List.length_take]
          omega
        have hdecode : Instruction.decode offset opcode following = .error (.truncatedCode offset) := by
          rw [Instruction.decode, hcount]
          exact if_pos hshort
        rw [if_pos (by omega), hdecode]
        rfl

/-! ## The cursor -/

/-- One call of a cursor at an offset: an item and the offset for the next call, or none at the end of
the code. Behind a fault the cursor stands at the end. -/
def next (code : List UInt8) (offset : Nat) : Except Trap (Option (Item × Nat)) :=
  if code.length ≤ offset then .ok none
  else
    match (decode code offset).run with
    | .error trap => .error trap
    | .ok (.error e) => .ok (some (.error e, code.length))
    | .ok (.ok (i, length)) => do return some (.ok (offset, i), ← word (offset + length))

/-- The cursor gives the items, one at a call from the offset on, comes to its end after them, and is not
trapped. -/
inductive Emits (code : List UInt8) : Nat → List Item → Prop
  | done {offset : Nat} : next code offset = .ok none → Emits code offset []
  | item {offset after : Nat} {x : Item} {xs : List Item} : next code offset = .ok (some (x, after)) →
      Emits code after xs → Emits code offset (x :: xs)

variable {blocks : List (List UInt8)} {is : List (Nat × Instruction)} {rest : List UInt8}
  {fault : Option ClassError}

theorem next_of_end (h : code.length ≤ offset) : next code offset = .ok none := if_pos h

/-- The cursor gives an instruction and goes on behind its bytes. -/
theorem next_of_spells {block : List UInt8} {i : Instruction} (hsize : code.length < signedLimit)
    (hspells : Instruction.Spells offset block i) (hcode : code.drop offset = block ++ rest) :
    next code offset = .ok (some (.ok (offset, i), offset + block.length)) := by
  have hlimit : signedLimit = 0x8000000000000000 := rfl
  have hlength := congrArg List.length hcode
  cases hspells with
  | @intro opcode operands htakes =>
      rw [List.length_drop, List.length_append, List.length_cons] at hlength
      have hdecode := Instruction.decode_eq_ok_iff_takesAt.2 ⟨operands, rest, rfl, rfl, htakes, rfl⟩
      have hrun := decode_eq hsize (hcode.trans (List.cons_append ..))
      rw [hdecode] at hrun
      rw [next, if_neg (by omega), hrun, List.length_cons, Nat.add_comm operands.length 1]
      simp only [Except.map, word]
      rw [if_pos (by omega)]
      rfl

/-- The cursor gives a fault where the code ends with one, and goes on at the end of the code. -/
theorem next_of_endsAt {e : ClassError} (hsize : code.length < signedLimit)
    (hends : EndsAt offset (code.drop offset) (some e)) :
    next code offset = .ok (some (.error e, code.length)) := by
  cases hcode : code.drop offset with
  | nil =>
      rw [hcode] at hends
      cases hends
  | cons opcode following =>
      rw [hcode] at hends
      have hlength := congrArg List.length hcode
      rw [List.length_drop, List.length_cons] at hlength
      have hrun := decode_eq hsize hcode
      rw [Instruction.decode_eq_error_iff.2 hends] at hrun
      rw [next, if_neg (by omega), hrun]
      rfl

/-- The cursor gives the instructions of a row of blocks, and the fault at which the code ends. -/
theorem emits_of_tiled (hsize : code.length < signedLimit) (htiled : Tiled offset blocks is)
    (hcode : code.drop offset = blocks.flatten ++ rest)
    (hends : EndsAt (offset + blocks.flatten.length) rest fault) :
    Emits code offset (is.map Except.ok ++ fault.toList.map Except.error) := by
  -- a call takes one block off what the code holds from the offset on
  induction htiled with
  | @nil offset =>
      rw [List.flatten_nil, List.nil_append] at hcode
      rw [List.flatten_nil, List.length_nil, Nat.add_zero] at hends
      cases fault with
      | none =>
          cases hends
          exact .done (next_of_end (List.drop_eq_nil_iff.1 hcode))
      | some e =>
          rw [← hcode] at hends
          exact .item (next_of_endsAt hsize hends) (.done (next_of_end (Nat.le_refl _)))
  | @cons offset block i blocks is hspells _ ih =>
      rw [List.flatten_cons, List.append_assoc] at hcode
      rw [List.flatten_cons, List.length_append, ← Nat.add_assoc] at hends
      refine .item (next_of_spells hsize hspells hcode) (ih ?_ hends)
      rw [← List.drop_drop, hcode, List.drop_left]

end CodeCursor

/-! ## All bytes -/

namespace Disassembly

/-- The instructions with their offsets, and the fault at the end, if any. -/
def items (d : Disassembly) : List CodeCursor.Item :=
  d.instructions.map Except.ok ++ d.fault.toList.map Except.error

/-- Reading code on a machine comes to an end on all bytes, with at most as many items as there are
bytes, and it is not trapped. The items are instructions that lie in the code one after the other from
its start, and a fault where the last one ends, unless that is the end of the code. Code that is cut
behind one of its instructions is decoded to the instructions before the cut. -/
theorem ofCode_tiles (code : List UInt8) :
    (code.length < CodeCursor.signedLimit → CodeCursor.Emits code 0 (ofCode code).items) ∧
      (ofCode code).items.length ≤ code.length ∧
        ∃ blocks rest, code = blocks.flatten ++ rest ∧ Tiled 0 blocks (ofCode code).instructions ∧
          EndsAt blocks.flatten.length rest (ofCode code).fault ∧
            ∀ k ≤ blocks.length, ofCode (code.take (blocks.take k).flatten.length) =
              ⟨(ofCode code).instructions.take k, none⟩ := by
  obtain ⟨blocks, rest, hcode, htiled, hends⟩ := exists_tiled_ofCode code
  refine ⟨fun hsize => ?_, ?_, blocks, rest, hcode, htiled, hends, fun k hk => ?_⟩
  · rw [← Nat.zero_add blocks.flatten.length] at hends
    exact CodeCursor.emits_of_tiled hsize htiled hcode hends
  · -- every block has a byte, and there is a byte where decoding fails
    have hblocks := htiled.length_le
    have hfault : (ofCode code).fault.toList.length ≤ rest.length := by
      generalize (ofCode code).fault = fault at hends
      cases hends <;> simp
    have hlength := congrArg List.length hcode
    rw [List.length_append] at hlength
    rw [items, List.length_append, List.length_map, List.length_map]
    omega
  · have hcut : code.take (blocks.take k).flatten.length = (blocks.take k).flatten := by
      have hsplit : code = (blocks.take k).flatten ++ ((blocks.drop k).flatten ++ rest) := by
        rw [← List.append_assoc, ← List.flatten_append, List.take_append_drop, hcode]
      conv_lhs => rw [hsplit]
      exact List.take_left
    rw [hcut]
    exact ofCode_of_tiled (htiled.take k)

/-- A constant, and a table with an entry for every number of 32 bits, of which only the header is
there. -/
def hostileTable : List UInt8 :=
  [0x03, 0xaa, 0x00, 0x00, 0x00, 0x00, 0x00, 0x00, 0x80, 0x00, 0x00, 0x00, 0x7f, 0xff, 0xff, 0xff]

/-- The table is found to be cut off, and the constant before it stays. -/
theorem ofCode_tiles_hostileTable :
    hostileTable.length < CodeCursor.signedLimit ∧
      CodeCursor.Emits hostileTable 0 [.ok (0, .other 0x03 []), .error (.truncatedCode 1)] := by
  have hitems : (ofCode hostileTable).items = [.ok (0, .other 0x03 []), .error (.truncatedCode 1)] := by
    decide +kernel
  have hsize : hostileTable.length < CodeCursor.signedLimit := by decide
  exact ⟨hsize, hitems ▸ (ofCode_tiles hostileTable).1 hsize⟩

end Disassembly

end Linkage
