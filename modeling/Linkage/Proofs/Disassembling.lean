import Linkage.ClassFile.Instruction
import Linkage.Proofs.Fallible
import Mathlib.Data.List.Basic

/-!
# Code and its instructions

An array of code gives back the instructions that it was made of exactly if every one of them has the
operands of its opcode at its offset (`Disassembly.ofCode_assemble_iff`).

* `Operands`: the operand bytes of the instructions that are not told apart, as the format has them.
  The jump table of a switch starts at an offset that is divisible by four, and its header says how
  long it is.
* `Instruction.decode_own`, `Instruction.decode_other_iff`: one instruction, whatever comes after it.
* `Disassembly.resume_assemble_iff`: a list of instructions, from any offset on.
-/

set_option autoImplicit false

namespace Linkage

open Fallible

/-! ## Operands -/

/-- Ranges of opcodes with so many operand bytes, wherever they stand, that are not told apart. -/
def plainOpcodes : Nat → List (Nat × Nat)
  | 0 => [(0x00, 0x0f), (0x1a, 0x35), (0x3b, 0x83), (0x85, 0x98), (0xac, 0xb1), (0xbe, 0xbf),
      (0xc2, 0xc3)]
  | 1 => [(0x10, 0x10), (0x15, 0x19), (0x36, 0x3a), (0xa9, 0xa9), (0xbc, 0xbc)]
  | 2 => [(0x11, 0x11), (0x84, 0x84), (0x99, 0xa8), (0xc6, 0xc7)]
  | 4 => [(0xc8, 0xc9)]
  | _ => []

/-- An instruction of the opcode has so many operand bytes, wherever it stands. -/
def TakesOperands (opcode : UInt8) (count : Nat) : Prop :=
  ∃ range ∈ plainOpcodes count, range.1 ≤ opcode.toNat ∧ opcode.toNat ≤ range.2

instance (opcode : UInt8) (count : Nat) : Decidable (TakesOperands opcode count) :=
  inferInstanceAs (Decidable (∃ range ∈ plainOpcodes count, _))

/-- Signed number in four bytes, the most significant one first. -/
def signedWord (word : List UInt8) : Int := (BitVec.ofNat 32 (ofBigEndian word)).toInt

/-- The bytes that lead from the opcode at an offset to the next offset divisible by four. -/
structure Aligns (offset : Nat) (padding : List UInt8) : Prop where
  short : padding.length < 4
  aligned : (offset + 1 + padding.length) % 4 = 0

/-- Operand bytes of the opcodes that are not told apart, at an offset. The header of a jump table has
the offset of the default target, and then the least and the greatest number of a table of numbers, or
the number of pairs of a table of pairs. -/
inductive Operands (offset : Nat) : UInt8 → List UInt8 → Prop
  | plain {opcode : UInt8} {operands : List UInt8} :
      TakesOperands opcode operands.length → Operands offset opcode operands
  | wide {widened : UInt8} {index : List UInt8} :
      widened ≠ 0x84 → index.length = 2 → Operands offset 0xc4 (widened :: index)
  | wideIncrement {indexAndAmount : List UInt8} :
      indexAndAmount.length = 4 → Operands offset 0xc4 (0x84 :: indexAndAmount)
  | tableSwitch {padding target low high table : List UInt8} :
      Aligns offset padding → target.length = 4 → low.length = 4 → high.length = 4 →
        (table.length : Int) = 4 * (signedWord high - signedWord low + 1) →
        Operands offset 0xaa (padding ++ (target ++ (low ++ (high ++ table))))
  | lookupSwitch {padding target pairs table : List UInt8} :
      Aligns offset padding → target.length = 4 → pairs.length = 4 →
        (table.length : Int) = 8 * signedWord pairs →
        Operands offset 0xab (padding ++ (target ++ (pairs ++ table)))

theorem aligns_iff {offset : Nat} {padding : List UInt8} :
    Aligns offset padding ↔ padding.length = Instruction.switchPadding offset := by
  rw [Instruction.switchPadding]
  constructor
  · rintro ⟨hshort, haligned⟩
    omega
  · intro hlength
    constructor <;> omega

/-- Four bytes at a position are read as the signed number that they are. -/
theorem wordAt?_append {before word after : List UInt8} {position : Nat}
    (hbefore : before.length = position) (hword : word.length = 4) :
    Instruction.wordAt? (before ++ (word ++ after)) position = some (signedWord word) := by
  have htaken : ((before ++ (word ++ after)).drop position).take 4 = word := by
    rw [← hbefore, ← hword, List.drop_left, List.take_left]
  rw [Instruction.wordAt?, htaken, if_pos hword, signedWord, BitVec.toInt_ofNat']

namespace Instruction

variable {offset count : Nat} {opcode : UInt8} {operands rest : List UInt8} {i : Instruction}

/-! ## Opcodes -/

/-- Opcodes of the instructions that are told apart, with the numbers of their operand bytes. -/
def ownForms : List (Nat × Nat) :=
  [(0x12, 1), (0x13, 2), (0x14, 2), (0xb2, 2), (0xb3, 2), (0xb4, 2), (0xb5, 2), (0xb6, 2), (0xb7, 2),
    (0xb8, 2), (0xb9, 4), (0xba, 4), (0xbb, 2), (0xbd, 2), (0xc0, 2), (0xc1, 2), (0xc5, 3)]

/-- What the layout of the operands says about an opcode. -/
def LayoutFits (opcode : UInt8) : OperandLayout → Prop
  | .fixed count => TakesOperands opcode count ∨ (opcode.toNat, count) ∈ ownForms
  | .tableSwitch => opcode = 0xaa
  | .lookupSwitch => opcode = 0xab
  | .wide => opcode = 0xc4
  | .undefined => 0xca ≤ opcode.toNat

instance (opcode : UInt8) : (layout : OperandLayout) → Decidable (LayoutFits opcode layout)
  | .fixed count => inferInstanceAs (Decidable (TakesOperands opcode count ∨ _))
  | .tableSwitch => inferInstanceAs (Decidable (opcode = 0xaa))
  | .lookupSwitch => inferInstanceAs (Decidable (opcode = 0xab))
  | .wide => inferInstanceAs (Decidable (opcode = 0xc4))
  | .undefined => inferInstanceAs (Decidable (0xca ≤ opcode.toNat))

/-- What holds of the opcode of every number holds of every opcode. -/
theorem forall_opcode {p : UInt8 → Prop} (h : ∀ n < 256, p (UInt8.ofNat n)) (opcode : UInt8) :
    p opcode := by
  have hn := h opcode.toNat opcode.toNat_lt
  rwa [UInt8.ofNat_toNat] at hn

theorem layoutFits (opcode : UInt8) : LayoutFits opcode (OperandLayout.of opcode) :=
  forall_opcode (p := fun opcode => LayoutFits opcode (OperandLayout.of opcode))
    (by decide +kernel) opcode

/-- What an opcode takes wherever it stands. It is none of those that are told apart. -/
theorem takesOperands_cases (htakes : TakesOperands opcode count) :
    OperandLayout.of opcode = .fixed count ∧ opcode.toNat ∉ ownForms.map Prod.fst := by
  have hfew : count < 5 := by
    by_contra hmany
    obtain ⟨range, hmem, -⟩ := htakes
    rw [plainOpcodes] at hmem
    · cases hmem
    all_goals omega
  constructor
  · exact forall_opcode (p := fun opcode => ∀ count < 5, TakesOperands opcode count →
      OperandLayout.of opcode = .fixed count) (by decide +kernel) opcode count hfew htakes
  · exact forall_opcode (p := fun opcode => ∀ count < 5, TakesOperands opcode count →
      opcode.toNat ∉ ownForms.map Prod.fst) (by decide +kernel) opcode count hfew htakes

/-- The instruction of an opcode with its operands is told apart, or it has both as they are. -/
theorem ofOperands_cases (opcode : UInt8) (operands : List UInt8) :
    ofOperands opcode operands = .other opcode operands ∨
      opcode.toNat ∈ ownForms.map Prod.fst ∧
        ∀ opcode' operands', ofOperands opcode operands ≠ .other opcode' operands' := by
  unfold ofOperands
  split
  case h_18 => exact Or.inl rfl
  all_goals
    rename_i heq
    rw [heq]
    exact Or.inr ⟨by decide, nofun⟩

/-- An opcode that is not told apart makes an instruction with its operands as they are. -/
theorem ofOperands_eq_other (hother : opcode.toNat ∉ ownForms.map Prod.fst) :
    ofOperands opcode operands = .other opcode operands :=
  (ofOperands_cases opcode operands).resolve_right fun hown => hother hown.1

/-- An opcode that is told apart makes no such instruction of so many bytes as it takes. -/
theorem ofOperands_ne_other (hown : (opcode.toNat, operands.length) ∈ ownForms) :
    ofOperands opcode operands ≠ .other opcode operands := by
  -- the forms by their numbers of bytes, which are one to four
  rcases operands with _ | ⟨a, _ | ⟨b, _ | ⟨c, _ | ⟨d, _ | ⟨e, rest⟩⟩⟩⟩⟩ <;>
    simp [ownForms] at hown
  · simp [ofOperands, hown]
  · rcases hown with h | h | h | h | h | h | h | h | h | h | h | h | h <;> simp [ofOperands, h]
  · simp [ofOperands, hown]
  · rcases hown with h | h <;> simp [ofOperands, h]

/-- An instruction that is not told apart has the opcode and the operands that it is made of. -/
theorem eq_of_ofOperands {opcode' : UInt8} {operands' : List UInt8}
    (h : ofOperands opcode operands = .other opcode' operands') :
    opcode' = opcode ∧ operands' = operands := by
  rcases ofOperands_cases opcode operands with hother | ⟨-, hown⟩
  · rw [hother] at h
    cases h
    exact ⟨rfl, rfl⟩
  · exact absurd h (hown opcode' operands')

/-! ## One instruction -/

/-- An instruction is decoded if its operand bytes are there. -/
theorem decode_eq_ok_iff {following : List UInt8} :
    decode offset opcode following = .ok (i, count) ↔
      operandCount offset opcode following = .ok count ∧ count ≤ following.length ∧
        ofOperands opcode (following.take count) = i := by
  rw [decode, bind_eq_ok_iff]
  constructor
  · rintro ⟨count', hcount, h⟩
    dsimp only at h
    split at h
    · cases h
    · rename_i hthere
      cases pure_eq_ok_iff.1 h
      rw [List.length_take] at hthere
      exact ⟨hcount, by omega, rfl⟩
  · rintro ⟨hcount, hle, rfl⟩
    refine ⟨count, hcount, ?_⟩
    have hthere : ¬ (following.take count).length < count := by
      rw [List.length_take]
      omega
    exact if_neg hthere

/-- An opcode whose operand bytes are the next ones makes an instruction of them. -/
theorem decode_of_operandCount
    (hcount : operandCount offset opcode (operands ++ rest) = .ok operands.length) :
    decode offset opcode (operands ++ rest) = .ok (ofOperands opcode operands, operands.length) := by
  apply decode_eq_ok_iff.2
  rw [List.take_left, List.length_append]
  exact ⟨hcount, Nat.le_add_right _ _, rfl⟩

/-- An index is read from its two bytes. -/
theorem exists_u16_eq (index : PoolIndex) :
    ∃ high low, ClassWriter.u16 index = [high, low] ∧ indexOf high low = index := by
  refine ⟨UInt8.ofNat (index.toNat / 256), UInt8.ofNat index.toNat, rfl, ?_⟩
  have hlt := index.toNat_lt
  have hsum : 256 * (index.toNat / 256 % 256) + index.toNat % 256 = index.toNat := by omega
  rw [indexOf, UInt8.toNat_ofNat', UInt8.toNat_ofNat', hsum, UInt16.ofNat_toNat]

/-- An opcode with an index and further bytes makes the instruction with that index. -/
theorem decode_indexed {index : PoolIndex} (more : List UInt8) (make : PoolIndex → Instruction)
    (hlayout : OperandLayout.of opcode = .fixed (2 + more.length))
    (hmake : ∀ high low, ofOperands opcode (high :: low :: more) = make (indexOf high low)) :
    decode offset opcode (ClassWriter.u16 index ++ more ++ rest) =
      .ok (make index, (ClassWriter.u16 index ++ more).length) := by
  obtain ⟨high, low, hbytes, hindex⟩ := exists_u16_eq index
  rw [hbytes, ← hindex, ← hmake high low]
  apply decode_of_operandCount
  simp only [operandCount, hlayout, List.length_append, List.length_cons, List.length_nil]

/-- An instruction that is told apart is decoded, whatever comes after it. -/
theorem decode_own (hown : ∀ opcode operands, i ≠ .other opcode operands)
    (hencode : i.encode = opcode :: operands) :
    decode offset opcode (operands ++ rest) = .ok (i, operands.length) := by
  have htwo : ∀ {op : UInt8} {index : PoolIndex} (make : PoolIndex → Instruction),
      OperandLayout.of op = .fixed 2 →
      (∀ high low, ofOperands op [high, low] = make (indexOf high low)) →
      decode offset op (ClassWriter.u16 index ++ rest) =
        .ok (make index, (ClassWriter.u16 index).length) := by
    intro op index make hlayout hmake
    have hdecode : decode offset op (ClassWriter.u16 index ++ [] ++ rest) = _ :=
      decode_indexed [] make hlayout hmake
    rwa [List.append_nil] at hdecode
  cases i with
  | other opcode' operands' => exact absurd rfl (hown opcode' operands')
  | load index =>
      rw [encode] at hencode
      split at hencode
      · rename_i hshort
        cases hencode
        have hindex : index.toUInt8.toUInt16 = index := by
          rw [← UInt16.toNat_inj, UInt8.toNat_toUInt16, UInt16.toNat_toUInt8]
          exact Nat.mod_eq_of_lt (UInt16.lt_iff_toNat_lt.1 hshort)
        have hload : ofOperands 0x12 [index.toUInt8] = .load index := congrArg load hindex
        rw [← hload]
        exact decode_of_operandCount rfl
      · cases hencode
        exact htwo .load rfl fun _ _ => rfl
  | invoke kind index =>
      cases kind with
      | interface count =>
          cases hencode
          exact decode_indexed [count, 0] (.invoke (.interface count)) rfl fun _ _ => rfl
      | virtual => cases hencode; exact htwo (.invoke .virtual) rfl fun _ _ => rfl
      | special => cases hencode; exact htwo (.invoke .special) rfl fun _ _ => rfl
      | static => cases hencode; exact htwo (.invoke .static) rfl fun _ _ => rfl
  | invokeDynamic index =>
      cases hencode
      exact decode_indexed [0, 0] .invokeDynamic rfl fun _ _ => rfl
  | newMultiArray index dimensions =>
      cases hencode
      exact decode_indexed [dimensions] (.newMultiArray · dimensions) rfl fun _ _ => rfl
  | getStatic index => cases hencode; exact htwo .getStatic rfl fun _ _ => rfl
  | putStatic index => cases hencode; exact htwo .putStatic rfl fun _ _ => rfl
  | getField index => cases hencode; exact htwo .getField rfl fun _ _ => rfl
  | putField index => cases hencode; exact htwo .putField rfl fun _ _ => rfl
  | newObject index => cases hencode; exact htwo .newObject rfl fun _ _ => rfl
  | newArray index => cases hencode; exact htwo .newArray rfl fun _ _ => rfl
  | checkCast index => cases hencode; exact htwo .checkCast rfl fun _ _ => rfl
  | instanceOf index => cases hencode; exact htwo .instanceOf rfl fun _ _ => rfl
  | loadWide index => cases hencode; exact htwo .loadWide rfl fun _ _ => rfl

/-- A list that is long enough, split behind so many elements. -/
theorem exists_front {α : Type} {xs : List α} {n : Nat} (h : n ≤ xs.length) :
    ∃ front back, xs = front ++ back ∧ front.length = n :=
  ⟨xs.take n, xs.drop n, (List.take_append_drop n xs).symm, List.length_take_of_le h⟩

theorem operandCount_tableSwitch_iff {following : List UInt8} :
    operandCount offset 0xaa following = .ok count ↔
      ∃ low high, wordAt? following (switchPadding offset + 4) = some low ∧
        wordAt? following (switchPadding offset + 8) = some high ∧ 0 ≤ high - low + 1 ∧
          count = switchPadding offset + 12 + 4 * (high - low + 1).toNat := by
  have hlayout : OperandLayout.of 0xaa = .tableSwitch := rfl
  simp only [operandCount, hlayout]
  constructor
  · intro h
    split at h
    · rename_i low high hlow hhigh
      split at h
      · cases h
      · rename_i hentries
        cases h
        exact ⟨low, high, hlow, hhigh, by omega, rfl⟩
    · cases h
  · rintro ⟨low, high, hlow, hhigh, hentries, rfl⟩
    rw [hlow, hhigh]
    exact if_neg (by omega)

theorem operandCount_lookupSwitch_iff {following : List UInt8} :
    operandCount offset 0xab following = .ok count ↔
      ∃ pairs, wordAt? following (switchPadding offset + 4) = some pairs ∧ 0 ≤ pairs ∧
        count = switchPadding offset + 8 + 8 * pairs.toNat := by
  have hlayout : OperandLayout.of 0xab = .lookupSwitch := rfl
  simp only [operandCount, hlayout]
  constructor
  · intro h
    split at h
    · rename_i pairs hpairs
      split at h
      · cases h
      · rename_i hcount
        cases h
        exact ⟨pairs, hpairs, by omega, rfl⟩
    · cases h
  · rintro ⟨pairs, hpairs, hcount, rfl⟩
    rw [hpairs]
    exact if_neg (by omega)

/-- The bytes that follow an opcode begin with its operands, and these are not told apart. -/
theorem operandCount_of_operands (rest : List UInt8) (h : Operands offset opcode operands) :
    operandCount offset opcode (operands ++ rest) = .ok operands.length ∧
      ofOperands opcode operands = .other opcode operands := by
  cases h with
  | plain htakes =>
      obtain ⟨hlayout, hother⟩ := takesOperands_cases htakes
      exact ⟨by simp only [operandCount, hlayout], ofOperands_eq_other hother⟩
  | @wide widened index hwidened hindex =>
      refine ⟨?_, ofOperands_eq_other (by decide)⟩
      have hcount : operandCount offset 0xc4 (widened :: index ++ rest) =
          .ok (if widened = 0x84 then 5 else 3) := rfl
      rw [hcount, if_neg hwidened, List.length_cons, hindex]
  | @wideIncrement amounts hamounts =>
      refine ⟨?_, ofOperands_eq_other (by decide)⟩
      have hcount : operandCount offset 0xc4 (0x84 :: amounts ++ rest) = .ok 5 := rfl
      rw [hcount, List.length_cons, hamounts]
  | @tableSwitch padding target low high table hpadding htarget hlow hhigh htable =>
      refine ⟨?_, ofOperands_eq_other (by decide)⟩
      rw [aligns_iff] at hpadding
      simp only [List.append_assoc]
      apply operandCount_tableSwitch_iff.2
      refine ⟨signedWord low, signedWord high, ?_, ?_, by omega, ?_⟩
      · rw [← List.append_assoc]
        exact wordAt?_append (by simp; omega) hlow
      · rw [← List.append_assoc, ← List.append_assoc]
        exact wordAt?_append (by simp; omega) hhigh
      · simp only [List.length_append]
        omega
  | @lookupSwitch padding target pairs table hpadding htarget hpairs htable =>
      refine ⟨?_, ofOperands_eq_other (by decide)⟩
      rw [aligns_iff] at hpadding
      simp only [List.append_assoc]
      apply operandCount_lookupSwitch_iff.2
      refine ⟨signedWord pairs, ?_, by omega, ?_⟩
      · rw [← List.append_assoc]
        exact wordAt?_append (by simp; omega) hpairs
      · simp only [List.length_append]
        omega

/-- Bytes that are counted as operands and not told apart are operands. -/
theorem operands_of_operandCount
    (hcount : operandCount offset opcode (operands ++ rest) = .ok operands.length)
    (hother : ofOperands opcode operands = .other opcode operands) :
    Operands offset opcode operands := by
  have hfits := layoutFits opcode
  cases hlayout : OperandLayout.of opcode with
  | fixed n =>
      rw [hlayout] at hfits
      simp only [operandCount, hlayout] at hcount
      cases hcount
      rcases hfits with htakes | hown
      · exact .plain htakes
      · exact absurd hother (ofOperands_ne_other hown)
  | undefined =>
      simp only [operandCount, hlayout] at hcount
      cases hcount
  | wide =>
      rw [hlayout] at hfits
      obtain rfl : opcode = 0xc4 := hfits
      cases operands with
      | nil =>
          -- there would be an opcode to widen, and further bytes
          exfalso
          cases rest with
          | nil => cases hcount
          | cons widened rest =>
              have hmany : Except.ok (if widened = 0x84 then 5 else 3) =
                  (Except.ok 0 : Except ClassError Nat) := hcount
              split at hmany <;> cases hmany
      | cons widened operands =>
          have hlength : Except.ok (if widened = 0x84 then 5 else 3) =
              (Except.ok (operands.length + 1) : Except ClassError Nat) := hcount
          have hlength := Except.ok.inj hlength
          split at hlength
          · rename_i hincrement
            rw [hincrement]
            exact .wideIncrement (by omega)
          · rename_i hwidened
            exact .wide hwidened (by omega)
  | tableSwitch =>
      rw [hlayout] at hfits
      obtain rfl : opcode = 0xaa := hfits
      obtain ⟨low', high', hlow', hhigh', hentries, hlength⟩ := operandCount_tableSwitch_iff.1 hcount
      -- the operands are as long as their header says, so they hold the header
      obtain ⟨padding, behind, rfl, hpadding⟩ := exists_front
        (show switchPadding offset ≤ operands.length by omega)
      rw [List.length_append] at hlength
      obtain ⟨target, behind, rfl, htarget⟩ := exists_front (show 4 ≤ behind.length by omega)
      rw [List.length_append] at hlength
      obtain ⟨low, behind, rfl, hlow⟩ := exists_front (show 4 ≤ behind.length by omega)
      rw [List.length_append] at hlength
      obtain ⟨high, table, rfl, hhigh⟩ := exists_front (show 4 ≤ behind.length by omega)
      rw [List.length_append] at hlength
      simp only [List.append_assoc] at hlow' hhigh'
      rw [← List.append_assoc, wordAt?_append (by simp; omega) hlow] at hlow'
      rw [← List.append_assoc, ← List.append_assoc, wordAt?_append (by simp; omega) hhigh] at hhigh'
      cases hlow'
      cases hhigh'
      exact .tableSwitch (aligns_iff.2 hpadding) htarget hlow hhigh (by omega)
  | lookupSwitch =>
      rw [hlayout] at hfits
      obtain rfl : opcode = 0xab := hfits
      obtain ⟨pairs', hpairs', hentries, hlength⟩ := operandCount_lookupSwitch_iff.1 hcount
      obtain ⟨padding, behind, rfl, hpadding⟩ := exists_front
        (show switchPadding offset ≤ operands.length by omega)
      rw [List.length_append] at hlength
      obtain ⟨target, behind, rfl, htarget⟩ := exists_front (show 4 ≤ behind.length by omega)
      rw [List.length_append] at hlength
      obtain ⟨pairs, table, rfl, hpairs⟩ := exists_front (show 4 ≤ behind.length by omega)
      rw [List.length_append] at hlength
      simp only [List.append_assoc] at hpairs'
      rw [← List.append_assoc, wordAt?_append (by simp; omega) hpairs] at hpairs'
      cases hpairs'
      exact .lookupSwitch (aligns_iff.2 hpadding) htarget hpairs (by omega)

/-- The instruction has the operand bytes of its opcode at the offset. One that is told apart always
has them. -/
def FitsAt (offset : Nat) : Instruction → Prop
  | .other opcode operands => Operands offset opcode operands
  | _ => True

/-- An instruction that is not told apart is decoded exactly if its bytes are the operands of its opcode,
whatever comes after it. -/
theorem decode_other_iff :
    decode offset opcode (operands ++ rest) = .ok (.other opcode operands, count) ↔
      count = operands.length ∧ Operands offset opcode operands := by
  constructor
  · intro h
    obtain ⟨hcount, hle, hother⟩ := decode_eq_ok_iff.1 h
    obtain ⟨-, htaken⟩ := eq_of_ofOperands hother
    have hlength : operands.length = count := by
      rw [htaken, List.length_take_of_le hle]
    rw [← htaken] at hother
    rw [← hlength] at hcount ⊢
    exact ⟨rfl, operands_of_operandCount hcount hother⟩
  · rintro ⟨rfl, hoperands⟩
    obtain ⟨hcount, hother⟩ := operandCount_of_operands rest hoperands
    rw [decode_of_operandCount hcount, hother]

/-- The bytes of an instruction are decoded to it exactly if it has the operands of its opcode. -/
theorem decode_encode_iff (hencode : i.encode = opcode :: operands) :
    decode offset opcode (operands ++ rest) = .ok (i, count) ↔
      count = operands.length ∧ i.FitsAt offset := by
  by_cases hother : ∃ opcode' operands', i = .other opcode' operands'
  · obtain ⟨opcode', operands', rfl⟩ := hother
    cases hencode
    exact decode_other_iff
  · push Not at hother
    have hfits : i.FitsAt offset := by
      cases i with
      | other opcode' operands' => exact absurd rfl (hother opcode' operands')
      | _ => trivial
    rw [decode_own hother hencode]
    constructor
    · rintro ⟨⟩
      exact ⟨rfl, hfits⟩
    · rintro ⟨rfl, -⟩
      rfl

theorem exists_encode_eq (i : Instruction) : ∃ opcode operands, i.encode = opcode :: operands := by
  cases i with
  | invoke kind index => cases kind <;> exact ⟨_, _, rfl⟩
  | load index =>
      rw [encode]
      split <;> exact ⟨_, _, rfl⟩
  | _ => exact ⟨_, _, rfl⟩

/-! ## Lists of instructions -/

/-- Offset of an instruction of the list: the length of all that come before it. -/
def offsetIn (is : List Instruction) (k : Nat) : Nat := (assemble (is.take k)).length

@[simp] theorem assemble_cons (i : Instruction) (is : List Instruction) :
    assemble (i :: is) = i.encode ++ assemble is := rfl

@[simp] theorem offsetIn_zero (is : List Instruction) : offsetIn is 0 = 0 := by
  rw [offsetIn, List.take_zero]
  rfl

@[simp] theorem offsetIn_cons_succ (i : Instruction) (is : List Instruction) (k : Nat) :
    offsetIn (i :: is) (k + 1) = i.encode.length + offsetIn is k := by
  rw [offsetIn, List.take_succ_cons, assemble_cons, List.length_append, offsetIn]

/-- Every instruction of the list, which starts at an offset, has the operands of its opcode. -/
def FitFrom (offset : Nat) (is : List Instruction) : Prop :=
  ∀ k (i : Instruction), is[k]? = some i → i.FitsAt (offset + offsetIn is k)

/-- The instructions of a list that starts at an offset, with their own offsets. -/
def located (offset : Nat) (is : List Instruction) : List (Nat × Instruction) :=
  is.mapIdx fun k i => (offset + offsetIn is k, i)

@[simp] theorem located_cons (offset : Nat) (i : Instruction) (is : List Instruction) :
    located offset (i :: is) = (offset, i) :: located (offset + i.encode.length) is := by
  simp [located, Nat.add_assoc]

@[simp] theorem fitFrom_cons {is : List Instruction} :
    FitFrom offset (i :: is) ↔ i.FitsAt offset ∧ FitFrom (offset + i.encode.length) is := by
  constructor
  · intro h
    refine ⟨by simpa using h 0 i rfl, fun k j hj => ?_⟩
    have hfits := h (k + 1) j hj
    rwa [offsetIn_cons_succ, ← Nat.add_assoc] at hfits
  · rintro ⟨hfits, hrest⟩ k j hj
    cases k with
    | zero =>
        cases hj
        simpa using hfits
    | succ k =>
        rw [offsetIn_cons_succ, ← Nat.add_assoc]
        exact hrest k j hj

end Instruction

namespace Disassembly

open Instruction

/-- What was decoded before stands in front. -/
theorem exists_resume_eq_append (offset : Nat) (done : List (Nat × Instruction)) (code : List UInt8) :
    ∃ later, (resume offset done code).instructions = done.reverse ++ later := by
  fun_induction resume offset done code with
  | case1 offset done => exact ⟨[], by simp⟩
  | case2 offset done opcode following e hdecode => exact ⟨[], by simp⟩
  | case3 offset done opcode following i count hdecode ih =>
      obtain ⟨later, hlater⟩ := ih
      exact ⟨(offset, i) :: later, by simp [hlater]⟩

/-- The code of a list of instructions, from an offset on, gives these instructions at their offsets
exactly if all of them have the operands of their opcodes there. -/
theorem resume_assemble_iff (is : List Instruction) (offset : Nat) (done : List (Nat × Instruction)) :
    resume offset done (assemble is) = ⟨done.reverse ++ located offset is, none⟩ ↔
      FitFrom offset is := by
  induction is generalizing offset done with
  | nil => simp [resume, assemble, located, FitFrom]
  | cons i is ih =>
      obtain ⟨opcode, operands, hencode⟩ := exists_encode_eq i
      have hnext : offset + 1 + operands.length = offset + i.encode.length := by
        rw [hencode, List.length_cons]
        omega
      rw [assemble_cons, hencode, List.cons_append, resume, fitFrom_cons, located_cons]
      constructor
      · intro h
        cases hdecode : decode offset opcode (operands ++ assemble is) with
        | error e =>
            rw [hdecode] at h
            cases congrArg fault h
        | ok decoded =>
            obtain ⟨j, count⟩ := decoded
            rw [hdecode] at h
            -- the decoded instruction stands where the first one of the list should be
            obtain ⟨later, hlater⟩ := exists_resume_eq_append (offset + 1 + count)
              ((offset, j) :: done) ((operands ++ assemble is).drop count)
            have hsame := hlater.symm.trans (congrArg instructions h)
            simp only [List.reverse_cons, List.append_assoc, List.append_cancel_left_eq,
              List.cons_append, List.nil_append, List.cons.injEq, Prod.mk.injEq, true_and] at hsame
            obtain ⟨rfl, -⟩ := hsame
            obtain ⟨rfl, hfits⟩ := (decode_encode_iff hencode).1 hdecode
            dsimp only at h
            rw [hnext, List.drop_left] at h
            refine ⟨hfits, (ih _ ((offset, j) :: done)).1 ?_⟩
            rw [h, List.reverse_cons, List.append_assoc]
            rfl
      · rintro ⟨hfits, hrest⟩
        rw [(decode_encode_iff hencode).2 ⟨rfl, hfits⟩]
        have h := (ih _ ((offset, i) :: done)).2 hrest
        simpa only [hnext, List.drop_left, List.reverse_cons, List.append_assoc, List.cons_append,
          List.nil_append] using h

/-- An array of code that is made of a list of instructions gives exactly these instructions, each at the
offset that is the length of those before it, and no fault, if and only if every one of them has the
operands of its opcode at its offset. -/
theorem ofCode_assemble_iff (is : List Instruction) :
    ofCode (assemble is) = ⟨is.mapIdx fun k i => (offsetIn is k, i), none⟩ ↔
      ∀ k (i : Instruction), is[k]? = some i → i.FitsAt (offsetIn is k) := by
  have h := resume_assemble_iff is 0 []
  simpa only [ofCode, located, FitFrom, Nat.zero_add, List.reverse_nil, List.nil_append] using h

end Disassembly

end Linkage
