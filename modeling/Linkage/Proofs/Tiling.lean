import Linkage.Proofs.Disassembling

/-!
# Code as a row of instructions

Whatever bytes an array of code holds, its instructions lie in it one after the other from the start,
without gaps, up to the end or to the place where decoding fails.

* `Instruction.Spells`: the bytes of an instruction at an offset, from its opcode to its last operand.
* `Tiled`: blocks of bytes that are instructions, each at the offset where the one before it ends.
* `EndsAt`: why there is no further instruction at an offset.
* `Disassembly.exists_tiled_resume`: the code from any offset on is a row of such blocks and an end.
* `Disassembly.ofCode_of_tiled`: a row of blocks is decoded to its instructions, with no fault. So the
  code can be cut behind any of its instructions.
-/

set_option autoImplicit false

namespace Linkage

open Fallible

namespace Instruction

variable {offset count : Nat} {opcode : UInt8} {operands rest following : List UInt8} {i : Instruction}

/-! ## One block -/

/-- The bytes are all the operands of the opcode at the offset: those of an instruction that is not
told apart, or as many as the opcode of one that is told apart takes. -/
def TakesAt (offset : Nat) (opcode : UInt8) (operands : List UInt8) : Prop :=
  Operands offset opcode operands ∨ (opcode.toNat, operands.length) ∈ ownForms

/-- The bytes are the instruction at the offset, from its opcode to the last one of its operands. -/
inductive Spells (offset : Nat) : List UInt8 → Instruction → Prop
  | intro {opcode : UInt8} {operands : List UInt8} : TakesAt offset opcode operands →
      Spells offset (opcode :: operands) (ofOperands opcode operands)

/-- Opcodes of the instructions that are told apart take the same number of bytes everywhere. -/
theorem layout_of_ownForm (hown : (opcode.toNat, count) ∈ ownForms) :
    OperandLayout.of opcode = .fixed count := by
  have hforms : ∀ form ∈ ownForms, OperandLayout.of (UInt8.ofNat form.1) = .fixed form.2 := by decide
  have hlayout := hforms _ hown
  rwa [UInt8.ofNat_toNat] at hlayout

theorem layout_eq_undefined_iff (opcode : UInt8) :
    OperandLayout.of opcode = .undefined ↔ 0xca ≤ opcode.toNat :=
  forall_opcode (p := fun opcode => OperandLayout.of opcode = .undefined ↔ 0xca ≤ opcode.toNat)
    (by decide +kernel) opcode

/-- Bytes are counted as operands exactly if they are the operands of the opcode, whatever comes after
them. -/
theorem operandCount_eq_length_iff :
    operandCount offset opcode (operands ++ rest) = .ok operands.length ↔
      TakesAt offset opcode operands := by
  constructor
  · intro hcount
    by_cases hown : (opcode.toNat, operands.length) ∈ ownForms
    · exact Or.inr hown
    · refine Or.inl (operands_of_operandCount hcount (ofOperands_eq_other fun hmem => hown ?_))
      -- an opcode that is told apart has a fixed number of operands, which is the one counted
      obtain ⟨⟨op, n⟩, hform, hopcode⟩ := List.mem_map.1 hmem
      obtain rfl : op = opcode.toNat := hopcode
      simp only [operandCount, layout_of_ownForm hform, Except.ok.injEq] at hcount
      rwa [← hcount]
  · rintro (hoperands | hown)
    · exact (operandCount_of_operands rest hoperands).1
    · simp only [operandCount, layout_of_ownForm hown]

/-- An instruction is decoded exactly if its operands are the next bytes. -/
theorem decode_eq_ok_iff_takesAt :
    decode offset opcode following = .ok (i, count) ↔
      ∃ operands rest, following = operands ++ rest ∧ operands.length = count ∧
        TakesAt offset opcode operands ∧ ofOperands opcode operands = i := by
  constructor
  · intro h
    obtain ⟨hcount, hle, hmake⟩ := decode_eq_ok_iff.1 h
    have hlength : (following.take count).length = count := List.length_take_of_le hle
    refine ⟨following.take count, following.drop count, (List.take_append_drop _ _).symm, hlength,
      ?_, hmake⟩
    apply operandCount_eq_length_iff.1
    rw [List.take_append_drop, hlength]
    exact hcount
  · rintro ⟨operands, rest, rfl, rfl, htakes, rfl⟩
    exact decode_of_operandCount (operandCount_eq_length_iff.2 htakes)

/-- Operands can be counted for the opcodes that are defined only. -/
theorem layout_ne_undefined (h : operandCount offset opcode following = .ok count) :
    OperandLayout.of opcode ≠ .undefined := by
  intro hlayout
  simp only [operandCount, hlayout] at h
  cases h

/-- Operands of an opcode that is defined are not counted only if the code ends before their number is
known. -/
theorem operandCount_fault {e : ClassError} (h : operandCount offset opcode following = .error e) :
    OperandLayout.of opcode = .undefined ∧ e = .unknownOpcode opcode offset ∨
      OperandLayout.of opcode ≠ .undefined ∧ e = .truncatedCode offset := by
  cases hlayout : OperandLayout.of opcode with
  | fixed count =>
      simp only [operandCount, hlayout] at h
      cases h
  | undefined =>
      simp only [operandCount, hlayout] at h
      cases h
      exact Or.inl ⟨rfl, rfl⟩
  | wide =>
      simp only [operandCount, hlayout] at h
      cases following with
      | nil =>
          cases h
          exact Or.inr ⟨by rintro ⟨⟩, rfl⟩
      | cons widened following => cases h
  | tableSwitch | lookupSwitch =>
      simp only [operandCount, hlayout] at h
      refine Or.inr ⟨by rintro ⟨⟩, ?_⟩
      split at h
      · split at h <;> cases h
        rfl
      · cases h
        rfl

/-- A fault tells an opcode that is not defined from one whose operands are not all there. -/
theorem decode_fault {e : ClassError} (h : decode offset opcode following = .error e) :
    0xca ≤ opcode.toNat ∧ e = .unknownOpcode opcode offset ∨
      opcode.toNat < 0xca ∧ e = .truncatedCode offset := by
  rw [← Nat.not_le, ← layout_eq_undefined_iff]
  rw [decode, bind_eq_error_iff] at h
  rcases h with hcount | ⟨count, hcount, hshort⟩
  · exact operandCount_fault hcount
  · refine Or.inr ⟨layout_ne_undefined hcount, ?_⟩
    dsimp only at hshort
    split at hshort <;> cases hshort
    rfl

end Instruction

/-! ## Rows of blocks -/

open Instruction

variable {offset : Nat} {blocks : List (List UInt8)} {is : List (Nat × Instruction)}

/-- The blocks are instructions, each at the offset where the one before it ends, the first one at the
given offset. -/
inductive Tiled : Nat → List (List UInt8) → List (Nat × Instruction) → Prop
  | nil {offset : Nat} : Tiled offset [] []
  | cons {offset : Nat} {block : List UInt8} {i : Instruction} {blocks : List (List UInt8)}
      {is : List (Nat × Instruction)} : Spells offset block i →
        Tiled (offset + block.length) blocks is → Tiled offset (block :: blocks) ((offset, i) :: is)

/-- What is left of the code at an offset is no instruction: nothing is left, or an opcode that is not
defined comes next, or one whose operands are not all there. Only the first is no fault. -/
inductive EndsAt (offset : Nat) : List UInt8 → Option ClassError → Prop
  | complete : EndsAt offset [] none
  | undefined {opcode : UInt8} {following : List UInt8} : 0xca ≤ opcode.toNat →
      EndsAt offset (opcode :: following) (some (.unknownOpcode opcode offset))
  | truncated {opcode : UInt8} {following : List UInt8} : opcode.toNat < 0xca →
      (∀ operands rest, following = operands ++ rest → ¬ TakesAt offset opcode operands) →
        EndsAt offset (opcode :: following) (some (.truncatedCode offset))

namespace Tiled

/-- Every block has an opcode. -/
theorem length_le (h : Tiled offset blocks is) : is.length ≤ blocks.flatten.length := by
  induction h with
  | nil => exact Nat.zero_le _
  | cons hspells _ ih =>
      cases hspells
      simp only [List.flatten_cons, List.length_append, List.length_cons]
      omega

/-- The first blocks of a row are a row. -/
theorem take (h : Tiled offset blocks is) (k : Nat) : Tiled offset (blocks.take k) (is.take k) := by
  induction h generalizing k with
  | nil =>
      rw [List.take_nil, List.take_nil]
      exact .nil
  | cons hspells _ ih =>
      cases k with
      | zero => exact .nil
      | succ k => exact .cons hspells (ih k)

end Tiled

namespace Instruction

/-- Decoding fails exactly if what is left ends the code. -/
theorem decode_eq_error_iff {opcode : UInt8} {following : List UInt8} {e : ClassError} :
    decode offset opcode following = .error e ↔ EndsAt offset (opcode :: following) (some e) := by
  have hends : ∀ {e}, decode offset opcode following = .error e →
      EndsAt offset (opcode :: following) (some e) := by
    intro e h
    rcases decode_fault h with ⟨hundefined, rfl⟩ | ⟨hdefined, rfl⟩
    · exact .undefined hundefined
    · refine .truncated hdefined fun operands rest hfollowing htakes => ?_
      rw [decode_eq_ok_iff_takesAt.2 ⟨operands, rest, hfollowing, rfl, htakes, rfl⟩] at h
      cases h
  refine ⟨hends, fun hend => ?_⟩
  cases hdecode : decode offset opcode following with
  | error e' =>
      -- there is one fault only for what is left
      have hend' := hends hdecode
      cases hend with
      | undefined hundefined =>
          cases hend' with
          | undefined _ => rfl
          | truncated hdefined _ => omega
      | truncated hdefined _ =>
          cases hend' with
          | undefined hundefined => omega
          | truncated _ _ => rfl
  | ok decoded =>
      obtain ⟨i, count⟩ := decoded
      obtain ⟨operands, rest, hfollowing, -, htakes, -⟩ := decode_eq_ok_iff_takesAt.1 hdecode
      cases hend with
      | truncated _ hnone => exact absurd htakes (hnone operands rest hfollowing)
      | undefined hundefined =>
          have hcount := (decode_eq_ok_iff.1 hdecode).1
          exact absurd ((layout_eq_undefined_iff opcode).2 hundefined) (layout_ne_undefined hcount)

end Instruction

namespace Disassembly

/-- A row of blocks is decoded to its instructions, whatever comes after it. -/
theorem resume_of_tiled (h : Tiled offset blocks is) (done : List (Nat × Instruction))
    (rest : List UInt8) : resume offset done (blocks.flatten ++ rest) =
      resume (offset + blocks.flatten.length) (is.reverse ++ done) rest := by
  induction h generalizing done with
  | nil => rfl
  | @cons offset block i blocks is hspells _ ih =>
      cases hspells with
      | @intro opcode operands htakes =>
          have hdecode := decode_eq_ok_iff_takesAt.2
            ⟨operands, blocks.flatten ++ rest, rfl, rfl, htakes, rfl⟩
          have hnext : offset + 1 + operands.length = offset + (opcode :: operands).length := by
            rw [List.length_cons]
            omega
          rw [List.flatten_cons, List.append_assoc, List.cons_append, resume, hdecode]
          dsimp only
          rw [List.drop_left, hnext, ih, List.reverse_cons, List.append_assoc, List.singleton_append,
            List.length_append, ← Nat.add_assoc]

/-- The code from an offset on is a row of blocks and an end. -/
theorem exists_tiled_resume (offset : Nat) (done : List (Nat × Instruction)) (code : List UInt8) :
    ∃ blocks rest is, code = blocks.flatten ++ rest ∧ Tiled offset blocks is ∧
      (resume offset done code).instructions = done.reverse ++ is ∧
        EndsAt (offset + blocks.flatten.length) rest (resume offset done code).fault := by
  fun_induction resume offset done code with
  | case1 offset done => exact ⟨[], [], [], rfl, .nil, by simp, .complete⟩
  | case2 offset done opcode following e hdecode =>
      exact ⟨[], opcode :: following, [], rfl, .nil, by simp, decode_eq_error_iff.1 hdecode⟩
  | case3 offset done opcode following i count hdecode ih =>
      obtain ⟨operands, behind, rfl, rfl, htakes, rfl⟩ := decode_eq_ok_iff_takesAt.1 hdecode
      rw [List.drop_left] at ih ⊢
      obtain ⟨blocks, rest, is, rfl, htiled, hinstructions, hends⟩ := ih
      have hnext : offset + 1 + operands.length = offset + (opcode :: operands).length := by
        rw [List.length_cons]
        omega
      rw [hnext] at htiled hinstructions hends
      refine ⟨(opcode :: operands) :: blocks, rest, _, by simp, .cons (.intro htakes) htiled, ?_, ?_⟩
      · rw [hnext, hinstructions]
        simp
      · rw [hnext, List.flatten_cons, List.length_append, ← Nat.add_assoc]
        exact hends

/-- A row of blocks is decoded to its instructions, with no fault. -/
theorem ofCode_of_tiled (h : Tiled 0 blocks is) : ofCode blocks.flatten = ⟨is, none⟩ := by
  have hresume := resume_of_tiled h [] []
  rw [List.append_nil, List.append_nil, resume, List.reverse_reverse] at hresume
  exact hresume

/-- Code is a row of blocks and an end. -/
theorem exists_tiled_ofCode (code : List UInt8) :
    ∃ blocks rest, code = blocks.flatten ++ rest ∧ Tiled 0 blocks (ofCode code).instructions ∧
      EndsAt blocks.flatten.length rest (ofCode code).fault := by
  obtain ⟨blocks, rest, is, hcode, htiled, hinstructions, hends⟩ := exists_tiled_resume 0 [] code
  rw [List.reverse_nil, List.nil_append] at hinstructions
  rw [Nat.zero_add] at hends
  exact ⟨blocks, rest, hcode, hinstructions ▸ htiled, hends⟩

end Disassembly

end Linkage
