import Linkage.Proofs.CodeCursor

/-!
# Code that is written as it was read

The short and the long form of a load make the same instruction, and so do all values of the bytes of a
call that have no meaning. So code is not always written again as it was read.

* `CanonicalAt`: an instruction in code is in the form in which instructions are written.
* `Instruction.encode_ofOperands_cases`: what the instruction of a block of bytes is written as.
* `Disassembly.assemble_eq_iff_canonical`: the main result. The instructions of code are written as that
  code exactly if all of them are in that form. A load that gets shorter moves everything behind it, and
  nothing gets longer to make up for it.
-/

set_option autoImplicit false

namespace Linkage

/-- The instruction at the front of the code is in the form in which it is written: a load in the long
form has an index that does not fit into the short one, and the bytes without a meaning are zero, which
are the last one of a call through an interface and the last two of a dynamic call. -/
structure CanonicalAt (code : List UInt8) : Prop where
  load : ∀ high low rest, code = 0x13 :: high :: low :: rest →
    256 ≤ (Instruction.indexOf high low).toNat
  interface : ∀ high low count last rest, code = 0xb9 :: high :: low :: count :: last :: rest →
    last = 0
  dynamic : ∀ high low third last rest, code = 0xba :: high :: low :: third :: last :: rest →
    third = 0 ∧ last = 0

variable {code rest : List UInt8} {opcode high low count third last : UInt8}

theorem canonicalAt_load_iff : CanonicalAt (0x13 :: high :: low :: rest) ↔
    256 ≤ (Instruction.indexOf high low).toNat := by
  refine ⟨fun h => h.load high low rest rfl, fun hlong => ⟨?_, ?_, ?_⟩⟩
  · rintro _ _ _ ⟨⟩
    exact hlong
  · simp
  · simp

theorem canonicalAt_interface_iff : CanonicalAt (0xb9 :: high :: low :: count :: last :: rest) ↔
    last = 0 := by
  refine ⟨fun h => h.interface high low count last rest rfl, fun hzero => ⟨?_, ?_, ?_⟩⟩
  · simp
  · rintro _ _ _ _ _ ⟨⟩
    exact hzero
  · simp

theorem canonicalAt_dynamic_iff : CanonicalAt (0xba :: high :: low :: third :: last :: rest) ↔
    third = 0 ∧ last = 0 := by
  refine ⟨fun h => h.dynamic high low third last rest rfl, fun hzero => ⟨?_, ?_, ?_⟩⟩
  · simp
  · simp
  · rintro _ _ _ _ _ ⟨⟩
    exact hzero

/-- No condition is about another opcode. -/
theorem canonicalAt_of_ne (hload : opcode ≠ 0x13) (hinterface : opcode ≠ 0xb9)
    (hdynamic : opcode ≠ 0xba) : CanonicalAt (opcode :: rest) := by
  refine ⟨?_, ?_, ?_⟩
  · rintro _ _ _ ⟨⟩
    exact absurd rfl hload
  · rintro _ _ _ _ _ ⟨⟩
    exact absurd rfl hinterface
  · rintro _ _ _ _ _ ⟨⟩
    exact absurd rfl hdynamic

namespace Instruction

variable {offset : Nat} {opcode : UInt8} {operands rest block : List UInt8} {i : Instruction}

/-! ## One instruction -/

theorem toNat_indexOf (high low : UInt8) :
    (indexOf high low).toNat = 256 * high.toNat + low.toNat := by
  have hhigh := high.toNat_lt
  have hlow := low.toNat_lt
  rw [indexOf, UInt16.toNat_ofNat']
  exact Nat.mod_eq_of_lt (by omega)

/-- An index is written in the two bytes that it is read from. -/
theorem u16_indexOf (high low : UInt8) : ClassWriter.u16 (indexOf high low) = [high, low] := by
  have hlow := low.toNat_lt
  have hbytes : ClassWriter.u16 (indexOf high low) =
      [UInt8.ofNat ((indexOf high low).toNat / 256), UInt8.ofNat (indexOf high low).toNat] := rfl
  rw [hbytes, toNat_indexOf, show (256 * high.toNat + low.toNat) / 256 = high.toNat by omega,
    UInt8.ofNat_toNat]
  congr 2
  rw [← UInt8.toNat_inj, UInt8.toNat_ofNat']
  omega

/-- An instruction that is not told apart has another opcode than those that are. -/
theorem opcode_of_operands (h : Operands offset opcode operands) :
    opcode.toNat ∉ ownForms.map Prod.fst := by
  cases h with
  | plain htakes => exact (takesOperands_cases htakes).2
  | wide _ _ | wideIncrement _ | tableSwitch _ _ _ _ _ | lookupSwitch _ _ _ _ => decide

/-- What the instruction of a block is written as: the block itself, but for the forms that lose
something. -/
theorem encode_ofOperands_cases (h : TakesAt offset opcode operands) :
    (opcode ≠ 0x13 ∧ opcode ≠ 0xb9 ∧ opcode ≠ 0xba ∧
      encode (ofOperands opcode operands) = opcode :: operands) ∨
    (∃ high low, opcode = 0x13 ∧ operands = [high, low] ∧ encode (ofOperands opcode operands) =
      if indexOf high low < 256 then [0x12, (indexOf high low).toUInt8] else opcode :: operands) ∨
    (∃ high low count last, opcode = 0xb9 ∧ operands = [high, low, count, last] ∧
      encode (ofOperands opcode operands) = [0xb9, high, low, count, 0]) ∨
    (∃ high low third last, opcode = 0xba ∧ operands = [high, low, third, last] ∧
      encode (ofOperands opcode operands) = [0xba, high, low, 0, 0]) := by
  rcases h with hoperands | hown
  · have hother := opcode_of_operands hoperands
    refine Or.inl ⟨?_, ?_, ?_, ?_⟩
    · rintro rfl
      exact hother (by decide)
    · rintro rfl
      exact hother (by decide)
    · rintro rfl
      exact hother (by decide)
    · rw [ofOperands_eq_other hother, encode]
  · have hopcode : ∀ {n}, opcode.toNat = n → opcode = UInt8.ofNat n := by
      rintro n rfl
      exact UInt8.ofNat_toNat.symm
    -- the forms by their numbers of bytes, which are one to four
    rcases operands with _ | ⟨a, _ | ⟨b, _ | ⟨c, _ | ⟨d, _ | ⟨e, rest⟩⟩⟩⟩⟩ <;>
      simp [ownForms] at hown
    · obtain rfl := hopcode hown
      refine Or.inl ⟨by decide, by decide, by decide, ?_⟩
      have hshort : a.toUInt16 < 256 := by
        rw [UInt16.lt_iff_toNat_lt, UInt8.toNat_toUInt16]
        exact a.toNat_lt
      have hencode : encode (.load a.toUInt16) = [0x12, a.toUInt16.toUInt8] := if_pos hshort
      rwa [UInt8.toUInt8_toUInt16] at hencode
    · rcases hown with h | h | h | h | h | h | h | h | h | h | h | h | h
      · obtain rfl := hopcode h
        refine Or.inr (Or.inl ⟨a, b, rfl, rfl, ?_⟩)
        have hencode : encode (.load (indexOf a b)) = if indexOf a b < 256 then
            [0x12, (indexOf a b).toUInt8] else 0x13 :: ClassWriter.u16 (indexOf a b) := rfl
        rwa [u16_indexOf] at hencode
      all_goals
        obtain rfl := hopcode h
        refine Or.inl ⟨by decide, by decide, by decide, ?_⟩
        exact congrArg (_ :: ·) (u16_indexOf a b)
    · obtain rfl := hopcode hown
      refine Or.inl ⟨by decide, by decide, by decide, ?_⟩
      exact congrArg (fun bytes => 0xc5 :: (bytes ++ [c])) (u16_indexOf a b)
    · rcases hown with h | h
      · obtain rfl := hopcode h
        refine Or.inr (Or.inr (Or.inl ⟨a, b, c, d, rfl, rfl, ?_⟩))
        exact congrArg (fun bytes => 0xb9 :: (bytes ++ [c, 0])) (u16_indexOf a b)
      · obtain rfl := hopcode h
        refine Or.inr (Or.inr (Or.inr ⟨a, b, c, d, rfl, rfl, ?_⟩))
        exact congrArg (fun bytes => 0xba :: (bytes ++ [0, 0])) (u16_indexOf a b)

/-- An instruction is written as its block exactly if the block is in the form in which it is written. -/
theorem encode_eq_iff_canonicalAt (h : Spells offset block i) (rest : List UInt8) :
    i.encode = block ↔ CanonicalAt (block ++ rest) := by
  cases h with
  | @intro opcode operands htakes =>
      rcases encode_ofOperands_cases htakes with ⟨hload, hinterface, hdynamic, hencode⟩ |
        ⟨high, low, rfl, rfl, hencode⟩ | ⟨high, low, count, last, rfl, rfl, hencode⟩ |
        ⟨high, low, third, last, rfl, rfl, hencode⟩
      · exact iff_of_true hencode (canonicalAt_of_ne hload hinterface hdynamic)
      · refine Iff.trans ?_ canonicalAt_load_iff.symm
        rw [hencode, ← Nat.not_lt]
        split
        · rename_i hshort
          exact iff_of_false (by simp) fun hlong => hlong (UInt16.lt_iff_toNat_lt.1 hshort)
        · rename_i hlong
          exact iff_of_true rfl fun hshort => hlong (UInt16.lt_iff_toNat_lt.2 hshort)
      · refine Iff.trans ?_ canonicalAt_interface_iff.symm
        rw [hencode]
        simp [eq_comm]
      · refine Iff.trans ?_ canonicalAt_dynamic_iff.symm
        rw [hencode]
        simp [eq_comm]

/-- No instruction is written in more bytes than it is read from. -/
theorem length_encode_le (h : Spells offset block i) : i.encode.length ≤ block.length := by
  cases h with
  | @intro opcode operands htakes =>
      rcases encode_ofOperands_cases htakes with ⟨-, -, -, hencode⟩ | ⟨high, low, rfl, rfl, hencode⟩ |
        ⟨high, low, count, last, rfl, rfl, hencode⟩ | ⟨high, low, third, last, rfl, rfl, hencode⟩
      · exact Nat.le_of_eq (congrArg List.length hencode)
      · rw [hencode]
        split
        · exact Nat.le_succ 2
        · exact Nat.le_refl 3
      · rw [hencode]
        exact Nat.le_refl 5
      · rw [hencode]
        exact Nat.le_refl 5

end Instruction

/-! ## Rows of instructions -/

open Instruction

variable {offset : Nat} {blocks : List (List UInt8)} {is : List (Nat × Instruction)}

/-- The instructions of a row of blocks are not written in more bytes. -/
theorem Tiled.length_assemble_le (h : Tiled offset blocks is) :
    (assemble (is.map Prod.snd)).length ≤ blocks.flatten.length := by
  induction h with
  | nil => exact Nat.le_refl 0
  | cons hspells _ ih =>
      have hhead := length_encode_le hspells
      simp only [List.map_cons, assemble_cons, List.flatten_cons, List.length_append]
      omega

/-- The instructions of a row of blocks in code are written as the blocks exactly if all of them are in
the form in which they are written. -/
theorem Tiled.assemble_eq_iff (h : Tiled offset blocks is) {code rest : List UInt8}
    (hcode : code.drop offset = blocks.flatten ++ rest) :
    assemble (is.map Prod.snd) = blocks.flatten ↔
      ∀ o i, (o, i) ∈ is → CanonicalAt (code.drop o) := by
  induction h with
  | nil => exact iff_of_true rfl nofun
  | @cons offset block i blocks is hspells htiled ih =>
      rw [List.flatten_cons, List.append_assoc] at hcode
      have hbehind : code.drop (offset + block.length) = blocks.flatten ++ rest := by
        rw [← List.drop_drop, hcode, List.drop_left]
      simp only [List.map_cons, assemble_cons, List.flatten_cons]
      constructor
      · -- neither part is longer than what it is read from, so the two meet where the block ends
        intro heq
        have hlengths := congrArg List.length heq
        rw [List.length_append, List.length_append] at hlengths
        have hhead := length_encode_le hspells
        have htail := htiled.length_assemble_le
        obtain ⟨hblock, hblocks⟩ := List.append_inj heq (by omega)
        intro o j hmem
        rcases List.mem_cons.1 hmem with hfirst | hlater
        · cases hfirst
          rw [hcode]
          exact (encode_eq_iff_canonicalAt hspells _).1 hblock
        · exact (ih hbehind).1 hblocks o j hlater
      · intro hcanonical
        have hblock : i.encode = block := by
          apply (encode_eq_iff_canonicalAt hspells (blocks.flatten ++ rest)).2
          rw [← hcode]
          exact hcanonical offset i List.mem_cons_self
        rw [hblock, (ih hbehind).2 fun o j hmem => hcanonical o j (List.mem_cons_of_mem _ hmem)]

namespace Disassembly

/-- The instructions of code that is decoded without a fault are written as that code exactly if it is
canonical at each of them: no load in the long form has an index below 256, the fourth operand byte of
every call through an interface is zero, and so are the last two of every dynamic call. -/
theorem assemble_eq_iff_canonical (code : List UInt8) (hdecoded : (ofCode code).fault = none) :
    assemble ((ofCode code).instructions.map Prod.snd) = code ↔
      ∀ offset i, (offset, i) ∈ (ofCode code).instructions → CanonicalAt (code.drop offset) := by
  obtain ⟨blocks, rest, hcode, htiled, hends⟩ := exists_tiled_ofCode code
  rw [hdecoded] at hends
  cases hends
  have hrow := htiled.assemble_eq_iff hcode
  rw [List.append_nil] at hcode
  rwa [← hcode] at hrow

/-- A load in the long form with a small index, a switch whose table starts behind its opcode, and a
return. -/
def longLoad : List UInt8 :=
  [0x13, 0x00, 0x05, 0xaa, 0x00, 0x00, 0x00, 0x11, 0x00, 0x00, 0x00, 0x00, 0x00, 0x00, 0x00, 0x00,
    0x00, 0x00, 0x00, 0x11, 0xb1]

/-- The load is written in two bytes, and the switch behind it as it was, so the code is not canonical. -/
theorem assemble_eq_iff_canonical_longLoad :
    (ofCode longLoad).fault = none ∧
      ¬ ∀ offset i, (offset, i) ∈ (ofCode longLoad).instructions →
        CanonicalAt (longLoad.drop offset) := by
  have hdecoded : (ofCode longLoad).fault = none := by decide +kernel
  have hshorter : assemble ((ofCode longLoad).instructions.map Prod.snd) ≠ longLoad := by
    decide +kernel
  exact ⟨hdecoded, fun hcanonical =>
    hshorter ((assemble_eq_iff_canonical longLoad hdecoded).2 hcanonical)⟩

end Disassembly

end Linkage
