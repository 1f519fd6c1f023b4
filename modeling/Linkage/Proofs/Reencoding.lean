import Linkage.Proofs.Lookup

/-!
# Class files that are written again

A class file that has been read is read again from its own bytes, however the bytes were written that
it came from: overlong texts, flags that mean nothing and bytes after the end are gone after the first
reading. There is one exception (`ClassFile.parse_toBytes_iff_of_parse`). The reader takes a wide constant
that begins in the last slot, and the slot after that has a number that the writer cuts off, as in the
class of `ClassFile.parse_toBytes_crowded`.
-/

set_option autoImplicit false

namespace Linkage

open ClassReader Fallible

/-! ## Pools that are read -/

namespace ConstantPool

variable {cs ds : List Constant} {c : Constant} {slots : Nat}

/-- Number of the last slot that a pool of the greatest count has. -/
def lastSlot : Nat := 65534

theorem BeginWithin.mono {slots' : Nat} (h : BeginWithin slots cs) (hle : slots ≤ slots') :
    BeginWithin slots' cs := by
  induction cs generalizing slots slots' with
  | nil => trivial
  | cons c cs ih =>
      obtain ⟨hpos, hcs⟩ := h
      exact ⟨Nat.lt_of_lt_of_le hpos hle, ih hcs (by omega)⟩

/-- The last constant begins after the slots of the ones before it. -/
theorem BeginWithin.slotCount_lt (h : BeginWithin slots (ds ++ [c])) : slotCount ds < slots := by
  induction ds generalizing slots with
  | nil => exact h.1
  | cons d ds ih =>
      obtain ⟨hpos, hds⟩ := h
      have hlt := ih hds
      rw [slotCount_cons]
      omega

theorem slotCount_append (cs ds : List Constant) :
    slotCount (cs ++ ds) = slotCount cs + slotCount ds := by
  rw [slotCount, List.map_append, List.sum_append]
  rfl

/-- More constants at the end leave it so that every constant ends before the next slot. -/
theorem add_width_le_next_foldl_push {p : ConstantPool} (cs : List Constant)
    (h : ∀ x ∈ p.table.toList, x.1 + x.2.width ≤ p.table.next) :
    ∀ x ∈ (cs.foldl push p).table.toList, x.1 + x.2.width ≤ (cs.foldl push p).table.next := by
  induction cs generalizing p with
  | nil => exact h
  | cons c cs ih =>
      apply ih
      intro x hx
      rw [push, SlotTable.toList_push, List.mem_append, List.mem_singleton] at hx
      rw [next_push]
      rcases hx with hx | rfl
      · have hle := h x hx
        omega
      · exact Nat.le_refl _

theorem add_width_le_next {x : Nat × Constant} (hx : x ∈ (ofConstants cs).table.toList) :
    x.1 + x.2.width ≤ (ofConstants cs).table.next :=
  add_width_le_next_foldl_push cs (by simp [empty, SlotTable.startingAt, SlotTable.toList]) x hx

/-- The next slot is beyond what is counted in two bytes exactly if a wide constant begins in the last
slot. -/
theorem next_le_maxLength_iff (hbegin : BeginWithin lastSlot cs) :
    (ofConstants cs).table.next ≤ maxLength ↔
      ∀ c, (ofConstants cs).get? (UInt16.ofNat lastSlot) = some c → c.width = 1 := by
  have hlast : (UInt16.ofNat lastSlot).toNat = lastSlot := rfl
  have hslot : lastSlot = 65534 := rfl
  have hmax : maxLength = 65535 := rfl
  constructor
  · intro hnext c hget
    have hmem := (get?_eq_some_iff (sorted_ofConstants cs)).1 hget
    rw [hlast] at hmem
    have hend := add_width_le_next hmem
    have hpos := c.width_pos
    simp only at hend
    omega
  · intro hnarrow
    have hcount := hbegin.slotCount_le
    rcases List.eq_nil_or_concat' cs with rfl | ⟨ds, c, rfl⟩
    · exact Nat.le_of_ble_eq_true rfl
    · -- the last constant has the last slot if the next slot is beyond two bytes
      have hbefore := hbegin.slotCount_lt
      have hsplit := slotCount_append ds [c]
      have hone : slotCount [c] = c.width := rfl
      have htwo := c.width_le_two
      rw [next_ofConstants]
      by_contra hbeyond
      have hoffset : (UInt16.ofNat lastSlot).toNat = (ofConstants ds).table.next := by
        rw [hlast, next_ofConstants]
        omega
      have hget : (ofConstants (ds ++ [c])).get? (UInt16.ofNat lastSlot) = some c := by
        rw [ofConstants_append]
        exact (get?_push_iff (sorted_ofConstants ds)).2 (Or.inr ⟨hoffset, rfl⟩)
      have hwidth := hnarrow c hget
      omega

/-- A pool that is read has constants that fit and begin up to the last slot. -/
theorem yields_read : Yields read fun p =>
    ∃ cs, p = ofConstants cs ∧ (∀ c ∈ cs, c.Fits) ∧ BeginWithin lastSlot cs := by
  refine yields_bind fun count => ?_
  refine (yields_readSlots (count.toNat - 1) empty).mono ?_
  rintro p ⟨cs, hp, hfits, hbegin⟩
  refine ⟨cs, hp, hfits, hbegin.mono ?_⟩
  have hcount := count.toNat_lt
  have hslot : lastSlot = 65534 := rfl
  omega

end ConstantPool

/-! ## Class files that are read -/

namespace ClassFile

open ConstantPool

/-- Of what is read, only the pool may not fit. -/
theorem yields_read : Yields read fun c =>
    (c.pool.Fits → c.Fits) ∧ ∃ cs, c.pool = ofConstants cs ∧ (∀ k ∈ cs, k.Fits) ∧
      BeginWithin lastSlot cs := by
  refine yields_bind fun start => ?_
  split
  · exact (yields_throw (p := fun _ => False)).bind fun _ hfalse => hfalse.elim
  · refine yields_bind fun minorVersion => yields_bind fun majorVersion => ?_
    refine ConstantPool.yields_read.bind fun pool hpool => ?_
    refine (yields_afterPool minorVersion majorVersion pool).mono ?_
    rintro c ⟨rfl, hfits⟩
    exact ⟨hfits, hpool⟩

/-- A class file that has been read is read again from its own bytes, unless a wide constant begins in
the last slot of its pool. -/
theorem parse_toBytes_iff_of_parse {bytes : List UInt8} {c : ClassFile} (h : parse bytes = .ok c) :
    parse c.toBytes = .ok c ↔
      ∀ k, c.pool.get? (UInt16.ofNat lastSlot) = some k → k.width = 1 := by
  obtain ⟨rest, hread⟩ := fst_eq_ok_iff.1 h
  obtain ⟨hfits, cs, hpool, hconstants, hbegin⟩ := yields_read bytes c rest hread
  rw [parse_toBytes_iff, hpool, ← next_le_maxLength_iff hbegin, ← hpool]
  constructor
  · intro hc
    exact hc.pool.slots
  · intro hnext
    have hcs : c.pool.constants = cs := by rw [hpool, constants_ofConstants]
    exact hfits ⟨by rw [hcs, hpool], hnext, by rwa [hcs]⟩

theorem parse_toBytes_sample : parse (sampleClass.toBytes ++ [1, 2, 3]) = .ok sampleClass ∧
    parse sampleClass.toBytes = .ok sampleClass := by
  have hparse := (parse_toBytes_append_iff sampleClass).2 fits_sampleClass [1, 2, 3]
  refine ⟨hparse, (parse_toBytes_iff_of_parse hparse).2 ?_⟩
  intro k hget
  have hmem := (get?_eq_some_iff (sorted_ofConstants sampleConstants)).1 hget
  simp [lastSlot, ofConstants, sampleConstants, push, SlotTable.push, SlotTable.toList, empty,
    SlotTable.startingAt, Constant.width] at hmem

/-- Constants of the class `lib/Crowded`: its name, some texts of that name, and a wide constant. -/
def crowdedConstants (texts : Nat) : List Constant :=
  .utf8 "lib/Crowded" :: .classInfo 1 :: (List.replicate texts (.string 1) ++ [.long 0])

/-- Class `lib/Crowded`. -/
def crowdedClass (texts : Nat) : ClassFile where
  minorVersion := 0
  majorVersion := 52
  pool := .ofConstants (crowdedConstants texts)
  flags := .ofBits 0x21
  thisClass := 2
  superClass := none
  interfaces := []
  fields := []
  methods := []
  attributes := []

/-- Bytes of this class with a count of slots that ends in the middle of the wide constant. -/
def crowdedBytes (texts : Nat) : List UInt8 :=
  magic ++ (ClassWriter.u16 0 ++ (ClassWriter.u16 52 ++ ((bigEndian 2 (texts + 4) ++
    (crowdedConstants texts).flatMap Constant.write) ++ (ClassWriter.u16 0x21 ++
      (ClassWriter.u16 2 ++ (ClassWriter.optionalIndex none ++
        ([0, 0] ++ ([0, 0] ++ ([0, 0] ++ [0, 0])))))))))

/-- Two zero bytes are an empty list. -/
theorem reads_nil {α : Type} (read : ClassReader α) : Reads (list read) [0, 0] [] := by
  have hfits : ListFits (fun _ : α => False) [] := ⟨Nat.zero_le _, nofun⟩
  have hread : ∀ a : α, False → Reads read [] a := nofun
  have hzero : ClassWriter.list (fun _ : α => []) [] = [0, 0] := by simp [ClassWriter.list, bigEndian]
  rw [← hzero]
  exact reads_list hfits hread

theorem fits_crowdedConstants (texts : Nat) : ∀ c ∈ crowdedConstants texts, c.Fits := by
  intro c hc
  simp only [crowdedConstants, List.mem_cons, List.mem_append, List.not_mem_nil, or_false] at hc
  obtain rfl | rfl | hc | rfl := hc
  · exact Nat.le_of_ble_eq_true rfl
  · trivial
  · rw [List.eq_of_mem_replicate hc]
    trivial
  · trivial

theorem beginWithin_crowdedConstants (texts : Nat) :
    BeginWithin (texts + 3) (crowdedConstants texts) := by
  have hend : BeginWithin (texts + 1) (List.replicate texts (.string 1) ++ [.long 0]) := by
    induction texts with
    | zero => exact ⟨Nat.one_pos, trivial⟩
    | succ texts ih => exact ⟨Nat.succ_pos _, ih⟩
  exact ⟨Nat.succ_pos _, Nat.succ_pos _, hend⟩

theorem slotCount_crowdedConstants (texts : Nat) : slotCount (crowdedConstants texts) = texts + 4 := by
  have hfill : slotCount (List.replicate texts (.string 1)) = texts := by
    induction texts with
    | zero => rfl
    | succ texts ih =>
        rw [List.replicate_succ, slotCount_cons, ih]
        exact Nat.add_comm 1 texts
  rw [crowdedConstants, slotCount_cons, slotCount_cons, slotCount_append, hfill]
  simp only [Constant.width, slotCount, List.map_cons, List.map_nil, List.sum_cons, List.sum_nil]
  omega

/-- The class is read as long as the wide constant begins within what is counted in two bytes. -/
theorem parse_crowdedBytes {texts : Nat} (h : texts + 4 ≤ maxLength) :
    parse (crowdedBytes texts) = .ok (crowdedClass texts) := by
  have hcount := slotCount_crowdedConstants texts
  have hpool := ConstantPool.reads_of_beginWithin (fits_crowdedConstants texts)
    (beginWithin_crowdedConstants texts) (by omega) h
  have hread : Reads read (crowdedBytes texts) (crowdedClass texts) := by
    refine (reads_take magic).bind ((reads_u16 0).bind ((reads_u16 52).bind ?_))
    refine hpool.bind ((reads_u16 0x21).bind ((reads_u16 2).bind ?_))
    have hsuper : (none : Option PoolIndex) ≠ some 0 := nofun
    refine (reads_optionalIndex hsuper).bind ((reads_nil u16).bind ?_)
    exact (reads_nil Member.read).bind ((reads_nil Member.read).bind (reads_nil Attribute.read).map)
  apply fst_eq_ok_iff.2
  refine ⟨[], ?_⟩
  have hall := hread []
  rwa [List.append_nil] at hall

/-- It does not fit as soon as the wide constant ends beyond that. -/
theorem not_fits_crowdedClass {texts : Nat} (h : maxLength < texts + 5) :
    ¬ (crowdedClass texts).Fits := by
  intro hfits
  have hslots : (ofConstants (crowdedConstants texts)).table.next ≤ maxLength := hfits.pool.slots
  rw [next_ofConstants, slotCount_crowdedConstants] at hslots
  omega

/-- A class whose pool ends after the last slot is read, but not from the bytes that are written of
it. -/
theorem parse_toBytes_crowded : parse (crowdedBytes 65531) = .ok (crowdedClass 65531) ∧
    parse (crowdedClass 65531).toBytes ≠ .ok (crowdedClass 65531) := by
  constructor
  · apply parse_crowdedBytes
    exact Nat.le_of_ble_eq_true rfl
  · rw [ne_eq, parse_toBytes_iff]
    apply not_fits_crowdedClass
    exact Nat.le_of_ble_eq_true rfl

end ClassFile

end Linkage
