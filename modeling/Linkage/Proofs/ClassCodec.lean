import Linkage.ClassFile.Basic
import Linkage.Proofs.Reading
import Linkage.Proofs.ByteGroups
import Mathlib.Algebra.Ring.Nat

/-!
# Class files and their bytes

The limits of the format are exactly what a class file has to keep to be read back from its bytes
(`ClassFile.parse_toBytes_append_iff`), and the same goes for the bodies of methods
(`MethodBody.ofInfo_write_append_iff`). For each part of a class file there are

* `Fits`: what has room in the format. The writers keep only the low bits of a length, and zero
  stands for a missing index;
* a lemma `reads_…`: the bytes of a part that fits are read as this part, whatever comes after them;
* a lemma `yields_…`: whatever is read fits. Texts fit since a text that is read has no fewer bytes
  than it is written in. A pool may end one slot too late, after a wide constant.
-/

set_option autoImplicit false

namespace Linkage

open ClassReader Fallible

/-! ## Constants -/

namespace Constant

/-- The bytes of a text are counted in two bytes. -/
def Fits : Constant → Prop
  | .utf8 text => (Text.modifiedUtf8 text).length ≤ maxLength
  | _ => True

theorem width_pos (c : Constant) : 0 < c.width := by cases c <;> simp [width]

theorem width_le_two (c : Constant) : c.width ≤ 2 := by cases c <;> simp [width]

theorem reads_write {c : Constant} (hfits : c.Fits) (index : PoolIndex) :
    Reads (read index) c.write c := by
  cases c with
  | utf8 text =>
      refine (reads_u8 1).bind ((reads_shortBytes hfits).bind_map ?_)
      rw [Text.ofModifiedUtf8?_modifiedUtf8]
  | classInfo name => exact (reads_u8 7).bind (reads_u16 name).map
  | fieldRef owner signature =>
      exact (reads_u8 9).bind ((reads_u16 owner).bind (reads_u16 signature).map)
  | methodRef owner signature isInterface =>
      cases isInterface with
      | false => exact (reads_u8 10).bind ((reads_u16 owner).bind (reads_u16 signature).map)
      | true => exact (reads_u8 11).bind ((reads_u16 owner).bind (reads_u16 signature).map)
  | string text => exact (reads_u8 8).bind (reads_u16 text).map
  | integer value => exact (reads_u8 3).bind (reads_u32 value.toUInt32).map
  | float bits => exact (reads_u8 4).bind (reads_u32 bits).map
  | long value => exact (reads_u8 5).bind (reads_u64 value.toUInt64).map
  | double bits => exact (reads_u8 6).bind (reads_u64 bits).map
  | nameAndType name descriptor =>
      exact (reads_u8 12).bind ((reads_u16 name).bind (reads_u16 descriptor).map)
  | methodHandle kind member =>
      refine (reads_u8 15).bind ((reads_u8 kind.code).bind ?_)
      rw [HandleKind.ofCode?_code]
      exact (reads_u16 member).map
  | methodType descriptor => exact (reads_u8 16).bind (reads_u16 descriptor).map
  | dynamic bootstrap signature =>
      exact (reads_u8 17).bind ((reads_u16 bootstrap).bind (reads_u16 signature).map)
  | invokeDynamic bootstrap signature =>
      exact (reads_u8 18).bind ((reads_u16 bootstrap).bind (reads_u16 signature).map)
  | moduleInfo name => exact (reads_u8 19).bind (reads_u16 name).map
  | packageInfo name => exact (reads_u8 20).bind (reads_u16 name).map

/-- A text that is read is not written in more bytes than were read. -/
theorem yields_read (index : PoolIndex) : Yields (read index) Fits := by
  refine yields_bind fun tag => ?_
  split
  case h_1 =>
    refine yields_shortBytes.bind_bind fun bs hlength => ?_
    split
    · rename_i text htext
      exact yields_pure (Nat.le_trans (Text.length_modifiedUtf8_le htext) hlength)
    · exact yields_throw
  case h_12 =>
    refine yields_bind fun code => ?_
    split
    · exact yields_bind fun _ => yields_pure trivial
    · exact yields_throw
  case h_18 => exact yields_throw
  all_goals
    first
      | exact yields_bind fun _ => yields_pure trivial
      | exact yields_bind fun _ => yields_bind fun _ => yields_pure trivial

end Constant

/-! ## Constant pools -/

namespace ConstantPool

/-- Constants in the order of their slots. -/
def constants (p : ConstantPool) : List Constant := p.table.toList.map Prod.snd

/-- Pool of a list of constants, in the slots from 1 on. -/
def ofConstants (cs : List Constant) : ConstantPool := cs.foldl push empty

/-- Number of slots that a list of constants takes. -/
def slotCount (cs : List Constant) : Nat := (cs.map Constant.width).sum

/-- Every constant begins in one of so many slots. The last one may go on beyond them. -/
def BeginWithin : Nat → List Constant → Prop
  | _, [] => True
  | slots, c :: cs => 0 < slots ∧ BeginWithin (slots - c.width) cs

/-- The constants follow each other from slot 1 on, the number of slots, slot 0 included, is counted
in two bytes, and every constant fits. -/
structure Fits (p : ConstantPool) : Prop where
  layout : p = ofConstants p.constants
  slots : p.table.next ≤ maxLength
  constants : ∀ c ∈ p.constants, c.Fits

theorem slotCount_cons (c : Constant) (cs : List Constant) :
    slotCount (c :: cs) = c.width + slotCount cs := List.sum_cons

theorem BeginWithin.eq_nil {cs : List Constant} (h : BeginWithin 0 cs) : cs = [] := by
  cases cs with
  | nil => rfl
  | cons c cs => exact absurd h.1 (Nat.lt_irrefl 0)

theorem beginWithin_slotCount (cs : List Constant) : BeginWithin (slotCount cs) cs := by
  induction cs with
  | nil => trivial
  | cons c cs ih =>
      rw [slotCount_cons]
      refine ⟨Nat.add_pos_left c.width_pos _, ?_⟩
      rwa [Nat.add_sub_cancel_left]

/-- Only a wide constant at the end takes a slot beyond. -/
theorem BeginWithin.slotCount_le {slots : Nat} {cs : List Constant} (h : BeginWithin slots cs) :
    slotCount cs ≤ slots + 1 := by
  induction cs generalizing slots with
  | nil => exact Nat.zero_le _
  | cons c cs ih =>
      obtain ⟨hpos, hcs⟩ := h
      have htwo := c.width_le_two
      rw [slotCount_cons]
      by_cases hlast : slots - c.width = 0
      · rw [hlast] at hcs
        obtain rfl := hcs.eq_nil
        have hzero : slotCount [] = 0 := rfl
        omega
      · have hle := ih hcs
        omega

@[simp] theorem constants_push (p : ConstantPool) (c : Constant) :
    (p.push c).constants = p.constants ++ [c] := by
  simp [constants, push, SlotTable.push, SlotTable.toList]

theorem next_push (p : ConstantPool) (c : Constant) :
    (p.push c).table.next = p.table.next + c.width := rfl

theorem constants_foldl_push (p : ConstantPool) (cs : List Constant) :
    (cs.foldl push p).constants = p.constants ++ cs := by
  induction cs generalizing p with
  | nil => simp
  | cons c cs ih => rw [List.foldl_cons, ih, constants_push, List.append_assoc, List.singleton_append]

theorem next_foldl_push (p : ConstantPool) (cs : List Constant) :
    (cs.foldl push p).table.next = p.table.next + slotCount cs := by
  induction cs generalizing p with
  | nil => rfl
  | cons c cs ih => rw [List.foldl_cons, ih, next_push, slotCount_cons, Nat.add_assoc]

theorem ofConstants_append (cs : List Constant) (c : Constant) :
    ofConstants (cs ++ [c]) = (ofConstants cs).push c := by
  rw [ofConstants, List.foldl_append]
  rfl

theorem constants_ofConstants (cs : List Constant) : (ofConstants cs).constants = cs :=
  constants_foldl_push empty cs

theorem next_ofConstants (cs : List Constant) :
    (ofConstants cs).table.next = 1 + slotCount cs := next_foldl_push empty cs

theorem write_eq (p : ConstantPool) :
    p.write = bigEndian 2 p.table.next ++ p.constants.flatMap Constant.write := by
  rw [write, constants, List.flatMap_map]

/-- One constant takes as many slots as it is wide, or the last one. -/
theorem readSlots_succ (slots : Nat) (p : ConstantPool) :
    readSlots (slots + 1) p =
      (Constant.read (UInt16.ofNat p.table.next) >>= fun c =>
        readSlots (slots + 1 - c.width) (p.push c) : ClassReader ConstantPool) := by
  funext bs
  cases hread : Constant.read (UInt16.ofNat p.table.next) bs with
  | error e => cases slots <;> simp [readSlots, hread, bind, StateT.bind, Except.bind]
  | ok result =>
      obtain ⟨c, rest⟩ := result
      have hpos := c.width_pos
      have htwo := c.width_le_two
      have hstep : (Constant.read (UInt16.ofNat p.table.next) >>= fun c =>
          readSlots (slots + 1 - c.width) (p.push c) : ClassReader ConstantPool) bs =
          readSlots (slots + 1 - c.width) (p.push c) rest := by
        simp [hread, bind, StateT.bind, Except.bind]
      rw [hstep]
      cases slots with
      | zero =>
          -- the last slot is used up by a constant of any width
          have hnone : 0 + 1 - c.width = 0 := by omega
          simp only [readSlots, hread, hnone]
      | succ slots =>
          by_cases hone : c.width = 1
          · simp only [readSlots, hread, hone, if_true, Nat.add_sub_cancel]
          · have hleft : slots + 1 + 1 - c.width = slots := by omega
            simp only [readSlots, hread, if_neg hone, hleft]

theorem reads_readSlots {slots : Nat} {cs : List Constant} (p : ConstantPool)
    (hfits : ∀ c ∈ cs, c.Fits) (hbegin : BeginWithin slots cs) (hslots : slots ≤ slotCount cs) :
    Reads (readSlots slots p) (cs.flatMap Constant.write) (cs.foldl push p) := by
  induction cs generalizing p slots with
  | nil =>
      obtain rfl : slots = 0 := Nat.le_zero.1 hslots
      exact fun _ => rfl
  | cons c cs ih =>
      obtain ⟨hc, hcs⟩ := List.forall_mem_cons.1 hfits
      obtain ⟨hpos, hbegin⟩ := hbegin
      obtain ⟨left, rfl⟩ := Nat.exists_eq_add_one.2 hpos
      rw [slotCount_cons] at hslots
      rw [readSlots_succ, List.flatMap_cons, List.foldl_cons]
      exact (Constant.reads_write hc _).bind (ih (p.push c) hcs hbegin (by omega))

/-- Constants that fit are read as a pool, with a count of slots in which they all begin. -/
theorem reads_of_beginWithin {slots : Nat} {cs : List Constant} (hfits : ∀ c ∈ cs, c.Fits)
    (hbegin : BeginWithin slots cs) (hslots : slots ≤ slotCount cs) (hmax : slots + 1 ≤ maxLength) :
    Reads read (bigEndian 2 (slots + 1) ++ cs.flatMap Constant.write) (ofConstants cs) := by
  have hlt : slots + 1 < 0x10000 := Nat.lt_succ_of_le hmax
  have hcount : (UInt16.ofNat ((slots + 1) % 0x10000)).toNat - 1 = slots := by
    rw [Nat.mod_eq_of_lt hlt, UInt16.toNat_ofNat_of_lt' hlt, Nat.add_sub_cancel]
  refine (reads_u16_bigEndian (slots + 1)).bind ?_
  rw [hcount]
  exact reads_readSlots empty hfits hbegin hslots

theorem reads_write {p : ConstantPool} (hfits : p.Fits) : Reads read p.write p := by
  have hnext : p.table.next = slotCount p.constants + 1 := by
    rw [Nat.add_comm, ← next_ofConstants, ← hfits.layout]
  have hmax := hfits.slots
  rw [hnext] at hmax
  have hread := reads_of_beginWithin hfits.constants (beginWithin_slotCount _) (Nat.le_refl _) hmax
  rwa [← hnext, ← write_eq, ← hfits.layout] at hread

/-- The slots that are read hold constants that fit and begin within the slots. -/
theorem yields_readSlots (slots : Nat) (p : ConstantPool) :
    Yields (readSlots slots p) fun q =>
      ∃ cs, q = cs.foldl push p ∧ (∀ c ∈ cs, c.Fits) ∧ BeginWithin slots cs := by
  induction slots using Nat.strongRecOn generalizing p with
  | _ slots ih =>
      cases slots with
      | zero =>
          intro bs q rest hread
          cases hread
          exact ⟨[], rfl, by simp, trivial⟩
      | succ slots =>
          rw [readSlots_succ]
          refine (Constant.yields_read _).bind fun c hc => ?_
          have hpos := c.width_pos
          refine (ih (slots + 1 - c.width) (by omega) (p.push c)).mono ?_
          rintro q ⟨cs, hq, hcs, hbegin⟩
          exact ⟨c :: cs, hq, List.forall_mem_cons.2 ⟨hc, hcs⟩, Nat.succ_pos slots, hbegin⟩

/-- A pool that is read back from its own bytes fits. Of a pool that ends too late another count is
written, with which fewer slots are read. -/
theorem fits_of_read_write {p : ConstantPool} {bs rest : List UInt8}
    (h : read (p.write ++ bs) = .ok (p, rest)) : p.Fits := by
  rw [write_eq, List.append_assoc] at h
  have hslots := (reads_u16_bigEndian p.table.next).of_bind h
  obtain ⟨cs, hp, hfits, hbegin⟩ := yields_readSlots _ empty _ p rest hslots
  have hconstants : p.constants = cs := by rw [hp]; exact constants_ofConstants cs
  have hnext : p.table.next = 1 + slotCount cs := by rw [hp]; exact next_ofConstants cs
  have hread : (UInt16.ofNat (p.table.next % 0x10000)).toNat = p.table.next % 0x10000 :=
    UInt16.toNat_ofNat_of_lt' (Nat.mod_lt _ (by decide))
  rw [hread] at hbegin
  -- the count that is written is the next slot, cut off to two bytes; a next slot beyond them would
  -- leave a count that is too small for the constants
  refine ⟨by rw [hconstants]; exact hp, ?_, by rwa [hconstants]⟩
  by_cases hlast : p.table.next % 0x10000 - 1 = 0
  · rw [hlast] at hbegin
    rw [hnext, hbegin.eq_nil]
    decide
  · have hcount := hbegin.slotCount_le
    rw [maxLength]
    omega

end ConstantPool

/-! ## Attributes and members -/

/-- The contents of an attribute are counted in four bytes. -/
def Attribute.Fits (a : Attribute) : Prop := a.info.length < byteLimit

theorem Attribute.reads_write {a : Attribute} (hfits : a.Fits) : Reads read a.write a := by
  simp only [write, List.append_assoc]
  exact (reads_u16 a.name).bind ((reads_longBytes hfits).bind_map rfl)

theorem Attribute.yields_read : Yields read Fits :=
  yields_bind fun _ => yields_longBytes.bind_bind fun _ hlength => yields_pure hlength

/-- The attributes of a member fit. -/
def Member.Fits {mask : UInt16} (m : Member mask) : Prop := ListFits Attribute.Fits m.attributes

theorem Member.reads_write {mask : UInt16} {m : Member mask} (hfits : m.Fits) :
    Reads read m.write m := by
  simp only [write, List.append_assoc]
  refine (reads_u16 m.flags.bits).bind ((reads_u16 m.name).bind ((reads_u16 m.descriptor).bind ?_))
  rw [FlagSet.ofBits_bits]
  exact (reads_list hfits fun _ => Attribute.reads_write).map

theorem Member.yields_read {mask : UInt16} : Yields (read : ClassReader (Member mask)) Fits :=
  yields_bind fun _ => yields_bind fun _ => yields_bind fun _ =>
    (yields_list Attribute.yields_read).bind fun _ hattributes => yields_pure hattributes

/-! ## Bodies of methods -/

/-- Zero is no index of a class. -/
def Handler.Fits (h : Handler) : Prop := h.catchType ≠ some 0

theorem Handler.reads_write {h : Handler} (hfits : h.Fits) : Reads read h.write h := by
  simp only [write, List.append_assoc]
  refine (reads_u16 h.start).bind ((reads_u16 h.stop).bind ((reads_u16 h.target).bind ?_))
  exact (reads_optionalIndex hfits).map

theorem Handler.yields_read : Yields read Fits :=
  yields_bind fun _ => yields_bind fun _ => yields_bind fun _ =>
    yields_optionalIndex.bind fun _ hindex => yields_pure hindex

namespace MethodBody

/-- The code is counted in four bytes, and the handlers and the attributes fit. -/
structure Fits (b : MethodBody) : Prop where
  code : b.code.length < byteLimit
  handlers : ListFits Handler.Fits b.handlers
  attributes : ListFits Attribute.Fits b.attributes

theorem reads_write {b : MethodBody} (hfits : b.Fits) : Reads read b.write b := by
  have hcode := reads_longBytes hfits.code
  have hhandlers := reads_list hfits.handlers fun _ => Handler.reads_write
  have hattributes := reads_list hfits.attributes fun _ => Attribute.reads_write
  simp only [write, List.append_assoc]
  refine (reads_u16 b.maxStack).bind ((reads_u16 b.maxLocals).bind ?_)
  rw [← List.append_assoc (bigEndian 4 b.code.length)]
  exact hcode.bind_bind (hhandlers.bind hattributes.map)

theorem yields_read : Yields read Fits :=
  yields_bind fun _ => yields_bind fun _ => yields_longBytes.bind_bind fun _ hcode =>
    (yields_list Handler.yields_read).bind fun _ hhandlers =>
      (yields_list Attribute.yields_read).bind fun _ hattributes =>
        yields_pure ⟨hcode, hhandlers, hattributes⟩

/-- A body is read back from its bytes exactly if it fits, whatever comes after them. -/
theorem ofInfo_write_append_iff (b : MethodBody) :
    (∀ rest, ofInfo (b.write ++ rest) = .ok b) ↔ b.Fits := by
  constructor
  · intro hback
    obtain ⟨rest, hread⟩ := fst_eq_ok_iff.1 (hback [])
    exact yields_read _ b rest hread
  · intro hfits rest
    exact fst_eq_ok_iff.2 ⟨rest, reads_write hfits rest⟩

end MethodBody

/-! ## Class files -/

namespace ClassFile

/-- All parts fit. -/
structure Fits (c : ClassFile) : Prop where
  pool : c.pool.Fits
  superClass : c.superClass ≠ some 0
  interfaces : c.interfaces.length ≤ maxLength
  fields : ListFits Member.Fits c.fields
  methods : ListFits Member.Fits c.methods
  attributes : ListFits Attribute.Fits c.attributes

theorem reads_toBytes {c : ClassFile} (hfits : c.Fits) : Reads read c.toBytes c := by
  have hinterfaces : Reads (list u16) (ClassWriter.list ClassWriter.u16 c.interfaces) c.interfaces :=
    reads_list (p := fun _ => True) ⟨hfits.interfaces, fun _ _ => trivial⟩ fun i _ => reads_u16 i
  have hfields := reads_list hfits.fields fun _ => Member.reads_write
  have hmethods := reads_list hfits.methods fun _ => Member.reads_write
  have hattributes := reads_list hfits.attributes fun _ => Attribute.reads_write
  simp only [toBytes, List.append_assoc]
  refine (reads_take magic).bind ((reads_u16 c.minorVersion).bind ((reads_u16 c.majorVersion).bind ?_))
  refine (ConstantPool.reads_write hfits.pool).bind ((reads_u16 c.flags.bits).bind ?_)
  refine (reads_u16 c.thisClass).bind ((reads_optionalIndex hfits.superClass).bind ?_)
  rw [FlagSet.ofBits_bits]
  exact hinterfaces.bind (hfields.bind (hmethods.bind hattributes.map))

/-- What comes after a pool that fits makes a class file that fits. -/
theorem yields_afterPool (minorVersion majorVersion : UInt16) (pool : ConstantPool) :
    Yields (do
      let flags ← u16
      let thisClass ← u16
      let superClass ← optionalIndex
      let interfaces ← list u16
      let fields ← list Member.read
      let methods ← list Member.read
      let attributes ← list Attribute.read
      return ⟨minorVersion, majorVersion, pool, .ofBits flags, thisClass, superClass, interfaces,
        fields, methods, attributes⟩) fun c : ClassFile => c.pool = pool ∧ (pool.Fits → c.Fits) := by
  refine yields_bind fun flags => yields_bind fun thisClass => ?_
  refine yields_optionalIndex.bind fun superClass hsuper => ?_
  refine (yields_list (yields_true u16)).bind fun interfaces hinterfaces => ?_
  refine (yields_list Member.yields_read).bind fun fields hfields => ?_
  refine (yields_list Member.yields_read).bind fun methods hmethods => ?_
  refine (yields_list Attribute.yields_read).bind fun attributes hattributes => ?_
  refine yields_pure ⟨rfl, fun hpool => ?_⟩
  exact ⟨hpool, hsuper, hinterfaces.1, hfields, hmethods, hattributes⟩

theorem fits_of_read_toBytes {c : ClassFile} {rest : List UInt8}
    (h : read c.toBytes = .ok (c, rest)) : c.Fits := by
  simp only [toBytes, List.append_assoc] at h
  have hminor := (reads_take magic).of_bind h
  have hmajor := (reads_u16 c.minorVersion).of_bind hminor
  have hpool := (reads_u16 c.majorVersion).of_bind hmajor
  obtain ⟨pool, bs, hread, rfl, hfits⟩ := exists_of_bind (yields_afterPool _ _) hpool
  exact hfits (ConstantPool.fits_of_read_write hread)

/-- A class file is read back from its bytes exactly if it fits. -/
theorem parse_toBytes_iff (c : ClassFile) : parse c.toBytes = .ok c ↔ c.Fits := by
  rw [parse, fst_eq_ok_iff]
  constructor
  · rintro ⟨rest, hread⟩
    exact fits_of_read_toBytes hread
  · intro hfits
    have hread := reads_toBytes hfits []
    rw [List.append_nil] at hread
    exact ⟨[], hread⟩

/-- Bytes after the class file make no difference. -/
theorem parse_toBytes_append_iff (c : ClassFile) :
    (∀ rest, parse (c.toBytes ++ rest) = .ok c) ↔ c.Fits := by
  constructor
  · intro hback
    have hparse := hback []
    rw [List.append_nil] at hparse
    exact (parse_toBytes_iff c).1 hparse
  · intro hfits rest
    exact fst_eq_ok_iff.2 ⟨rest, reads_toBytes hfits rest⟩

end ClassFile

/-! ## Reading back -/

/-- Class files and bodies of methods that are read back from their bytes, whatever comes after them,
are those within the limits of the format. -/
theorem readsBack_iff_fits :
    (∀ c : ClassFile, (∀ rest, ClassFile.parse (c.toBytes ++ rest) = .ok c) ↔ c.Fits) ∧
      ∀ b : MethodBody, (∀ rest, MethodBody.ofInfo (b.write ++ rest) = .ok b) ↔ b.Fits :=
  ⟨ClassFile.parse_toBytes_append_iff, MethodBody.ofInfo_write_append_iff⟩

/-- Constants of the class `demo/Sample`, among them one of width two and a text that is no ASCII. -/
def sampleConstants : List Constant :=
  [.utf8 "demo/Sample", .classInfo 1, .long (-1), .utf8 "größe", .utf8 "J", .utf8 "ConstantValue"]

/-- Class `demo/Sample` without a superclass, with a field that holds a constant of width two. -/
def sampleClass : ClassFile where
  minorVersion := 0
  majorVersion := 52
  pool := .ofConstants sampleConstants
  flags := .ofBits 0x21
  thisClass := 2
  superClass := none
  interfaces := []
  fields := [⟨.ofBits 0x19, 5, 6, [⟨7, [0, 3]⟩]⟩]
  methods := []
  attributes := []

/-- Body that returns, with a handler for all exceptions. -/
def sampleBody : MethodBody := ⟨0, 1, [0xb1], [⟨0, 1, 0, none⟩], []⟩

theorem fits_sampleClass : sampleClass.Fits := by
  have hpool : sampleClass.pool.constants = sampleConstants :=
    ConstantPool.constants_ofConstants sampleConstants
  exact
    { pool :=
        { layout := by rw [hpool]; rfl
          slots := by decide
          constants := by
            rw [hpool]
            simp only [sampleConstants, List.forall_mem_cons, Constant.Fits]
            exact ⟨by decide +kernel, trivial, trivial, by decide +kernel, by decide +kernel,
              by decide +kernel, by simp⟩ }
      superClass := nofun
      interfaces := by decide
      fields := by
        simp [sampleClass, ListFits, Member.Fits, Attribute.Fits, maxLength, byteLimit]
      methods := by simp [sampleClass, ListFits]
      attributes := by simp [sampleClass, ListFits] }

theorem readsBack_sample : sampleClass.Fits ∧ sampleBody.Fits ∧
    ClassFile.parse (sampleClass.toBytes ++ [1, 2, 3]) = .ok sampleClass ∧
      MethodBody.ofInfo (sampleBody.write ++ [0]) = .ok sampleBody := by
  have hbody : sampleBody.Fits :=
    { code := by decide
      handlers := by simp [sampleBody, ListFits, Handler.Fits, maxLength]
      attributes := by simp [sampleBody, ListFits] }
  exact ⟨fits_sampleClass, hbody, (readsBack_iff_fits.1 sampleClass).2 fits_sampleClass [1, 2, 3],
    (readsBack_iff_fits.2 sampleBody).2 hbody [0]⟩

end Linkage
