import Linkage.Proofs.Disassembling
import Linkage.Proofs.OwnWalks
import Linkage.Proofs.Room

/-!
# Built classes as they are seen

A class that is built is the class that is seen: its bytes are read back, its outline has the names and
the members that were asked for, and its methods have the bodies that were asked for.

* `ClassBuilder.Shows.fits`: what a builder has stored fits into the format if the class keeps to the
  limits (`ClassSpec.WithinLimits`).
* `ClassBuilder.Shows.exists_outline`: the outline of a class with valid names (`ClassSpec.IsValid`) is the
  one that was asked for (`ClassSpec.OutlinedBy`).
* `BodySpec.StoredIn.seenIn`: the body of a method is the one that was asked for (`BodySpec.SeenIn`). Its
  code is what the instructions are encoded to, and it is decoded to them exactly if those that are not
  told apart have the operands of their opcodes.
* `ClassSpec.parse_build`: all of this for the class that is read from the bytes.
-/

set_option autoImplicit false

namespace Linkage

open Fallible PoolBuilder ClassReader

/-! ## What is asked for -/

/-- All names and descriptors are valid. The names of the class and of its superclass always are. -/
structure ClassSpec.IsValid (c : ClassSpec) : Prop where
  interfaces : ∀ text ∈ c.interfaces, ∃ name : BinaryName, name.text = text
  fields : ∀ f ∈ c.fields, (∃ name : UnqualifiedName, name.text = f.name) ∧
    ∃ type, FieldType.parse f.descriptor = .ok type
  methods : ∀ m ∈ c.methods, (∃ name : UnqualifiedName, name.text = m.name) ∧
    ∃ descriptor, MethodDescriptor.parse m.descriptor = .ok descriptor

/-- Limits of the format: the bytes of a text and the elements of a list are counted in two bytes, and the
bytes of the attributes that hold the bodies in four. -/
structure ClassSpec.WithinLimits (c : ClassSpec) (built : ClassFile) : Prop where
  texts : ∀ t ∈ c.texts, (Text.modifiedUtf8 t).length ≤ maxLength
  interfaces : c.interfaces.length ≤ maxLength
  fields : c.fields.length ≤ maxLength
  methods : c.methods.length ≤ maxLength
  handlers : ∀ m ∈ c.methods, ∀ body, m.body = some body → body.handlers.length ≤ maxLength
  attributes : ∀ m ∈ built.methods, ∀ a ∈ m.attributes, a.info.length < byteLimit

/-- The declared member has the given name and the type that the descriptor tells, and its visibility and
whether it is static are those of the flags. -/
structure DeclaredMember.IsFor {mask : UInt16} {type : Type}
    (parse : String → Except DescriptorError type) (flags : FlagSet mask) (name descriptor : String)
    (d : DeclaredMember type) : Prop where
  name : d.name.text = name
  descriptor : parse descriptor = .ok d.descriptor
  visibility : d.visibility = flags.memberVisibility
  isStatic : d.isStatic = flags.isStatic

/-- The declared field is the given one. -/
def FieldSpec.DeclaredAs (f : FieldSpec) (d : DeclaredField) : Prop :=
  d.IsFor FieldType.parse f.flags f.name f.descriptor

/-- The declared method is the given one. -/
def MethodSpec.DeclaredAs (m : MethodSpec) (d : DeclaredMethod) : Prop :=
  d.IsFor MethodDescriptor.parse m.flags m.name m.descriptor

/-- The outline has what the class was asked to have, in order. -/
structure ClassSpec.OutlinedBy (c : ClassSpec) (outline : ClassOutline) : Prop where
  name : outline.name = c.name
  superClass : outline.superClass = c.superName
  interfaces : outline.interfaces.map BinaryName.text = c.interfaces
  isInterface : outline.isInterface = c.flags.isInterface
  visibility : outline.visibility = c.flags.classVisibility
  fields : List.Forall₂ FieldSpec.DeclaredAs c.fields outline.fields
  methods : List.Forall₂ MethodSpec.DeclaredAs c.methods outline.methods

/-- The body has the given handlers, and its code is what the given instructions are encoded to. It is
decoded to exactly these instructions, each at its offset, if and only if those that are not told apart
have the operands of their opcodes. -/
structure BodySpec.SeenAs (p : ConstantPool) (body : BodySpec) (seen : MethodBody) : Prop where
  handlers : List.Forall₂ (HandlerSpec.SeenAs p) body.handlers seen.handlers
  code : ∃ instructions, List.Forall₂ (CodeSpec.Denotes p) body.code instructions ∧
    seen.code = Instruction.assemble instructions ∧
    (Disassembly.ofCode seen.code = ⟨Instruction.located 0 instructions, none⟩ ↔
      Instruction.FitFrom 0 instructions)

/-- The method has a body exactly if one was asked for, and then that one. -/
def BodySpec.SeenIn (p : ConstantPool) (method : Method) : Option BodySpec → Prop
  | none => method.body? p = .ok none
  | some body => ∃ seen, method.body? p = .ok (some seen) ∧ body.SeenAs p seen

/-! ## Relations between lists -/

section Lists

variable {α β γ : Type} {r : α → β → Prop} {xs : List α} {ys : List β}

theorem exists_left_of_forall₂ (h : List.Forall₂ r xs ys) {y : β} (hy : y ∈ ys) : ∃ x ∈ xs, r x y := by
  induction h with
  | nil => cases hy
  | @cons x y' xs ys hxy _ ih =>
      rcases List.mem_cons.1 hy with rfl | hy
      · exact ⟨x, List.mem_cons_self, hxy⟩
      · obtain ⟨x', hmem, hx'⟩ := ih hy
        exact ⟨x', List.mem_cons_of_mem x hmem, hx'⟩

/-- If there is something for every pair, there is a list for both lists. -/
theorem exists_forall₂ {s : β → γ → Prop} {t : α → γ → Prop} (h : List.Forall₂ r xs ys)
    (hexists : ∀ x ∈ xs, ∀ y, r x y → ∃ z, s y z ∧ t x z) :
    ∃ zs, List.Forall₂ s ys zs ∧ List.Forall₂ t xs zs := by
  induction h with
  | nil => exact ⟨[], .nil, .nil⟩
  | @cons x y xs ys hxy _ ih =>
      obtain ⟨z, hyz, hxz⟩ := hexists x List.mem_cons_self y hxy
      obtain ⟨zs, hyzs, hxzs⟩ := ih fun x' hx' => hexists x' (List.mem_cons_of_mem x hx')
      exact ⟨z :: zs, .cons hyz hyzs, .cons hxz hxzs⟩

end Lists

/-! ## Names in class files -/

theorem ClassError.binaryName_text (name : BinaryName) : binaryName name.text = .ok name :=
  mapError_eq_ok_iff.2 (BinaryName.ofText_eq_ok_iff.2 rfl)

theorem ClassError.text_of_binaryName {text : String} {name : BinaryName}
    (h : binaryName text = .ok name) : name.text = text :=
  BinaryName.ofText_eq_ok_iff.1 (mapError_eq_ok_iff.1 h)

theorem ClassError.unqualifiedName_text (name : UnqualifiedName) :
    unqualifiedName name.text = .ok name :=
  mapError_eq_ok_iff.2 (UnqualifiedName.ofText_eq_ok_iff.2 rfl)

/-! ## Fitting into the format -/

theorem rel_ne_zero {b : PoolBuilder} (hb : b.Faithful) {α : Type} (textOf : α → String) {a : Option α}
    {i : Option PoolIndex} (h : Option.Rel (fun a => b.pool.Names (textOf a)) a i) : i ≠ some 0 := by
  cases h with
  | none => exact nofun
  | some hname =>
      intro hzero
      exact hb.ne_zero hname (Option.some.inj hzero)

theorem BodySpec.StoredIn.length_le {p : ConstantPool} {body : Option BodySpec}
    {attributes : List Attribute} (h : StoredIn p body attributes) : attributes.length ≤ 1 := by
  cases h with
  | noBody => exact Nat.zero_le 1
  | withBody => exact Nat.le_refl 1

namespace ClassBuilder

variable {b : ClassBuilder} {c : ClassSpec}

/-- A class that keeps to the limits fits. -/
theorem Shows.fits (h : b.Shows c c.texts) (hlimits : c.WithinLimits b.result) : b.result.Fits where
  pool :=
    { layout := h.constants.sound.layout
      slots := h.constants.sound.slots
      constants := forall_fits_iff.2 fun t ht => hlimits.texts t (h.texts t ht) }
  superClass := rel_ne_zero h.constants BinaryName.text h.superClass
  interfaces := by
    rw [result, ← h.interfaces.length_eq]
    exact hlimits.interfaces
  fields := by
    constructor
    · rw [result, ← h.fields.length_eq]
      exact hlimits.fields
    · intro field hfield
      obtain ⟨f, -, hstored⟩ := exists_left_of_forall₂ h.fields hfield
      rw [Member.Fits, hstored.attributes]
      exact ⟨Nat.zero_le _, by simp⟩
  methods := by
    constructor
    · rw [result, ← h.methods.length_eq]
      exact hlimits.methods
    · intro method hmethod
      obtain ⟨m, -, hstored⟩ := exists_left_of_forall₂ h.methods hmethod
      exact ⟨Nat.le_trans hstored.attributes.length_le (by decide), hlimits.attributes method hmethod⟩
  attributes := ⟨Nat.zero_le _, by simp [result]⟩

end ClassBuilder

/-! ## Outlines -/

/-- What an outline is made of. -/
theorem ClassOutline.ofClassFile_eq_ok {f : ClassFile} {outline : ClassOutline} {names : List String}
    (hmethods : f.methods.mapM (declare ClassError.methodDescriptor f.pool) = .ok outline.methods)
    (hfields : f.fields.mapM (declare ClassError.fieldType f.pool) = .ok outline.fields)
    (hname : f.HasName outline.name) (hsuper : f.HasSuperclass outline.superClass)
    (hnames : f.interfaceNames = .ok names)
    (hinterfaces : names.mapM ClassError.binaryName = .ok outline.interfaces)
    (hkind : f.isInterface = outline.isInterface)
    (hvisibility : f.flags.classVisibility = outline.visibility) : ofClassFile f = .ok outline := by
  obtain ⟨text, htext, hname⟩ := hname
  refine bind_eq_ok_iff.2 ⟨_, hmethods, bind_eq_ok_iff.2 ⟨_, hfields, ?_⟩⟩
  refine bind_eq_ok_iff.2 ⟨_, htext, bind_eq_ok_iff.2 ⟨_, hname, ?_⟩⟩
  -- the interfaces are read in the same way with a superclass and without one
  have hrest : ∀ superClass, superClass = outline.superClass → (do
      let interfaces ← (← f.interfaceNames).mapM ClassError.binaryName
      return (⟨outline.name, superClass, interfaces, f.isInterface, f.flags.classVisibility,
        outline.methods, outline.fields⟩ : ClassOutline)) =
      (.ok outline : Except ClassError ClassOutline) := by
    rintro _ rfl
    rw [hkind, hvisibility]
    exact bind_eq_ok_iff.2 ⟨_, hnames, bind_eq_ok_iff.2 ⟨_, hinterfaces, rfl⟩⟩
  rcases hsuper with ⟨hnone, hsuperClass⟩ | ⟨superText, superName, hsome, hparse, hsuperClass⟩
  · exact bind_eq_ok_iff.2 ⟨_, hnone, bind_eq_ok_iff.2 ⟨none, rfl, hrest none hsuperClass.symm⟩⟩
  · refine bind_eq_ok_iff.2 ⟨_, hsome, bind_eq_ok_iff.2 ⟨some superName, ?_, ?_⟩⟩
    · rw [hparse]
      rfl
    · exact hrest _ hsuperClass.symm

/-- A stored member with a valid name and a valid descriptor is declared. -/
theorem Member.Stores.exists_declare {mask : UInt16} {type : Type}
    {parse : String → Except DescriptorError type} {p : ConstantPool} {flags : FlagSet mask}
    {name descriptor : String} {m : Member mask} (h : m.Stores p flags name descriptor)
    (hname : ∃ valid : UnqualifiedName, valid.text = name)
    (hdescriptor : ∃ type, parse descriptor = .ok type) :
    ∃ d, ClassOutline.declare (fun text => (parse text).mapError .malformedDescriptor) p m = .ok d ∧
      d.IsFor parse flags name descriptor := by
  obtain ⟨valid, rfl⟩ := hname
  obtain ⟨type, htype⟩ := hdescriptor
  refine ⟨⟨valid, type, flags.memberVisibility, flags.isStatic⟩, ?_, ⟨rfl, htype, rfl, rfl⟩⟩
  rw [← h.flags]
  exact bind_eq_ok_iff.2 ⟨_, h.name, bind_eq_ok_iff.2 ⟨_, ClassError.unqualifiedName_text valid,
    bind_eq_ok_iff.2 ⟨_, h.descriptor, bind_eq_ok_iff.2 ⟨_, mapError_eq_ok_iff.2 htype, rfl⟩⟩⟩⟩

namespace ClassBuilder

variable {b : ClassBuilder} {c : ClassSpec} {texts : List String}

theorem Shows.hasName (h : b.Shows c texts) : b.result.HasName c.name :=
  ⟨_, h.thisClass, ClassError.binaryName_text c.name⟩

theorem Shows.hasSuperclass (h : b.Shows c texts) : b.result.HasSuperclass c.superName := by
  have hsuper := h.superClass
  have hresult : b.result.superClass = b.superClass := rfl
  rw [ClassFile.HasSuperclass, ClassFile.superName, hresult]
  generalize c.superName = superName at hsuper
  generalize b.superClass = superClass at hsuper
  cases hsuper with
  | none => exact Or.inl ⟨rfl, rfl⟩
  | @some name i hname =>
      refine Or.inr ⟨name.text, name, ?_, ClassError.binaryName_text name, rfl⟩
      show some <$> b.result.pool.className i = _
      rw [show b.result.pool.className i = .ok name.text from hname]
      rfl

/-- The outline of a class with valid names is the one that was asked for. -/
theorem Shows.exists_outline (h : b.Shows c texts) (hvalid : c.IsValid) :
    ∃ outline, ClassOutline.ofClassFile b.result = .ok outline ∧ c.OutlinedBy outline := by
  obtain ⟨fields, hfields, hfieldsFor⟩ := exists_forall₂ (t := FieldSpec.DeclaredAs) h.fields
    fun f hf field hstored => hstored.member.exists_declare (hvalid.fields f hf).1 (hvalid.fields f hf).2
  obtain ⟨methods, hmethods, hmethodsFor⟩ := exists_forall₂ (t := MethodSpec.DeclaredAs) h.methods
    fun m hm method hstored => hstored.member.exists_declare (hvalid.methods m hm).1 (hvalid.methods m hm).2
  have hnames : b.result.interfaceNames = .ok c.interfaces :=
    mapM_eq_ok_iff.2 (List.Forall₂.flip h.interfaces)
  have hall : ∀ text ∈ c.interfaces, ∃ name, ClassError.binaryName text = .ok name := by
    intro text htext
    obtain ⟨name, rfl⟩ := hvalid.interfaces text htext
    exact ⟨name, ClassError.binaryName_text name⟩
  obtain ⟨interfaces, hinterfaces⟩ := exists_mapM_eq_ok_iff.2 hall
  have htexts : interfaces.map BinaryName.text = c.interfaces := by
    rw [map_eq_of_mapM hinterfaces fun _ _ => ClassError.text_of_binaryName, List.map_id']
  let outline : ClassOutline := ⟨c.name, c.superName, interfaces, c.flags.isInterface,
    c.flags.classVisibility, methods, fields⟩
  have hkind : b.result.isInterface = c.flags.isInterface := congrArg _ h.flags
  have hvisibility : b.result.flags.classVisibility = c.flags.classVisibility := congrArg _ h.flags
  refine ⟨outline, ?_, ⟨rfl, rfl, htexts, rfl, rfl, hfieldsFor, hmethodsFor⟩⟩
  exact ClassOutline.ofClassFile_eq_ok (mapM_eq_ok_iff.2 hmethods) (mapM_eq_ok_iff.2 hfields)
    h.hasName h.hasSuperclass hnames hinterfaces hkind hvisibility

end ClassBuilder

/-! ## Bodies -/

theorem MethodBody.length_write {maxStack maxLocals : UInt16} {code : List UInt8}
    {handlers : List Handler} :
    (write ⟨maxStack, maxLocals, code, handlers, []⟩).length = 12 + code.length + 8 * handlers.length := by
  have hhandlers : (handlers.flatMap Handler.write).length = 8 * handlers.length := by
    induction handlers with
    | nil => rfl
    | cons handler handlers ih =>
        have height : handler.write.length = 8 := rfl
        rw [List.flatMap_cons, List.length_append, ih, height, List.length_cons]
        omega
  simp only [write, ClassWriter.list, ClassWriter.u16, List.length_append, length_bigEndian,
    hhandlers, List.flatMap_nil, List.length_nil]
  omega

/-- The body that is found in the attributes is the one that they hold. -/
theorem BodySpec.StoredIn.seenIn {b : PoolBuilder} (hb : b.Faithful) {body : Option BodySpec}
    {method : Method} (h : StoredIn b.pool body method.attributes)
    (hhandlers : ∀ spec, body = some spec → spec.handlers.length ≤ maxLength)
    (hinfo : ∀ a ∈ method.attributes, a.info.length < byteLimit) : SeenIn b.pool method body := by
  generalize hattributes : method.attributes = attributes at h hinfo
  cases h with
  | noBody =>
      show MethodBody.find? b.pool method.attributes = .ok none
      rw [hattributes]
      rfl
  | @withBody spec name instructions handlers hname hcode hseen =>
      let seen : MethodBody := ⟨ClassBuilder.frameSize, ClassBuilder.frameSize,
        Instruction.assemble instructions, handlers, []⟩
      have hfits : seen.Fits :=
        { code := by
            have hlength := hinfo _ List.mem_cons_self
            rw [MethodBody.length_write] at hlength
            show (Instruction.assemble instructions).length < byteLimit
            omega
          handlers := by
            refine ⟨?_, fun handler hhandler => ?_⟩
            · rw [← hseen.length_eq]
              exact hhandlers spec rfl
            · obtain ⟨h, -, hh⟩ := exists_left_of_forall₂ hseen hhandler
              exact rel_ne_zero hb id hh.catchType
          attributes := ⟨Nat.zero_le _, by simp [seen]⟩ }
      -- nothing follows the body in its attribute
      have hread : MethodBody.ofInfo seen.write = .ok seen := by
        have hback := (MethodBody.ofInfo_write_append_iff seen).2 hfits []
        rwa [List.append_nil] at hback
      refine ⟨seen, ?_, hseen, instructions, hcode, rfl, ?_⟩
      · show MethodBody.find? b.pool method.attributes = .ok (some seen)
        rw [hattributes]
        refine bind_eq_ok_iff.2 ⟨_, hname, ?_⟩
        rw [if_pos rfl]
        exact bind_eq_ok_iff.2 ⟨_, hread, rfl⟩
      · exact Disassembly.resume_assemble_iff instructions 0 []

/-- Every method has the body that was asked for. -/
theorem ClassBuilder.Shows.forall₂_seenIn {b : ClassBuilder} {c : ClassSpec} {texts : List String}
    (h : b.Shows c texts) (hlimits : c.WithinLimits b.result) :
    List.Forall₂ (fun m method => BodySpec.SeenIn b.result.pool method m.body) c.methods
      b.result.methods := by
  obtain ⟨hlength, hpairs⟩ := List.forall₂_iff_zip.1 h.methods
  apply List.forall₂_iff_zip.2
  refine ⟨hlength, fun {m method} hpair => ?_⟩
  obtain ⟨hm, hmethod⟩ := List.of_mem_zip hpair
  exact (hpairs hpair).attributes.seenIn h.constants (hlimits.handlers m hm)
    (hlimits.attributes method hmethod)

/-! ## The class that is read -/

/-- A class that is built is the class that is seen. With valid names and within the limits of the format,
its bytes are read; the outline of what is read has the name, the superclass, the interfaces, the kind, the
visibility and the members that were asked for; and each method has a body exactly if one was asked for,
with the handlers and the code that were asked for. The code is decoded to exactly the given instructions
if and only if those that are not told apart have the operands of their opcodes. -/
theorem ClassSpec.parse_build {c : ClassSpec} {built : ClassFile} (hbuild : c.build = .ok built)
    (hvalid : c.IsValid) (hlimits : c.WithinLimits built) :
    ∃ parsed, ClassFile.parse built.toBytes = .ok parsed ∧
      (∃ outline, ClassOutline.ofClassFile parsed = .ok outline ∧ c.OutlinedBy outline) ∧
      List.Forall₂ (fun m method => BodySpec.SeenIn parsed.pool method m.body) c.methods
        parsed.methods := by
  obtain ⟨b, hshows, rfl⟩ := shows_of_build hbuild
  have hparse := (ClassFile.parse_toBytes_iff _).2 (hshows.fits hlimits)
  exact ⟨b.result, hparse, hshows.exists_outline hvalid, hshows.forall₂_seenIn hlimits⟩

/-- Class with an interface, a field, a method with the given code and a method without a body. -/
def callerSpec (code : List CodeSpec) : ClassSpec where
  flags := .ofBits 0x21
  name := ⟨"pkg/Caller", rfl⟩
  superName := some .object
  interfaces := ["lib/Greeter"]
  fields := [⟨.ofBits 2, "count", "I"⟩]
  methods := [⟨.ofBits 9, "go", "()V", some ⟨code, [⟨0, 3, 3, some "lib/Oops"⟩]⟩⟩,
    ⟨.ofBits 0x401, "greet", "(J)V", none⟩]

theorem isValid_callerSpec (code : List CodeSpec) : (callerSpec code).IsValid where
  interfaces := by
    intro text htext
    rw [List.mem_singleton.1 htext]
    exact ⟨⟨"lib/Greeter", rfl⟩, rfl⟩
  fields := by
    intro f hf
    rw [List.mem_singleton.1 hf]
    exact ⟨⟨⟨"count", rfl⟩, rfl⟩, .base .int, by decide +kernel⟩
  methods := by
    intro m hm
    rcases List.mem_pair.1 hm with rfl | rfl
    · have hparse : MethodDescriptor.parse "()V" = .ok ⟨[], none⟩ := by decide +kernel
      exact ⟨⟨⟨"go", rfl⟩, rfl⟩, _, hparse⟩
    · have hparse : MethodDescriptor.parse "(J)V" = .ok ⟨[.base .long], none⟩ := by decide +kernel
      exact ⟨⟨⟨"greet", rfl⟩, rfl⟩, _, hparse⟩

/-- The class keeps to the limits if its code does. -/
theorem withinLimits_callerSpec {code : List CodeSpec} {b : ClassBuilder} {texts : List String}
    (h : b.Shows (callerSpec code) texts)
    (htexts : ∀ t ∈ (callerSpec code).texts, (Text.modifiedUtf8 t).length ≤ maxLength)
    (hcode : ∀ p instructions, List.Forall₂ (CodeSpec.Denotes p) code instructions →
      (Instruction.assemble instructions).length ≤ 4) :
    (callerSpec code).WithinLimits b.result where
  texts := htexts
  interfaces := Nat.le_of_ble_eq_true rfl
  fields := Nat.le_of_ble_eq_true rfl
  methods := Nat.le_of_ble_eq_true rfl
  handlers := by
    intro m hm body hbody
    rcases List.mem_pair.1 hm with rfl | rfl
    · rw [← Option.some.inj hbody]
      exact Nat.le_of_ble_eq_true rfl
    · cases hbody
  attributes := by
    intro method hmethod a ha
    obtain ⟨m, hm, hstored⟩ := exists_left_of_forall₂ h.methods hmethod
    have hattributes := hstored.attributes
    generalize method.attributes = attributes at hattributes ha
    rcases List.mem_pair.1 hm with rfl | rfl
    · cases hattributes with
      | withBody hname hinstructions hhandlers =>
          have hlength := hcode _ _ hinstructions
          have hone := hhandlers.length_eq
          rw [List.mem_singleton.1 ha, MethodBody.length_write, ← hone]
          simp only [byteLimit, List.length_singleton]
          omega
    · cases hattributes
      cases ha

/-- Code that calls a method and returns. -/
def callingCode : List CodeSpec :=
  [.method .static "lib/Callee" "run" "()V" false, .plain (.other 0xb1 [])]

theorem ClassSpec.parse_build_calling : ∃ built parsed outline,
    (callerSpec callingCode).build = .ok built ∧ (callerSpec callingCode).WithinLimits built ∧
      ClassFile.parse built.toBytes = .ok parsed ∧ ClassOutline.ofClassFile parsed = .ok outline ∧
      (callerSpec callingCode).OutlinedBy outline ∧
      List.Forall₂ (fun m method => BodySpec.SeenIn parsed.pool method m.body)
        (callerSpec callingCode).methods parsed.methods := by
  obtain ⟨built, hbuild⟩ := exists_build (c := callerSpec callingCode) (by decide)
  obtain ⟨b, hshows, rfl⟩ := shows_of_build hbuild
  have hlimits := withinLimits_callerSpec hshows (by decide +kernel) (by
    intro p instructions hcode
    cases hcode with
    | cons hcall hrest =>
        cases hrest with
        | cons hreturn hnone =>
            cases hnone
            cases hcall with
            | constant hrequest hresolves =>
                cases hrequest
                cases hreturn with
                | plain => exact Nat.le_refl 4
                | constant hrequest hresolves => cases hrequest)
  obtain ⟨parsed, hparse, ⟨outline, houtline, houtlined⟩, hseen⟩ :=
    parse_build hbuild (isValid_callerSpec callingCode) hlimits
  exact ⟨b.result, parsed, outline, hbuild, hlimits, hparse, houtline, houtlined, hseen⟩

/-- Code of an opcode that is not defined. -/
def undefinedCode : List CodeSpec := [.plain (.other 0xff [])]

/-- The class is built and read, but the code of its first method is not decoded. -/
theorem ClassSpec.build_undefinedCode : ∃ built method seen,
    (callerSpec undefinedCode).build = .ok built ∧ (callerSpec undefinedCode).IsValid ∧
      (callerSpec undefinedCode).WithinLimits built ∧
      ClassFile.parse built.toBytes = .ok built ∧ method ∈ built.methods ∧
      method.body? built.pool = .ok (some seen) ∧
      ¬ ∃ instructions, List.Forall₂ (CodeSpec.Denotes built.pool) undefinedCode instructions ∧
        Disassembly.ofCode seen.code = ⟨Instruction.located 0 instructions, none⟩ := by
  obtain ⟨built, hbuild⟩ := exists_build (c := callerSpec undefinedCode) (by decide)
  obtain ⟨b, hshows, rfl⟩ := shows_of_build hbuild
  have hone : ∀ p instructions, List.Forall₂ (CodeSpec.Denotes p) undefinedCode instructions →
      instructions = [.other 0xff []] := by
    intro p instructions hcode
    cases hcode with
    | cons hplain hnone =>
        cases hnone
        cases hplain with
        | plain => rfl
        | constant hrequest hresolves => cases hrequest
  have hlimits := withinLimits_callerSpec hshows (by decide +kernel) (by
    intro p instructions hcode
    rw [hone p instructions hcode]
    decide)
  have hparse := (ClassFile.parse_toBytes_iff _).2 (hshows.fits hlimits)
  obtain ⟨method, rest, ⟨seen, hbody, hseen⟩, -, hmethods⟩ :=
    List.forall₂_cons_left_iff.1 (hshows.forall₂_seenIn hlimits)
  have hmem : method ∈ b.result.methods := hmethods ▸ List.mem_cons_self
  refine ⟨b.result, method, seen, hbuild, isValid_callerSpec undefinedCode, hlimits, hparse, hmem,
    hbody, ?_⟩
  rintro ⟨instructions, hdenotes, hdecoded⟩
  -- decoding would need the operands of an opcode that has none
  obtain ⟨instructions', hdenotes', -, hiff⟩ := hseen.code
  rw [hone _ _ hdenotes] at hdecoded
  rw [hone _ _ hdenotes'] at hiff
  have hoperands := hiff.1 hdecoded 0 _ rfl
  have hcount := (Instruction.operandCount_of_operands [] hoperands).1
  have hunknown : ∀ offset, Instruction.operandCount offset 0xff ([] ++ []) =
      .error (.unknownOpcode 0xff offset) := fun _ => rfl
  rw [hunknown] at hcount
  cases hcount

end Linkage
