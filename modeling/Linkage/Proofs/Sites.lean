import Linkage.Collection
import Linkage.Proofs.Fallible
import Linkage.Proofs.Lookup
import Linkage.Proofs.OwnLineage

/-!
# Sites

The places in a class file that ask for something (`ClassFile.Site`). A class file names classes where
it uses them, mentions classes in descriptors, and asks for members with its instructions. An
instruction names a class at which it asks (`Instruction.Asks`), and linking begins at that class or,
if it is an own one that does not declare the member, at the first superclass beyond the own classes.

`ClassFile.mem_uses_iff_site` says that the collector finds all of these places and no others. It goes
level by level, from class constants to class files.
-/

set_option autoImplicit false

namespace Linkage

open Fallible

/-! ## What instructions ask for -/

/-- Pool index of the member that an instruction asks for, with whether it has to be static and
whether it is called through an interface. -/
def Instruction.memberUse? : Instruction → Option (PoolIndex × Bool × Bool)
  | .getStatic index => some (index, true, false)
  | .putStatic index => some (index, true, false)
  | .getField index => some (index, false, false)
  | .putField index => some (index, false, false)
  | .invoke .static index => some (index, true, false)
  | .invoke .virtual index => some (index, false, false)
  | .invoke .special index => some (index, false, false)
  | .invoke (.interface _) index => some (index, false, true)
  | _ => none

/-- Member that an instruction asks for, with the texts by which it is named. -/
structure MemberSite where
  info : MemberInfo
  isStatic : Bool
  isInterfaceCall : Bool

namespace MemberSite

/-- Class at which the member is named; arrays have no name of a class. -/
def namedOwner (s : MemberSite) : Except ClassError BinaryName := ClassError.binaryName s.info.owner

/-- The member at a class. -/
def targetAt (s : MemberSite) (owner : BinaryName) : Except ClassError Target := do
  let name ← ClassError.unqualifiedName s.info.name
  match s.info.kind with
  | .field => return .fieldOf owner name (← ClassError.fieldType s.info.descriptor) s.isStatic
  | .method isInterface =>
      return .methodOf owner name (← ClassError.methodDescriptor s.info.descriptor) s.isStatic
        (isInterface || s.isInterfaceCall)

/-- Class at which linking begins. -/
def linkOwner? (s : MemberSite) (own : OwnClasses) (named : BinaryName) : Option BinaryName :=
  own.linkOwner? s.info.name s.info.descriptor named

end MemberSite

/-- An instruction asks for the member. -/
def Instruction.Asks (instruction : Instruction) (pool : ConstantPool) (s : MemberSite) : Prop :=
  ∃ index, instruction.memberUse? = some (index, s.isStatic, s.isInterfaceCall) ∧
    pool.member index = .ok s.info

/-- An instruction of the body asks for the member. -/
def MethodBody.Asks (body : MethodBody) (pool : ConstantPool) (s : MemberSite) : Prop :=
  ∃ entry ∈ (Disassembly.ofCode body.code).instructions, entry.2.Asks pool s

/-- An instruction in the body of a method of the class asks for the member. -/
def ClassFile.Asks (c : ClassFile) (s : MemberSite) : Prop :=
  ∃ method ∈ c.methods, ∃ body, method.body? c.pool = .ok (some body) ∧ body.Asks c.pool s

/-! ## Places in a class file -/

/-- Index of the class that an instruction uses. A load can be one of another constant, too. -/
def Instruction.classOperand? : Instruction → Option PoolIndex
  | .newObject index => some index
  | .newArray index => some index
  | .checkCast index => some index
  | .instanceOf index => some index
  | .newMultiArray index _ => some index
  | .load index => some index
  | _ => none

namespace MemberSite

/-- The member is asked for at an array. -/
def IsOnArray (s : MemberSite) : Prop := s.info.owner.toList.head? = some '['

instance (s : MemberSite) : Decidable s.IsOnArray :=
  inferInstanceAs (Decidable (s.info.owner.toList.head? = some '['))

/-- The descriptor of the member mentions the class. -/
def Mentions (s : MemberSite) (name : BinaryName) : Prop :=
  match s.info.kind with
  | .field => ∃ type, ClassError.fieldType s.info.descriptor = .ok type ∧ type.class? = some name
  | .method _ => ∃ descriptor, ClassError.methodDescriptor s.info.descriptor = .ok descriptor ∧
      name ∈ descriptor.classes

/-- Linking of the member, which is asked for at a class and not at an array, begins at the owner. -/
def LinksAt (s : MemberSite) (own : OwnClasses) (owner : BinaryName) : Prop :=
  ¬ s.IsOnArray ∧ ∃ named, s.namedOwner = .ok named ∧
    own.LinksAt s.info.name s.info.descriptor named owner

theorem linksAt_iff {s : MemberSite} {own : OwnClasses} {named owner : BinaryName}
    (hclass : ¬ s.IsOnArray) (hnamed : s.namedOwner = .ok named) :
    s.LinksAt own owner ↔ own.linkOwner? s.info.name s.info.descriptor named = some owner := by
  rw [OwnClasses.linkOwner?_eq_some_iff, LinksAt, hnamed]
  simp [hclass]

theorem LinksAt.find?_eq_none {s : MemberSite} {own : OwnClasses} {owner : BinaryName}
    (h : s.LinksAt own owner) : own.find? owner = none := by
  obtain ⟨-, named, -, -, hend⟩ := h
  exact hend

end MemberSite

namespace ClassFile

/-- The class file has a method with the body. -/
def HasBody (c : ClassFile) (body : MethodBody) : Prop :=
  ∃ method ∈ c.methods, method.body? c.pool = .ok (some body)

/-- The class file uses the class or array type with the text. -/
inductive NamesClass (c : ClassFile) : String → Prop
  | superclass {text : String} : c.superName = .ok (some text) → NamesClass c text
  | interface {texts : List String} {text : String} : c.interfaceNames = .ok texts → text ∈ texts →
      NamesClass c text
  | operand {body : MethodBody} {entry : Nat × Instruction} {index : PoolIndex} {text : String} :
      c.HasBody body → entry ∈ (Disassembly.ofCode body.code).instructions →
      entry.2.classOperand? = some index → c.pool.className index = .ok text → NamesClass c text
  | caught {body : MethodBody} {handler : Handler} {index : PoolIndex} {text : String} :
      c.HasBody body → handler ∈ body.handlers → handler.catchType = some index →
      c.pool.className index = .ok text → NamesClass c text
  | arrayOwner {s : MemberSite} : c.Asks s → s.IsOnArray → NamesClass c s.info.owner

/-- The class file mentions the class in a descriptor: of a declared field or method, or of a member
that it asks for, if that one is counted. -/
inductive Mentions (c : ClassFile) (counted : MemberSite → Prop) : BinaryName → Prop
  | field {field : Field} {text : String} {type : FieldType} {name : BinaryName} :
      field ∈ c.fields → c.pool.utf8 field.descriptor = .ok text →
      ClassError.fieldType text = .ok type → type.class? = some name → Mentions c counted name
  | method {method : Method} {text : String} {descriptor : MethodDescriptor} {name : BinaryName} :
      method ∈ c.methods → c.pool.utf8 method.descriptor = .ok text →
      ClassError.methodDescriptor text = .ok descriptor → name ∈ descriptor.classes →
      Mentions c counted name
  | member {s : MemberSite} {name : BinaryName} : c.Asks s → counted s → s.Mentions name →
      Mentions c counted name

end ClassFile

/-- Visibility that a class needs to be used by another one. -/
inductive BinaryName.ClassDemand (self name : BinaryName) : Visibility → Prop
  | samePackage : name.samePackage self = true → ClassDemand self name .packageAccess
  | other : name.samePackage self = false → ClassDemand self name .publicAccess

/-- Visibility that a member of a class needs to be used by an own one. -/
inductive OwnClasses.MemberDemand (own : OwnClasses) (self owner : BinaryName) : Visibility → Prop
  | samePackage : owner.samePackage self = true → MemberDemand own self owner .packageAccess
  | superclass : owner.samePackage self = false → own.HasSuperclass self owner →
      MemberDemand own self owner .protectedAccess
  | other : owner.samePackage self = false → ¬ own.HasSuperclass self owner →
      MemberDemand own self owner .publicAccess

/-- Sites of a class file, each with the visibility that it demands: uses of classes, which may stand
for arrays of them, classes in descriptors, which only have to be there, and members, at the classes
where their linking begins. -/
inductive ClassFile.Site (c : ClassFile) (own : OwnClasses) (counted : MemberSite → Prop)
    (self : BinaryName) : Reference → Prop
  | named {text : String} {name : BinaryName} {v : Visibility} : c.NamesClass text →
      Referrer.namedClass? text = .ok (some name) → self.ClassDemand name v →
      Site c own counted self ⟨.classOf name, v⟩
  | mentioned {name : BinaryName} : c.Mentions counted name →
      Site c own counted self ⟨.classOf name, .privateAccess⟩
  | member {s : MemberSite} {owner : BinaryName} {t : Target} {v : Visibility} : c.Asks s →
      s.LinksAt own owner → s.targetAt owner = .ok t → own.MemberDemand self owner v →
      Site c own counted self ⟨t, v⟩

/-! ## What the collector finds -/

namespace Referrer

variable {r : Referrer} {uses : List Reference} {use : Reference} {text : String} {index : PoolIndex}

/-- The reference is to the class that the text names. -/
def UsesClass (r : Referrer) (text : String) (use : Reference) : Prop :=
  ∃ name, namedClass? text = .ok (some name) ∧ use = ⟨.classOf name, r.classVisibility name⟩

/-- The reference is what asking for the member comes down to: the element class of an array, or the
member and the classes in its descriptor. -/
def UsesMember (r : Referrer) (s : MemberSite) (use : Reference) : Prop :=
  s.IsOnArray ∧ r.UsesClass s.info.owner use ∨
    ∃ owner, s.LinksAt r.own owner ∧ ((∃ name, s.Mentions name ∧ use = presence name) ∨
      s.targetAt owner = .ok use.target ∧ use.visibility = r.memberVisibility owner)

/-- The reference is what the instruction asks for. -/
def UsesIn (r : Referrer) (instruction : Instruction) (use : Reference) : Prop :=
  (∃ index text, instruction.classOperand? = some index ∧ r.pool.className index = .ok text ∧
      r.UsesClass text use) ∨
    ∃ s, instruction.Asks r.pool s ∧ r.UsesMember s use

theorem mem_classUse_iff (h : r.classUse text = .ok uses) : use ∈ uses ↔ r.UsesClass text use := by
  obtain ⟨name?, hname, hpure⟩ := bind_eq_ok_iff.1 h
  obtain rfl := pure_eq_ok_iff.1 hpure
  rw [UsesClass, hname]
  cases name? with
  | none => simp
  | some name => simp

theorem mem_classUseAt_iff (h : r.classUseAt index = .ok uses) :
    use ∈ uses ↔ ∃ text, r.pool.className index = .ok text ∧ r.UsesClass text use := by
  obtain ⟨text, htext, h⟩ := bind_eq_ok_iff.1 h
  rw [mem_classUse_iff h, htext]
  simp

/-- A load uses a class if its index is the one of a class constant. -/
theorem mem_load_iff (h : r.instructionUse (.load index) = .ok uses) :
    use ∈ uses ↔ ∃ text, r.pool.className index = .ok text ∧ r.UsesClass text use := by
  simp only [ConstantPool.className_eq_ok_iff]
  rw [instructionUse] at h
  split at h
  · rename_i name hname
    obtain ⟨text, htext, h⟩ := bind_eq_ok_iff.1 h
    rw [mem_classUse_iff h, hname]
    constructor
    · intro huse
      exact ⟨text, ⟨name, rfl, htext⟩, huse⟩
    · rintro ⟨text', ⟨name', hname', htext'⟩, huse⟩
      cases hname'
      rw [htext] at htext'
      cases htext'
      exact huse
  · rename_i hother
    obtain rfl := Except.ok.inj h
    refine iff_of_false List.not_mem_nil ?_
    rintro ⟨text, ⟨name, hname, -⟩, -⟩
    exact hother name hname

theorem mem_presence_iff {names : List BinaryName} :
    use ∈ names.map presence ↔ ∃ name ∈ names, use = presence name := by
  simp [List.mem_map, eq_comm]

theorem mem_fieldTypeUse_iff (use : Reference) {result : FieldType × List Reference}
    (h : fieldTypeUse text = .ok result) :
    ClassError.fieldType text = .ok result.1 ∧
      (use ∈ result.2 ↔ ∃ name, result.1.class? = some name ∧ use = presence name) := by
  obtain ⟨type, htype, hpure⟩ := bind_eq_ok_iff.1 h
  obtain rfl := pure_eq_ok_iff.1 hpure
  refine ⟨htype, ?_⟩
  rw [mem_presence_iff]
  simp

theorem mem_signatureUse_iff (use : Reference) {result : MethodDescriptor × List Reference}
    (h : signatureUse text = .ok result) :
    ClassError.methodDescriptor text = .ok result.1 ∧
      (use ∈ result.2 ↔ ∃ name ∈ result.1.classes, use = presence name) := by
  obtain ⟨descriptor, hdescriptor, hpure⟩ := bind_eq_ok_iff.1 h
  obtain rfl := pure_eq_ok_iff.1 hpure
  exact ⟨hdescriptor, mem_presence_iff⟩

theorem eq_iff_of_parts {t : Target} {v : Visibility} :
    use = ⟨t, v⟩ ↔ (.ok t : Except ClassError Target) = .ok use.target ∧ use.visibility = v := by
  cases use
  rw [Reference.mk.injEq, Except.ok.injEq, eq_comm (a := t)]

theorem mem_linkedMemberUse_iff {s : MemberSite} {owner : BinaryName}
    (h : r.linkedMemberUse s.info s.isStatic s.isInterfaceCall owner = .ok uses) :
    use ∈ uses ↔ (∃ name, s.Mentions name ∧ use = presence name) ∨
      s.targetAt owner = .ok use.target ∧ use.visibility = r.memberVisibility owner := by
  obtain ⟨name, hname, h⟩ := bind_eq_ok_iff.1 h
  rw [MemberSite.targetAt, hname]
  simp only [MemberSite.Mentions]
  cases hkind : s.info.kind with
  | field =>
      rw [hkind] at h
      obtain ⟨result, hresult, hpure⟩ := bind_eq_ok_iff.1 h
      obtain ⟨htype, hmentioned⟩ := mem_fieldTypeUse_iff use hresult
      obtain rfl := pure_eq_ok_iff.1 hpure
      rw [List.mem_append, List.mem_singleton, hmentioned, htype]
      exact or_congr (by simp) eq_iff_of_parts
  | method isInterface =>
      rw [hkind] at h
      obtain ⟨result, hresult, hpure⟩ := bind_eq_ok_iff.1 h
      obtain ⟨hdescriptor, hmentioned⟩ := mem_signatureUse_iff use hresult
      obtain rfl := pure_eq_ok_iff.1 hpure
      rw [List.mem_append, List.mem_singleton, hmentioned, hdescriptor]
      exact or_congr (by simp) eq_iff_of_parts

theorem mem_memberUse_iff {isStatic isInterfaceCall : Bool}
    (h : r.memberUse index isStatic isInterfaceCall = .ok uses) :
    use ∈ uses ↔ ∃ info, r.pool.member index = .ok info ∧
      r.UsesMember ⟨info, isStatic, isInterfaceCall⟩ use := by
  obtain ⟨info, hinfo, h⟩ := bind_eq_ok_iff.1 h
  let s : MemberSite := ⟨info, isStatic, isInterfaceCall⟩
  have hsite : (∃ info', r.pool.member index = .ok info' ∧
      r.UsesMember ⟨info', isStatic, isInterfaceCall⟩ use) ↔ r.UsesMember s use := by
    rw [hinfo]
    simp [s]
  rw [hsite, UsesMember]
  split at h
  · -- a member of an array is no more than a use of the array
    rename_i harray
    rw [mem_classUse_iff h]
    constructor
    · exact fun huse => Or.inl ⟨harray, huse⟩
    · rintro (⟨-, huse⟩ | ⟨owner, ⟨hclass, -⟩, -⟩)
      · exact huse
      · exact absurd harray hclass
  · rename_i hclass
    obtain ⟨named, hnamed, h⟩ := bind_eq_ok_iff.1 h
    have hlinks : ∀ owner, s.LinksAt r.own owner ↔ r.own.linkOwner? info.name info.descriptor named =
        some owner := fun owner => MemberSite.linksAt_iff hclass hnamed
    split at h
    · -- an own class has the member, or the way up does not leave the own classes
      rename_i hnone
      obtain rfl := pure_eq_ok_iff.1 h
      refine iff_of_false List.not_mem_nil ?_
      rintro (⟨harray, -⟩ | ⟨owner, howner, -⟩)
      · exact hclass harray
      · rw [hlinks, hnone] at howner
        cases howner
    · -- the owner is the only class where linking can begin
      rename_i owner howner
      rw [mem_linkedMemberUse_iff (s := s) h]
      constructor
      · exact fun huse => Or.inr ⟨owner, (hlinks owner).2 howner, huse⟩
      · rintro (⟨harray, -⟩ | ⟨owner', howner', huse⟩)
        · exact absurd harray hclass
        · rw [hlinks, howner] at howner'
          cases howner'
          exact huse

/-- An instruction asks for a member or uses a class, and never does both. -/
theorem usesIn_iff_of_memberUse? {instruction : Instruction} {isStatic isInterfaceCall : Bool}
    (hmember : instruction.memberUse? = some (index, isStatic, isInterfaceCall))
    (hclass : instruction.classOperand? = none) :
    r.UsesIn instruction use ↔ ∃ info, r.pool.member index = .ok info ∧
      r.UsesMember ⟨info, isStatic, isInterfaceCall⟩ use := by
  rw [UsesIn, hclass]
  constructor
  · rintro (⟨index', text, hindex, -⟩ | ⟨s, ⟨index', hindex, hinfo⟩, huse⟩)
    · cases hindex
    · rw [hmember] at hindex
      cases hindex
      exact ⟨s.info, hinfo, huse⟩
  · rintro ⟨info, hinfo, huse⟩
    exact Or.inr ⟨_, ⟨index, hmember, hinfo⟩, huse⟩

theorem usesIn_iff_of_classOperand? {instruction : Instruction}
    (hclass : instruction.classOperand? = some index) (hmember : instruction.memberUse? = none) :
    r.UsesIn instruction use ↔ ∃ text, r.pool.className index = .ok text ∧ r.UsesClass text use := by
  rw [UsesIn, hclass]
  constructor
  · rintro (⟨index', text, hindex, htext, huse⟩ | ⟨s, ⟨index', hindex, -⟩, -⟩)
    · cases hindex
      exact ⟨text, htext, huse⟩
    · rw [hmember] at hindex
      cases hindex
  · rintro ⟨text, htext, huse⟩
    exact Or.inl ⟨index, text, rfl, htext, huse⟩

theorem not_usesIn {instruction : Instruction} (hclass : instruction.classOperand? = none)
    (hmember : instruction.memberUse? = none) : ¬ r.UsesIn instruction use := by
  rintro (⟨index, text, hindex, -⟩ | ⟨s, ⟨index, hindex, -⟩, -⟩)
  · rw [hclass] at hindex
    cases hindex
  · rw [hmember] at hindex
    cases hindex

theorem mem_instructionUse_iff {instruction : Instruction}
    (h : r.instructionUse instruction = .ok uses) : use ∈ uses ↔ r.UsesIn instruction use := by
  cases instruction with
  | getStatic index => rw [usesIn_iff_of_memberUse? rfl rfl, mem_memberUse_iff h]
  | putStatic index => rw [usesIn_iff_of_memberUse? rfl rfl, mem_memberUse_iff h]
  | getField index => rw [usesIn_iff_of_memberUse? rfl rfl, mem_memberUse_iff h]
  | putField index => rw [usesIn_iff_of_memberUse? rfl rfl, mem_memberUse_iff h]
  | invoke kind index => cases kind <;> rw [usesIn_iff_of_memberUse? rfl rfl, mem_memberUse_iff h]
  | newObject index => rw [usesIn_iff_of_classOperand? rfl rfl, mem_classUseAt_iff h]
  | newArray index => rw [usesIn_iff_of_classOperand? rfl rfl, mem_classUseAt_iff h]
  | checkCast index => rw [usesIn_iff_of_classOperand? rfl rfl, mem_classUseAt_iff h]
  | instanceOf index => rw [usesIn_iff_of_classOperand? rfl rfl, mem_classUseAt_iff h]
  | newMultiArray index dimensions =>
      rw [usesIn_iff_of_classOperand? rfl rfl, mem_classUseAt_iff h]
  | load index => rw [usesIn_iff_of_classOperand? rfl rfl, mem_load_iff h]
  | invokeDynamic index =>
      cases h
      exact iff_of_false List.not_mem_nil (not_usesIn rfl rfl)
  | loadWide index =>
      cases h
      exact iff_of_false List.not_mem_nil (not_usesIn rfl rfl)
  | other opcode operands =>
      cases h
      exact iff_of_false List.not_mem_nil (not_usesIn rfl rfl)

/-- The reference is what an instruction or a handler of the body asks for. -/
def UsesInBody (r : Referrer) (body : MethodBody) (use : Reference) : Prop :=
  (∃ entry ∈ (Disassembly.ofCode body.code).instructions, r.UsesIn entry.2 use) ∨
    ∃ handler ∈ body.handlers, ∃ index text, handler.catchType = some index ∧
      r.pool.className index = .ok text ∧ r.UsesClass text use

theorem mem_bodyUse_iff {body : MethodBody} (h : r.bodyUse body = .ok uses) :
    use ∈ uses ↔ r.UsesInBody body use := by
  obtain ⟨instructions, hinstructions, h⟩ := bind_eq_ok_iff.1 h
  split at h
  · cases h
  · obtain ⟨caught, hcaught, hpure⟩ := bind_eq_ok_iff.1 h
    obtain rfl := pure_eq_ok_iff.1 hpure
    rw [List.mem_append,
      mem_flatten_iff_of_mapM hinstructions fun entry _ _ huse => mem_instructionUse_iff huse,
      mem_flatten_iff_of_mapM hcaught fun index _ _ huse => mem_classUseAt_iff huse, UsesInBody]
    refine or_congr Iff.rfl ?_
    -- handlers without a type catch everything and ask for nothing
    simp only [List.mem_filterMap]
    constructor
    · rintro ⟨index, ⟨handler, hhandler, hindex⟩, text, htext, huse⟩
      exact ⟨handler, hhandler, index, text, hindex, htext, huse⟩
    · rintro ⟨handler, hhandler, index, text, hindex, htext, huse⟩
      exact ⟨index, ⟨handler, hhandler, hindex⟩, text, htext, huse⟩

/-- The reference is what the descriptor or the body of the method asks for. -/
def UsesInMethod (r : Referrer) (method : Method) (use : Reference) : Prop :=
  (∃ text descriptor name, r.pool.utf8 method.descriptor = .ok text ∧
      ClassError.methodDescriptor text = .ok descriptor ∧ name ∈ descriptor.classes ∧
      use = presence name) ∨
    ∃ body, method.body? r.pool = .ok (some body) ∧ r.UsesInBody body use

theorem mem_methodUse_iff {method : Method} (h : r.methodUse method = .ok uses) :
    use ∈ uses ↔ r.UsesInMethod method use := by
  obtain ⟨text, htext, h⟩ := bind_eq_ok_iff.1 h
  obtain ⟨⟨descriptor, mentioned⟩, hsignature, h⟩ := bind_eq_ok_iff.1 h
  obtain ⟨hdescriptor, hmentioned⟩ := mem_signatureUse_iff use hsignature
  obtain ⟨body?, hbody, h⟩ := bind_eq_ok_iff.1 h
  rw [UsesInMethod, htext, hbody]
  -- the text and the descriptor that were read are the only ones
  have hdescribed : use ∈ mentioned ↔ ∃ text' descriptor name,
      (.ok text : Except ClassError String) = .ok text' ∧
        ClassError.methodDescriptor text' = .ok descriptor ∧ name ∈ descriptor.classes ∧
        use = presence name := by
    rw [hmentioned]
    constructor
    · rintro ⟨name, hname, huse⟩
      exact ⟨text, descriptor, name, rfl, hdescriptor, hname, huse⟩
    · rintro ⟨text', descriptor', name, htext', hdescriptor', hname, huse⟩
      cases htext'
      rw [hdescriptor] at hdescriptor'
      cases hdescriptor'
      exact ⟨name, hname, huse⟩
  cases body? with
  | none =>
      obtain rfl := pure_eq_ok_iff.1 h
      rw [hdescribed]
      simp
  | some body =>
      obtain ⟨inside, hinside, hpure⟩ := bind_eq_ok_iff.1 h
      obtain rfl := pure_eq_ok_iff.1 hpure
      rw [List.mem_append, hdescribed, mem_bodyUse_iff hinside]
      simp

/-- The reference is what the descriptor of the field asks for. -/
def UsesInField (r : Referrer) (field : Field) (use : Reference) : Prop :=
  ∃ text type name, r.pool.utf8 field.descriptor = .ok text ∧
    ClassError.fieldType text = .ok type ∧ type.class? = some name ∧ use = presence name

theorem mem_fieldUse_iff {field : Field} (h : r.fieldUse field = .ok uses) :
    use ∈ uses ↔ r.UsesInField field use := by
  obtain ⟨text, htext, h⟩ := bind_eq_ok_iff.1 h
  obtain ⟨result, hresult, hpure⟩ := bind_eq_ok_iff.1 h
  obtain rfl := pure_eq_ok_iff.1 hpure
  obtain ⟨htype, hmentioned⟩ := mem_fieldTypeUse_iff use hresult
  rw [hmentioned, UsesInField, htext]
  simp [htype]

/-- The reference is what the supertypes or the members of the class file ask for. -/
def UsesInFile (r : Referrer) (c : ClassFile) (use : Reference) : Prop :=
  (∃ text, c.superName = .ok (some text) ∧ r.UsesClass text use) ∨
    (∃ texts text, c.interfaceNames = .ok texts ∧ text ∈ texts ∧ r.UsesClass text use) ∨
    (∃ field ∈ c.fields, r.UsesInField field use) ∨
    ∃ method ∈ c.methods, r.UsesInMethod method use

theorem mem_uses_iff {c : ClassFile} (h : r.uses c = .ok uses) :
    use ∈ uses ↔ r.UsesInFile c use := by
  obtain ⟨superName, hsuperName, h⟩ := bind_eq_ok_iff.1 h
  obtain ⟨superclass, hsuperclass, h⟩ := bind_eq_ok_iff.1 h
  obtain ⟨interfaceNames, hinterfaceNames, h⟩ := bind_eq_ok_iff.1 h
  obtain ⟨interfaces, hinterfaces, h⟩ := bind_eq_ok_iff.1 h
  obtain ⟨fields, hfields, h⟩ := bind_eq_ok_iff.1 h
  obtain ⟨methods, hmethods, hpure⟩ := bind_eq_ok_iff.1 h
  obtain rfl := pure_eq_ok_iff.1 hpure
  rw [List.flatten_append, List.flatten_append, List.flatten_append, List.mem_append, List.mem_append,
    List.mem_append, or_assoc, or_assoc,
    mem_flatten_iff_of_mapM hsuperclass fun text _ _ huse => mem_classUse_iff huse,
    mem_flatten_iff_of_mapM hinterfaces fun text _ _ huse => mem_classUse_iff huse,
    mem_flatten_iff_of_mapM hfields fun field _ _ huse => mem_fieldUse_iff huse,
    mem_flatten_iff_of_mapM hmethods fun method _ _ huse => mem_methodUse_iff huse,
    UsesInFile, hsuperName, hinterfaceNames]
  simp

end Referrer

/-! ## Sites and what the collector finds -/

/-- The member is linked beyond the own classes, at some class. -/
def MemberSite.Leaves (s : MemberSite) (own : OwnClasses) : Prop := ∃ owner, s.LinksAt own owner

namespace ClassFile

/-- Referrer of the class file under a name. -/
def referrer (c : ClassFile) (own : OwnClasses) (self : BinaryName) : Referrer :=
  ⟨self, own.superclasses self, c.pool, own⟩

variable {c : ClassFile} {own : OwnClasses} {self name owner : BinaryName} {v : Visibility}
  {use : Reference} {uses : List Reference} {text : String} {s : MemberSite}
  {counted : MemberSite → Prop}

theorem classDemand_iff (c : ClassFile) (own : OwnClasses) :
    self.ClassDemand name v ↔ v = (c.referrer own self).classVisibility name := by
  have hvalue : (c.referrer own self).classVisibility name =
      if name.samePackage self then .packageAccess else .publicAccess := rfl
  rw [hvalue]
  constructor
  · rintro (hsame | hother)
    · exact (if_pos hsame).symm
    · exact (if_neg (by simpa using hother)).symm
  · rintro rfl
    split
    · rename_i hsame
      exact .samePackage hsame
    · rename_i hother
      exact .other (by simpa using hother)

/-- The visibility that a member of a class beyond the own ones needs. -/
theorem memberDemand_iff (c : ClassFile) (hend : own.find? owner = none) :
    own.MemberDemand self owner v ↔ v = (c.referrer own self).memberVisibility owner := by
  have hsuper : (own.superclasses self).contains owner = true ↔ own.HasSuperclass self owner := by
    rw [List.contains_iff_mem, OwnClasses.mem_superclasses_iff hend]
  have hvalue : (c.referrer own self).memberVisibility owner =
      if owner.samePackage self then .packageAccess
      else if (own.superclasses self).contains owner then .protectedAccess else .publicAccess := rfl
  rw [hvalue]
  constructor
  · rintro (hsame | ⟨hother, hup⟩ | ⟨hother, hup⟩)
    · exact (if_pos hsame).symm
    · rw [if_neg (by simp [hother]), if_pos (hsuper.2 hup)]
    · rw [if_neg (by simp [hother]), if_neg fun h => hup (hsuper.1 h)]
  · rintro rfl
    split
    · rename_i hsame
      exact .samePackage hsame
    · rename_i hother
      have hother' : owner.samePackage self = false := by simpa using hother
      split
      · rename_i hup
        exact .superclass hother' (hsuper.1 hup)
      · rename_i hup
        exact .other hother' fun h => hup (hsuper.2 h)

theorem site_of_usesClass (hnames : c.NamesClass text)
    (huse : (c.referrer own self).UsesClass text use) : c.Site own counted self use := by
  obtain ⟨name, hname, rfl⟩ := huse
  exact .named hnames hname ((classDemand_iff c own).2 rfl)

theorem site_of_usesMember (hasks : c.Asks s) (huse : (c.referrer own self).UsesMember s use) :
    c.Site own (MemberSite.Leaves · own) self use := by
  rcases huse with ⟨harray, huse⟩ | ⟨owner, howner, ⟨name, hname, rfl⟩ | ⟨htarget, hvisibility⟩⟩
  · exact site_of_usesClass (.arrayOwner hasks harray) huse
  · exact .mentioned (.member hasks ⟨owner, howner⟩ hname)
  · exact .member hasks howner htarget
      ((memberDemand_iff c howner.find?_eq_none).2 hvisibility)

theorem site_of_usesInBody {body : MethodBody} {method : Method} (hmethod : method ∈ c.methods)
    (hbody : method.body? c.pool = .ok (some body))
    (huse : (c.referrer own self).UsesInBody body use) :
    c.Site own (MemberSite.Leaves · own) self use := by
  rcases huse with ⟨entry, hentry, ⟨index, text, hindex, htext, huse⟩ | ⟨s, hasks, huse⟩⟩ |
    ⟨handler, hhandler, index, text, hindex, htext, huse⟩
  · exact site_of_usesClass (.operand ⟨method, hmethod, hbody⟩ hentry hindex htext) huse
  · exact site_of_usesMember ⟨method, hmethod, body, hbody, entry, hentry, hasks⟩ huse
  · exact site_of_usesClass (.caught ⟨method, hmethod, hbody⟩ hhandler hindex htext) huse

theorem usesInFile_of_body {body : MethodBody} (hbody : c.HasBody body)
    (huse : (c.referrer own self).UsesInBody body use) : (c.referrer own self).UsesInFile c use := by
  obtain ⟨method, hmethod, hbody⟩ := hbody
  exact Or.inr (Or.inr (Or.inr ⟨method, hmethod, Or.inr ⟨body, hbody, huse⟩⟩))

theorem usesInFile_of_member (hasks : c.Asks s) (huse : (c.referrer own self).UsesMember s use) :
    (c.referrer own self).UsesInFile c use := by
  obtain ⟨method, hmethod, body, hbody, entry, hentry, hasks⟩ := hasks
  exact usesInFile_of_body ⟨method, hmethod, hbody⟩ (Or.inl ⟨entry, hentry, Or.inr ⟨s, hasks, huse⟩⟩)

theorem usesInFile_of_namesClass (hnames : c.NamesClass text)
    (huse : (c.referrer own self).UsesClass text use) : (c.referrer own self).UsesInFile c use := by
  cases hnames with
  | superclass htext => exact Or.inl ⟨text, htext, huse⟩
  | interface htexts htext => exact Or.inr (Or.inl ⟨_, text, htexts, htext, huse⟩)
  | operand hbody hentry hindex htext =>
      exact usesInFile_of_body hbody (Or.inl ⟨_, hentry, Or.inl ⟨_, text, hindex, htext, huse⟩⟩)
  | caught hbody hhandler hindex htext =>
      exact usesInFile_of_body hbody (Or.inr ⟨_, hhandler, _, text, hindex, htext, huse⟩)
  | arrayOwner hasks harray => exact usesInFile_of_member hasks (Or.inl ⟨harray, huse⟩)

theorem usesInFile_of_mentions (hmentions : c.Mentions (MemberSite.Leaves · own) name) :
    (c.referrer own self).UsesInFile c (Referrer.presence name) := by
  cases hmentions with
  | field hfield htext htype hname =>
      exact Or.inr (Or.inr (Or.inl ⟨_, hfield, _, _, name, htext, htype, hname, rfl⟩))
  | method hmethod htext hdescriptor hname =>
      exact Or.inr (Or.inr (Or.inr ⟨_, hmethod,
        Or.inl ⟨_, _, name, htext, hdescriptor, hname, rfl⟩⟩))
  | member hasks hleaves hname =>
      obtain ⟨owner, howner⟩ := hleaves
      exact usesInFile_of_member hasks (Or.inr ⟨owner, howner, Or.inl ⟨name, hname, rfl⟩⟩)

/-- The collector finds the sites of a class file, where the descriptors of members count that are
linked beyond the own classes. -/
theorem mem_uses_iff_site (h : (c.referrer own self).uses c = .ok uses) :
    use ∈ uses ↔ c.Site own (MemberSite.Leaves · own) self use := by
  rw [Referrer.mem_uses_iff h]
  constructor
  · -- each part of the file has its kind of site
    rintro (⟨text, htext, huse⟩ | ⟨texts, text, htexts, htext, huse⟩ |
      ⟨field, hfield, text, type, name, htext, htype, hname, rfl⟩ | ⟨method, hmethod, huse⟩)
    · exact site_of_usesClass (.superclass htext) huse
    · exact site_of_usesClass (.interface htexts htext) huse
    · exact .mentioned (.field hfield htext htype hname)
    · rcases huse with ⟨text, descriptor, name, htext, hdescriptor, hname, rfl⟩ | ⟨body, hbody, huse⟩
      · exact .mentioned (.method hmethod htext hdescriptor hname)
      · exact site_of_usesInBody hmethod hbody huse
  · -- and each kind of site is in some part of the file
    intro hsite
    cases hsite with
    | named hnames hname hdemand =>
        rw [classDemand_iff c own] at hdemand
        exact usesInFile_of_namesClass hnames ⟨_, hname, by rw [hdemand]⟩
    | mentioned hmentions => exact usesInFile_of_mentions hmentions
    | member hasks howner htarget hdemand =>
        rw [memberDemand_iff c howner.find?_eq_none] at hdemand
        exact usesInFile_of_member hasks (Or.inr ⟨_, howner, Or.inr ⟨htarget, hdemand⟩⟩)

end ClassFile

end Linkage
