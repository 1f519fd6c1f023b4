import Linkage.OwnClasses
import Linkage.Proofs.Ascents
import Linkage.Proofs.Descriptors
import Mathlib.Data.List.Nodup

/-!
# Own classes in a context

The same class files make the own classes of a module and the outlines that a context has. Both take
name, superclass and members from the same texts (`ClassFile.HasName`, `ClassFile.HasSuperclass`,
`declares_of_mem_methods`, `declares_of_mem_fields`), so the way up the own classes that decides where
linking of a member begins is a way up the superclasses in every context that begins with these
outlines.

`ascends_of_linkOwnerFrom` says so if no two of the classes have one name and none on the way names an
interface.
-/

set_option autoImplicit false

namespace Linkage

open Fallible

/-! ## Two views of one class file -/

/-- Name of the class, as a name. -/
def ClassFile.HasName (c : ClassFile) (name : BinaryName) : Prop :=
  ∃ text, c.thisName = .ok text ∧ ClassError.binaryName text = .ok name

/-- Superclass of the class, as a name. -/
def ClassFile.HasSuperclass (c : ClassFile) (superClass : Option BinaryName) : Prop :=
  c.superName = .ok none ∧ superClass = none ∨
    ∃ text name, c.superName = .ok (some text) ∧ ClassError.binaryName text = .ok name ∧
      superClass = some name

section Views

variable {f : ClassFile} {outline : ClassOutline} {own : OwnClass} {a b : BinaryName}

theorem ClassFile.HasName.eq (ha : f.HasName a) (hb : f.HasName b) : a = b := by
  obtain ⟨text, htext, hname⟩ := ha
  obtain ⟨text', htext', hname'⟩ := hb
  rw [htext] at htext'
  cases htext'
  rw [hname] at hname'
  cases hname'
  rfl

theorem ClassFile.HasSuperclass.eq {s t : Option BinaryName} (hs : f.HasSuperclass s)
    (ht : f.HasSuperclass t) : s = t := by
  rcases hs with ⟨hs, rfl⟩ | ⟨text, name, hs, hname, rfl⟩
  · rcases ht with ⟨-, rfl⟩ | ⟨text', name', ht, -, -⟩
    · rfl
    · rw [hs] at ht
      cases ht
  · rcases ht with ⟨ht, -⟩ | ⟨text', name', ht, hname', rfl⟩
    · rw [hs] at ht
      cases ht
    · rw [hs] at ht
      cases ht
      rw [hname] at hname'
      cases hname'
      rfl

theorem ClassFile.hasSuperclass_of_superName {text : String} {superClass : Option BinaryName}
    (htext : f.superName = .ok (some text))
    (h : some <$> ClassError.binaryName text = .ok superClass) : f.HasSuperclass superClass := by
  cases hname : ClassError.binaryName text with
  | error e =>
      rw [hname] at h
      cases h
  | ok name =>
      rw [hname] at h
      cases h
      exact Or.inr ⟨text, name, htext, hname, rfl⟩

/-- What the outline of a class file takes from it. -/
theorem ClassOutline.parts_of_ofClassFile (h : ofClassFile f = .ok outline) :
    f.HasName outline.name ∧ f.HasSuperclass outline.superClass ∧
      f.methods.mapM (declare ClassError.methodDescriptor f.pool) = .ok outline.methods ∧
      f.fields.mapM (declare ClassError.fieldType f.pool) = .ok outline.fields := by
  obtain ⟨methods, hmethods, h⟩ := bind_eq_ok_iff.1 h
  obtain ⟨fields, hfields, h⟩ := bind_eq_ok_iff.1 h
  obtain ⟨text, htext, h⟩ := bind_eq_ok_iff.1 h
  obtain ⟨name, hname, h⟩ := bind_eq_ok_iff.1 h
  obtain ⟨superName, hsuperName, h⟩ := bind_eq_ok_iff.1 h
  -- the name of the superclass is the only part that can be left out
  have hsuper : ∃ superClass, f.HasSuperclass superClass ∧ outline.superClass = superClass ∧
      outline.name = name ∧ outline.methods = methods ∧ outline.fields = fields := by
    cases superName with
    | none =>
        obtain ⟨superClass, hsuperClass, h⟩ := bind_eq_ok_iff.1 h
        obtain rfl := pure_eq_ok_iff.1 hsuperClass
        obtain ⟨interfaceNames, -, h⟩ := bind_eq_ok_iff.1 h
        obtain ⟨interfaces, -, hpure⟩ := bind_eq_ok_iff.1 h
        obtain rfl := pure_eq_ok_iff.1 hpure
        exact ⟨none, Or.inl ⟨hsuperName, rfl⟩, rfl, rfl, rfl, rfl⟩
    | some text =>
        obtain ⟨superClass, hsuperClass, h⟩ := bind_eq_ok_iff.1 h
        obtain ⟨interfaceNames, -, h⟩ := bind_eq_ok_iff.1 h
        obtain ⟨interfaces, -, hpure⟩ := bind_eq_ok_iff.1 h
        obtain rfl := pure_eq_ok_iff.1 hpure
        exact ⟨superClass, ClassFile.hasSuperclass_of_superName hsuperName hsuperClass, rfl, rfl,
          rfl, rfl⟩
  obtain ⟨superClass, hsuperclass, rfl, rfl, rfl, rfl⟩ := hsuper
  exact ⟨⟨text, htext, hname⟩, hsuperclass, hmethods, hfields⟩

/-- What an own class takes from its class file. -/
theorem OwnClass.parts_of_ofClassFile (h : ofClassFile f = .ok own) :
    f.HasSuperclass own.superClass ∧ ∃ fields methods,
      f.fields.mapM (signature f.pool) = .ok fields ∧
      f.methods.mapM (signature f.pool) = .ok methods ∧ own.members = fields ++ methods := by
  obtain ⟨superName, hsuperName, h⟩ := bind_eq_ok_iff.1 h
  have hrest : ∃ superClass, f.HasSuperclass superClass ∧ (do
      let fields ← f.fields.mapM (signature f.pool)
      let methods ← f.methods.mapM (signature f.pool)
      return (⟨superClass, fields ++ methods⟩ : OwnClass)) = (.ok own : Except ClassError OwnClass) := by
    cases superName with
    | none =>
        obtain ⟨superClass, hsuperClass, h⟩ := bind_eq_ok_iff.1 h
        obtain rfl := pure_eq_ok_iff.1 hsuperClass
        exact ⟨none, Or.inl ⟨hsuperName, rfl⟩, h⟩
    | some text =>
        obtain ⟨superClass, hsuperClass, h⟩ := bind_eq_ok_iff.1 h
        exact ⟨superClass, ClassFile.hasSuperclass_of_superName hsuperName hsuperClass, h⟩
  obtain ⟨superClass, hsuperclass, h⟩ := hrest
  obtain ⟨fields, hfields, h⟩ := bind_eq_ok_iff.1 h
  obtain ⟨methods, hmethods, hpure⟩ := bind_eq_ok_iff.1 h
  obtain rfl := pure_eq_ok_iff.1 hpure
  exact ⟨hsuperclass, fields, methods, hfields, hmethods, rfl⟩

theorem ClassError.text_of_unqualifiedName {text : String} {name : UnqualifiedName}
    (h : unqualifiedName text = .ok name) : name.text = text :=
  UnqualifiedName.ofText_eq_ok_iff.1 (mapError_eq_ok_iff.1 h)

/-- A member of an outline is a member of a class file: the class file has its name and a text that
its type is read from. -/
theorem exists_text_of_mem_declared {mask : UInt16} {type : Type}
    {parse : String → Except ClassError type} {pool : ConstantPool} {members : List (Member mask)}
    {declared : List (DeclaredMember type)} {signatures : List (String × String)}
    (hdeclared : members.mapM (ClassOutline.declare parse pool) = .ok declared)
    (hsignatures : members.mapM (OwnClass.signature pool) = .ok signatures)
    {m : DeclaredMember type} (hm : m ∈ declared) :
    ∃ text, (m.name.text, text) ∈ signatures ∧ parse text = .ok m.descriptor := by
  obtain ⟨member, hmember, hdeclare⟩ := (mem_iff_of_mapM hdeclared).1 hm
  obtain ⟨nameText, hnameText, h⟩ := bind_eq_ok_iff.1 hdeclare
  obtain ⟨name, hname, h⟩ := bind_eq_ok_iff.1 h
  obtain ⟨text, htext, h⟩ := bind_eq_ok_iff.1 h
  obtain ⟨descriptor, hdescriptor, hpure⟩ := bind_eq_ok_iff.1 h
  obtain rfl := pure_eq_ok_iff.1 hpure
  refine ⟨text, (mem_iff_of_mapM hsignatures).2 ⟨member, hmember, ?_⟩, hdescriptor⟩
  rw [ClassError.text_of_unqualifiedName hname]
  exact bind_eq_ok_iff.2 ⟨nameText, hnameText, bind_eq_ok_iff.2 ⟨text, htext, rfl⟩⟩

/-- A method of the outline is declared by the own class, by the text that its signature is read
from. -/
theorem declares_of_mem_methods (hown : OwnClass.ofClassFile f = .ok own)
    (houtline : ClassOutline.ofClassFile f = .ok outline) {m : DeclaredMethod}
    (hm : m ∈ outline.methods) :
    ∃ text, own.declares m.name.text text = true ∧
      ClassError.methodDescriptor text = .ok m.descriptor := by
  obtain ⟨-, fields, methods, -, hmethods, hmembers⟩ := OwnClass.parts_of_ofClassFile hown
  obtain ⟨-, -, hdeclared, -⟩ := ClassOutline.parts_of_ofClassFile houtline
  obtain ⟨text, hmem, hdescriptor⟩ := exists_text_of_mem_declared hdeclared hmethods hm
  refine ⟨text, ?_, hdescriptor⟩
  rw [OwnClass.declares, hmembers, List.contains_iff_mem]
  exact List.mem_append_right fields hmem

/-- A field of the outline is declared by the own class, by the text that its type is read from. -/
theorem declares_of_mem_fields (hown : OwnClass.ofClassFile f = .ok own)
    (houtline : ClassOutline.ofClassFile f = .ok outline) {m : DeclaredField}
    (hm : m ∈ outline.fields) :
    ∃ text, own.declares m.name.text text = true ∧
      ClassError.fieldType text = .ok m.descriptor := by
  obtain ⟨-, fields, methods, hfields, -, hmembers⟩ := OwnClass.parts_of_ofClassFile hown
  obtain ⟨-, -, -, hdeclared⟩ := ClassOutline.parts_of_ofClassFile houtline
  obtain ⟨text, hmem, hdescriptor⟩ := exists_text_of_mem_declared hdeclared hfields hm
  refine ⟨text, ?_, hdescriptor⟩
  rw [OwnClass.declares, hmembers, List.contains_iff_mem]
  exact List.mem_append_left methods hmem

end Views

/-- Two texts are never read as one signature. -/
theorem ClassError.methodDescriptor_injective {s t : String} {d : MethodDescriptor}
    (hs : methodDescriptor s = .ok d) (ht : methodDescriptor t = .ok d) : s = t := by
  have hsText : d.render = s := MethodDescriptor.render_of_parse (mapError_eq_ok_iff.1 hs)
  have htText : d.render = t := MethodDescriptor.render_of_parse (mapError_eq_ok_iff.1 ht)
  rw [← hsText, htText]

/-- Two texts are never read as one type. -/
theorem ClassError.fieldType_injective {s t : String} {type : FieldType}
    (hs : fieldType s = .ok type) (ht : fieldType t = .ok type) : s = t := by
  have hsText : type.render = s := FieldType.render_of_parse (mapError_eq_ok_iff.1 hs)
  have htText : type.render = t := FieldType.render_of_parse (mapError_eq_ok_iff.1 ht)
  rw [← hsText, htText]

/-! ## Own classes and outlines -/

/-- The context with more classes in front of its own ones. -/
def Context.prepend (outlines : List ClassOutline) (c : Context) : Context := ⟨outlines ++ c.classes⟩

namespace OwnClasses

variable {classes : List ClassFile} {own : OwnClasses} {outlines : List ClassOutline}
  {c : Context} {a x : BinaryName}

theorem rowOf_eq_ok_iff {f : ClassFile} {k : OwnClass} :
    rowOf f = .ok (a, k) ↔ f.HasName a ∧ OwnClass.ofClassFile f = .ok k := by
  simp only [rowOf, bind_eq_ok_iff, pure_eq_ok_iff, Prod.mk.injEq]
  constructor
  · rintro ⟨text, htext, name, hname, k', hk', rfl, rfl⟩
    exact ⟨⟨text, htext, hname⟩, hk'⟩
  · rintro ⟨⟨text, htext, hname⟩, hk⟩
    exact ⟨text, htext, a, hname, k, hk, rfl, rfl⟩

theorem mem_rows_iff (hown : ofClassFiles classes = .ok own) {row : BinaryName × OwnClass} :
    row ∈ own.rows ↔ ∃ f ∈ classes, rowOf f = .ok row := by
  obtain ⟨rows, hrows, hpure⟩ := bind_eq_ok_iff.1 hown
  obtain rfl := pure_eq_ok_iff.1 hpure
  rw [List.mem_reverse, mem_iff_of_mapM hrows]

theorem exists_classFile_of_find? (hown : ofClassFiles classes = .ok own) {k : OwnClass}
    (h : own.find? a = some k) :
    ∃ f ∈ classes, f.HasName a ∧ OwnClass.ofClassFile f = .ok k := by
  obtain ⟨⟨name, k'⟩, hrow, rfl⟩ := Option.map_eq_some_iff.1 h
  obtain rfl : name = a := by simpa using List.find?_some hrow
  obtain ⟨f, hf, hrowOf⟩ := (mem_rows_iff hown).1 (List.mem_of_find?_eq_some hrow)
  exact ⟨f, hf, rowOf_eq_ok_iff.1 hrowOf⟩

variable (hown : ofClassFiles classes = .ok own)
  (houtlines : classes.mapM ClassOutline.ofClassFile = .ok outlines)

include hown houtlines

/-- The class of an outline is an own class. -/
theorem contains_of_mem_outlines {outline : ClassOutline} (h : outline ∈ outlines) :
    own.contains outline.name = true := by
  obtain ⟨f, hf, houtline⟩ := (mem_iff_of_mapM houtlines).1 h
  obtain ⟨rows, hrows, hpure⟩ := bind_eq_ok_iff.1 hown
  obtain rfl := pure_eq_ok_iff.1 hpure
  obtain ⟨⟨name, k⟩, hrow⟩ := exists_mapM_eq_ok_iff.1 ⟨rows, hrows⟩ f hf
  have hname : name = outline.name :=
    (rowOf_eq_ok_iff.1 hrow).1.eq (ClassOutline.parts_of_ofClassFile houtline).1
  have hmem : (name, k) ∈ rows.reverse :=
    List.mem_reverse.2 ((mem_iff_of_mapM hrows).2 ⟨f, hf, hrow⟩)
  rw [contains, find?, Option.isSome_map, List.find?_isSome]
  exact ⟨(name, k), hmem, by simpa using hname⟩

/-- Classes that are not own ones are found as before. -/
theorem find?_prepend_of_not_own (h : own.contains a = false) :
    (c.prepend outlines).find? a.text = c.find? a.text := by
  have hnone : outlines.find? (fun outline => outline.name.text == a.text) = none := by
    rw [List.find?_eq_none]
    intro outline houtline htext
    have hname : outline.name = a := BinaryName.eq_of_text_eq (by simpa using htext)
    have hcontains := contains_of_mem_outlines hown houtlines houtline
    rw [hname, h] at hcontains
    cases hcontains
  rw [Context.find?, Context.prepend, List.find?_append, hnone]
  rfl

/-- An own class is found by its outline, if no two of them have one name. -/
theorem find?_prepend_of_own (hdistinct : (outlines.map ClassOutline.name).Nodup) {k : OwnClass}
    (h : own.find? a = some k) :
    ∃ f outline, OwnClass.ofClassFile f = .ok k ∧ ClassOutline.ofClassFile f = .ok outline ∧
      (c.prepend outlines).find? a.text = some outline := by
  obtain ⟨f, hf, hname, hk⟩ := exists_classFile_of_find? hown h
  obtain ⟨outline, houtline⟩ := exists_mapM_eq_ok_iff.1 ⟨outlines, houtlines⟩ f hf
  have hmem : outline ∈ outlines := (mem_iff_of_mapM houtlines).2 ⟨f, hf, houtline⟩
  have houtlineName : outline.name = a :=
    (ClassOutline.parts_of_ofClassFile houtline).1.eq hname
  refine ⟨f, outline, hk, houtline, ?_⟩
  cases hfound : outlines.find? (fun outline => outline.name.text == a.text) with
  | none =>
      -- the outline of the class itself has the name
      refine absurd ?_ (List.find?_eq_none.1 hfound outline hmem)
      simp [houtlineName]
  | some first =>
      -- the first outline of the name is the one of the class, as there is no other of the name
      have hfirst : first.name = a :=
        BinaryName.eq_of_text_eq (by simpa using List.find?_some hfound)
      have heq : first = outline := List.inj_on_of_nodup_map hdistinct
        (List.mem_of_find?_eq_some hfound) hmem (hfirst.trans houtlineName.symm)
      rw [Context.find?, Context.prepend, List.find?_append, hfound, heq]
      rfl

/-! ## Where linking begins -/

/-- Outline of an own class that does not declare the member. -/
def Passes (name descriptor : String) (outline : ClassOutline) : Prop :=
  ∃ f k, OwnClass.ofClassFile f = .ok k ∧ ClassOutline.ofClassFile f = .ok outline ∧
    k.declares name descriptor = false

omit hown houtlines in
theorem Passes.not_mem_methods {name descriptor : String} {outline : ClassOutline}
    (h : Passes name descriptor outline) {m : DeclaredMethod} (hm : m ∈ outline.methods)
    (hname : m.name.text = name) : ClassError.methodDescriptor descriptor ≠ .ok m.descriptor := by
  intro hdescriptor
  obtain ⟨f, k, hk, houtline, hdeclares⟩ := h
  obtain ⟨text, hmember, htext⟩ := declares_of_mem_methods hk houtline hm
  rw [hname, ClassError.methodDescriptor_injective htext hdescriptor, hdeclares] at hmember
  cases hmember

omit hown houtlines in
theorem Passes.not_mem_fields {name descriptor : String} {outline : ClassOutline}
    (h : Passes name descriptor outline) {m : DeclaredField} (hm : m ∈ outline.fields)
    (hname : m.name.text = name) : ClassError.fieldType descriptor ≠ .ok m.descriptor := by
  intro htype
  obtain ⟨f, k, hk, houtline, hdeclares⟩ := h
  obtain ⟨text, hmember, htext⟩ := declares_of_mem_fields hk houtline hm
  rw [hname, ClassError.fieldType_injective htext htype, hdeclares] at hmember
  cases hmember

omit hown houtlines in
/-- Own classes among a class and its superclasses name interfaces. -/
def NamesInterfaces (own : OwnClasses) (c : Context) (a : BinaryName) : Prop :=
  ∃ n b outline, c.ancestor? a n = some b ∧ own.contains b = true ∧
    c.find? b.text = some outline ∧ outline.interfaces ≠ []

omit hown houtlines in
/-- One step of the way up: it ends at a class that is not an own one, and goes on from an own class
that does not declare the member. -/
theorem linkOwnerFrom_cases {name descriptor : String} {visited : List BinaryName}
    (h : own.linkOwnerFrom name descriptor visited a = some x) :
    a ∉ visited ∧ (own.find? a = none ∧ a = x ∨
      ∃ k b, own.find? a = some k ∧ k.declares name descriptor = false ∧ k.superClass = some b ∧
        own.linkOwnerFrom name descriptor (a :: visited) b = some x) := by
  rw [linkOwnerFrom] at h
  split at h
  · cases h
  · rename_i hfirst
    refine ⟨hfirst, ?_⟩
    split at h
    · rename_i hnone
      exact Or.inl ⟨hnone, Option.some.inj h⟩
    · rename_i k hk
      split at h
      · cases h
      · rename_i hdeclares
        split at h
        · cases h
        · rename_i b hsuper
          exact Or.inr ⟨k, b, hk, by simpa using hdeclares, hsuper, h⟩

/-- Linking of a member begins at a class beyond the own ones, and superclasses lead there over own
classes that do not declare it. -/
theorem ascends_of_linkOwnerFrom (hdistinct : (outlines.map ClassOutline.name).Nodup)
    {name descriptor : String} {visited : List BinaryName} {a : BinaryName}
    (hinterfaces : ¬ own.NamesInterfaces (c.prepend outlines) a)
    (h : own.linkOwnerFrom name descriptor visited a = some x) :
    (c.prepend outlines).Ascends (Passes name descriptor) a x := by
  obtain ⟨hfirst, ⟨-, rfl⟩ | ⟨k, b, hk, hdeclares, hsuper, hrest⟩⟩ := linkOwnerFrom_cases h
  · -- the class is beyond the own ones already
    exact .stay a
  · -- one step up from an own class, whose outline has the same superclass
    obtain ⟨f, outline, hown', houtline, hfound⟩ :=
      find?_prepend_of_own hown houtlines (c := c) hdistinct hk
    have hsuper' : outline.superClass = some b :=
      ((ClassOutline.parts_of_ofClassFile houtline).2.1.eq
        (OwnClass.parts_of_ofClassFile hown').1).trans hsuper
    have hnone : outline.interfaces = [] := by
      by_contra hsome
      exact hinterfaces ⟨0, a, outline, rfl, by rw [contains, hk]; rfl, hfound, hsome⟩
    -- what is above the superclass is above the class
    have hinterfaces' : ¬ own.NamesInterfaces (c.prepend outlines) b := by
      rintro ⟨n, y, outline', hn, hy, hfound', hsome⟩
      exact hinterfaces ⟨1 + n, y, outline',
        (Context.ancestor?_add (Context.ancestor?_one hfound hsuper')).trans hn, hy, hfound', hsome⟩
    exact .up hfound ⟨f, k, hown', houtline, hdeclares⟩ hsuper' hnone
      (ascends_of_linkOwnerFrom hdistinct hinterfaces' hrest)
termination_by unvisited own.names visited
decreasing_by exact unvisited_cons_lt (mem_names_of_find? hk) hfirst

end OwnClasses

end Linkage
