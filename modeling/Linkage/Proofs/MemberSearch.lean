import Linkage.Matching
import Linkage.Proofs.Walk
import Mathlib.Tactic.SplitIfs

/-!
# Looking for members

What the outcome of linking a member says about the classes in reach of its owner. Evidence on these
classes decides first: a member that agrees and is accessible, then one that agrees, then one of the
name (`linkOutcome`). Without any of it the member is missing, unless the superclasses of the owner
lead to a class of the platform, which no context describes.

The walk takes the last case a little narrower than that. It visits each name once, so a class of
the platform that is reached over an interface first no longer counts as the end of the superclasses
(`EndsFirstOnPlatform` against `EndsOnPlatform`). `check_member_eq_linkOutcome` tells the outcome of
every member reference whose owner is there and of the right kind, and when the two readings agree;
`check_missing_behind_interface` is a context in which they do not.
-/

set_option autoImplicit false

namespace Linkage

namespace Context

variable {type : Type}

/-- A class in reach of the owner declares a member with the property. -/
def Declares (c : Context) (followInterfaces : Bool)
    (members : ClassOutline → List (DeclaredMember type)) (owner : BinaryName)
    (p : DeclaredMember type → Prop) : Prop :=
  ∃ outline, c.InReach followInterfaces owner outline ∧ ∃ m ∈ members outline, p m

/-- The superclasses of the owner leave the context at a class of the platform. -/
def EndsOnPlatform (c : Context) (platform : Platform) (owner : BinaryName) : Prop :=
  ∃ name, c.EndsAt owner name ∧ platform.provides name = true

/-- The superclasses of the owner leave the context at a class of the platform, and no way over
fewer supertypes leads there. -/
def EndsFirstOnPlatform (c : Context) (platform : Platform) (followInterfaces : Bool)
    (owner : BinaryName) : Prop :=
  ∃ name, c.EndsFirstAt followInterfaces owner name ∧ platform.provides name = true

open Classical in
/-- Outcome of linking a member by what the classes in reach of its owner declare, where `inherited`
says whether the platform can have the member. -/
noncomputable def linkOutcome (c : Context) (followInterfaces : Bool)
    (members : ClassOutline → List (DeclaredMember type)) (owner : BinaryName)
    (name : UnqualifiedName) (descriptor : type) (isStatic : Bool) (required : Visibility)
    (inherited : Prop) : Outcome :=
  if c.Declares followInterfaces members owner fun m => m.name = name ∧
      m.descriptor = descriptor ∧ m.isStatic = isStatic ∧ m.visibility.satisfies required = true
  then .resolved
  else if c.Declares followInterfaces members owner fun m => m.name = name ∧
      m.descriptor = descriptor ∧ m.isStatic = isStatic
  then .visibilityViolation
  else if c.Declares followInterfaces members owner fun m => m.name = name
  then .signatureMismatch
  else if inherited then .resolved
  else .missingMember

/-- The classes in reach of the owner offer the member: one of them declares it accessibly, or none
declares a member of the name and the platform can have it. -/
def Offers (c : Context) (platform : Platform) (followInterfaces : Bool)
    (members : ClassOutline → List (DeclaredMember type)) (owner : BinaryName)
    (name : UnqualifiedName) (descriptor : type) (isStatic : Bool) (required : Visibility) : Prop :=
  (c.Declares followInterfaces members owner fun m => m.name = name ∧ m.descriptor = descriptor ∧
    m.isStatic = isStatic ∧ m.visibility.satisfies required = true) ∨
  ¬ c.Declares followInterfaces members owner (fun m => m.name = name) ∧
    c.EndsFirstOnPlatform platform followInterfaces owner

/-! ## The search and its evidence -/

section Search

variable {c : Context} {platform : Platform} {follow : Bool}
  {members : ClassOutline → List (DeclaredMember type)} {owner : BinaryName}
  {name : UnqualifiedName}

theorem mem_namesakes_iff {m : DeclaredMember type} :
    m ∈ (c.hierarchy follow owner).namesakes members name ↔
      ∃ outline, c.InReach follow owner outline ∧ m ∈ members outline ∧ m.name = name := by
  simp only [Hierarchy.namesakes, List.mem_filter, List.mem_flatMap, mem_hierarchy_classes_iff,
    beq_iff_eq]
  constructor
  · rintro ⟨⟨outline, hreach, hm⟩, hname⟩
    exact ⟨outline, hreach, hm, hname⟩
  · rintro ⟨outline, hreach, hm, hname⟩
    exact ⟨⟨outline, hreach, hm⟩, hname⟩

theorem exists_namesake_iff {p : DeclaredMember type → Prop} :
    (∃ m ∈ (c.hierarchy follow owner).namesakes members name, p m) ↔
      c.Declares follow members owner fun m => m.name = name ∧ p m := by
  constructor
  · rintro ⟨m, hm, hp⟩
    obtain ⟨outline, hreach, hmem, hname⟩ := mem_namesakes_iff.1 hm
    exact ⟨outline, hreach, m, hmem, hname, hp⟩
  · rintro ⟨outline, hreach, m, hmem, hname, hp⟩
    exact ⟨m, mem_namesakes_iff.2 ⟨outline, hreach, hmem, hname⟩, hp⟩

theorem leadsTo_iff :
    (c.hierarchy follow owner).leadsTo platform = true ↔
      c.EndsFirstOnPlatform platform follow owner := by
  simp only [Hierarchy.leadsTo, List.any_eq_true, Bool.and_eq_true]
  constructor
  · rintro ⟨⟨x, mark⟩, hmem, hmark, hprovides⟩
    cases hmark
    exact ⟨x, marked_mem_hierarchy_absent_iff.1 hmem, hprovides⟩
  · rintro ⟨x, hends, hprovides⟩
    exact ⟨⟨x, true⟩, marked_mem_hierarchy_absent_iff.2 hends, rfl, hprovides⟩

theorem EndsFirstOnPlatform.endsOnPlatform (h : c.EndsFirstOnPlatform platform follow owner) :
    c.EndsOnPlatform platform owner := by
  obtain ⟨x, hends, hprovides⟩ := h
  exact ⟨x, hends.endsAt, hprovides⟩

variable {descriptor : type} {isStatic : Bool} {required : Visibility}

/-! ## Outcomes -/

theorem linkOutcome_eq_resolved_iff {inherited : Prop} :
    c.linkOutcome follow members owner name descriptor isStatic required inherited = .resolved ↔
      (c.Declares follow members owner fun m => m.name = name ∧ m.descriptor = descriptor ∧
        m.isStatic = isStatic ∧ m.visibility.satisfies required = true) ∨
      ¬ c.Declares follow members owner (fun m => m.name = name) ∧ inherited := by
  have hweaken : c.Declares follow members owner (fun m => m.name = name ∧
      m.descriptor = descriptor ∧ m.isStatic = isStatic) →
      c.Declares follow members owner fun m => m.name = name := by
    rintro ⟨outline, hreach, m, hm, hname, -⟩
    exact ⟨outline, hreach, m, hm, hname⟩
  unfold linkOutcome
  -- one goal for each kind of evidence; only the first and the fourth one link
  split_ifs with haccessible hagreeing hnamesake hinherited
  · exact iff_of_true rfl (Or.inl haccessible)
  · simp [haccessible, hweaken hagreeing]
  · simp [haccessible, hnamesake]
  · exact iff_of_true rfl (Or.inr ⟨hnamesake, hinherited⟩)
  · simp [haccessible, hinherited]

/-- Whether the platform can have the member matters only without a member of the name. -/
theorem linkOutcome_inherited_congr {p q : Prop} :
    c.linkOutcome follow members owner name descriptor isStatic required p =
        c.linkOutcome follow members owner name descriptor isStatic required q ↔
      c.Declares follow members owner (fun m => m.name = name) ∨ (p ↔ q) := by
  by_cases hnamesake : c.Declares follow members owner fun m => m.name = name
  · simp only [linkOutcome, hnamesake, if_true, true_or]
  · have hnone : ∀ {r : DeclaredMember type → Prop},
        ¬ c.Declares follow members owner fun m => m.name = name ∧ r m := by
      rintro r ⟨outline, hreach, m, hm, hname, -⟩
      exact hnamesake ⟨outline, hreach, m, hm, hname⟩
    simp only [linkOutcome, hnone, hnamesake, if_false, false_or]
    by_cases hp : p <;> by_cases hq : q <;> simp [hp, hq]

/-! ## The search comes to that outcome -/

variable [DecidableEq type]

theorem agrees_iff {m : DeclaredMember type} :
    m.agrees descriptor isStatic = true ↔ m.descriptor = descriptor ∧ m.isStatic = isStatic := by
  simp [DeclaredMember.agrees]

/-- The search for a member comes to the outcome that its evidence tells. -/
theorem findMember_eq_linkOutcome :
    c.findMember platform follow members owner name descriptor isStatic required =
      c.linkOutcome follow members owner name descriptor isStatic required
        (c.EndsFirstOnPlatform platform follow owner) := by
  classical
  have haccessible : (((c.hierarchy follow owner).namesakes members name).filter
        (·.agrees descriptor isStatic)).any (·.visibility.satisfies required) = true ↔
      c.Declares follow members owner fun m => m.name = name ∧ m.descriptor = descriptor ∧
        m.isStatic = isStatic ∧ m.visibility.satisfies required = true := by
    rw [← exists_namesake_iff]
    simp [agrees_iff, and_assoc]
  have hagreeing : (!(((c.hierarchy follow owner).namesakes members name).filter
        (·.agrees descriptor isStatic)).isEmpty) = true ↔
      c.Declares follow members owner fun m => m.name = name ∧ m.descriptor = descriptor ∧
        m.isStatic = isStatic := by
    rw [← exists_namesake_iff]
    simp [agrees_iff]
  have hnamesake : (!((c.hierarchy follow owner).namesakes members name).isEmpty) = true ↔
      c.Declares follow members owner fun m => m.name = name := by
    have hexists : (∃ m ∈ (c.hierarchy follow owner).namesakes members name, True) ↔
        c.Declares follow members owner fun m => m.name = name ∧ True := exists_namesake_iff
    simp only [and_true] at hexists
    rw [← hexists]
    simp [List.eq_nil_iff_forall_not_mem]
  simp only [findMember, Outcome.ofNamesakes, linkOutcome, haccessible, hagreeing, hnamesake,
    leadsTo_iff]

end Search

section Check

variable {c : Context} {platform : Platform} {owner : BinaryName} {outline : ClassOutline}
  {name : UnqualifiedName} {isStatic : Bool} {required : Visibility}

theorem check_methodOf (hfound : c.find? owner.text = some outline) (descriptor : MethodDescriptor) :
    c.check platform ⟨.methodOf owner name descriptor isStatic outline.isInterface, required⟩ =
      c.linkOutcome true ClassOutline.methods owner name descriptor isStatic required
        (c.EndsFirstOnPlatform platform true owner) := by
  rw [← findMember_eq_linkOutcome]
  simp [check, Reference.owner, Target.owner, hfound]

theorem check_fieldOf (hfound : c.find? owner.text = some outline) (fieldType : FieldType) :
    c.check platform ⟨.fieldOf owner name fieldType isStatic, required⟩ =
      c.linkOutcome isStatic ClassOutline.fields owner name fieldType isStatic required
        (c.EndsFirstOnPlatform platform isStatic owner) := by
  rw [← findMember_eq_linkOutcome]
  simp [check, Reference.owner, Target.owner, hfound]

/-- Member references of an owner that is there, methods with the right kind of call: the outcome is
told by the classes in reach, where the platform counts if no way over fewer supertypes leads to the
end of the superclasses. It counts whenever the superclasses end there exactly if a member of the
name is declared or no such way gets in between. -/
theorem check_member_eq_linkOutcome (hfound : c.find? owner.text = some outline) :
    (∀ descriptor : MethodDescriptor,
      let reference : Reference :=
        ⟨.methodOf owner name descriptor isStatic outline.isInterface, required⟩
      let outcome := c.linkOutcome true ClassOutline.methods owner name descriptor isStatic required
      c.check platform reference = outcome (c.EndsFirstOnPlatform platform true owner) ∧
        (c.check platform reference = outcome (c.EndsOnPlatform platform owner) ↔
          c.Declares true ClassOutline.methods owner (fun m => m.name = name) ∨
            (c.EndsOnPlatform platform owner → c.EndsFirstOnPlatform platform true owner))) ∧
    (∀ fieldType : FieldType,
      let reference : Reference := ⟨.fieldOf owner name fieldType isStatic, required⟩
      let outcome :=
        c.linkOutcome isStatic ClassOutline.fields owner name fieldType isStatic required
      c.check platform reference = outcome (c.EndsFirstOnPlatform platform isStatic owner) ∧
        (c.check platform reference = outcome (c.EndsOnPlatform platform owner) ↔
          c.Declares isStatic ClassOutline.fields owner (fun m => m.name = name) ∨
            (c.EndsOnPlatform platform owner → c.EndsFirstOnPlatform platform isStatic owner))) := by
  -- the narrower reading implies the wider one, so that they agree is one direction only
  have hends : ∀ follow, (c.EndsFirstOnPlatform platform follow owner ↔
      c.EndsOnPlatform platform owner) ↔
      (c.EndsOnPlatform platform owner → c.EndsFirstOnPlatform platform follow owner) := fun follow =>
    ⟨Iff.mpr, fun h => ⟨EndsFirstOnPlatform.endsOnPlatform, h⟩⟩
  constructor
  · intro descriptor
    refine ⟨check_methodOf hfound descriptor, ?_⟩
    rw [check_methodOf hfound descriptor, linkOutcome_inherited_congr, hends]
  · intro fieldType
    refine ⟨check_fieldOf hfound fieldType, ?_⟩
    rw [check_fieldOf hfound fieldType, linkOutcome_inherited_congr, hends]

end Check

/-! ## A shorter way to the platform -/

/-- Class of the platform that both a superclass and an interface lead to. -/
def listName : BinaryName := ⟨"java/util/AbstractList", rfl⟩

/-- Class whose superclass is a class of the platform. -/
def middleClass : ClassOutline where
  name := ⟨"lib/Middle", rfl⟩
  superClass := some listName
  interfaces := []
  isInterface := false
  visibility := .publicAccess
  methods := []
  fields := []

/-- Class whose superclass leads to the platform over two names and whose interface over one. -/
def shortcutClass : ClassOutline where
  name := ⟨"lib/Shortcut", rfl⟩
  superClass := some middleClass.name
  interfaces := [listName]
  isInterface := false
  visibility := .publicAccess
  methods := []
  fields := []

def shortcutContext : Context := .ofOutlines [shortcutClass, middleClass]

/-- Name of a method that no class of the context declares. -/
def sizeName : UnqualifiedName := ⟨"size", rfl⟩

/-- Call of that method. -/
def sizeCall : Reference :=
  ⟨.methodOf shortcutClass.name sizeName ⟨[], some (.base .int)⟩ false false, .publicAccess⟩

theorem hierarchy_shortcutContext :
    shortcutContext.hierarchy true shortcutClass.name =
      ⟨[shortcutClass, middleClass], [⟨listName, false⟩]⟩ :=
  walk_eq_of_walkWithin 5 (by decide +kernel)

theorem not_declares_shortcutContext {type : Type}
    {members : ClassOutline → List (DeclaredMember type)} {follow : Bool} {owner : BinaryName}
    {name : UnqualifiedName}
    (h : ∀ outline ∈ shortcutContext.classes, ∀ m ∈ members outline, m.name ≠ name) :
    ¬ shortcutContext.Declares follow members owner fun m => m.name = name := by
  rintro ⟨outline, ⟨reached, -, hfound⟩, m, hm, hname⟩
  exact h outline (List.mem_of_find?_eq_some hfound) m hm hname

/-- The characterisation at a class whose interface gets in between. -/
theorem check_member_shortcut :
    shortcutContext.find? shortcutClass.name.text = some shortcutClass ∧
      shortcutContext.check .standard sizeCall =
        shortcutContext.linkOutcome true ClassOutline.methods shortcutClass.name sizeName
          ⟨[], some (.base .int)⟩ false .publicAccess
          (shortcutContext.EndsFirstOnPlatform .standard true shortcutClass.name) :=
  have hfound : shortcutContext.find? shortcutClass.name.text = some shortcutClass := rfl
  ⟨hfound, ((check_member_eq_linkOutcome hfound).1 _).1⟩

/-- The superclasses end at a class of the platform and no class declares the member, and yet it is
missing, because the interface leads to that class over fewer supertypes. -/
theorem check_missing_behind_interface :
    shortcutContext.check .standard sizeCall = .missingMember ∧
      shortcutContext.linkOutcome true ClassOutline.methods shortcutClass.name sizeName
        ⟨[], some (.base .int)⟩ false .publicAccess
        (shortcutContext.EndsOnPlatform .standard shortcutClass.name) = .resolved := by
  constructor
  · change shortcutContext.findMember .standard true ClassOutline.methods shortcutClass.name sizeName
      ⟨[], some (.base .int)⟩ false .publicAccess = .missingMember
    rw [findMember, hierarchy_shortcutContext]
    decide +kernel
  · -- two superclasses lead out of the context
    have hends : shortcutContext.EndsOnPlatform .standard shortcutClass.name :=
      ⟨listName, ⟨rfl, 2, rfl⟩, rfl⟩
    have hnone : ∀ outline ∈ shortcutContext.classes, ∀ m ∈ outline.methods, m.name ≠ sizeName := by
      decide +kernel
    exact linkOutcome_eq_resolved_iff.2 (Or.inr ⟨not_declares_shortcutContext hnone, hends⟩)

end Context

end Linkage
