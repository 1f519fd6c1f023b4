import Linkage.Proofs.Linking

/-!
# Constructors

A class has the constructors that it declares and no other ones, but the search for methods makes no
difference between constructors and other methods. So a reference to a constructor links as well
if the owner has it from above (`Context.InheritsConstructor`): from a class that it extends, or from
the platform that its superclasses lead to.

* `check_constructor_eq_resolved_iff`: when a reference to a constructor links.
* `check_constructor_below_root`: as the built-in root of the hierarchy declares the constructor without
  parameters, every class below it has that constructor for the search.
* `constructors_link_iff`: only the constructors of the owners themselves link exactly if no owner has
  one from above that it does not declare.
-/

set_option autoImplicit false

namespace Linkage

theorem constructorName_valid : memberNameFault? "<init>".toList = none := rfl

/-- Name of all constructors. -/
def constructorName : UnqualifiedName := ⟨"<init>", constructorName_valid⟩

/-- The class itself declares the constructor, and as visible as it has to be. -/
def ClassOutline.DeclaresConstructor (outline : ClassOutline) (descriptor : MethodDescriptor)
    (isStatic : Bool) (required : Visibility) : Prop :=
  ∃ m ∈ outline.methods, m.name = constructorName ∧ m.descriptor = descriptor ∧
    m.isStatic = isStatic ∧ m.visibility.satisfies required = true

/-- Reference to a constructor of a class. -/
def constructorRef (owner : BinaryName) (descriptor : MethodDescriptor)
    (isStatic isInterface : Bool) (required : Visibility) : Reference :=
  ⟨.methodOf owner constructorName descriptor isStatic isInterface, required⟩

namespace Context

/-- The owner has the constructor from above: a class in reach, over one supertype or more, declares
it, or no class in reach declares any constructor and the superclasses lead to the platform. -/
def InheritsConstructor (c : Context) (platform : Platform) (owner : BinaryName)
    (descriptor : MethodDescriptor) (isStatic : Bool) (required : Visibility) : Prop :=
  (∃ name outline, Relation.TransGen (c.NamesSupertype true) owner name ∧
    c.find? name.text = some outline ∧ outline.DeclaresConstructor descriptor isStatic required) ∨
  ¬ c.Declares true ClassOutline.methods owner (fun m => m.name = constructorName) ∧
    c.EndsFirstOnPlatform platform true owner

variable {c : Context} {platform : Platform} {owner : BinaryName} {outline : ClassOutline}
  {descriptor : MethodDescriptor} {isStatic isInterface : Bool} {required : Visibility}

/-- The classes in reach are the owner and the classes above it. -/
theorem offers_constructor_iff (hfound : c.find? owner.text = some outline) :
    c.Offers platform true ClassOutline.methods owner constructorName descriptor isStatic required ↔
      outline.DeclaresConstructor descriptor isStatic required ∨
        c.InheritsConstructor platform owner descriptor isStatic required := by
  constructor
  · rintro (⟨reached, ⟨name, hreach, hname⟩, hdeclares⟩ | hplatform)
    · -- the class in reach is the owner itself or one above it
      rcases Relation.reflTransGen_iff_eq_or_transGen.1 hreach with rfl | habove
      · rw [hfound] at hname
        cases hname
        exact Or.inl hdeclares
      · exact Or.inr (Or.inl ⟨name, reached, habove, hname, hdeclares⟩)
    · exact Or.inr (Or.inr hplatform)
  · rintro (hdeclares | ⟨name, reached, habove, hname, hdeclares⟩ | hplatform)
    · exact Or.inl ⟨outline, ⟨owner, Relation.ReflTransGen.refl, hfound⟩, hdeclares⟩
    · exact Or.inl ⟨reached, ⟨name, habove.to_reflTransGen, hname⟩, hdeclares⟩
    · exact Or.inr hplatform

/-- A reference to a constructor links if its owner is there and of the right kind, and declares the
constructor or has it from above. -/
theorem check_constructor_eq_resolved_iff :
    c.check platform (constructorRef owner descriptor isStatic isInterface required) = .resolved ↔
      ∃ outline, c.find? owner.text = some outline ∧ outline.isInterface = isInterface ∧
        (outline.DeclaresConstructor descriptor isStatic required ∨
          c.InheritsConstructor platform owner descriptor isStatic required) := by
  rw [constructorRef, check_methodOf_eq_resolved_iff]
  constructor
  · rintro ⟨⟨outline, hfound, hkind⟩, hoffers⟩
    exact ⟨outline, hfound, hkind, (offers_constructor_iff hfound).1 hoffers⟩
  · rintro ⟨outline, hfound, hkind, hhas⟩
    exact ⟨⟨outline, hfound, hkind⟩, (offers_constructor_iff hfound).2 hhas⟩

/-! ## Below the root of the hierarchy -/

/-- Signature of the constructor without parameters. -/
def noParameters : MethodDescriptor := ⟨[], none⟩

theorem declaresConstructor_object (required : Visibility) :
    ClassOutline.object.DeclaresConstructor noParameters false required :=
  ⟨_, List.mem_cons_self, rfl, rfl, rfl,
    Visibility.satisfies_iff.2 (Visibility.rank_le_publicAccess required)⟩

/-- The built-in root is found where no class of its name comes before it. -/
theorem find?_object {outlines : List ClassOutline}
    (hroot : ∀ outline ∈ outlines, outline.name ≠ BinaryName.object) :
    (ofOutlines outlines).find? BinaryName.object.text = some ClassOutline.object := by
  have hnone : outlines.find? (fun outline => outline.name.text == BinaryName.object.text) = none := by
    rw [List.find?_eq_none]
    intro outline hmem heq
    exact hroot outline hmem (BinaryName.eq_of_text_eq (beq_iff_eq.1 heq))
  rw [find?_ofOutlines, List.find?_append, hnone]
  rfl

/-- Below the built-in root every class has the constructor without parameters, whatever it declares
itself and however visible the constructor has to be. -/
theorem check_constructor_below_root {outlines : List ClassOutline}
    (hroot : ∀ outline ∈ outlines, outline.name ≠ BinaryName.object)
    (hfound : (ofOutlines outlines).find? owner.text = some outline)
    (habove : Relation.TransGen ((ofOutlines outlines).NamesSupertype true) owner BinaryName.object) :
    (ofOutlines outlines).check platform
      (constructorRef owner noParameters false outline.isInterface required) = .resolved := by
  apply check_constructor_eq_resolved_iff.2
  refine ⟨outline, hfound, rfl, Or.inr (Or.inl ?_)⟩
  exact ⟨_, _, habove, find?_object hroot, declaresConstructor_object required⟩

/-! ## Constructors of the owners themselves -/

/-- Whenever a reference to a constructor links, the owner declares the constructor or has it from
above. So only the constructors that the owners declare themselves link exactly if none of the owners
has one from above that it does not declare. -/
theorem constructors_link_iff (c : Context) (platform : Platform) :
    (∀ owner descriptor isStatic isInterface required,
      c.check platform (constructorRef owner descriptor isStatic isInterface required) = .resolved ↔
        ∃ outline, c.find? owner.text = some outline ∧ outline.isInterface = isInterface ∧
          (outline.DeclaresConstructor descriptor isStatic required ∨
            c.InheritsConstructor platform owner descriptor isStatic required)) ∧
    ((∀ owner descriptor isStatic isInterface required,
        c.check platform (constructorRef owner descriptor isStatic isInterface required) =
          .resolved →
        ∃ outline, c.find? owner.text = some outline ∧
          outline.DeclaresConstructor descriptor isStatic required) ↔
      ∀ owner outline descriptor isStatic required, c.find? owner.text = some outline →
        c.InheritsConstructor platform owner descriptor isStatic required →
          outline.DeclaresConstructor descriptor isStatic required) := by
  refine ⟨fun _ _ _ _ _ => check_constructor_eq_resolved_iff, ?_, ?_⟩
  · -- a constructor from above links with the right kind of call
    intro honly owner outline descriptor isStatic required hfound hinherits
    obtain ⟨outline', hfound', hdeclares⟩ :=
      honly owner descriptor isStatic outline.isInterface required
        (check_constructor_eq_resolved_iff.2 ⟨outline, hfound, rfl, Or.inr hinherits⟩)
    rw [hfound] at hfound'
    cases hfound'
    exact hdeclares
  · intro hinherited owner descriptor isStatic isInterface required hlinks
    obtain ⟨outline, hfound, -, hhas⟩ := check_constructor_eq_resolved_iff.1 hlinks
    exact ⟨outline, hfound, hhas.elim id (hinherited owner outline descriptor isStatic required hfound)⟩

/-- Class whose only constructor has a parameter. -/
def widgetClass : ClassOutline where
  name := ⟨"lib/Widget", rfl⟩
  superClass := some BinaryName.object
  interfaces := []
  isInterface := false
  visibility := .publicAccess
  methods := [⟨constructorName, ⟨[.base .int], none⟩, .publicAccess, false⟩]
  fields := []

/-- The class has no constructor without parameters, but the reference to one links. -/
theorem check_undeclared_constructor :
    (ofOutlines [widgetClass]).check .standard
        (constructorRef widgetClass.name noParameters false false .publicAccess) = .resolved ∧
      ¬ ∃ outline, (ofOutlines [widgetClass]).find? widgetClass.name.text = some outline ∧
        outline.DeclaresConstructor noParameters false .publicAccess := by
  have hfound : (ofOutlines [widgetClass]).find? widgetClass.name.text = some widgetClass := rfl
  constructor
  · have habove : (ofOutlines [widgetClass]).NamesSupertype true widgetClass.name
        BinaryName.object := ⟨widgetClass, hfound, Or.inl rfl⟩
    exact check_constructor_below_root (by decide) hfound (Relation.TransGen.single habove)
  · rintro ⟨outline, houtline, m, hm, -, hdescriptor, -⟩
    rw [hfound] at houtline
    cases houtline
    rw [List.mem_singleton.1 hm] at hdescriptor
    cases hdescriptor

end Context

end Linkage
