import Linkage.Proofs.Agreement
import Linkage.Proofs.Collecting
import Linkage.Proofs.OwnWalks
import Linkage.Proofs.Recording

/-!
# Modules that link with a library

A module is collected without the library in view, and its manifest is then checked in the context of
the library alone. A member that is inherited is asked for at the first superclass beyond the own
classes of the module.

`allResolved_collect_iff` compares this with the module and the library in one context. If everything
that the module asks for links there as the module names it, then every reference of the manifest
links in the library, apart from those in doubt (`Doubtful`): members that were moved to a superclass
although an own class on the way names interfaces, or the superclass is of another kind, or the own
classes hide each other or are under names of the platform; calls that were marked as ones through an
interface when they were recorded; and members of classes of the library that are built on own
classes. `Greeting.agent_links_and_fails` is a module with a member of the first sort.
-/

set_option autoImplicit false

namespace Linkage

open Fallible

/-! ## Marked targets -/

namespace Target

/-- The target as a call through an interface. -/
def onInterface : Target → Target
  | .methodOf owner name descriptor isStatic _ => .methodOf owner name descriptor isStatic true
  | target => target

/-- Joining keeps a target or marks it. -/
theorem join_eq_or (s t : Target) : s.join t = s ∨ s.join t = s.onInterface := by
  cases s with
  | classOf name => exact Or.inl rfl
  | fieldOf owner name type isStatic => exact Or.inl rfl
  | methodOf owner name descriptor isStatic isInterface =>
      cases t with
      | classOf name => exact Or.inl rfl
      | fieldOf owner name type isStatic => exact Or.inl rfl
      | methodOf owner' name' descriptor' isStatic' isInterface' =>
          cases isInterface' with
          | false => exact Or.inl (by simp [join])
          | true => exact Or.inr (by simp [join, onInterface])

theorem onInterface_onInterface {t : Target} : t.onInterface.onInterface = t.onInterface := by
  cases t <;> rfl

end Target

namespace Instrumentation

variable {m : Instrumentation} {e : Environment} {manifest : Manifest}
  {demands : List (Reference × BinaryName)}

theorem collect_eq_ok_iff :
    m.collect e = .ok manifest ↔ ∃ demands, m.demands e = .ok demands ∧ .record demands = manifest := by
  rw [collect, bind_eq_ok_iff]
  simp only [pure_eq_ok_iff, Manifest.record]

/-- What a manifest asks for was demanded, or demanded and marked. -/
theorem exists_demand_of_mem_record {entry : Manifest.Entry}
    (h : entry ∈ (Manifest.record demands).entries) :
    ∃ demand ∈ demands, entry.reference.target = demand.1.target ∨
      entry.reference.target = demand.1.target.onInterface := by
  -- a join marks the first one of the two targets at most, and marking twice is marking once
  have hclosed : Manifest.JoinClosed fun t => ∃ demand ∈ demands,
      t = demand.1.target ∨ t = demand.1.target.onInterface := by
    rintro s t ⟨demand, hdemand, hs⟩ - -
    refine ⟨demand, hdemand, ?_⟩
    rcases Target.join_eq_or s t with hjoin | hjoin
    · rwa [hjoin]
    · rcases hs with rfl | rfl
      · exact Or.inr hjoin
      · exact Or.inr (hjoin.trans Target.onInterface_onInterface)
  exact Manifest.within_record hclosed (fun demand hdemand => ⟨demand, hdemand, Or.inl rfl⟩) entry h

/-! ## References in doubt -/

/-- The module demands the target of the library. -/
def Demands (m : Instrumentation) (e : Environment) (t : Target) : Prop :=
  ∃ demands, m.demands e = .ok demands ∧ ∃ demand ∈ demands, demand.1.target = t

end Instrumentation

/-- A class of the context under an own name is in reach of the class. -/
def Context.ReachesOwn (c : Context) (own : OwnClasses) (x : BinaryName) : Prop :=
  ∃ name, c.Reaches true x name ∧ own.contains name = true

/-- The owner of a method is a class although the call is one through an interface, or the other way
round. -/
def Context.HasOtherKind (c : Context) (t : Target) : Prop :=
  ∃ owner name descriptor isStatic isInterface outline,
    t = .methodOf owner name descriptor isStatic isInterface ∧
      c.find? owner.text = some outline ∧ outline.isInterface ≠ isInterface

/-- A member was asked for at a named class, and linking begins at another one, the owner of the
target. -/
def Instrumentation.Moves (m : Instrumentation) (own : OwnClasses) (named : BinaryName) (t : Target) :
    Prop :=
  ∃ s, m.Asks s ∧ s.namedOwner = .ok named ∧ named ≠ t.owner ∧
    s.linkOwner? own named = some t.owner ∧ s.targetAt t.owner = .ok t

/-- Targets of a manifest that can be missing in the library although the module links with it. -/
inductive Instrumentation.Doubtful (m : Instrumentation) (e : Environment) (own : OwnClasses)
    (outlines : List ClassOutline) (library : Context) : Target → Prop
  /-- Moved past own classes that name interfaces. -/
  | moved {named : BinaryName} {t : Target} : m.Moves own named t →
      own.NamesInterfaces (library.prepend outlines) named → Doubtful m e own outlines library t
  /-- Moved to a class of another kind. -/
  | otherKind {named : BinaryName} {t : Target} : m.Moves own named t → library.HasOtherKind t →
      Doubtful m e own outlines library t
  /-- Moved from a class that the platform has as well, or past own classes of one name. -/
  | hidden {named : BinaryName} {t : Target} : m.Moves own named t →
      e.platform.provides named = true ∨ ¬ (outlines.map ClassOutline.name).Nodup →
      Doubtful m e own outlines library t
  /-- Marked by another demand. -/
  | marked {t : Target} : m.Demands e t → t.onInterface ≠ t →
      Doubtful m e own outlines library t.onInterface
  /-- A member of a class that is built on own classes. -/
  | leadsBack {t : Target} : ¬ t.IsClass → library.ReachesOwn own t.owner →
      Doubtful m e own outlines library t

/-! ## References that are not in doubt -/

namespace MemberSite

variable {s : MemberSite} {x : BinaryName} {t : Target}

/-- The member at a class is a method or a field of it, with a type that its text is read as. -/
theorem targetAt_eq_ok_iff :
    s.targetAt x = .ok t ↔ ∃ name, ClassError.unqualifiedName s.info.name = .ok name ∧
      ((∃ type, s.info.kind = .field ∧ ClassError.fieldType s.info.descriptor = .ok type ∧
          t = .fieldOf x name type s.isStatic) ∨
        ∃ isInterface descriptor, s.info.kind = .method isInterface ∧
          ClassError.methodDescriptor s.info.descriptor = .ok descriptor ∧
          t = .methodOf x name descriptor s.isStatic (isInterface || s.isInterfaceCall)) := by
  rw [targetAt, bind_eq_ok_iff]
  refine exists_congr fun name => and_congr_right fun _ => ?_
  cases hkind : s.info.kind with
  | field =>
      constructor
      · intro h
        obtain ⟨type, htype, hpure⟩ := bind_eq_ok_iff.1 h
        exact Or.inl ⟨type, rfl, htype, (pure_eq_ok_iff.1 hpure).symm⟩
      · rintro (⟨type, -, htype, rfl⟩ | ⟨isInterface, descriptor, hmethod, -⟩)
        · exact bind_eq_ok_iff.2 ⟨type, htype, rfl⟩
        · cases hmethod
  | method isInterface =>
      constructor
      · intro h
        obtain ⟨descriptor, hdescriptor, hpure⟩ := bind_eq_ok_iff.1 h
        exact Or.inr ⟨isInterface, descriptor, rfl, hdescriptor, (pure_eq_ok_iff.1 hpure).symm⟩
      · rintro (⟨type, hfield, -⟩ | ⟨isInterface', descriptor, hmethod, hdescriptor, rfl⟩)
        · cases hfield
        · cases hmethod
          exact bind_eq_ok_iff.2 ⟨descriptor, hdescriptor, rfl⟩

theorem owner_of_targetAt (h : s.targetAt x = .ok t) : t.owner = x := by
  obtain ⟨name, -, ⟨type, -, -, rfl⟩ | ⟨isInterface, descriptor, -, -, rfl⟩⟩ := targetAt_eq_ok_iff.1 h
  · rfl
  · rfl

end MemberSite

namespace Instrumentation

variable {m : Instrumentation} {e : Environment} {own : OwnClasses} {outlines : List ClassOutline}
  {library : Context} {t : Target} {named : BinaryName} {v : Visibility}

/-- What the module asks for links as it is named, in the context of the module and the library. -/
def LinksAsNamed (m : Instrumentation) (platform : Platform) (c : Context) : Prop :=
  ∀ t, m.AsksFor t → platform.provides t.owner = false → c.check platform ⟨t, .publicAccess⟩ = .resolved

variable (hown : OwnClasses.ofClassFiles m.classes = .ok own)
  (houtlines : m.classes.mapM ClassOutline.ofClassFile = .ok outlines)
  (hlinks : m.LinksAsNamed e.platform (library.prepend outlines))

include hown houtlines in
/-- The library alone and together with the module agree about a class of the library that is not
built on own classes. -/
theorem agreesFrom_prepend {x : BinaryName} (h : ¬ library.ReachesOwn own x) :
    library.AgreesFrom (library.prepend outlines) x := by
  intro name hreach
  refine OwnClasses.find?_prepend_of_not_own hown houtlines ?_
  by_contra hcontains
  exact h ⟨name, hreach, by simpa using hcontains⟩

include hown houtlines hlinks

/-- A target that is asked for as it stands links in the library. -/
theorem check_of_asksFor (hasks : m.AsksFor t) (hplatform : e.platform.provides t.owner = false)
    (hreaches : ¬ library.ReachesOwn own t.owner) :
    library.check e.platform ⟨t, v⟩ = .resolved := by
  have hagree := agreesFrom_prepend hown houtlines hreaches
  have hpublic := hagree.check_eq_resolved_iff.1 (hlinks t hasks hplatform)
  exact Context.check_eq_resolved_mono hpublic v.rank_le_publicAccess

/-- A target that was moved links in the library, if the own classes on the way name no interfaces and
the owner is of the right kind. -/
theorem check_of_moves (hmoves : m.Moves own named t)
    (hnamed : e.platform.provides named = false) (hplatform : e.platform.provides t.owner = false)
    (hdistinct : (outlines.map ClassOutline.name).Nodup)
    (hinterfaces : ¬ own.NamesInterfaces (library.prepend outlines) named)
    (hkind : ¬ library.HasOtherKind t) (hreaches : ¬ library.ReachesOwn own t.owner) :
    library.check e.platform ⟨t, v⟩ = .resolved := by
  obtain ⟨s, hasks, hnamedOwner, -, howner, htarget⟩ := hmoves
  -- the same superclasses lead there in the context of both, and the library alone goes on alike
  generalize t.owner = x at *
  have hagree := agreesFrom_prepend hown houtlines hreaches
  have hascends := OwnClasses.ascends_of_linkOwnerFrom hown houtlines hdistinct hinterfaces howner
  refine Context.check_eq_resolved_mono ?_ v.rank_le_publicAccess
  obtain ⟨name, hname, ⟨type, hfield, htype, ht⟩ | ⟨isInterface, descriptor, hmethod, hdescriptor, ht⟩⟩ :=
    MemberSite.targetAt_eq_ok_iff.1 htarget
  · subst ht
    have hnone : ∀ outline, OwnClasses.Passes s.info.name s.info.descriptor outline →
        ∀ m ∈ outline.fields, ¬ (m.name = name ∧ m.descriptor = type) := by
      rintro outline hpasses m hm ⟨rfl, rfl⟩
      exact hpasses.not_mem_fields hm (ClassError.text_of_unqualifiedName hname) htype
    have hasksFor : m.AsksFor (.fieldOf named name type s.isStatic) :=
      ⟨s, hasks, hnamedOwner,
        MemberSite.targetAt_eq_ok_iff.2 ⟨name, hname, Or.inl ⟨type, hfield, htype, rfl⟩⟩⟩
    have hoffers := (Context.check_fieldOf_eq_resolved_iff.1 (hlinks _ hasksFor hnamed)).2
    have hoffers' := hagree.offers_iff.1 (hascends.offers hnone hoffers)
    exact Context.check_fieldOf_eq_resolved_iff.2 ⟨hoffers'.exists_outline hplatform, hoffers'⟩
  · subst ht
    have hnone : ∀ outline, OwnClasses.Passes s.info.name s.info.descriptor outline →
        ∀ m ∈ outline.methods, ¬ (m.name = name ∧ m.descriptor = descriptor) := by
      rintro outline hpasses m hm ⟨rfl, rfl⟩
      exact hpasses.not_mem_methods hm (ClassError.text_of_unqualifiedName hname) hdescriptor
    have hasksFor : m.AsksFor
        (.methodOf named name descriptor s.isStatic (isInterface || s.isInterfaceCall)) :=
      ⟨s, hasks, hnamedOwner, MemberSite.targetAt_eq_ok_iff.2
        ⟨name, hname, Or.inr ⟨isInterface, descriptor, hmethod, hdescriptor, rfl⟩⟩⟩
    have hoffers := (Context.check_methodOf_eq_resolved_iff.1 (hlinks _ hasksFor hnamed)).2
    have hoffers' := hagree.offers_iff.1 (hascends.offers hnone hoffers)
    obtain ⟨outline, hfound⟩ := hoffers'.exists_outline hplatform
    refine Context.check_methodOf_eq_resolved_iff.2 ⟨⟨outline, hfound, ?_⟩, hoffers'⟩
    -- the call had the kind of the named class, which the owner has to be of as well
    by_contra hother
    exact hkind ⟨_, _, _, _, _, outline, rfl, hfound, hother⟩

/-- A member that is demanded links in the library, if it is not in doubt. -/
theorem check_of_demands (hdemands : m.Demands e t) (hmember : ¬ t.IsClass)
    (hdoubt : ¬ m.Doubtful e own outlines library t) :
    library.check e.platform ⟨t, v⟩ = .resolved := by
  have hreaches : ¬ library.ReachesOwn own t.owner := fun h => hdoubt (.leadsBack hmember h)
  obtain ⟨demands, hdemands, demand, hdemand, rfl⟩ := hdemands
  obtain ⟨hexternal, hclass | ⟨s, named, owner, hasks, hnamed, howner, htarget⟩⟩ :=
    demand_cases hown hdemands hdemand
  · exact absurd hclass hmember
  · have hplatform : e.platform.provides demand.1.target.owner = false := by
      have hprovides : e.provides demand.1.owner = false := by
        simpa using (Bool.and_eq_true_iff.1 hexternal).2
      exact (Bool.or_eq_false_iff.1 hprovides).1
    have hownerEq : demand.1.target.owner = owner := MemberSite.owner_of_targetAt htarget
    by_cases hsame : named = demand.1.target.owner
    · -- linking begins where the member is named
      have hasksFor : m.AsksFor demand.1.target := by
        refine ⟨s, hasks, hsame ▸ hnamed, ?_⟩
        rwa [hownerEq]
      exact check_of_asksFor hown houtlines hlinks hasksFor hplatform hreaches
    · -- the own classes moved the member up
      have hmoves : m.Moves own named demand.1.target := by
        refine ⟨s, hasks, hnamed, hsame, ?_, ?_⟩
        · rwa [hownerEq]
        · rwa [hownerEq]
      have hvisible : e.platform.provides named = false ∧
          (outlines.map ClassOutline.name).Nodup := by
        by_contra hhidden
        rw [not_and_or, Bool.not_eq_false] at hhidden
        exact hdoubt (.hidden hmoves hhidden)
      exact check_of_moves hown houtlines hlinks hmoves hvisible.1 hplatform hvisible.2
        (fun h => hdoubt (.moved hmoves h)) (fun h => hdoubt (.otherKind hmoves h)) hreaches

omit hown houtlines hlinks

/-! ## The round trip -/

/-- A module is collected that links as it is named with a library, and all classes that it asks for
are there and public. Then its manifest links in the library alone exactly if those of its references
do that are in doubt. -/
theorem allResolved_collect_iff {manifest : Manifest} (hcollect : m.collect e = .ok manifest)
    (houtlines : m.classes.mapM ClassOutline.ofClassFile = .ok outlines)
    (hclasses : ∀ name, m.Demands e (.classOf name) →
      ∃ outline, library.find? name.text = some outline ∧ outline.visibility = .publicAccess)
    (hlinks : m.LinksAsNamed e.platform (library.prepend outlines)) :
    ∃ own, OwnClasses.ofClassFiles m.classes = .ok own ∧
      ((library.checkAll e.platform manifest).allResolved = true ↔
        ∀ r ∈ manifest.references, m.Doubtful e own outlines library r.target →
          library.check e.platform r = .resolved) := by
  obtain ⟨demands, hdemands, rfl⟩ := collect_eq_ok_iff.1 hcollect
  obtain ⟨own, hown, -⟩ := bind_eq_ok_iff.1 hdemands
  refine ⟨own, hown, ?_⟩
  simp only [Context.allResolved_checkAll_iff, Manifest.references, List.forall_mem_map]
  refine ⟨fun h entry hentry _ => h entry hentry, fun h entry hentry => ?_⟩
  by_cases hdoubt : m.Doubtful e own outlines library entry.reference.target
  · exact h entry hentry hdoubt
  · obtain ⟨demand, hdemand, htarget⟩ := exists_demand_of_mem_record hentry
    have hdemanded : m.Demands e demand.1.target := ⟨demands, hdemands, demand, hdemand, rfl⟩
    -- a marked target is in doubt, so this one is as it was demanded
    have hkeep : entry.reference.target = demand.1.target := by
      rcases htarget with htarget | htarget
      · exact htarget
      · by_contra hmarked
        rw [htarget] at hmarked hdoubt
        exact hdoubt (.marked hdemanded hmarked)
    rw [← hkeep] at hdemanded
    by_cases hclass : entry.reference.target.IsClass
    · obtain ⟨name, hname⟩ := hclass
      rw [hname] at hdemanded
      obtain ⟨outline, hfound, hpublic⟩ := hclasses name hdemanded
      have hcheck : ∀ {v}, library.check e.platform ⟨.classOf name, v⟩ = .resolved := by
        intro v
        refine Context.check_classOf_eq_resolved_iff.2 ⟨outline, hfound, ?_⟩
        rw [hpublic]
        exact Visibility.satisfies_iff.2 v.rank_le_publicAccess
      rw [show entry.reference = ⟨.classOf name, entry.reference.visibility⟩ by rw [← hname]]
      exact hcheck
    · exact check_of_demands hown houtlines hlinks hdemanded hclass hdoubt

end Instrumentation

/-! ## A member inherited over an interface -/

namespace Greeting

def callerName : BinaryName := ⟨"agent/Caller", rfl⟩

def baseName : BinaryName := ⟨"lib/Base", rfl⟩

def greeterName : BinaryName := ⟨"lib/Greeter", rfl⟩

def greetName : UnqualifiedName := ⟨"greet", rfl⟩

/-- Interface of the library with a method. -/
def greeter : ClassOutline where
  name := greeterName
  superClass := some .object
  interfaces := []
  isInterface := true
  visibility := .publicAccess
  methods := [⟨greetName, ⟨[], none⟩, .publicAccess, false⟩]
  fields := []

/-- Class of the library without that method. -/
def base : ClassOutline := { ClassOutline.bare baseName with superClass := some .object }

def library : Context := .ofOutlines [base, greeter]

/-- Method with a body in one attribute, which loads the receiver, calls the method at index 10 and
returns. -/
def callerMethod : Method where
  flags := .ofBits 1
  name := 11
  descriptor := 8
  attributes := [⟨12, [0, 1, 0, 1, 0, 0, 0, 5, 0x2a, 0xb6, 0, 10, 0xb1, 0, 0, 0, 0]⟩]

/-- Class file of a class that extends the one class and implements the other. In its method it calls
the method of the interface on itself. -/
def callerFile : ClassFile where
  minorVersion := 0
  majorVersion := 52
  pool := ⟨⟨#[(1, .utf8 "agent/Caller"), (2, .classInfo 1), (3, .utf8 "lib/Base"), (4, .classInfo 3),
    (5, .utf8 "lib/Greeter"), (6, .classInfo 5), (7, .utf8 "greet"), (8, .utf8 "()V"),
    (9, .nameAndType 7 8), (10, .methodRef 2 9 false), (11, .utf8 "run"), (12, .utf8 "Code")], 13⟩⟩
  flags := .ofBits 0x21
  thisClass := 2
  superClass := some 4
  interfaces := [6]
  fields := []
  methods := [callerMethod]
  attributes := []

/-- Module of that class. -/
def agent : Instrumentation := ⟨"agent", [callerFile]⟩

/-- Outline of that class. -/
def caller : ClassOutline where
  name := callerName
  superClass := some baseName
  interfaces := [greeterName]
  isInterface := false
  visibility := .publicAccess
  methods := [⟨⟨"run", rfl⟩, ⟨[], none⟩, .publicAccess, false⟩]
  fields := []

/-- The method at a class. -/
def greetAt (owner : BinaryName) : Target := .methodOf owner greetName ⟨[], none⟩ false false

def demands : List (Reference × BinaryName) :=
  [(⟨.classOf baseName, .publicAccess⟩, callerName), (⟨.classOf greeterName, .publicAccess⟩, callerName),
    (⟨greetAt baseName, .protectedAccess⟩, callerName)]

theorem demands_agent : agent.demands .standard = .ok demands := by
  decide +kernel

theorem outlines_agent : agent.classes.mapM ClassOutline.ofClassFile = .ok [caller] := by
  decide +kernel

/-- Body of the only method. -/
def callerBody : MethodBody := ⟨1, 1, [0x2a, 0xb6, 0, 10, 0xb1], [], []⟩

theorem hasBody_callerFile {body : MethodBody} (h : callerFile.HasBody body) : body = callerBody := by
  obtain ⟨method, hmethod, hbody⟩ := h
  obtain rfl := List.mem_singleton.1 hmethod
  have hcaller : callerMethod.body? callerFile.pool = .ok (some callerBody) := by decide +kernel
  rw [hcaller] at hbody
  cases hbody
  rfl

theorem ofCode_callerBody : Disassembly.ofCode callerBody.code =
    ⟨[(0, .other 0x2a []), (1, .invoke .virtual 10), (4, .other 0xb1 [])], none⟩ := by
  decide +kernel

/-- The call of the method, at the class itself. -/
def greetSite : MemberSite := ⟨⟨"agent/Caller", "greet", "()V", .method false⟩, false, false⟩

theorem asks_callerFile {s : MemberSite} (h : callerFile.Asks s) : s = greetSite := by
  obtain ⟨info, isStatic, isInterfaceCall⟩ := s
  obtain ⟨method, hmethod, body, hbody, entry, hentry, index, huse, hinfo⟩ := h
  obtain rfl := hasBody_callerFile ⟨method, hmethod, hbody⟩
  -- the second instruction asks for a member
  rw [ofCode_callerBody] at hentry
  simp only [List.mem_cons, List.not_mem_nil, or_false] at hentry
  rcases hentry with rfl | rfl | rfl
  · cases huse
  · cases huse
    have hmember : callerFile.pool.member 10 =
        .ok ⟨"agent/Caller", "greet", "()V", .method false⟩ := by decide +kernel
    rw [hmember] at hinfo
    cases hinfo
    rfl
  · cases huse

theorem namedOwner_greetSite : greetSite.namedOwner = .ok callerName := rfl

/-- The module asks for nothing but the method on its own class. -/
theorem asksFor_agent {t : Target} (h : agent.AsksFor t) : t = greetAt callerName := by
  obtain ⟨s, ⟨c, hc, hasks⟩, hnamed, htarget⟩ := h
  obtain rfl := List.mem_singleton.1 hc
  obtain rfl := asks_callerFile hasks
  have howner : callerName = t.owner := Except.ok.inj (namedOwner_greetSite.symm.trans hnamed)
  have hgreet : greetSite.targetAt callerName = .ok (greetAt callerName) := by decide +kernel
  rw [← howner] at htarget
  exact Except.ok.inj (htarget.symm.trans hgreet)

theorem check_greetAt_caller :
    (library.prepend [caller]).check .standard ⟨greetAt callerName, .publicAccess⟩ = .resolved := by
  have hhierarchy : (library.prepend [caller]).hierarchy true callerName =
      ⟨[caller, base, greeter, .object], []⟩ := Context.walk_eq_of_walkWithin 8 rfl
  change (library.prepend [caller]).findMember .standard true ClassOutline.methods callerName greetName
    ⟨[], none⟩ false .publicAccess = .resolved
  rw [Context.findMember, hhierarchy]
  rfl

theorem check_greetAt_base :
    library.check .standard ⟨greetAt baseName, .protectedAccess⟩ = .missingMember := by
  have hhierarchy : library.hierarchy true baseName = ⟨[base, .object], []⟩ :=
    Context.walk_eq_of_walkWithin 8 rfl
  change library.findMember .standard true ClassOutline.methods baseName greetName ⟨[], none⟩ false
    .protectedAccess = .missingMember
  rw [Context.findMember, hhierarchy]
  rfl

theorem linksAsNamed_agent :
    agent.LinksAsNamed Environment.standard.platform (library.prepend [caller]) := by
  intro t ht _
  rw [asksFor_agent ht]
  exact check_greetAt_caller

theorem classes_agent (name : BinaryName) (h : agent.Demands .standard (.classOf name)) :
    ∃ outline, library.find? name.text = some outline ∧ outline.visibility = .publicAccess := by
  obtain ⟨demands', hdemands', demand, hdemand, htarget⟩ := h
  rw [demands_agent] at hdemands'
  cases hdemands'
  simp only [demands, List.mem_cons, List.not_mem_nil, or_false] at hdemand
  rcases hdemand with rfl | rfl | rfl
  · cases htarget
    exact ⟨base, rfl, rfl⟩
  · cases htarget
    exact ⟨greeter, rfl, rfl⟩
  · cases htarget

theorem collect_agent : agent.collect .standard = .ok (.record demands) :=
  Instrumentation.collect_eq_ok_iff.2 ⟨demands, demands_agent, rfl⟩

/-- For this module it comes down to the references in doubt. -/
theorem agent_comes_down_to_doubts :
    ∃ own, OwnClasses.ofClassFiles agent.classes = .ok own ∧
      ((library.checkAll Environment.standard.platform (.record demands)).allResolved = true ↔
        ∀ r ∈ (Manifest.record demands).references,
          agent.Doubtful .standard own [caller] library r.target →
            library.check Environment.standard.platform r = .resolved) :=
  Instrumentation.allResolved_collect_iff collect_agent outlines_agent classes_agent linksAsNamed_agent

/-- The module links with the library, where the interface has the method. Its manifest asks for the
method at the superclass, which does not have it. -/
theorem agent_links_and_fails :
    agent.collect .standard = .ok (.record demands) ∧
      agent.classes.mapM ClassOutline.ofClassFile = .ok [caller] ∧
      (∀ name, agent.Demands .standard (.classOf name) →
        ∃ outline, library.find? name.text = some outline ∧ outline.visibility = .publicAccess) ∧
      agent.LinksAsNamed .standard (library.prepend [caller]) ∧
      (library.checkAll .standard (.record demands)).allResolved = false := by
  refine ⟨collect_agent, outlines_agent, classes_agent, linksAsNamed_agent, ?_⟩
  -- the keys of the demands differ, so the manifest asks for each of them as it stands
  have hkeys : ∀ s ∈ demands.map fun use => use.1.target, ∀ t ∈ demands.map fun use => use.1.target,
      s.key = t.key → s = t := by
    decide +kernel
  have hrecord : library.Links .standard (.record demands) ↔
      ∀ use ∈ demands, library.check .standard use.1 = .resolved :=
    Context.links_record_iff (fun s t hs ht => hkeys s hs t ht) fun use huse => List.mem_map_of_mem huse
  rw [← Bool.not_eq_true, Context.allResolved_checkAll_iff, hrecord]
  intro hlinks
  have hresolved := hlinks (⟨greetAt baseName, .protectedAccess⟩, callerName) (by simp [demands])
  rw [check_greetAt_base] at hresolved
  cases hresolved

end Greeting

end Linkage
