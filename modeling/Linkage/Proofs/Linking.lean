import Linkage.Proofs.MemberSearch

/-!
# When references link

A reference links if its owner is there and fits: a class has to be visible enough, the kind of a
call has to be the kind of its owner, and the classes in reach have to offer a member (`Offers`).
To ask for less visibility never keeps a reference from linking (`check_eq_resolved_mono`), so two
demands on one thing are met exactly if the joined one is (`check_join_eq_resolved_iff`). A manifest
links if every reference of it does (`allResolved_checkAll_iff`).
-/

set_option autoImplicit false

namespace Linkage

/-! ## Visibilities -/

namespace Visibility

variable {a b v : Visibility}

theorem satisfies_iff : v.satisfies a = true ↔ a.rank ≤ v.rank := by
  simp [satisfies]

theorem satisfies_mono (h : v.satisfies b = true) (hle : a.rank ≤ b.rank) :
    v.satisfies a = true :=
  satisfies_iff.2 (Nat.le_trans hle (satisfies_iff.1 h))

theorem rank_le_publicAccess (v : Visibility) : v.rank ≤ publicAccess.rank := by
  cases v <;> decide

theorem max_eq_or (a b : Visibility) :
    a.max b = a ∧ b.rank ≤ a.rank ∨ a.max b = b ∧ a.rank ≤ b.rank := by
  unfold max
  split
  · rename_i hle
    exact Or.inr ⟨rfl, hle⟩
  · rename_i hlt
    exact Or.inl ⟨rfl, by omega⟩

theorem rank_max (a b : Visibility) : (a.max b).rank = Nat.max a.rank b.rank := by
  cases a <;> cases b <;> rfl

end Visibility

namespace Context

variable {c : Context} {platform : Platform} {follow : Bool} {owner : BinaryName}
  {name : UnqualifiedName} {isStatic isInterface : Bool} {a b required : Visibility}

theorem Declares.mono {type : Type} {members : ClassOutline → List (DeclaredMember type)}
    {p q : DeclaredMember type → Prop} (h : c.Declares follow members owner p)
    (hpq : ∀ m, p m → q m) : c.Declares follow members owner q := by
  obtain ⟨outline, hreach, m, hm, hp⟩ := h
  exact ⟨outline, hreach, m, hm, hpq m hp⟩

theorem Offers.mono {type : Type} {members : ClassOutline → List (DeclaredMember type)}
    {descriptor : type}
    (h : c.Offers platform follow members owner name descriptor isStatic b)
    (hle : a.rank ≤ b.rank) :
    c.Offers platform follow members owner name descriptor isStatic a := by
  rcases h with hdeclared | hinherited
  · refine Or.inl (hdeclared.mono ?_)
    rintro m ⟨hname, hdescriptor, hstatic, hvisible⟩
    exact ⟨hname, hdescriptor, hstatic, Visibility.satisfies_mono hvisible hle⟩
  · exact Or.inr hinherited

/-! ## Single references -/

theorem check_classOf_eq_resolved_iff {name : BinaryName} :
    c.check platform ⟨.classOf name, required⟩ = .resolved ↔
      ∃ outline, c.find? name.text = some outline ∧ outline.visibility.satisfies required = true := by
  cases hfound : c.find? name.text with
  | none => simp [check, Reference.owner, Target.owner, hfound]
  | some outline => simp [check, Reference.owner, Target.owner, hfound]

theorem check_methodOf_eq_resolved_iff {descriptor : MethodDescriptor} :
    c.check platform ⟨.methodOf owner name descriptor isStatic isInterface, required⟩ = .resolved ↔
      (∃ outline, c.find? owner.text = some outline ∧ outline.isInterface = isInterface) ∧
        c.Offers platform true ClassOutline.methods owner name descriptor isStatic required := by
  cases hfound : c.find? owner.text with
  | none => simp [check, Reference.owner, Target.owner, hfound]
  | some outline =>
      -- the kind of the call is looked at before the members are
      by_cases hkind : outline.isInterface = isInterface
      · subst hkind
        rw [check_methodOf hfound, linkOutcome_eq_resolved_iff]
        simp [Offers]
      · simp [check, Reference.owner, Target.owner, hfound, hkind]

theorem check_fieldOf_eq_resolved_iff {fieldType : FieldType} :
    c.check platform ⟨.fieldOf owner name fieldType isStatic, required⟩ = .resolved ↔
      (∃ outline, c.find? owner.text = some outline) ∧
        c.Offers platform isStatic ClassOutline.fields owner name fieldType isStatic required := by
  cases hfound : c.find? owner.text with
  | none => simp [check, Reference.owner, Target.owner, hfound]
  | some outline =>
      rw [check_fieldOf hfound, linkOutcome_eq_resolved_iff]
      simp [Offers]

/-- A class without supertypes offers what it declares itself. -/
theorem offers_iff_of_no_supertypes {type : Type}
    {members : ClassOutline → List (DeclaredMember type)} {descriptor : type}
    {outline : ClassOutline} (hfound : c.find? owner.text = some outline)
    (hsuper : outline.superClass = none) (hinterfaces : outline.interfaces = []) :
    c.Offers platform follow members owner name descriptor isStatic required ↔
      ∃ m ∈ members outline, m.name = name ∧ m.descriptor = descriptor ∧ m.isStatic = isStatic ∧
        m.visibility.satisfies required = true := by
  have hstay : ∀ {a}, c.Reaches follow owner a → a = owner := by
    intro a hreach
    rcases Relation.ReflTransGen.cases_head hreach with rfl | ⟨b, hstep, -⟩
    · rfl
    · rw [namesSupertype_iff hfound, hsuper, hinterfaces] at hstep
      simp at hstep
  constructor
  · rintro (⟨reached, ⟨a, hreach, ha⟩, hm⟩ | ⟨-, x, hends, -⟩)
    · -- the class that declares the member is the owner
      rw [hstay hreach, hfound] at ha
      cases ha
      exact hm
    · -- the owner is found, so the way to the end would be a step
      obtain ⟨habsent, n, hn⟩ := hends.endsAt
      rw [hstay (reachesIn_of_ancestor? hn).reaches, hfound] at habsent
      cases habsent
  · exact fun hm => Or.inl ⟨outline, ⟨owner, Relation.ReflTransGen.refl, hfound⟩, hm⟩

/-- A reference that links does so as well if it asks for less visibility. -/
theorem check_eq_resolved_mono {t : Target} (h : c.check platform ⟨t, b⟩ = .resolved)
    (hle : a.rank ≤ b.rank) : c.check platform ⟨t, a⟩ = .resolved := by
  cases t with
  | classOf name =>
      obtain ⟨outline, hfound, hvisible⟩ := check_classOf_eq_resolved_iff.1 h
      exact check_classOf_eq_resolved_iff.2
        ⟨outline, hfound, Visibility.satisfies_mono hvisible hle⟩
  | methodOf owner name descriptor isStatic isInterface =>
      obtain ⟨hkind, hoffers⟩ := check_methodOf_eq_resolved_iff.1 h
      exact check_methodOf_eq_resolved_iff.2 ⟨hkind, hoffers.mono hle⟩
  | fieldOf owner name fieldType isStatic =>
      obtain ⟨hfound, hoffers⟩ := check_fieldOf_eq_resolved_iff.1 h
      exact check_fieldOf_eq_resolved_iff.2 ⟨hfound, hoffers.mono hle⟩

/-- Both visibilities are met exactly if the greater one is. -/
theorem check_max_eq_resolved_iff {t : Target} :
    c.check platform ⟨t, a.max b⟩ = .resolved ↔
      c.check platform ⟨t, a⟩ = .resolved ∧ c.check platform ⟨t, b⟩ = .resolved := by
  rcases Visibility.max_eq_or a b with ⟨hmax, hle⟩ | ⟨hmax, hle⟩
  · rw [hmax]
    exact ⟨fun h => ⟨h, check_eq_resolved_mono h hle⟩, And.left⟩
  · rw [hmax]
    exact ⟨fun h => ⟨check_eq_resolved_mono h hle, h⟩, And.right⟩

/-! ## Manifests -/

/-- Every entry of the manifest links. -/
def Links (c : Context) (platform : Platform) (m : Manifest) : Prop :=
  ∀ e ∈ m.entries, c.check platform e.reference = .resolved

theorem allResolved_checkAll_iff {m : Manifest} :
    (c.checkAll platform m).allResolved = true ↔ c.Links platform m := by
  simp [checkAll, MatchReport.allResolved, Manifest.references, Links]

end Context

/-- A target joined with itself stays. -/
theorem Target.join_self (t : Target) : t.join t = t := by
  cases t with
  | classOf name => rfl
  | methodOf owner name descriptor isStatic isInterface => simp [Target.join]
  | fieldOf owner name fieldType isStatic => rfl

/-- Two references that ask for the same thing link exactly if the joined one does. -/
theorem Context.check_join_eq_resolved_iff {c : Context} {platform : Platform} {r s : Reference}
    (h : r.target = s.target) :
    c.check platform (r.join s) = .resolved ↔
      c.check platform r = .resolved ∧ c.check platform s = .resolved := by
  obtain ⟨t, a⟩ := r
  obtain ⟨t', b⟩ := s
  subst h
  rw [Reference.join, Target.join_self]
  exact check_max_eq_resolved_iff

end Linkage
