import Linkage.Proofs.Linking

/-!
# Going up the superclasses

From a class that names no interfaces everything is reached over its superclass. Where superclasses
lead from one class to another over such classes (`Ascends`), what the first one offers is what the
classes on the way and the second one offer (`Ascends.offers`), so a member that no class on the way
declares is offered at the second one already.
-/

set_option autoImplicit false

namespace Linkage.Context

/-- Superclasses lead from the first class to the second one, over classes of the context that have
the property and name no interfaces. -/
inductive Ascends (c : Context) (p : ClassOutline → Prop) : BinaryName → BinaryName → Prop
  | stay (x : BinaryName) : Ascends c p x x
  | up {a b x : BinaryName} {outline : ClassOutline} : c.find? a.text = some outline → p outline →
      outline.superClass = some b → outline.interfaces = [] → Ascends c p b x → Ascends c p a x

variable {c : Context} {platform : Platform} {follow : Bool} {a b x name : BinaryName}
  {outline : ClassOutline} {p : ClassOutline → Prop}

/-! ## One step -/

theorem namesSupertype_of_no_interfaces (hfound : c.find? a.text = some outline)
    (hsuper : outline.superClass = some b) (hinterfaces : outline.interfaces = []) :
    c.NamesSupertype follow a x ↔ x = b := by
  rw [namesSupertype_iff hfound, hsuper, hinterfaces, Option.some.injEq]
  simp [eq_comm]

theorem ancestor?_one (hfound : c.find? a.text = some outline)
    (hsuper : outline.superClass = some b) : c.ancestor? a 1 = some b := by
  simp [ancestor?, superclass?, hfound, hsuper]

/-- Where the superclasses of a class end first, those of its superclass do. -/
theorem EndsFirstAt.of_superClass (hfound : c.find? a.text = some outline)
    (hsuper : outline.superClass = some b) (h : c.EndsFirstAt follow a name) :
    c.EndsFirstAt follow b name := by
  obtain ⟨habsent, n, hn, hfirst⟩ := h
  have hone : c.ancestor? a 1 = some b := ancestor?_one hfound hsuper
  cases n with
  | zero =>
      -- the class itself is in the context, so no chain ends at it
      cases hn
      rw [hfound] at habsent
      cases habsent
  | succ n =>
      -- a shorter way from the superclass would make a shorter way from the class
      rw [Nat.add_comm, ancestor?_add hone] at hn
      refine ⟨habsent, n, hn, fun m hm hreach => ?_⟩
      exact hfirst (1 + m) (by omega) ((reachesIn_of_ancestor? hone).trans hreach)

/-! ## The whole way -/

theorem Ascends.reaches (h : c.Ascends p a x) : c.Reaches follow a x := by
  induction h with
  | stay => exact Relation.ReflTransGen.refl
  | up hfound _ hsuper hinterfaces _ ih =>
      exact ih.head ((namesSupertype_of_no_interfaces hfound hsuper hinterfaces).2 rfl)

/-- What is reached lies on the way or is reached from its end. -/
theorem Ascends.reaches_cases (h : c.Ascends p a x) (hreach : c.Reaches follow a name) :
    (∃ outline, c.find? name.text = some outline ∧ p outline) ∨ c.Reaches follow x name := by
  induction h with
  | stay => exact Or.inr hreach
  | up hfound hp hsuper hinterfaces _ ih =>
      rcases Relation.ReflTransGen.cases_head hreach with rfl | ⟨y, hstep, hreach⟩
      · exact Or.inl ⟨_, hfound, hp⟩
      · -- without interfaces the first step can only go to the superclass
        obtain rfl := (namesSupertype_of_no_interfaces hfound hsuper hinterfaces).1 hstep
        exact ih hreach

theorem Ascends.endsFirstAt (h : c.Ascends p a x) (hends : c.EndsFirstAt follow a name) :
    c.EndsFirstAt follow x name := by
  induction h with
  | stay => exact hends
  | up hfound _ hsuper _ _ ih => exact ih (hends.of_superClass hfound hsuper)

section Members

variable {type : Type} {members : ClassOutline → List (DeclaredMember type)}
  {q : DeclaredMember type → Prop} {unqualified : UnqualifiedName} {descriptor : type}
  {isStatic : Bool} {required : Visibility}

theorem Declares.of_reaches (hreach : c.Reaches follow a x) (h : c.Declares follow members x q) :
    c.Declares follow members a q := by
  obtain ⟨outline, ⟨reached, hreached, hfound⟩, hm⟩ := h
  exact ⟨outline, ⟨reached, hreach.trans hreached, hfound⟩, hm⟩

/-- What no class on the way declares is declared at its end. -/
theorem Ascends.declares (h : c.Ascends p a x)
    (hnone : ∀ outline, p outline → ∀ m ∈ members outline, ¬ q m)
    (hdeclares : c.Declares follow members a q) : c.Declares follow members x q := by
  obtain ⟨outline, ⟨reached, hreached, hfound⟩, m, hm, hq⟩ := hdeclares
  rcases h.reaches_cases hreached with ⟨outline', hfound', hp⟩ | hreached
  · rw [hfound] at hfound'
    cases hfound'
    exact absurd hq (hnone outline hp m hm)
  · exact ⟨outline, ⟨reached, hreached, hfound⟩, m, hm, hq⟩

/-- A member that no class on the way declares is offered at its end. -/
theorem Ascends.offers (h : c.Ascends p a x)
    (hnone : ∀ outline, p outline → ∀ m ∈ members outline, ¬ (m.name = unqualified ∧
      m.descriptor = descriptor))
    (hoffers : c.Offers platform follow members a unqualified descriptor isStatic required) :
    c.Offers platform follow members x unqualified descriptor isStatic required := by
  rcases hoffers with hdeclares | ⟨hnamesake, y, hends, hprovides⟩
  · refine Or.inl (h.declares ?_ hdeclares)
    rintro outline hp m hm ⟨hname, hdescriptor, -⟩
    exact hnone outline hp m hm ⟨hname, hdescriptor⟩
  · refine Or.inr ⟨fun hdeclares => hnamesake (hdeclares.of_reaches h.reaches), y, ?_, hprovides⟩
    exact h.endsFirstAt hends

/-- A class that offers a member is there, unless the platform has it. -/
theorem Offers.exists_outline
    (h : c.Offers platform follow members x unqualified descriptor isStatic required)
    (hplatform : platform.provides x = false) : ∃ outline, c.find? x.text = some outline := by
  cases hfound : c.find? x.text with
  | some outline => exact ⟨outline, rfl⟩
  | none =>
      -- from a missing class nothing else is reached, so the platform would have to have it
      have hstay : ∀ {y}, c.Reaches follow x y → y = x := by
        intro y hreach
        rcases Relation.ReflTransGen.cases_head hreach with rfl | ⟨z, hstep, -⟩
        · rfl
        · exact absurd hstep (not_namesSupertype_of_absent hfound)
      rcases h with ⟨outline, ⟨y, hreach, hy⟩, -⟩ | ⟨-, y, hends, hprovides⟩
      · rw [hstay hreach, hfound] at hy
        cases hy
      · obtain ⟨-, n, hn⟩ := hends.endsAt
        rw [hstay (reachesIn_of_ancestor? (c := c) hn).reaches, hplatform] at hprovides
        cases hprovides

end Members

end Linkage.Context
