import Linkage.Proofs.Linking

/-!
# Contexts that agree

Whether a reference links depends on the classes in reach of its owner and on nothing else of the
context. Two contexts agree from an owner if every name in reach of it in the first one is found the
same way in both (`AgreesFrom`). Then the same names are in reach over as many supertypes
(`reachesIn_iff`), the superclasses leave both contexts at the same name (`endsFirstAt_iff`), and
a reference with that owner links in both or in none of them (`check_eq_resolved_iff`).
-/

set_option autoImplicit false

namespace Linkage.Context

/-- Every name that is reached from the owner in the first context is found the same way in the second
one. -/
def AgreesFrom (c c' : Context) (owner : BinaryName) : Prop :=
  ∀ name, c.Reaches true owner name → c'.find? name.text = c.find? name.text

variable {c c' : Context} {follow : Bool} {owner a b : BinaryName} {n : Nat}

/-- Names that are reached without interfaces are reached with them as well. -/
theorem reaches_true_of_reaches (h : c.Reaches follow owner a) : c.Reaches true owner a := by
  refine Relation.ReflTransGen.mono ?_ owner a h
  rintro x y ⟨outline, hfound, hsuper | ⟨-, hmem⟩⟩
  · exact ⟨outline, hfound, Or.inl hsuper⟩
  · exact ⟨outline, hfound, Or.inr ⟨rfl, hmem⟩⟩

namespace AgreesFrom

variable (h : c.AgreesFrom c' owner)

include h

theorem find?_eq (hreach : c.Reaches follow owner a) : c'.find? a.text = c.find? a.text :=
  h a (reaches_true_of_reaches hreach)

theorem namesSupertype_iff (hreach : c.Reaches follow owner a) :
    c'.NamesSupertype follow a b ↔ c.NamesSupertype follow a b := by
  rw [NamesSupertype, NamesSupertype, h.find?_eq hreach]

theorem reachesIn_iff : c'.ReachesIn follow owner n a ↔ c.ReachesIn follow owner n a := by
  induction n generalizing a with
  | zero => rw [reachesIn_zero_iff, reachesIn_zero_iff]
  | succ n ih =>
      -- the last step starts at a name in reach, where the contexts agree
      rw [reachesIn_succ_iff, reachesIn_succ_iff]
      refine exists_congr fun b => ?_
      rw [ih]
      exact and_congr_right fun hb => h.namesSupertype_iff hb.reaches

theorem reaches_iff : c'.Reaches follow owner a ↔ c.Reaches follow owner a := by
  constructor
  · intro hreach
    obtain ⟨n, hn⟩ := hreach.exists_reachesIn
    exact (h.reachesIn_iff.1 hn).reaches
  · intro hreach
    obtain ⟨n, hn⟩ := hreach.exists_reachesIn
    exact (h.reachesIn_iff.2 hn).reaches

theorem inReach_iff {outline : ClassOutline} :
    c'.InReach follow owner outline ↔ c.InReach follow owner outline := by
  refine exists_congr fun name => ?_
  rw [h.reaches_iff]
  exact and_congr_right fun hreach => by rw [h.find?_eq hreach]

theorem declares_iff {type : Type} {members : ClassOutline → List (DeclaredMember type)}
    {p : DeclaredMember type → Prop} :
    c'.Declares follow members owner p ↔ c.Declares follow members owner p :=
  exists_congr fun _ => and_congr_left' h.inReach_iff

/-- Superclasses are the supertypes without interfaces. -/
theorem ancestor?_eq_some_iff : c'.ancestor? owner n = some a ↔ c.ancestor? owner n = some a := by
  rw [← reachesIn_false_iff, ← reachesIn_false_iff]
  exact h.reachesIn_iff

theorem endsFirstAt_iff : c'.EndsFirstAt follow owner a ↔ c.EndsFirstAt follow owner a := by
  -- the end of the superclasses is in reach as well, so both contexts lack it
  have hreach : ∀ {n}, c.ancestor? owner n = some a → c.Reaches follow owner a := fun hn =>
    (reachesIn_of_ancestor? hn).reaches
  simp only [EndsFirstAt, NoShorterWay, h.ancestor?_eq_some_iff, h.reachesIn_iff]
  constructor
  · rintro ⟨habsent, n, hn, hfirst⟩
    exact ⟨by rwa [← h.find?_eq (hreach hn)], n, hn, hfirst⟩
  · rintro ⟨habsent, n, hn, hfirst⟩
    exact ⟨by rwa [h.find?_eq (hreach hn)], n, hn, hfirst⟩

theorem offers_iff {type : Type} {platform : Platform}
    {members : ClassOutline → List (DeclaredMember type)} {name : UnqualifiedName}
    {descriptor : type} {isStatic : Bool} {required : Visibility} :
    c'.Offers platform follow members owner name descriptor isStatic required ↔
      c.Offers platform follow members owner name descriptor isStatic required := by
  simp only [Offers, EndsFirstOnPlatform, h.declares_iff, h.endsFirstAt_iff]

end AgreesFrom

/-- A reference links in two contexts alike if they agree from its owner. -/
theorem AgreesFrom.check_eq_resolved_iff {platform : Platform} {t : Target} {required : Visibility}
    (h : c.AgreesFrom c' t.owner) :
    c'.check platform ⟨t, required⟩ = .resolved ↔ c.check platform ⟨t, required⟩ = .resolved := by
  have hfound : c'.find? t.owner.text = c.find? t.owner.text := h t.owner Relation.ReflTransGen.refl
  cases t with
  | classOf name =>
      have hfound : c'.find? name.text = c.find? name.text := hfound
      rw [check_classOf_eq_resolved_iff, check_classOf_eq_resolved_iff, hfound]
  | methodOf owner name descriptor isStatic isInterface =>
      have h : c.AgreesFrom c' owner := h
      have hfound : c'.find? owner.text = c.find? owner.text := hfound
      rw [check_methodOf_eq_resolved_iff, check_methodOf_eq_resolved_iff, hfound, h.offers_iff]
  | fieldOf owner name type isStatic =>
      have h : c.AgreesFrom c' owner := h
      have hfound : c'.find? owner.text = c.find? owner.text := hfound
      rw [check_fieldOf_eq_resolved_iff, check_fieldOf_eq_resolved_iff, hfound, h.offers_iff]

end Linkage.Context
