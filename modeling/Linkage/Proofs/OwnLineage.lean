import Linkage.OwnClasses
import Mathlib.Logic.Relation

/-!
# Ways up the own classes

The walks up the superclasses of own classes, as paths of a relation. From one class there is one way
up, so a way that leads beyond the own classes comes by no class twice, and the walks, which stop at a
class that they have visited, get to its end.

* `lineageFrom_own` and `linkOwnerFrom_own`: what the walks do at an own class.
* `linkOwner?_eq_some_iff`: linking begins where the way over own classes that do not declare the
  member leaves the own classes.
* `mem_superclasses_iff`: the superclasses that are not own classes are those that a way leads to.
-/

set_option autoImplicit false

namespace Linkage.OwnClasses

open Relation

/-! ## One class of a walk -/

section Steps

variable {own : OwnClasses} {a : BinaryName} {visited : List BinaryName} {name descriptor : String}
  {k : OwnClass}

theorem lineageFrom_absent (hfirst : a ∉ visited) (h : own.find? a = none) :
    own.lineageFrom visited a = [a] := by
  rw [lineageFrom, if_neg hfirst]
  split
  · rfl
  · rename_i k hk
    rw [h] at hk
    cases hk

theorem lineageFrom_own (hfirst : a ∉ visited) (h : own.find? a = some k) :
    own.lineageFrom visited a = a :: k.superClass.elim [] (own.lineageFrom (a :: visited)) := by
  rw [lineageFrom, if_neg hfirst]
  split
  · rename_i hnone
    rw [h] at hnone
    cases hnone
  · rename_i k' hk'
    cases h.symm.trans hk'
    cases k.superClass <;> rfl

theorem linkOwnerFrom_visited (h : a ∈ visited) :
    own.linkOwnerFrom name descriptor visited a = none := by
  rw [linkOwnerFrom, if_pos h]

theorem linkOwnerFrom_absent (hfirst : a ∉ visited) (h : own.find? a = none) :
    own.linkOwnerFrom name descriptor visited a = some a := by
  rw [linkOwnerFrom, if_neg hfirst]
  split
  · rfl
  · rename_i k hk
    rw [h] at hk
    cases hk

theorem linkOwnerFrom_own (hfirst : a ∉ visited) (h : own.find? a = some k) :
    own.linkOwnerFrom name descriptor visited a =
      if k.declares name descriptor = true then none
      else k.superClass.bind (own.linkOwnerFrom name descriptor (a :: visited)) := by
  rw [linkOwnerFrom, if_neg hfirst]
  split
  · rename_i hnone
    rw [h] at hnone
    cases hnone
  · rename_i k' hk'
    cases h.symm.trans hk'
    cases k.superClass <;> rfl

end Steps

/-! ## Ways -/

/-- The first class is an own one with the property, and the second one is its superclass. -/
def Extends (own : OwnClasses) (p : OwnClass → Prop) (a b : BinaryName) : Prop :=
  ∃ k, own.find? a = some k ∧ p k ∧ k.superClass = some b

/-- Linking of a member that is asked for at the first class begins at the second one, which is
beyond the own classes. The own classes on the way up to it do not declare the member. -/
def LinksAt (own : OwnClasses) (name descriptor : String) (named owner : BinaryName) : Prop :=
  ReflTransGen (own.Extends fun k => k.declares name descriptor = false) named owner ∧
    own.find? owner = none

/-- The second class is a superclass of the first one, as far as the own classes tell. -/
def HasSuperclass (own : OwnClasses) (a b : BinaryName) : Prop :=
  TransGen (own.Extends fun _ => True) a b

variable {own : OwnClasses} {p : OwnClass → Prop} {a b b' x : BinaryName} {visited : List BinaryName}
  {name descriptor : String}

theorem Extends.eq (h : own.Extends p a b) (h' : own.Extends p a b') : b = b' := by
  obtain ⟨k, hk, -, hsuper⟩ := h
  obtain ⟨k', hk', -, hsuper'⟩ := h'
  cases hk.symm.trans hk'
  exact Option.some.inj (hsuper.symm.trans hsuper')

/-- A way that leads beyond the own classes does not come back to where it started. -/
theorem not_transGen_self (hway : ReflTransGen (own.Extends p) a x) (hend : own.find? x = none) :
    ¬ TransGen (own.Extends p) a a := by
  -- the only step up that a circle can begin with is the one of the way, so the circle can be
  -- turned along the way up to its end, where there is no step
  induction hway using ReflTransGen.head_induction_on with
  | refl =>
      intro hback
      obtain ⟨b, ⟨k, hk, -, -⟩, -⟩ := TransGen.head'_iff.1 hback
      rw [hend] at hk
      cases hk
  | head hstep _ ih =>
      intro hback
      obtain ⟨b', hstep', hway⟩ := TransGen.head'_iff.1 hback
      rw [hstep'.eq hstep] at hway
      exact ih (TransGen.tail' hway hstep)

/-- What has been visited is not on the way. -/
def Avoids (own : OwnClasses) (p : OwnClass → Prop) (visited : List BinaryName) (a : BinaryName) :
    Prop :=
  ∀ v ∈ visited, ¬ ReflTransGen (own.Extends p) a v

theorem avoids_nil : own.Avoids p [] a := fun _ hv => absurd hv List.not_mem_nil

theorem Avoids.not_mem (h : own.Avoids p visited a) : a ∉ visited :=
  fun hmem => h a hmem ReflTransGen.refl

/-- Neither is the class that was left. -/
theorem Avoids.step (h : own.Avoids p visited a) (hstep : own.Extends p a b)
    (hway : ReflTransGen (own.Extends p) b x) (hend : own.find? x = none) :
    own.Avoids p (a :: visited) b := by
  intro v hv hwayv
  rcases List.mem_cons.1 hv with rfl | hv
  · exact not_transGen_self (hway.head hstep) hend (TransGen.head' hstep hwayv)
  · exact h v hv (hwayv.head hstep)

/-! ## Where linking begins -/

theorem linkOwnerFrom_eq_some
    (hway : ReflTransGen (own.Extends fun k => k.declares name descriptor = false) a x)
    (hend : own.find? x = none)
    (havoids : own.Avoids (fun k => k.declares name descriptor = false) visited a) :
    own.linkOwnerFrom name descriptor visited a = some x := by
  induction hway using ReflTransGen.head_induction_on generalizing visited with
  | refl => exact linkOwnerFrom_absent havoids.not_mem hend
  | head hstep hway ih =>
      have hrest := ih (havoids.step hstep hway hend)
      obtain ⟨k, hk, hdeclares, hsuper⟩ := hstep
      rw [linkOwnerFrom_own havoids.not_mem hk, hdeclares, hsuper]
      exact hrest

theorem linksAt_of_linkOwnerFrom (h : own.linkOwnerFrom name descriptor visited a = some x) :
    own.LinksAt name descriptor a x := by
  fun_induction linkOwnerFrom own name descriptor visited a with
  | case1 => cases h
  | case2 visited a hfirst hnone =>
      cases h
      exact ⟨ReflTransGen.refl, hnone⟩
  | case3 => cases h
  | case4 => cases h
  | case5 visited a hfirst k hk hdeclares b hsuper ih =>
      obtain ⟨hway, hend⟩ := ih h
      exact ⟨hway.head ⟨k, hk, by simpa using hdeclares, hsuper⟩, hend⟩

theorem linkOwner?_eq_some_iff :
    own.linkOwner? name descriptor a = some x ↔ own.LinksAt name descriptor a x := by
  constructor
  · exact linksAt_of_linkOwnerFrom
  · rintro ⟨hway, hend⟩
    exact linkOwnerFrom_eq_some hway hend avoids_nil

/-! ## Superclasses -/

theorem reflTransGen_of_mem_lineageFrom (h : x ∈ own.lineageFrom visited a) :
    ReflTransGen (own.Extends fun _ => True) a x := by
  fun_induction lineageFrom own visited a with
  | case1 => cases h
  | case2 visited a hfirst hnone =>
      rw [List.mem_singleton.1 h]
  | case3 visited a hfirst k hk hsuper =>
      rw [List.mem_singleton.1 h]
  | case4 visited a hfirst k hk b hsuper ih =>
      rcases List.mem_cons.1 h with rfl | h
      · exact ReflTransGen.refl
      · exact (ih h).head ⟨k, hk, trivial, hsuper⟩

theorem mem_lineageFrom (hway : ReflTransGen (own.Extends fun _ => True) a x)
    (hend : own.find? x = none) (havoids : own.Avoids (fun _ => True) visited a) :
    x ∈ own.lineageFrom visited a := by
  induction hway using ReflTransGen.head_induction_on generalizing visited with
  | refl =>
      rw [lineageFrom_absent havoids.not_mem hend]
      exact List.mem_singleton_self x
  | head hstep hway ih =>
      have hrest := ih (havoids.step hstep hway hend)
      obtain ⟨k, hk, -, hsuper⟩ := hstep
      rw [lineageFrom_own havoids.not_mem hk, hsuper]
      exact List.mem_cons_of_mem _ hrest

theorem superclasses_of_extends (h : own.Extends (fun _ => True) a b) :
    own.superclasses a = own.lineageFrom [a] b := by
  obtain ⟨k, hk, -, hsuper⟩ := h
  rw [superclasses, lineageFrom_own List.not_mem_nil hk, hsuper]
  rfl

theorem extends_of_mem_superclasses (h : x ∈ own.superclasses a) :
    ∃ b, own.Extends (fun _ => True) a b := by
  cases hk : own.find? a with
  | none =>
      rw [superclasses, lineageFrom_absent List.not_mem_nil hk] at h
      cases h
  | some k =>
      rw [superclasses, lineageFrom_own List.not_mem_nil hk] at h
      cases hsuper : k.superClass with
      | none =>
          rw [hsuper] at h
          cases h
      | some b => exact ⟨b, k, hk, trivial, hsuper⟩

/-- Superclasses beyond the own classes. -/
theorem mem_superclasses_iff (hend : own.find? x = none) :
    x ∈ own.superclasses a ↔ own.HasSuperclass a x := by
  constructor
  · intro hmem
    -- the class itself is not among its superclasses, so there is a first step
    obtain ⟨b, hstep⟩ := extends_of_mem_superclasses hmem
    rw [superclasses_of_extends hstep] at hmem
    exact TransGen.head' hstep (reflTransGen_of_mem_lineageFrom hmem)
  · intro hsuper
    obtain ⟨b, hstep, hway⟩ := TransGen.head'_iff.1 hsuper
    rw [superclasses_of_extends hstep]
    exact mem_lineageFrom hway hend (avoids_nil.step hstep hway hend)

end Linkage.OwnClasses
