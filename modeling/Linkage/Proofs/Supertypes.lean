import Linkage.Hierarchy
import Linkage.Proofs.Names
import Mathlib.Logic.Relation

/-!
# Supertypes in a context

The relations behind the search for inherited members. A class that is in the context names its
superclass and its interfaces; a search follows the superclass, and the interfaces only where
these are asked for. `Reaches` says that a name is reached over any number of such steps,
`ReachesIn` counts the steps, and `ancestor?` follows the superclasses alone.

A chain of superclasses leaves the context at a name that the context does not know (`EndsAt`).
`EndsFirstAt` demands as well that no shorter way over interfaces leads to that name.
-/

set_option autoImplicit false

namespace Linkage

namespace Context

/-- A class of the first name is in the context and names the second one: as its superclass, or as
one of its interfaces if they are followed. -/
def NamesSupertype (c : Context) (followInterfaces : Bool) (a b : BinaryName) : Prop :=
  ∃ outline, c.find? a.text = some outline ∧
    (outline.superClass = some b ∨ followInterfaces = true ∧ b ∈ outline.interfaces)

/-- The second name is reached from the first one over supertypes. -/
abbrev Reaches (c : Context) (followInterfaces : Bool) : BinaryName → BinaryName → Prop :=
  Relation.ReflTransGen (c.NamesSupertype followInterfaces)

/-- Classes of the context that are reached from the owner, the owner included. -/
def InReach (c : Context) (followInterfaces : Bool) (owner : BinaryName) (outline : ClassOutline) :
    Prop :=
  ∃ name, c.Reaches followInterfaces owner name ∧ c.find? name.text = some outline

/-- A name is reached from the owner over exactly so many supertypes. -/
inductive ReachesIn (c : Context) (followInterfaces : Bool) (owner : BinaryName) :
    Nat → BinaryName → Prop
  | start : ReachesIn c followInterfaces owner 0 owner
  | step {n : Nat} {a b : BinaryName} : ReachesIn c followInterfaces owner n a →
      c.NamesSupertype followInterfaces a b → ReachesIn c followInterfaces owner (n + 1) b

/-- Superclass of a class of the context. -/
def superclass? (c : Context) (name : BinaryName) : Option BinaryName :=
  (c.find? name.text).bind ClassOutline.superClass

/-- Name that so many superclasses lead to. -/
def ancestor? (c : Context) (owner : BinaryName) : Nat → Option BinaryName
  | 0 => some owner
  | n + 1 => (c.ancestor? owner n).bind c.superclass?

/-- The superclasses of the owner leave the context at the name. -/
def EndsAt (c : Context) (owner name : BinaryName) : Prop :=
  c.find? name.text = none ∧ ∃ n, c.ancestor? owner n = some name

/-- No way over fewer supertypes leads from the owner to the name. -/
def NoShorterWay (c : Context) (followInterfaces : Bool) (owner : BinaryName) (n : Nat)
    (name : BinaryName) : Prop :=
  ∀ m < n, ¬ c.ReachesIn followInterfaces owner m name

/-- The superclasses of the owner leave the context at the name, and no way over fewer supertypes
leads there. -/
def EndsFirstAt (c : Context) (followInterfaces : Bool) (owner name : BinaryName) : Prop :=
  c.find? name.text = none ∧
    ∃ n, c.ancestor? owner n = some name ∧ c.NoShorterWay followInterfaces owner n name

variable {c : Context} {follow : Bool} {owner a b : BinaryName} {m n : Nat}

/-! ## Steps -/

/-- A name that is not in the context names nothing. -/
theorem not_namesSupertype_of_absent (h : c.find? a.text = none) :
    ¬ c.NamesSupertype follow a b := by
  rintro ⟨outline, hfound, -⟩
  rw [h] at hfound
  cases hfound

theorem namesSupertype_iff {outline : ClassOutline} (h : c.find? a.text = some outline) :
    c.NamesSupertype follow a b ↔
      outline.superClass = some b ∨ follow = true ∧ b ∈ outline.interfaces := by
  constructor
  · rintro ⟨outline', hfound, hb⟩
    rw [h] at hfound
    cases hfound
    exact hb
  · exact fun hb => ⟨outline, h, hb⟩

theorem superclass?_eq_some_iff :
    c.superclass? a = some b ↔
      ∃ outline, c.find? a.text = some outline ∧ outline.superClass = some b := by
  simp [superclass?, Option.bind_eq_some_iff]

/-- A superclass is a supertype, whether or not interfaces are followed. -/
theorem namesSupertype_of_superclass? (h : c.superclass? a = some b) :
    c.NamesSupertype follow a b := by
  obtain ⟨outline, hfound, hsuper⟩ := superclass?_eq_some_iff.1 h
  exact ⟨outline, hfound, Or.inl hsuper⟩

theorem namesSupertype_false_iff : c.NamesSupertype false a b ↔ c.superclass? a = some b := by
  rw [superclass?_eq_some_iff]
  simp [NamesSupertype]

/-- What the search queues: the superclass with the mark of the class, and unmarked interfaces. -/
theorem mem_supertypes_iff {outline : ClassOutline} {onChain : Bool} {s : Supertype} :
    s ∈ outline.supertypes follow onChain ↔
      (outline.superClass = some s.name ∧ s.onChain = onChain) ∨
        (follow = true ∧ s.name ∈ outline.interfaces ∧ s.onChain = false) := by
  obtain ⟨name, mark⟩ := s
  have hsuper : ⟨name, mark⟩ ∈ outline.superClass.toList.map (Supertype.mk · onChain) ↔
      outline.superClass = some name ∧ mark = onChain := by
    simp only [List.mem_map, Option.mem_toList, Supertype.mk.injEq]
    constructor
    · rintro ⟨a, ha, rfl, rfl⟩
      exact ⟨ha, rfl⟩
    · rintro ⟨ha, rfl⟩
      exact ⟨name, ha, rfl, rfl⟩
  have hinterfaces : ⟨name, mark⟩ ∈ outline.interfaces.map (Supertype.mk · false) ↔
      name ∈ outline.interfaces ∧ mark = false := by
    simp only [List.mem_map, Supertype.mk.injEq]
    constructor
    · rintro ⟨a, ha, rfl, rfl⟩
      exact ⟨ha, rfl⟩
    · rintro ⟨ha, rfl⟩
      exact ⟨name, ha, rfl, rfl⟩
  rw [ClassOutline.supertypes, List.mem_append, hsuper]
  cases follow with
  | false => simp
  | true => simp [hinterfaces]

/-- Every name that a class names is queued, and nothing else is. -/
theorem exists_mem_supertypes_iff {outline : ClassOutline} (onChain : Bool)
    (h : c.find? a.text = some outline) :
    (∃ s ∈ outline.supertypes follow onChain, s.name = b) ↔ c.NamesSupertype follow a b := by
  rw [namesSupertype_iff h]
  constructor
  · rintro ⟨s, hs, rfl⟩
    rcases mem_supertypes_iff.1 hs with ⟨hsuper, -⟩ | ⟨hfollow, hmem, -⟩
    · exact Or.inl hsuper
    · exact Or.inr ⟨hfollow, hmem⟩
  · rintro (hsuper | ⟨hfollow, hmem⟩)
    · exact ⟨⟨b, onChain⟩, mem_supertypes_iff.2 (Or.inl ⟨hsuper, rfl⟩), rfl⟩
    · exact ⟨⟨b, false⟩, mem_supertypes_iff.2 (Or.inr ⟨hfollow, hmem, rfl⟩), rfl⟩

/-! ## Counted steps -/

theorem ReachesIn.reaches (h : c.ReachesIn follow owner n a) : c.Reaches follow owner a := by
  induction h with
  | start => exact Relation.ReflTransGen.refl
  | step _ hstep ih => exact ih.tail hstep

theorem Reaches.exists_reachesIn (h : c.Reaches follow owner a) :
    ∃ n, c.ReachesIn follow owner n a := by
  induction h with
  | refl => exact ⟨0, .start⟩
  | tail _ hstep ih =>
      -- the way so far counts `n` steps
      obtain ⟨n, hn⟩ := ih
      exact ⟨n + 1, .step hn hstep⟩

theorem reachesIn_zero_iff : c.ReachesIn follow owner 0 a ↔ a = owner := by
  constructor
  · intro h
    cases h
    rfl
  · rintro rfl
    exact .start

theorem reachesIn_succ_iff :
    c.ReachesIn follow owner (n + 1) b ↔
      ∃ a, c.ReachesIn follow owner n a ∧ c.NamesSupertype follow a b := by
  constructor
  · intro h
    cases h with
    | step ha hstep => exact ⟨_, ha, hstep⟩
  · rintro ⟨a, ha, hstep⟩
    exact .step ha hstep

/-- Ways are put together. -/
theorem ReachesIn.trans (h : c.ReachesIn follow owner m a) (h' : c.ReachesIn follow a n b) :
    c.ReachesIn follow owner (m + n) b := by
  induction h' with
  | start => exact h
  | step _ hstep ih => exact .step ih hstep

/-! ## Superclasses -/

theorem ancestor?_succ_eq_some_iff :
    c.ancestor? owner (n + 1) = some b ↔
      ∃ a, c.ancestor? owner n = some a ∧ c.superclass? a = some b := by
  simp [ancestor?, Option.bind_eq_some_iff]

/-- Going up the superclasses is a way over supertypes. -/
theorem reachesIn_of_ancestor? (h : c.ancestor? owner n = some a) :
    c.ReachesIn follow owner n a := by
  induction n generalizing a with
  | zero =>
      cases h
      exact .start
  | succ n ih =>
      obtain ⟨b, hb, hsuper⟩ := ancestor?_succ_eq_some_iff.1 h
      exact .step (ih hb) (namesSupertype_of_superclass? hsuper)

/-- Without interfaces there is no other way than the superclasses. -/
theorem reachesIn_false_iff : c.ReachesIn false owner n a ↔ c.ancestor? owner n = some a := by
  induction n generalizing a with
  | zero => rw [reachesIn_zero_iff, ancestor?, Option.some.injEq, eq_comm]
  | succ n ih =>
      rw [reachesIn_succ_iff, ancestor?_succ_eq_some_iff]
      simp only [ih, namesSupertype_false_iff]

theorem ancestor?_add (h : c.ancestor? owner m = some a) :
    c.ancestor? owner (m + n) = c.ancestor? a n := by
  induction n with
  | zero => exact h
  | succ n ih => rw [← Nat.add_assoc, ancestor?, ancestor?, ih]

theorem EndsFirstAt.endsAt (h : c.EndsFirstAt follow owner a) : c.EndsAt owner a := by
  obtain ⟨habsent, n, hn, -⟩ := h
  exact ⟨habsent, n, hn⟩

end Context

end Linkage
