import Linkage.Context
import Linkage.Visits

/-!
# Hierarchies

The classes of a context in which a member of a class is looked for: the class
itself and its supertypes, breadth first and each class once. A supertype that is
not in the context is kept by its name. Every supertype is marked by whether it
was reached over superclasses alone when it was reached first.
-/

set_option autoImplicit false

namespace Linkage

/-- Supertype that is still to be looked at. -/
structure Supertype where
  name : BinaryName
  onChain : Bool
  deriving DecidableEq

/-- Supertypes that a class names: the superclass, and the interfaces if they are
to be followed as well. -/
def ClassOutline.supertypes (c : ClassOutline) (followInterfaces onChain : Bool) :
    List Supertype :=
  c.superClass.toList.map (⟨·, onChain⟩) ++
    if followInterfaces then c.interfaces.map (⟨·, false⟩) else []

/-- Classes in which a member is looked for, and the supertypes that are not in the
context. -/
structure Hierarchy where
  classes : List ClassOutline
  absent : List Supertype
  deriving DecidableEq

namespace Context

/-- All names of classes, also of the ones that are never found. -/
def allNames (c : Context) : List BinaryName := c.classes.map ClassOutline.name

/-- A class that is found is among the names. -/
theorem mem_allNames_of_find? {c : Context} {name : BinaryName} {outline : ClassOutline}
    (h : c.find? name.text = some outline) : name ∈ c.allNames := by
  have hname : outline.name.text = name.text := by simpa using List.find?_some h
  have heq : outline.name = name := by
    cases hn : outline.name with
    | mk text valid =>
        cases name with
        | mk text' valid' =>
            rw [hn] at hname
            cases hname
            rfl
  exact List.mem_map.2 ⟨outline, List.mem_of_find?_eq_some h, heq⟩

/-- Hierarchy of the supertypes that are still to be looked at, after the names
that have been visited. -/
def walk (c : Context) (followInterfaces : Bool) (visited : List BinaryName) :
    List Supertype → Hierarchy
  | [] => ⟨[], []⟩
  | next :: rest =>
      if next.name ∈ visited then walk c followInterfaces visited rest
      else
        match _ : c.find? next.name.text with
        | none =>
            -- an absent name is visited as well: later on it does not count again
            let h := walk c followInterfaces (next.name :: visited) rest
            ⟨h.classes, next :: h.absent⟩
        | some outline =>
            let h := walk c followInterfaces (next.name :: visited)
              (rest ++ outline.supertypes followInterfaces next.onChain)
            ⟨outline :: h.classes, h.absent⟩
termination_by pending => (unvisited c.allNames visited, pending.length)
decreasing_by
  · exact Prod.Lex.right _ (Nat.lt_succ_self _)
  · rcases Nat.lt_or_eq_of_le (unvisited_cons_le c.allNames visited next.name) with h | h
    · exact Prod.Lex.left _ _ h
    · rw [h]
      exact Prod.Lex.right _ (Nat.lt_succ_self _)
  · rename_i hfirst hfound
    exact Prod.Lex.left _ _ (unvisited_cons_lt (mem_allNames_of_find? hfound) hfirst)

/-- Hierarchy of a class. -/
def hierarchy (c : Context) (followInterfaces : Bool) (owner : BinaryName) : Hierarchy :=
  c.walk followInterfaces [] [⟨owner, true⟩]

end Context

end Linkage
