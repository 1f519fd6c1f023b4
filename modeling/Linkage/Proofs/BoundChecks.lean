import Linkage.Proofs.VersionOrder
import Linkage.Version.Range

/-!
# Comparing both ways round

Whether versions are in a transitive order or not, comparing two of them the other way round gives the
opposite answer, and a version is equal to itself. So of two versions exactly one is below the other one,
unless they are equal, and it makes no difference from which side a bound of a range is looked at: a
version may be asked whether it is above the bound, or the bound whether it is below the version.
-/

set_option autoImplicit false

namespace Linkage

namespace Bound

/-- Whether the bound leaves the version above it: it is below the version, or the version itself if it
is included. -/
def isBelow (b : Bound) (v : Version) : Bool :=
  match b with
  | .unbounded => true
  | .included l => (compare l v).isLE
  | .excluded l => (compare l v).isLT

/-- Whether the bound leaves the version below it. -/
def isAbove (b : Bound) (v : Version) : Bool :=
  match b with
  | .unbounded => true
  | .included u => (compare u v).isGE
  | .excluded u => (compare u v).isGT

end Bound

namespace Interval

/-- Whether the upper bound is below the lower one, or the two are equal and one of them is excluded. -/
def isInvertedFromAbove (i : Interval) : Bool :=
  match i.upper.limit?, i.lower.limit? with
  | some (u, upperIn), some (l, lowerIn) =>
      match compare u l with
      | .lt => true
      | .eq => !(lowerIn && upperIn)
      | .gt => false
  | _, _ => false

theorem aboveLower_eq_isBelow (i : Interval) (v : Version) : i.aboveLower v = i.lower.isBelow v := by
  rw [aboveLower]
  cases i.lower with
  | unbounded => rfl
  | included l => exact (congrArg Ordering.isGE Std.OrientedOrd.eq_swap).trans Ordering.isGE_swap
  | excluded l => exact (congrArg Ordering.isGT Std.OrientedOrd.eq_swap).trans Ordering.isGT_swap

theorem belowUpper_eq_isAbove (i : Interval) (v : Version) : i.belowUpper v = i.upper.isAbove v := by
  rw [belowUpper]
  cases i.upper with
  | unbounded => rfl
  | included u => exact (congrArg Ordering.isLE Std.OrientedOrd.eq_swap).trans Ordering.isLE_swap
  | excluded u => exact (congrArg Ordering.isLT Std.OrientedOrd.eq_swap).trans Ordering.isLT_swap

theorem isInverted_eq_isInvertedFromAbove (i : Interval) : i.isInverted = i.isInvertedFromAbove := by
  rw [isInverted, isInvertedFromAbove]
  cases hl : i.lower.limit? with
  | none => cases i.upper.limit? <;> rfl
  | some l =>
      cases hu : i.upper.limit? with
      | none => rfl
      | some u =>
          have hswap : compare u.1 l.1 = (compare l.1 u.1).swap := Std.OrientedOrd.eq_swap
          simp only [hswap]
          cases compare l.1 u.1 <;> rfl

end Interval

namespace Version

/-- Of two versions exactly one of these holds: the first one is below the second one, they are equal, or
the second one is below the first one. -/
theorem lt_or_beq_or_gt (a b : Version) :
    (compare a b = .lt ∧ (a == b) = false ∧ compare b a ≠ .lt) ∨
      (compare a b ≠ .lt ∧ (a == b) = true ∧ compare b a ≠ .lt) ∨
        (compare a b ≠ .lt ∧ (a == b) = false ∧ compare b a = .lt) := by
  have hswap : compare b a = (compare a b).swap := Std.OrientedOrd.eq_swap
  have hbeq : (a == b) = (compare a b == .eq) := rfl
  rw [hswap, hbeq]
  cases compare a b <;> decide

/-- The comparison is reflexive, and comparing the other way round gives the opposite answer. So two
versions are in exactly one of three relations, and every check of a bound has the same answer from both
sides. -/
theorem compare_reverses_and_bounds_agree :
    (∀ a : Version, compare a a = .eq) ∧
      (∀ a b : Version, compare b a = (compare a b).swap) ∧
      (∀ a b : Version, (compare a b = .lt ∧ (a == b) = false ∧ compare b a ≠ .lt) ∨
        (compare a b ≠ .lt ∧ (a == b) = true ∧ compare b a ≠ .lt) ∨
        (compare a b ≠ .lt ∧ (a == b) = false ∧ compare b a = .lt)) ∧
      (∀ (i : Interval) (v : Version), i.aboveLower v = i.lower.isBelow v ∧
        i.belowUpper v = i.upper.isAbove v) ∧
      ∀ i : Interval, i.isInverted = i.isInvertedFromAbove :=
  ⟨fun _ => Std.ReflCmp.compare_self, fun _ _ => Std.OrientedOrd.eq_swap, lt_or_beq_or_gt,
    fun i v => ⟨i.aboveLower_eq_isBelow v, i.belowUpper_eq_isAbove v⟩,
    Interval.isInverted_eq_isInvertedFromAbove⟩

end Version

end Linkage
