/-!
# Ascending lists

Finite sets as lists in strictly ascending order, so that equal sets are equal
lists.
-/

set_option autoImplicit false

namespace Linkage.Ascending

variable {α : Type} [Ord α]

/-- Puts an element into its place. An element that is there already is kept. -/
def insert (a : α) : List α → List α
  | [] => [a]
  | b :: bs =>
      match compare a b with
      | .lt => a :: b :: bs
      | .eq => b :: bs
      | .gt => b :: insert a bs

/-- Elements of two lists, of which the first one is ascending. -/
def union (as bs : List α) : List α := bs.foldl (fun done b => insert b done) as

end Linkage.Ascending
