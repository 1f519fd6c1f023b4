/-!
# Version items

A version is compared item by item. An item is a number, a qualifier or a nested
list of items. This module holds the items, their comparison and their normal
form, in which the items that mean nothing are gone from the end of every list.

An item that is missing from the shorter of two lists stands for the null item:
the number zero, the plain release or an empty list. A nested list is compared
with the missing item by its first item only.
-/

set_option autoImplicit false

namespace Linkage.Version

/-! ## Qualifiers -/

/-- Qualifiers in the order in which they compare. Every word that has no place
of its own comes last. -/
inductive Qualifier where
  | alpha
  | beta
  | milestone
  | candidate
  | snapshot
  | release
  | servicePack
  | other (name : String)
  deriving DecidableEq, Repr

namespace Qualifier

/-- Place of a qualifier. -/
def rank : Qualifier → Nat
  | .alpha => 0
  | .beta => 1
  | .milestone => 2
  | .candidate => 3
  | .snapshot => 4
  | .release => 5
  | .servicePack => 6
  | .other _ => 7

/-- Qualifiers compare by place, and those without a place of their own by name. -/
def compare : Qualifier → Qualifier → Ordering
  | .other a, .other b => Ord.compare a b
  | a, b => Ord.compare a.rank b.rank

/-- Qualifier that a lowercase word stands for. A single `a`, `b` or `m` is an
abbreviation only directly before a digit. -/
def ofWord (word : String) (beforeDigit : Bool) : Qualifier :=
  if beforeDigit && word == "a" then .alpha
  else if beforeDigit && word == "b" then .beta
  else if beforeDigit && word == "m" then .milestone
  else if word == "alpha" then .alpha
  else if word == "beta" then .beta
  else if word == "milestone" then .milestone
  else if word == "rc" || word == "cr" then .candidate
  else if word == "snapshot" then .snapshot
  else if word == "" || word == "ga" || word == "final" || word == "release" then .release
  else if word == "sp" then .servicePack
  else .other word

/-- Text under which a qualifier sorts: its place, followed by the name for the
qualifiers that share the last place. -/
def sortKey : Qualifier → String
  | .other name => toString (Qualifier.other name).rank ++ "-" ++ name
  | q => toString q.rank

end Qualifier

/-! ## Items -/

/-- One item of a version. -/
inductive Item where
  | number (n : Nat)
  | qualifier (q : Qualifier)
  | list (items : List Item)
  deriving Repr

namespace Item

/-- Items that compare like a missing one. -/
def isNull : Item → Bool
  | .number n => n == 0
  | .qualifier q => q == .release
  | .list items => items.isEmpty

/-- Whether the item is a nested list. -/
def isList : Item → Bool
  | .list _ => true
  | _ => false

/-! ## Comparison -/

/-- Comparison of an item with a missing one. -/
def compareNull : Item → Ordering
  | .number n => Ord.compare n 0
  | .qualifier q => Ord.compare q.rank Qualifier.release.rank
  | .list [] => .eq
  | .list (i :: _) => i.compareNull

/-- Comparison of a list of items with a list that has ended. -/
def compareNulls : List Item → Ordering
  | [] => .eq
  | i :: is => i.compareNull.then (compareNulls is)

mutual

/-- Comparison of two items: a number is above a list and a list is above a
qualifier, items of one kind compare by their contents. -/
def compare : Item → Item → Ordering
  | .number a, .number b => Ord.compare a b
  | .number _, _ => .gt
  | .qualifier a, .qualifier b => a.compare b
  | .qualifier _, _ => .lt
  | .list _, .number _ => .lt
  | .list _, .qualifier _ => .gt
  | .list as, .list bs => compareLists as bs

/-- Comparison of two lists of items, item by item up to the first difference. -/
def compareLists : List Item → List Item → Ordering
  | [], bs => (compareNulls bs).swap
  | a :: as, [] => compareNulls (a :: as)
  | a :: as, b :: bs => (compare a b).then (compareLists as bs)

end

/-! ## Normal form -/

mutual

/-- Normal form of an item: a nested list is normalised. -/
def normalize : Item → Item
  | .list items => .list (normalizeAll items)
  | i => i

/-- Normal form of a list: every item is normalised, and a null item is dropped
if only nested lists are left after it. -/
def normalizeAll : List Item → List Item
  | [] => []
  | i :: is =>
      let head := normalize i
      let rest := normalizeAll is
      if head.isNull && rest.all isList then rest else head :: rest

end

/-! ## Text of items -/

/-- Decimal digits of a number without leading zeros; zero has none. -/
def digits (n : Nat) : String := if n = 0 then "" else toString n

mutual

/-- Text of an item that shows its kind and contents. -/
def describe : Item → String
  | .number n => "Int(\"" ++ digits n ++ "\")"
  | .qualifier q => "Str(\"" ++ q.sortKey ++ "\")"
  | .list items => "List([" ++ describeAll items ++ "])"

/-- Texts of a list of items, separated by commas. -/
def describeAll : List Item → String
  | [] => ""
  | [i] => describe i
  | i :: j :: is => describe i ++ ", " ++ describeAll (j :: is)

end

end Item

end Linkage.Version
