/-!
# Slot tables

A sequence of elements of different widths. An element stands at an offset, which
is the first offset of the table plus the widths of the elements before it, and
is looked up by that offset. Constant pools are such tables: they start at 1 and
have constants of widths one and two.

Offsets are words, in which sums can wrap around, or numbers.
-/

set_option autoImplicit false

namespace Linkage

/-- Elements with their offsets, and the offset of the next element. -/
structure SlotTable (ω α : Type) where
  entries : Array (ω × α)
  next : ω

namespace SlotTable

variable {ω α : Type}

/-- Table without elements whose first element will stand at the given offset. -/
def startingAt (offset : ω) : SlotTable ω α := ⟨#[], offset⟩

/-- Offset of one more element of the given width, and the table with it at the end. -/
def push [Add ω] (t : SlotTable ω α) (element : α) (width : ω) : ω × SlotTable ω α :=
  match t with
  | ⟨entries, next⟩ => (next, ⟨entries.push (next, element), next + width⟩)

/-- Number of elements. -/
def size (t : SlotTable ω α) : Nat := t.entries.size

/-- Whether there are no elements. -/
def isEmpty (t : SlotTable ω α) : Bool := t.entries.isEmpty

/-- Elements with their offsets, in order. -/
def toList (t : SlotTable ω α) : List (ω × α) := t.entries.toList

/-- Last index from `base` on, among `count` many, whose element stands at or
before the offset; `base` itself if there is none. The indices are halved until
one is left. -/
def search [LT ω] [DecidableLT ω] (entries : Array (ω × α)) (offset : ω) (base count : Nat) :
    Nat :=
  if count ≤ 1 then base
  else
    let half := count / 2
    let isBeyond : Bool :=
      match entries[base + half]? with
      | some entry => offset < entry.1
      | none => true
    if isBeyond then search entries offset base (count - half)
    else search entries offset (base + half) (count - half)
termination_by count

/-- Element at an offset. There is none inside a wide element, before the first
element or after the last one. -/
def get? [LT ω] [DecidableLT ω] [DecidableEq ω] (t : SlotTable ω α) (offset : ω) : Option α :=
  match t.entries[search t.entries offset 0 t.entries.size]? with
  | some entry => if entry.1 = offset then some entry.2 else none
  | none => none

/-- Tables are equal if they have equal elements at equal offsets. -/
instance [BEq ω] [BEq α] : BEq (SlotTable ω α) := ⟨fun a b => a.entries == b.entries⟩

/-- Text of a table, given the texts of its elements. -/
def render [ToString ω] (text : α → String) (t : SlotTable ω α) : String :=
  let entries := t.toList.map fun entry => "#" ++ toString entry.1 ++ " = " ++ text entry.2
  "[" ++ ", ".intercalate entries ++ "]"

end SlotTable

end Linkage
