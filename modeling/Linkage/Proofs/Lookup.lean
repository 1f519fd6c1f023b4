import Linkage.Proofs.ClassCodec
import Linkage.Proofs.Fallible

/-!
# Looking up constants

Constants are looked up by their slots. The look-up in a slot table halves the entries until one is
left, so it depends on the order of their offsets.

* `SlotTable.get?_eq_some_iff`: in a table whose offsets ascend, the element found at an offset is the
  one that the table has there. Elements that take a slot or more keep the offsets ascending
  (`SlotTable.Sorted.push`).
* `ConstantPool.get?_push_iff`: a pool with one more constant has it at the slot that was the next one,
  and all others where they were.
* The typed look-ups of a pool succeed exactly if constants of the right kinds are there
  (`className_eq_ok_iff`, `nameAndType_eq_ok_iff`, `member_eq_ok_iff`), and what they find is found in
  every pool that has these constants, too (`ConstantPool.Extends`).
-/

set_option autoImplicit false

namespace Linkage

/-! ## Slot tables -/

namespace SlotTable

variable {ω α : Type} {t : SlotTable Nat α} {offset width : Nat} {a : α}

@[simp] theorem toList_push [Add ω] (t : SlotTable ω α) (a : α) (width : ω) :
    (t.push a width).2.toList = t.toList ++ [(t.next, a)] := by
  simp [push, toList]

@[simp] theorem next_push [Add ω] (t : SlotTable ω α) (a : α) (width : ω) :
    (t.push a width).2.next = t.next + width := rfl

/-- The offsets ascend, and the one of the next element is beyond them. -/
structure Sorted (t : SlotTable Nat α) : Prop where
  entries : t.toList.Pairwise fun x y => x.1 < y.1
  next : ∀ x ∈ t.toList, x.1 < t.next

theorem sorted_startingAt (offset : Nat) : (startingAt offset : SlotTable Nat α).Sorted where
  entries := List.Pairwise.nil
  next := by simp [startingAt, toList]

theorem Sorted.push (h : t.Sorted) (a : α) (hwidth : 0 < width) :
    (t.push a width).2.Sorted where
  entries := by
    rw [toList_push, List.pairwise_append]
    refine ⟨h.entries, List.pairwise_singleton _ _, ?_⟩
    intro x hx y hy
    rw [List.mem_singleton.1 hy]
    exact h.next x hx
  next := by
    intro x hx
    rw [toList_push, List.mem_append, List.mem_singleton] at hx
    rw [next_push]
    rcases hx with hx | rfl
    · have hlt := h.next x hx
      omega
    · exact Nat.lt_add_of_pos_right hwidth

theorem Sorted.lt_of_getElem? (h : t.Sorted) {i j : Nat} {x y : Nat × α}
    (hi : t.entries[i]? = some x) (hj : t.entries[j]? = some y) (hij : i < j) : x.1 < y.1 := by
  obtain ⟨hi', rfl⟩ := Array.getElem?_eq_some_iff.1 hi
  obtain ⟨hj', rfl⟩ := Array.getElem?_eq_some_iff.1 hj
  exact List.pairwise_iff_getElem.1 h.entries i j hi' hj' hij

/-- The search ends at the entry at the offset, if that is among the entries searched. -/
theorem Sorted.search_eq (h : t.Sorted) {k : Nat} (hk : t.entries[k]? = some (offset, a))
    (base count : Nat) (hlow : base ≤ k) (hhigh : k < base + count) :
    search t.entries offset base count = k := by
  -- of the two halves, the one that is searched on has the entry
  fun_induction search t.entries offset base count with
  | case1 base count hone => omega
  | case2 base count hmany half isBeyond hbeyond ih =>
      apply ih hlow
      have hbefore : k < base + half := by
        apply Nat.lt_of_not_le
        intro hle
        obtain ⟨hsize, -⟩ := Array.getElem?_eq_some_iff.1 hk
        have hbound : base + half < t.entries.size := Nat.lt_of_le_of_lt hle hsize
        have hmiddle := Array.getElem?_eq_getElem hbound
        simp only [isBeyond, hmiddle, decide_eq_true_eq] at hbeyond
        rcases Nat.eq_or_lt_of_le hle with rfl | hlt
        · rw [hk] at hmiddle
          rw [← Option.some.inj hmiddle] at hbeyond
          exact Nat.lt_irrefl _ hbeyond
        · exact Nat.lt_asymm hbeyond (h.lt_of_getElem? hmiddle hk hlt)
      omega
  | case3 base count hmany half isBeyond hbeyond ih =>
      have hafter : base + half ≤ k := by
        apply Nat.le_of_not_lt
        intro hlt
        cases hmiddle : t.entries[base + half]? with
        | none => simp [isBeyond, hmiddle] at hbeyond
        | some x =>
            simp only [isBeyond, hmiddle, decide_eq_true_eq] at hbeyond
            exact hbeyond (h.lt_of_getElem? hk hmiddle hlt)
      apply ih hafter
      omega

/-- The element found at an offset is the one that the table has there. -/
theorem get?_eq_some_iff (h : t.Sorted) : t.get? offset = some a ↔ (offset, a) ∈ t.toList := by
  constructor
  · intro hget
    simp only [get?] at hget
    split at hget
    · rename_i x hx
      split at hget
      · rename_i hoffset
        rw [← hoffset, ← Option.some.inj hget]
        exact Array.mem_toList_iff.2 (Array.mem_of_getElem? hx)
      · cases hget
    · cases hget
  · intro hmem
    obtain ⟨k, hk⟩ := Array.mem_iff_getElem?.1 (Array.mem_toList_iff.1 hmem)
    obtain ⟨hsize, -⟩ := Array.getElem?_eq_some_iff.1 hk
    have hsearch := h.search_eq hk 0 t.entries.size (Nat.zero_le k) (by omega)
    simp [get?, hsearch, hk]

end SlotTable

/-! ## Constant pools -/

namespace ConstantPool

open Fallible

variable {p q : ConstantPool} {c c' : Constant} {i : PoolIndex} {text name descriptor : String}
  {m : MemberInfo}

theorem sorted_push (h : p.table.Sorted) (c : Constant) : (p.push c).table.Sorted :=
  h.push c c.width_pos

theorem sorted_foldl_push (h : p.table.Sorted) (cs : List Constant) :
    (cs.foldl push p).table.Sorted := by
  induction cs generalizing p with
  | nil => exact h
  | cons c cs ih => exact ih (sorted_push h c)

theorem sorted_ofConstants (cs : List Constant) : (ofConstants cs).table.Sorted :=
  sorted_foldl_push (SlotTable.sorted_startingAt 1) cs

theorem get?_eq_some_iff (h : p.table.Sorted) :
    p.get? i = some c ↔ (i.toNat, c) ∈ p.table.toList := SlotTable.get?_eq_some_iff h

/-- One more constant is found where the next one had its place, and it moves no other. -/
theorem get?_push_iff (h : p.table.Sorted) :
    (p.push c).get? i = some c' ↔ p.get? i = some c' ∨ i.toNat = p.table.next ∧ c' = c := by
  rw [get?_eq_some_iff (sorted_push h c), get?_eq_some_iff h, push, SlotTable.toList_push,
    List.mem_append, List.mem_singleton, Prod.mk.injEq]

/-! ### Typed look-ups -/

theorem utf8_eq_ok_iff : p.utf8 i = .ok text ↔ p.get? i = some (.utf8 text) := by
  rw [utf8]
  split
  · rename_i text' htext
    rw [htext]
    simp
  · rename_i hother
    constructor
    · intro h
      cases h
    · intro h
      exact absurd h (hother text)

theorem className_eq_ok_iff :
    p.className i = .ok text ↔
      ∃ name, p.get? i = some (.classInfo name) ∧ p.utf8 name = .ok text := by
  rw [className]
  constructor
  · intro h
    split at h
    · rename_i name hname
      exact ⟨name, hname, h⟩
    · cases h
  · rintro ⟨name, hname, htext⟩
    rw [hname]
    exact htext

theorem nameAndType_eq_ok_iff :
    p.nameAndType i = .ok (name, descriptor) ↔
      ∃ j k, p.get? i = some (.nameAndType j k) ∧ p.utf8 j = .ok name ∧ p.utf8 k = .ok descriptor := by
  rw [nameAndType]
  constructor
  · intro h
    split at h
    · rename_i j k hget
      obtain ⟨name', hname, h⟩ := bind_eq_ok_iff.1 h
      obtain ⟨descriptor', hdescriptor, h⟩ := bind_eq_ok_iff.1 h
      cases pure_eq_ok_iff.1 h
      exact ⟨j, k, hget, hname, hdescriptor⟩
    · cases h
  · rintro ⟨j, k, hget, hname, hdescriptor⟩
    rw [hget]
    exact bind_eq_ok_iff.2 ⟨name, hname, bind_eq_ok_iff.2 ⟨descriptor, hdescriptor, rfl⟩⟩

theorem memberOf_eq_ok_iff {owner signature : PoolIndex} {kind : MemberKind} :
    p.memberOf owner signature kind = .ok m ↔ p.className owner = .ok m.owner ∧
      p.nameAndType signature = .ok (m.name, m.descriptor) ∧ kind = m.kind := by
  rw [memberOf]
  constructor
  · intro h
    obtain ⟨⟨name, descriptor⟩, hsignature, h⟩ := bind_eq_ok_iff.1 h
    obtain ⟨text, howner, h⟩ := bind_eq_ok_iff.1 h
    cases pure_eq_ok_iff.1 h
    exact ⟨howner, hsignature, rfl⟩
  · rintro ⟨howner, hsignature, rfl⟩
    exact bind_eq_ok_iff.2 ⟨_, hsignature, bind_eq_ok_iff.2 ⟨_, howner, rfl⟩⟩

/-- Constant of a reference to a member. -/
def memberRef (owner signature : PoolIndex) : MemberKind → Constant
  | .field => .fieldRef owner signature
  | .method isInterface => .methodRef owner signature isInterface

theorem member_eq_ok_iff :
    p.member i = .ok m ↔ ∃ j k, p.get? i = some (memberRef j k m.kind) ∧
      p.className j = .ok m.owner ∧ p.nameAndType k = .ok (m.name, m.descriptor) := by
  rw [member]
  constructor
  · intro h
    split at h
    · rename_i j k hget
      obtain ⟨howner, hsignature, hkind⟩ := memberOf_eq_ok_iff.1 h
      exact ⟨j, k, by rw [← hkind]; exact hget, howner, hsignature⟩
    · rename_i j k isInterface hget
      obtain ⟨howner, hsignature, hkind⟩ := memberOf_eq_ok_iff.1 h
      exact ⟨j, k, by rw [← hkind]; exact hget, howner, hsignature⟩
    · cases h
  · rintro ⟨j, k, hget, howner, hsignature⟩
    rw [hget]
    cases hkind : m.kind with
    | field => exact memberOf_eq_ok_iff.2 ⟨howner, hsignature, hkind.symm⟩
    | method isInterface => exact memberOf_eq_ok_iff.2 ⟨howner, hsignature, hkind.symm⟩

/-! ### Pools that go on -/

/-- The second pool has every constant of the first one at its index. -/
def Extends (p q : ConstantPool) : Prop := ∀ i c, p.get? i = some c → q.get? i = some c

theorem Extends.refl (p : ConstantPool) : p.Extends p := fun _ _ h => h

theorem Extends.trans {r : ConstantPool} (h : p.Extends q) (h' : q.Extends r) : p.Extends r :=
  fun i c hget => h' i c (h i c hget)

theorem extends_push (h : p.table.Sorted) (c : Constant) : p.Extends (p.push c) := by
  intro i c' hget
  exact (get?_push_iff h).2 (Or.inl hget)

theorem Extends.utf8 (h : p.Extends q) (htext : p.utf8 i = .ok text) : q.utf8 i = .ok text := by
  rw [utf8_eq_ok_iff] at htext ⊢
  exact h i _ htext

theorem Extends.className (h : p.Extends q) (hname : p.className i = .ok text) :
    q.className i = .ok text := by
  rw [className_eq_ok_iff] at hname ⊢
  obtain ⟨j, hget, htext⟩ := hname
  exact ⟨j, h i _ hget, h.utf8 htext⟩

theorem Extends.nameAndType (h : p.Extends q) (hsignature : p.nameAndType i = .ok (name, descriptor)) :
    q.nameAndType i = .ok (name, descriptor) := by
  rw [nameAndType_eq_ok_iff] at hsignature ⊢
  obtain ⟨j, k, hget, hname, hdescriptor⟩ := hsignature
  exact ⟨j, k, h i _ hget, h.utf8 hname, h.utf8 hdescriptor⟩

theorem Extends.member (h : p.Extends q) (hmember : p.member i = .ok m) : q.member i = .ok m := by
  rw [member_eq_ok_iff] at hmember ⊢
  obtain ⟨j, k, hget, howner, hsignature⟩ := hmember
  exact ⟨j, k, h i _ hget, h.className howner, h.nameAndType hsignature⟩

end ConstantPool

end Linkage
