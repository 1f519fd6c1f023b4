import Linkage.Proofs.TextEncoding
import Mathlib.Data.List.Forall2

/-!
# Groups of bytes in modified UTF-8

Bytes are a text in modified UTF-8 if they are cut into groups of one, two or three bytes, the bits behind
the marks of a group are a 16-bit unit, and the units are those of a text.

* `ByteGroup`: a group of bytes and its unit, by the patterns of the bits. `group_one_iff`, `group_two_iff` and
  `group_three_iff` say in numbers when there is one.
* `readUnits_eq_some_iff`: units are read from the bytes of their groups and from no others.
* `ByteGroup.length_unitBytes_le` and `ByteGroup.eq_of_length_eq`: a unit is written in the shortest of its groups,
  and it has no two groups of one length.
* `modifiedUtf8_readsBack` and `ofModifiedUtf8?_iff_groups`: the main results.
-/

set_option autoImplicit false

namespace Linkage.Text

/-! ## Groups -/

/-- A group of bytes and its unit: `0xxxxxxx` but not the zero byte, `110xxxxx 10yyyyyy` or
`1110xxxx 10yyyyyy 10zzzzzz`. The unit may have zeros in front, so it can have several groups. -/
inductive ByteGroup : List UInt8 → UInt16 → Prop
  | one (x : BitVec 7) (hx : x ≠ 0) : ByteGroup [.ofBitVec (0#1 ++ x)] (.ofBitVec (0#9 ++ x))
  | two (x : BitVec 5) (y : BitVec 6) :
      ByteGroup [.ofBitVec (0b110#3 ++ x), .ofBitVec (0b10#2 ++ y)] (.ofBitVec (0#5 ++ (x ++ y)))
  | three (x : BitVec 4) (y z : BitVec 6) :
      ByteGroup [.ofBitVec (0b1110#4 ++ x), .ofBitVec (0b10#2 ++ y), .ofBitVec (0b10#2 ++ z)]
        (.ofBitVec (x ++ (y ++ z)))

/-- No group with the same unit has fewer bytes. -/
def Shortest (group : List UInt8) : Prop :=
  ∀ u group', ByteGroup group u → ByteGroup group' u → group.length ≤ group'.length

theorem toNat_byteOfNat {n : Nat} (h : n < 0x100) : (UInt8.ofNat n).toNat = n :=
  UInt8.toNat_ofNat_of_lt' h

theorem isContinuation_iff {b : UInt8} :
    isContinuation b = true ↔ 0x80 ≤ b.toNat ∧ b.toNat ≤ 0xbf := by
  simp [isContinuation, UInt8.le_iff_toNat_le]

section Bits

variable {a b c : UInt8} {u : UInt16}

/-- Bits behind a mark, as a number. -/
theorem toNat_append {k n : Nat} (mark : BitVec k) (x : BitVec n) :
    (mark ++ x).toNat = mark.toNat <<< n + x.toNat := by
  rw [BitVec.toNat_append, Nat.shiftLeft_add_eq_or_of_lt x.isLt]

theorem toNat_plainByte (x : BitVec 7) : (UInt8.ofBitVec (0#1 ++ x)).toNat = x.toNat := by
  rw [UInt8.toNat_ofBitVec, toNat_append, BitVec.toNat_ofNat]
  omega

theorem toNat_leadOfTwo (x : BitVec 5) : (UInt8.ofBitVec (0b110#3 ++ x)).toNat = 0xc0 + x.toNat := by
  rw [UInt8.toNat_ofBitVec, toNat_append, BitVec.toNat_ofNat]
  rfl

theorem toNat_leadOfThree (x : BitVec 4) : (UInt8.ofBitVec (0b1110#4 ++ x)).toNat = 0xe0 + x.toNat := by
  rw [UInt8.toNat_ofBitVec, toNat_append, BitVec.toNat_ofNat]
  rfl

theorem toNat_continuation (x : BitVec 6) : (UInt8.ofBitVec (0b10#2 ++ x)).toNat = 0x80 + x.toNat := by
  rw [UInt8.toNat_ofBitVec, toNat_append, BitVec.toNat_ofNat]
  rfl

theorem toNat_unitOfOne (x : BitVec 7) : (UInt16.ofBitVec (0#9 ++ x)).toNat = x.toNat := by
  rw [UInt16.toNat_ofBitVec, toNat_append, BitVec.toNat_ofNat]
  omega

theorem toNat_unitOfTwo (x : BitVec 5) (y : BitVec 6) :
    (UInt16.ofBitVec (0#5 ++ (x ++ y))).toNat = x.toNat * 0x40 + y.toNat := by
  rw [UInt16.toNat_ofBitVec, toNat_append, toNat_append, BitVec.toNat_ofNat]
  omega

theorem toNat_unitOfThree (x : BitVec 4) (y z : BitVec 6) :
    (UInt16.ofBitVec (x ++ (y ++ z))).toNat = x.toNat * 0x1000 + y.toNat * 0x40 + z.toNat := by
  rw [UInt16.toNat_ofBitVec, toNat_append, toNat_append]
  omega

/-- The bytes that continue a unit are those with the mark `10`. -/
theorem isContinuation_iff_exists :
    isContinuation b = true ↔ ∃ y : BitVec 6, b = .ofBitVec (0b10#2 ++ y) := by
  rw [isContinuation_iff]
  constructor
  · intro hb
    refine ⟨BitVec.ofNat 6 (b.toNat - 0x80), ?_⟩
    rw [← UInt8.toNat_inj, toNat_continuation, BitVec.toNat_ofNat]
    omega
  · rintro ⟨y, rfl⟩
    have hy := y.isLt
    rw [toNat_continuation]
    omega

theorem group_one_iff : ByteGroup [a] u ↔ 0 < a.toNat ∧ a.toNat < 0x80 ∧ u.toNat = a.toNat := by
  constructor
  · rintro ⟨x, hx⟩
    have hlt := x.isLt
    have hpos : x.toNat ≠ 0 := fun hzero => hx (BitVec.eq_of_toNat_eq hzero)
    rw [toNat_plainByte, toNat_unitOfOne]
    omega
  · rintro ⟨hpos, hsmall, hu⟩
    obtain ⟨x, rfl⟩ : ∃ x : BitVec 7, a = .ofBitVec (0#1 ++ x) := by
      refine ⟨BitVec.ofNat 7 a.toNat, ?_⟩
      rw [← UInt8.toNat_inj, toNat_plainByte, BitVec.toNat_ofNat]
      omega
    rw [toNat_plainByte] at hpos hu
    obtain rfl : u = .ofBitVec (0#9 ++ x) := by rw [← UInt16.toNat_inj, hu, toNat_unitOfOne]
    refine ByteGroup.one x ?_
    rintro rfl
    exact absurd hpos (by decide)

theorem group_two_iff : ByteGroup [a, b] u ↔ 0xc0 ≤ a.toNat ∧ a.toNat < 0xe0 ∧ isContinuation b = true ∧
    u.toNat = (a.toNat - 0xc0) * 0x40 + (b.toNat - 0x80) := by
  constructor
  · rintro ⟨⟩
    rename_i x y
    have hx := x.isLt
    rw [isContinuation_iff_exists, toNat_leadOfTwo, toNat_continuation, toNat_unitOfTwo]
    exact ⟨by omega, by omega, ⟨y, rfl⟩, by omega⟩
  · rintro ⟨hlow, hhigh, hb, hu⟩
    obtain ⟨y, rfl⟩ := isContinuation_iff_exists.1 hb
    obtain ⟨x, rfl⟩ : ∃ x : BitVec 5, a = .ofBitVec (0b110#3 ++ x) := by
      refine ⟨BitVec.ofNat 5 (a.toNat - 0xc0), ?_⟩
      rw [← UInt8.toNat_inj, toNat_leadOfTwo, BitVec.toNat_ofNat]
      omega
    obtain rfl : u = .ofBitVec (0#5 ++ (x ++ y)) := by
      rw [← UInt16.toNat_inj, hu, toNat_leadOfTwo, toNat_continuation, toNat_unitOfTwo]
      omega
    exact ByteGroup.two x y

theorem group_three_iff : ByteGroup [a, b, c] u ↔ 0xe0 ≤ a.toNat ∧ a.toNat < 0xf0 ∧
    isContinuation b = true ∧ isContinuation c = true ∧
      u.toNat = (a.toNat - 0xe0) * 0x1000 + (b.toNat - 0x80) * 0x40 + (c.toNat - 0x80) := by
  constructor
  · rintro ⟨⟩
    rename_i x y z
    have hx := x.isLt
    rw [isContinuation_iff_exists, isContinuation_iff_exists, toNat_leadOfThree, toNat_continuation,
      toNat_continuation, toNat_unitOfThree]
    exact ⟨by omega, by omega, ⟨y, rfl⟩, ⟨z, rfl⟩, by omega⟩
  · rintro ⟨hlow, hhigh, hb, hc, hu⟩
    obtain ⟨y, rfl⟩ := isContinuation_iff_exists.1 hb
    obtain ⟨z, rfl⟩ := isContinuation_iff_exists.1 hc
    obtain ⟨x, rfl⟩ : ∃ x : BitVec 4, a = .ofBitVec (0b1110#4 ++ x) := by
      refine ⟨BitVec.ofNat 4 (a.toNat - 0xe0), ?_⟩
      rw [← UInt8.toNat_inj, toNat_leadOfThree, BitVec.toNat_ofNat]
      omega
    obtain rfl : u = .ofBitVec (x ++ (y ++ z)) := by
      rw [← UInt16.toNat_inj, hu, toNat_leadOfThree, toNat_continuation, toNat_continuation,
        toNat_unitOfThree]
      omega
    exact ByteGroup.three x y z

end Bits

/-! ## Reading -/

section Forms

variable (done : List UInt16) {a b c : UInt8} (bs : List UInt8)

theorem ne_zero_of_pos {b : UInt8} (h : 0 < b.toNat) : b ≠ 0 := by
  rintro rfl
  cases h

theorem readUnits_one (hpos : 0 < a.toNat) (hsmall : a.toNat < 0x80) :
    readUnits done (a :: bs) = readUnits (UInt16.ofNat a.toNat :: done) bs := by
  rw [readUnits.eq_def]
  simp [UInt8.lt_iff_toNat_lt, ne_zero_of_pos hpos, hsmall]

theorem readUnits_two (hlow : 0xc0 ≤ a.toNat) (hhigh : a.toNat < 0xe0)
    (hb : isContinuation b = true) :
    readUnits done (a :: b :: bs) = readUnits (unitOfTwo a b :: done) bs := by
  have hpos : 0 < a.toNat := by omega
  have hlarge : ¬ a.toNat < 0x80 := by omega
  rw [readUnits.eq_def]
  simp [UInt8.lt_iff_toNat_lt, UInt8.le_iff_toNat_le, ne_zero_of_pos hpos, hlarge, hlow, hhigh, hb]

theorem readUnits_three (hlow : 0xe0 ≤ a.toNat) (hhigh : a.toNat < 0xf0)
    (hb : isContinuation b = true) (hc : isContinuation c = true) :
    readUnits done (a :: b :: c :: bs) = readUnits (unitOfThree a b c :: done) bs := by
  have hpos : 0 < a.toNat := by omega
  have hlarge : ¬ a.toNat < 0x80 := by omega
  have hbeyond : ¬ a.toNat < 0xe0 := by omega
  rw [readUnits.eq_def]
  simp [UInt8.lt_iff_toNat_lt, UInt8.le_iff_toNat_le, ne_zero_of_pos hpos, hlarge, hbeyond, hlow,
    hhigh, hb, hc]

end Forms

section Reading

variable {group group' : List UInt8} {u v : UInt16}

/-- A group has one, two or three bytes. -/
theorem ByteGroup.length_cases (h : ByteGroup group u) :
    (∃ a, group = [a]) ∨ (∃ a b, group = [a, b]) ∨ ∃ a b c, group = [a, b, c] := by
  cases h with
  | one x _ => exact Or.inl ⟨_, rfl⟩
  | two x y => exact Or.inr (Or.inl ⟨_, _, rfl⟩)
  | three x y z => exact Or.inr (Or.inr ⟨_, _, _, rfl⟩)

/-- The unit of a group is read from it, whatever comes behind. -/
theorem readUnits_group (h : ByteGroup group u) (done : List UInt16) (bs : List UInt8) :
    readUnits done (group ++ bs) = readUnits (u :: done) bs := by
  have hlt := u.toNat_lt
  rcases h.length_cases with ⟨a, rfl⟩ | ⟨a, b, rfl⟩ | ⟨a, b, c, rfl⟩
  · obtain ⟨hpos, hsmall, hu⟩ := group_one_iff.1 h
    rw [List.cons_append, List.nil_append, readUnits_one done bs hpos hsmall, ← hu, UInt16.ofNat_toNat]
  · obtain ⟨hlow, hhigh, hb, hu⟩ := group_two_iff.1 h
    have hunit : unitOfTwo a b = u := by rw [unitOfTwo, ← hu, UInt16.ofNat_toNat]
    rw [List.cons_append, List.cons_append, List.nil_append, readUnits_two done bs hlow hhigh hb, hunit]
  · obtain ⟨hlow, hhigh, hb, hc, hu⟩ := group_three_iff.1 h
    have hunit : unitOfThree a b c = u := by rw [unitOfThree, ← hu, UInt16.ofNat_toNat]
    rw [List.cons_append, List.cons_append, List.cons_append, List.nil_append,
      readUnits_three done bs hlow hhigh hb hc, hunit]

variable {groups : List (List UInt8)} {us : List UInt16} {bs : List UInt8}

theorem readUnits_groups (h : List.Forall₂ ByteGroup groups us) (done : List UInt16) :
    readUnits done groups.flatten = some (done.reverse ++ us) := by
  induction h generalizing done with
  | nil => simp [readUnits]
  | cons hgroup _ ih =>
      rw [List.flatten_cons, readUnits_group hgroup, ih, List.reverse_cons, List.append_assoc,
        List.singleton_append]

/-- Bytes that units are read from are cut into the groups of these units. -/
theorem exists_groups_of_readUnits {done : List UInt16} (h : readUnits done bs = some us) :
    ∃ groups units, bs = groups.flatten ∧ List.Forall₂ ByteGroup groups units ∧
      us = done.reverse ++ units := by
  -- of the cases of the reader only the end and the three kinds of groups go on
  fun_induction readUnits done bs with
  | case1 done =>
      cases h
      exact ⟨[], [], rfl, .nil, (List.append_nil _).symm⟩
  | case3 done a bs hne hsmall ih =>
      obtain ⟨groups, units, rfl, hgroups, rfl⟩ := ih h
      have hpos : 0 < a.toNat := Nat.pos_of_ne_zero fun hzero => hne (UInt8.toNat_inj.1 hzero)
      have hlt := a.toNat_lt
      have hgroup : ByteGroup [a] (UInt16.ofNat a.toNat) :=
        group_one_iff.2 ⟨hpos, UInt8.lt_iff_toNat_lt.1 hsmall, toNat_unitOfNat (by omega)⟩
      exact ⟨[a] :: groups, _ :: units, rfl, .cons hgroup hgroups, by simp⟩
  | case4 done a hne hlarge hlead b bs hb ih =>
      obtain ⟨groups, units, rfl, hgroups, rfl⟩ := ih h
      have hlow : 0xc0 ≤ a.toNat := UInt8.le_iff_toNat_le.1 hlead.1
      have hhigh : a.toNat < 0xe0 := UInt8.lt_iff_toNat_lt.1 hlead.2
      have hcontinued := isContinuation_iff.1 hb
      have hgroup : ByteGroup [a, b] (unitOfTwo a b) :=
        group_two_iff.2 ⟨hlow, hhigh, hb, toNat_unitOfNat (by omega)⟩
      exact ⟨[a, b] :: groups, _ :: units, rfl, .cons hgroup hgroups, by simp⟩
  | case7 done a hne hlarge htwo hlead b c bs hcontinued ih =>
      obtain ⟨groups, units, rfl, hgroups, rfl⟩ := ih h
      have hlow : 0xe0 ≤ a.toNat := UInt8.le_iff_toNat_le.1 hlead.1
      have hhigh : a.toNat < 0xf0 := UInt8.lt_iff_toNat_lt.1 hlead.2
      obtain ⟨hb, hc⟩ := Bool.and_eq_true_iff.1 hcontinued
      have hbounds := And.intro (isContinuation_iff.1 hb) (isContinuation_iff.1 hc)
      have hgroup : ByteGroup [a, b, c] (unitOfThree a b c) :=
        group_three_iff.2 ⟨hlow, hhigh, hb, hc, toNat_unitOfNat (by omega)⟩
      exact ⟨[a, b, c] :: groups, _ :: units, rfl, .cons hgroup hgroups, by simp⟩
  | _ => cases h

/-- Units are read from the bytes of their groups and from no others. -/
theorem readUnits_eq_some_iff :
    readUnits [] bs = some us ↔ ∃ groups, bs = groups.flatten ∧ List.Forall₂ ByteGroup groups us := by
  constructor
  · intro h
    obtain ⟨groups, units, hbs, hgroups, rfl⟩ := exists_groups_of_readUnits h
    exact ⟨groups, hbs, hgroups⟩
  · rintro ⟨groups, rfl, hgroups⟩
    exact readUnits_groups hgroups []

theorem ofModifiedUtf8?_eq_some_iff {s : String} :
    ofModifiedUtf8? bs = some s ↔
      ∃ groups, bs = groups.flatten ∧ List.Forall₂ ByteGroup groups (utf16 s.toList) := by
  rw [← readUnits_eq_some_iff]
  constructor
  · intro h
    obtain ⟨cs, hread, rfl⟩ := Option.map_eq_some_iff.1 h
    obtain ⟨us, hus, hcs⟩ := Option.bind_eq_some_iff.1 hread
    rw [String.toList_ofList, utf16_of_ofUtf16? hcs, hus]
  · intro h
    rw [ofModifiedUtf8?, h, Option.bind_some, ofUtf16?_utf16, Option.map_some, String.ofList_toList]

end Reading

/-! ## The shortest groups -/

section Writing

variable {group group' : List UInt8} {u v : UInt16}

/-- The bytes that a unit is written in are one of its groups. -/
theorem group_unitBytes (u : UInt16) : ByteGroup (unitBytes u) u := by
  have hlt := u.toNat_lt
  rw [unitBytes]
  split
  · have ha := toNat_byteOfNat (n := u.toNat) (by omega)
    exact group_one_iff.2 ⟨by omega, by omega, ha.symm⟩
  · split
    · have ha := toNat_byteOfNat (n := 0xc0 + u.toNat / 0x40) (by omega)
      have hb := toNat_byteOfNat (n := 0x80 + u.toNat % 0x40) (by omega)
      exact group_two_iff.2 ⟨by omega, by omega, isContinuation_iff.2 (by omega), by omega⟩
    · have ha := toNat_byteOfNat (n := 0xe0 + u.toNat / 0x1000) (by omega)
      have hb := toNat_byteOfNat (n := 0x80 + u.toNat / 0x40 % 0x40) (by omega)
      have hc := toNat_byteOfNat (n := 0x80 + u.toNat % 0x40) (by omega)
      exact group_three_iff.2 ⟨by omega, by omega, isContinuation_iff.2 (by omega),
        isContinuation_iff.2 (by omega), by omega⟩

theorem forall₂_group_unitBytes (us : List UInt16) : List.Forall₂ ByteGroup (us.map unitBytes) us := by
  induction us with
  | nil => exact .nil
  | cons u us ih => exact .cons (group_unitBytes u) ih

/-- The bytes of a text are read as the text. -/
theorem ofModifiedUtf8?_modifiedUtf8 (s : String) : ofModifiedUtf8? (modifiedUtf8 s) = some s :=
  ofModifiedUtf8?_eq_some_iff.2
    ⟨_, List.flatMap_def .., forall₂_group_unitBytes (utf16 s.toList)⟩

/-- No group of a unit is shorter than what the unit is written in. -/
theorem ByteGroup.length_unitBytes_le (h : ByteGroup group u) : (unitBytes u).length ≤ group.length := by
  rcases h.length_cases with ⟨a, rfl⟩ | ⟨a, b, rfl⟩ | ⟨a, b, c, rfl⟩
  · obtain ⟨hpos, hsmall, hu⟩ := group_one_iff.1 h
    rw [unitBytes, if_pos ⟨by omega, by omega⟩]
    exact Nat.le_refl 1
  · obtain ⟨hlow, hhigh, hb, hu⟩ := group_two_iff.1 h
    rw [isContinuation_iff] at hb
    unfold unitBytes
    dsimp only
    rw [if_pos (show u.toNat < 0x800 by omega)]
    split_ifs <;> simp
  · unfold unitBytes
    dsimp only
    split_ifs <;> simp

/-- A group has one unit. -/
theorem ByteGroup.unit_eq (hu : ByteGroup group u) (hv : ByteGroup group v) : u = v := by
  rw [← UInt16.toNat_inj]
  rcases hu.length_cases with ⟨a, rfl⟩ | ⟨a, b, rfl⟩ | ⟨a, b, c, rfl⟩
  · rw [group_one_iff] at hu hv
    omega
  · rw [group_two_iff] at hu hv
    omega
  · rw [group_three_iff] at hu hv
    omega

/-- The bits of a unit fill the groups of each length in one way only. -/
theorem ByteGroup.eq_of_length_eq (h : ByteGroup group u) (h' : ByteGroup group' u)
    (hlength : group.length = group'.length) : group = group' := by
  -- equal lengths leave the cases where both groups are of one form
  rcases h.length_cases with ⟨a, rfl⟩ | ⟨a, b, rfl⟩ | ⟨a, b, c, rfl⟩ <;>
    rcases h'.length_cases with ⟨a', rfl⟩ | ⟨a', b', rfl⟩ | ⟨a', b', c', rfl⟩ <;>
    simp only [List.length_cons, List.length_nil, Nat.reduceAdd, Nat.reduceEqDiff] at hlength
  · rw [group_one_iff] at h h'
    have ha : a = a' := UInt8.toNat_inj.1 (by omega)
    rw [ha]
  · rw [group_two_iff, isContinuation_iff] at h h'
    have ha : a = a' := UInt8.toNat_inj.1 (by omega)
    have hb : b = b' := UInt8.toNat_inj.1 (by omega)
    rw [ha, hb]
  · rw [group_three_iff, isContinuation_iff, isContinuation_iff] at h h'
    have ha : a = a' := UInt8.toNat_inj.1 (by omega)
    have hb : b = b' := UInt8.toNat_inj.1 (by omega)
    have hc : c = c' := UInt8.toNat_inj.1 (by omega)
    rw [ha, hb, hc]

/-- The shortest group of a unit is the one that it is written in. -/
theorem ByteGroup.shortest_iff (h : ByteGroup group u) : Shortest group ↔ group = unitBytes u := by
  constructor
  · intro hshortest
    -- neither of the two groups is longer than the other, and a length leaves one group only
    have hle := hshortest u (unitBytes u) h (group_unitBytes u)
    exact h.eq_of_length_eq (group_unitBytes u) (Nat.le_antisymm hle h.length_unitBytes_le)
  · rintro rfl v group' hv hgroup'
    rw [(group_unitBytes u).unit_eq hv]
    exact hgroup'.length_unitBytes_le

/-! ## Texts -/

variable {groups : List (List UInt8)} {us : List UInt16} {bs : List UInt8}

theorem length_flatMap_unitBytes_le (h : List.Forall₂ ByteGroup groups us) :
    (us.flatMap unitBytes).length ≤ groups.flatten.length := by
  induction h with
  | nil => exact Nat.le_refl 0
  | cons hgroup _ ih =>
      rw [List.flatMap_cons, List.flatten_cons, List.length_append, List.length_append]
      exact Nat.add_le_add hgroup.length_unitBytes_le ih

theorem flatMap_unitBytes_of_shortest (h : List.Forall₂ ByteGroup groups us)
    (hshortest : ∀ group ∈ groups, Shortest group) : us.flatMap unitBytes = groups.flatten := by
  induction h with
  | nil => rfl
  | cons hgroup _ ih =>
      rw [List.forall_mem_cons] at hshortest
      rw [List.flatMap_cons, List.flatten_cons, ih hshortest.2, ← hgroup.shortest_iff.1 hshortest.1]

/-- Where no byte is saved by writing, every group is the shortest of its unit. -/
theorem shortest_of_length_eq (h : List.Forall₂ ByteGroup groups us)
    (hlength : (us.flatMap unitBytes).length = groups.flatten.length) :
    ∀ group ∈ groups, Shortest group := by
  induction h with
  | nil => exact fun group hmem => absurd hmem List.not_mem_nil
  | @cons group u groups us hgroup hrest ih =>
      -- neither the group nor the rest gets longer, so neither gets shorter
      have hhead := hgroup.length_unitBytes_le
      have htail := length_flatMap_unitBytes_le hrest
      rw [List.flatMap_cons, List.flatten_cons, List.length_append, List.length_append] at hlength
      rw [List.forall_mem_cons]
      constructor
      · rw [hgroup.shortest_iff]
        exact hgroup.eq_of_length_eq (group_unitBytes u) (by omega)
      · exact ih (by omega)

/-- Bytes that are read as a text are at least as many as the text is written in. -/
theorem length_modifiedUtf8_le {s : String} (h : ofModifiedUtf8? bs = some s) :
    (modifiedUtf8 s).length ≤ bs.length := by
  obtain ⟨groups, rfl, hgroups⟩ := ofModifiedUtf8?_eq_some_iff.1 h
  exact length_flatMap_unitBytes_le hgroups

/-- The bytes of a group are neither zero nor those that four bytes would begin with. -/
theorem ByteGroup.bounds_of_mem (h : ByteGroup group u) {b : UInt8} (hb : b ∈ group) : b ≠ 0 ∧ b < 0xf0 := by
  have hbounds : 0 < b.toNat ∧ b.toNat < 0xf0 := by
    rcases h.length_cases with ⟨a, rfl⟩ | ⟨a, b', rfl⟩ | ⟨a, b', c, rfl⟩
    · obtain ⟨hpos, hsmall, -⟩ := group_one_iff.1 h
      obtain rfl := List.mem_singleton.1 hb
      omega
    · obtain ⟨hlow, hhigh, hb', -⟩ := group_two_iff.1 h
      rw [isContinuation_iff] at hb'
      simp only [List.mem_cons, List.not_mem_nil, or_false] at hb
      rcases hb with rfl | rfl
      · omega
      · omega
    · obtain ⟨hlow, hhigh, hb', hc, -⟩ := group_three_iff.1 h
      rw [isContinuation_iff] at hb' hc
      simp only [List.mem_cons, List.not_mem_nil, or_false] at hb
      rcases hb with rfl | rfl | rfl
      · omega
      · omega
      · omega
  exact ⟨ne_zero_of_pos hbounds.1, UInt8.lt_iff_toNat_lt.2 hbounds.2⟩

/-- A text is read back from its bytes, and among these there is neither a zero byte nor one that four bytes
would begin with. -/
theorem modifiedUtf8_readsBack (s : String) :
    ofModifiedUtf8? (modifiedUtf8 s) = some s ∧ ∀ b ∈ modifiedUtf8 s, b ≠ 0 ∧ b < 0xf0 := by
  refine ⟨ofModifiedUtf8?_modifiedUtf8 s, ?_⟩
  intro b hb
  obtain ⟨u, -, hmem⟩ := List.mem_flatMap.1 hb
  exact (group_unitBytes u).bounds_of_mem hmem

/-- The zero character takes two bytes, and one beyond the first 65536 takes two groups of three. -/
example : modifiedUtf8 "\x00𐀀" = [0xc0, 0x80, 0xed, 0xa0, 0x80, 0xed, 0xb0, 0x80] := by decide +kernel

/-- The bytes are those of the groups, one after the other, and the groups have these units. -/
def CutInto (bs : List UInt8) (groups : List (List UInt8)) (us : List UInt16) : Prop :=
  bs = groups.flatten ∧ List.Forall₂ ByteGroup groups us

/-- Bytes are a text exactly if they are cut into groups whose units have surrogates in pairs only, and it
is the text with these units. It is written in no more bytes, in as many only if in the same ones, and in
the same ones exactly if no group is longer than necessary. -/
theorem ofModifiedUtf8?_iff_groups (bs : List UInt8) :
    ((∃ s, ofModifiedUtf8? bs = some s) ↔ ∃ groups us, CutInto bs groups us ∧ Paired us) ∧
    ∀ s, (ofModifiedUtf8? bs = some s ↔ ∃ groups, CutInto bs groups (utf16 s.toList)) ∧
      ∀ groups, CutInto bs groups (utf16 s.toList) →
        (modifiedUtf8 s).length ≤ bs.length ∧
        ((modifiedUtf8 s).length = bs.length ↔ modifiedUtf8 s = bs) ∧
        (modifiedUtf8 s = bs ↔ ∀ group ∈ groups, Shortest group) := by
  constructor
  · constructor
    · rintro ⟨s, h⟩
      obtain ⟨groups, hcut⟩ := ofModifiedUtf8?_eq_some_iff.1 h
      exact ⟨groups, _, hcut, exists_utf16_eq_iff.1 ⟨s.toList, rfl⟩⟩
    · rintro ⟨groups, us, hcut, hpaired⟩
      obtain ⟨cs, rfl⟩ := exists_utf16_eq_iff.2 hpaired
      refine ⟨String.ofList cs, ofModifiedUtf8?_eq_some_iff.2 ⟨groups, ?_⟩⟩
      rw [String.toList_ofList]
      exact hcut
  · intro s
    refine ⟨ofModifiedUtf8?_eq_some_iff, ?_⟩
    rintro groups ⟨rfl, hgroups⟩
    -- equal lengths make all groups shortest ones, and these are what is written
    have hshortest : (modifiedUtf8 s).length = groups.flatten.length →
        ∀ group ∈ groups, Shortest group := shortest_of_length_eq hgroups
    have hsame : (∀ group ∈ groups, Shortest group) → modifiedUtf8 s = groups.flatten :=
      flatMap_unitBytes_of_shortest hgroups
    refine ⟨length_flatMap_unitBytes_le hgroups, ?_, ?_⟩
    · exact ⟨fun hlength => hsame (hshortest hlength), fun heq => congrArg List.length heq⟩
    · exact ⟨fun heq => hshortest (congrArg List.length heq), hsame⟩

/-- Three bytes for a letter that one would do for, and a pair of surrogates. -/
def overlongGroups : List (List UInt8) :=
  [[0xe0, 0x81, 0xa1], [0xed, 0xa0, 0x80], [0xed, 0xb0, 0x80]]

/-- The groups are read as a text of two characters, which is written in fewer bytes. -/
theorem ofModifiedUtf8?_iff_groups_overlong :
    CutInto overlongGroups.flatten overlongGroups (utf16 "a𐀀".toList) ∧
      ofModifiedUtf8? overlongGroups.flatten = some "a𐀀" ∧
      (modifiedUtf8 "a𐀀").length < overlongGroups.flatten.length ∧
      ¬ ∀ group ∈ overlongGroups, Shortest group := by
  have hunits : utf16 "a𐀀".toList = [0x61, 0xd800, 0xdc00] := by decide
  have hcut : CutInto overlongGroups.flatten overlongGroups (utf16 "a𐀀".toList) := by
    refine ⟨rfl, ?_⟩
    rw [hunits]
    exact .cons (group_three_iff.2 (by decide)) (.cons (group_three_iff.2 (by decide))
      (.cons (group_three_iff.2 (by decide)) .nil))
  have hne : modifiedUtf8 "a𐀀" ≠ overlongGroups.flatten := by decide
  obtain ⟨hread, hwritten⟩ := (ofModifiedUtf8?_iff_groups overlongGroups.flatten).2 "a𐀀"
  obtain ⟨hle, hlength, hshortest⟩ := hwritten overlongGroups hcut
  refine ⟨hcut, hread.2 ⟨_, hcut⟩, ?_, fun hall => hne (hshortest.2 hall)⟩
  exact Nat.lt_of_le_of_ne hle fun heq => hne (hlength.1 heq)

end Writing

end Linkage.Text
