import Linkage.Text.ModifiedUtf8
import Mathlib.Tactic.SplitIfs

/-!
# Texts as units

The units of a list of characters are read as these characters (`ofUtf16?_utf16`), and no other list of
units is (`utf16_of_ofUtf16?`). Lists of units are those of characters exactly if all surrogates are in
pairs (`exists_utf16_eq_iff`).
-/

set_option autoImplicit false

namespace Linkage.Text

/-! ## Units of characters -/

/-- Characters stand for code points that are no surrogates. -/
theorem toNat_lt_or_between (c : Char) :
    c.toNat < 0xd800 ∨ 0xdfff < c.toNat ∧ c.toNat < 0x110000 := c.valid

theorem toNat_charOfNat {n : Nat} (h : n.isValidChar) : (Char.ofNat n).toNat = n := by
  rw [Char.ofNat, dif_pos h]
  rfl

theorem toNat_unitOfNat {n : Nat} (h : n < 0x10000) : (UInt16.ofNat n).toNat = n :=
  UInt16.toNat_ofNat_of_lt' h

theorem isHighSurrogate_iff {u : UInt16} :
    isHighSurrogate u = true ↔ 0xd800 ≤ u.toNat ∧ u.toNat ≤ 0xdbff := by
  simp [isHighSurrogate, UInt16.le_iff_toNat_le]

theorem isLowSurrogate_iff {u : UInt16} :
    isLowSurrogate u = true ↔ 0xdc00 ≤ u.toNat ∧ u.toNat ≤ 0xdfff := by
  simp [isLowSurrogate, UInt16.le_iff_toNat_le]

/-- A character has one unit, which is no surrogate, or a pair of surrogates. -/
theorem unitsOf_cases (c : Char) :
    (∃ u, unitsOf c = [u] ∧ isHighSurrogate u = false ∧ isLowSurrogate u = false ∧
      Char.ofNat u.toNat = c) ∨
    ∃ u v, unitsOf c = [u, v] ∧ isHighSurrogate u = true ∧ isLowSurrogate v = true ∧
      pairChar u v = c := by
  have hvalid := toNat_lt_or_between c
  by_cases hsmall : c.toNat < 0x10000
  · have hunit := toNat_unitOfNat hsmall
    refine Or.inl ⟨UInt16.ofNat c.toNat, if_pos hsmall, ?_, ?_, ?_⟩
    · rw [Bool.eq_false_iff, ne_eq, isHighSurrogate_iff, hunit]
      omega
    · rw [Bool.eq_false_iff, ne_eq, isLowSurrogate_iff, hunit]
      omega
    · rw [hunit, Char.ofNat_toNat]
  · -- a code point beyond sixteen bits has twenty more, half of them for each surrogate
    have hhigh := toNat_unitOfNat (n := 0xd800 + (c.toNat - 0x10000) / 0x400) (by omega)
    have hlow := toNat_unitOfNat (n := 0xdc00 + (c.toNat - 0x10000) % 0x400) (by omega)
    refine Or.inr ⟨_, _, if_neg hsmall, ?_, ?_, ?_⟩
    · rw [isHighSurrogate_iff, hhigh]
      omega
    · rw [isLowSurrogate_iff, hlow]
      omega
    · have hvalue : 0x10000 + (c.toNat - 0x10000) / 0x400 * 0x400 + (c.toNat - 0x10000) % 0x400 =
          c.toNat := by omega
      rw [pairChar, hhigh, hlow, Nat.add_sub_cancel_left, Nat.add_sub_cancel_left, hvalue,
        Char.ofNat_toNat]

/-- Units of a pair of surrogates. -/
theorem unitsOf_pairChar {u v : UInt16} (hu : isHighSurrogate u = true)
    (hv : isLowSurrogate v = true) : unitsOf (pairChar u v) = [u, v] := by
  rw [isHighSurrogate_iff] at hu
  rw [isLowSurrogate_iff] at hv
  have hvalue : (pairChar u v).toNat =
      0x10000 + (u.toNat - 0xd800) * 0x400 + (v.toNat - 0xdc00) :=
    toNat_charOfNat (Or.inr ⟨by omega, by omega⟩)
  have hhigh : 0xd800 + ((pairChar u v).toNat - 0x10000) / 0x400 = u.toNat := by omega
  have hlow : 0xdc00 + ((pairChar u v).toNat - 0x10000) % 0x400 = v.toNat := by omega
  rw [unitsOf, if_neg (by omega)]
  simp only [hhigh, hlow, UInt16.ofNat_toNat]

/-- Unit of a character that is no surrogate. -/
theorem unitsOf_ofNat {u : UInt16} (hu : isHighSurrogate u = false) (hv : isLowSurrogate u = false) :
    unitsOf (Char.ofNat u.toNat) = [u] := by
  rw [Bool.eq_false_iff, ne_eq, isHighSurrogate_iff] at hu
  rw [Bool.eq_false_iff, ne_eq, isLowSurrogate_iff] at hv
  have hlt := u.toNat_lt
  have hvalid : u.toNat.isValidChar := by
    by_cases hsmall : u.toNat < 0xd800
    · exact Or.inl hsmall
    · exact Or.inr ⟨by omega, by omega⟩
  rw [unitsOf, toNat_charOfNat hvalid, if_pos hlt, UInt16.ofNat_toNat]

/-! ## UTF-16 -/

theorem readUtf16_single {u : UInt16} (hu : isHighSurrogate u = false)
    (hv : isLowSurrogate u = false) (done : List Char) (us : List UInt16) :
    readUtf16 done (u :: us) = readUtf16 (Char.ofNat u.toNat :: done) us := by
  rw [readUtf16.eq_def]
  simp [hu, hv]

theorem readUtf16_pair {u v : UInt16} (hu : isHighSurrogate u = true)
    (hv : isLowSurrogate v = true) (done : List Char) (us : List UInt16) :
    readUtf16 done (u :: v :: us) = readUtf16 (pairChar u v :: done) us := by
  rw [readUtf16.eq_def]
  simp [hu, hv]

theorem readUtf16_utf16 (done cs : List Char) :
    readUtf16 done (utf16 cs) = some (done.reverse ++ cs) := by
  induction cs generalizing done with
  | nil => simp [utf16, readUtf16]
  | cons c cs ih =>
      have hdone : (c :: done).reverse ++ cs = done.reverse ++ c :: cs := by simp
      rw [utf16, List.flatMap_cons, ← utf16, ← hdone]
      rcases unitsOf_cases c with ⟨u, hunits, hu, hv, hc⟩ | ⟨u, v, hunits, hu, hv, hc⟩
      · rw [hunits, List.cons_append, List.nil_append, readUtf16_single hu hv, hc, ih]
      · rw [hunits, List.cons_append, List.cons_append, List.nil_append, readUtf16_pair hu hv, hc,
          ih]

/-- The units of a list of characters are read as these characters. -/
theorem ofUtf16?_utf16 (cs : List Char) : ofUtf16? (utf16 cs) = some cs := readUtf16_utf16 [] cs

theorem utf16_of_readUtf16 {done cs : List Char} {us : List UInt16}
    (h : readUtf16 done us = some cs) : utf16 cs = utf16 done.reverse ++ us := by
  -- of the cases of the reader only the end, a pair and a single unit go on
  fun_induction readUtf16 done us with
  | case1 done =>
      cases h
      rw [List.append_nil]
  | case2 done u hu v us hv ih =>
      rw [ih h, utf16, utf16, List.reverse_cons, List.flatMap_append, List.flatMap_singleton,
        unitsOf_pairChar hu hv, List.append_assoc]
      rfl
  | case3 => cases h
  | case4 => cases h
  | case5 => cases h
  | case6 done u us hu hv ih =>
      rw [ih h, utf16, utf16, List.reverse_cons, List.flatMap_append, List.flatMap_singleton,
        unitsOf_ofNat (by simpa using hu) (by simpa using hv), List.append_assoc]
      rfl

/-- Units that are read as characters are the ones of these characters. -/
theorem utf16_of_ofUtf16? {us : List UInt16} {cs : List Char} (h : ofUtf16? us = some cs) :
    utf16 cs = us := utf16_of_readUtf16 h

/-- Units with surrogates in pairs only, the high one first. -/
inductive Paired : List UInt16 → Prop
  | nil : Paired []
  | single {u : UInt16} {us : List UInt16} (hu : u.toNat < 0xd800 ∨ 0xdfff < u.toNat) (h : Paired us) :
      Paired (u :: us)
  | pair {u v : UInt16} {us : List UInt16} (hu : 0xd800 ≤ u.toNat ∧ u.toNat ≤ 0xdbff)
      (hv : 0xdc00 ≤ v.toNat ∧ v.toNat ≤ 0xdfff) (h : Paired us) : Paired (u :: v :: us)

/-- The units of texts are those with surrogates in pairs only. -/
theorem exists_utf16_eq_iff {us : List UInt16} : (∃ cs, utf16 cs = us) ↔ Paired us := by
  constructor
  · rintro ⟨cs, rfl⟩
    induction cs with
    | nil => exact .nil
    | cons c cs ih =>
        rw [utf16, List.flatMap_cons, ← utf16]
        rcases unitsOf_cases c with ⟨u, hunits, hu, hv, -⟩ | ⟨u, v, hunits, hu, hv, -⟩
        · rw [Bool.eq_false_iff, ne_eq, isHighSurrogate_iff] at hu
          rw [Bool.eq_false_iff, ne_eq, isLowSurrogate_iff] at hv
          rw [hunits]
          exact .single (by omega) ih
        · rw [hunits]
          exact .pair (isHighSurrogate_iff.1 hu) (isLowSurrogate_iff.1 hv) ih
  · intro h
    induction h with
    | nil => exact ⟨[], rfl⟩
    | @single u us hu _ ih =>
        obtain ⟨cs, rfl⟩ := ih
        have hhigh : isHighSurrogate u = false := by
          rw [Bool.eq_false_iff, ne_eq, isHighSurrogate_iff]
          omega
        have hlow : isLowSurrogate u = false := by
          rw [Bool.eq_false_iff, ne_eq, isLowSurrogate_iff]
          omega
        refine ⟨Char.ofNat u.toNat :: cs, ?_⟩
        rw [utf16, List.flatMap_cons, unitsOf_ofNat hhigh hlow]
        rfl
    | @pair u v us hu hv _ ih =>
        obtain ⟨cs, rfl⟩ := ih
        refine ⟨pairChar u v :: cs, ?_⟩
        rw [utf16, List.flatMap_cons,
          unitsOf_pairChar (isHighSurrogate_iff.2 hu) (isLowSurrogate_iff.2 hv)]
        rfl

end Linkage.Text
