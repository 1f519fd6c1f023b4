import Linkage.Text.Lowercase

/-!
# Lowercase of joined texts and of texts in another case

The lowercase of a text depends on its context in one place only, at a capital sigma, which looks
for cased characters on both sides. So a text keeps its lowercase if characters without case are written
after it (`lowercaseChars_append`), and texts that differ in the case of ASCII letters have one
lowercase (`lowercase_congr`).
-/

set_option autoImplicit false

namespace Linkage.Text

/-- What holds of the first 128 characters holds of every character in ASCII. -/
theorem of_ascii {p : Char → Prop} (hall : ∀ n < 128, p (Char.ofNat n)) {c : Char}
    (h : c.toNat < 128) : p c := by
  rw [← Char.ofNat_toNat c]
  exact hall c.toNat h

/-! ## Joined texts -/

theorem startsCased_cons (c : Char) (cs : List Char) :
    startsCased (c :: cs) = if isCaseIgnorable c then startsCased cs else isCased c := by
  rw [startsCased, List.dropWhile_cons]
  by_cases h : isCaseIgnorable c = true
  · rw [if_pos h, if_pos h, startsCased]
  · rw [if_neg h, if_neg h]

theorem startsCased_eq_false {cs : List Char} (h : ∀ c ∈ cs, isCased c = false) :
    startsCased cs = false := by
  induction cs with
  | nil => rfl
  | cons c cs ih =>
      obtain ⟨hc, hcs⟩ := List.forall_mem_cons.1 h
      rw [startsCased_cons, ih hcs, hc, ite_self]

/-- A text starts cased or not whatever follows it that has no case. -/
theorem startsCased_append (cs : List Char) {ds : List Char} (hds : ∀ d ∈ ds, isCased d = false) :
    startsCased (cs ++ ds) = startsCased cs := by
  induction cs with
  | nil => exact startsCased_eq_false hds
  | cons c cs ih => rw [List.cons_append, startsCased_cons, startsCased_cons, ih]

theorem lowercaseAfter_append (cased : Bool) (cs : List Char) {ds : List Char}
    (hascii : ∀ d ∈ ds, d.toNat < 128) (hds : ∀ d ∈ ds, isCased d = false) :
    lowercaseAfter cased (cs ++ ds) = lowercaseAfter cased cs ++ ds.map Char.toLower := by
  induction cs generalizing cased with
  | nil => exact lowercaseAfter_of_ascii cased hascii
  | cons c cs ih =>
      rw [List.cons_append, lowercaseAfter, lowercaseAfter, startsCased_append cs hds, ih,
        List.append_assoc]

/-- A text keeps its lowercase if characters without case are written after it. -/
theorem lowercaseChars_append (cs : List Char) {ds : List Char} (hascii : ∀ d ∈ ds, d.toNat < 128)
    (hds : ∀ d ∈ ds, isCased d = false) :
    lowercaseChars (cs ++ ds) = lowercaseChars cs ++ ds.map Char.toLower :=
  lowercaseAfter_append false cs hascii hds

/-! ## Case in ASCII -/

/-- Outside of ASCII a character is its own ASCII lowercase. -/
theorem toLower_of_le {c : Char} (h : 128 ≤ c.toNat) : c.toLower = c := by
  have hupper : 'Z'.val.toNat = 90 := rfl
  have hc : c.toNat = c.val.toNat := rfl
  have hrange : ¬ (c.val ≥ 'A'.val ∧ c.val ≤ 'Z'.val) := by
    intro hletter
    have hlast := UInt32.le_iff_toNat_le.1 hletter.2
    omega
  exact dif_neg hrange

theorem ascii_of_map_toLower {cs : List Char} (h : ∀ c ∈ cs.map Char.toLower, c.toNat < 128) :
    ∀ c ∈ cs, c.toNat < 128 := by
  intro c hc
  refine Nat.lt_of_not_le fun hle => ?_
  have hlower := h c.toLower (List.mem_map_of_mem hc)
  rw [toLower_of_le hle] at hlower
  omega

/-- A function that takes both cases of every ASCII letter alike does not see case in ASCII. -/
theorem apply_toLower {α : Type} {f : Char → α}
    (hall : ∀ n < 128, f (Char.ofNat n).toLower = f (Char.ofNat n)) (c : Char) :
    f c.toLower = f c := by
  by_cases h : c.toNat < 128
  · exact of_ascii (p := fun c => f c.toLower = f c) hall h
  · rw [toLower_of_le (Nat.le_of_not_lt h)]

theorem isCased_toLower (c : Char) : isCased c.toLower = isCased c :=
  apply_toLower (by decide +kernel) c

theorem isCaseIgnorable_toLower (c : Char) : isCaseIgnorable c.toLower = isCaseIgnorable c :=
  apply_toLower (by decide +kernel) c

theorem lowercaseChar_toLower (c : Char) : lowercaseChar c.toLower = lowercaseChar c :=
  apply_toLower (by decide +kernel) c

theorem beq_sigma_toLower (c : Char) : (c.toLower == 'Σ') = (c == 'Σ') :=
  apply_toLower (f := (· == 'Σ')) (by decide +kernel) c

theorem startsCased_map_toLower (cs : List Char) :
    startsCased (cs.map Char.toLower) = startsCased cs := by
  induction cs with
  | nil => rfl
  | cons c cs ih =>
      rw [List.map_cons, startsCased_cons, startsCased_cons, ih, isCaseIgnorable_toLower,
        isCased_toLower]

theorem lowercaseAfter_map_toLower (cased : Bool) (cs : List Char) :
    lowercaseAfter cased (cs.map Char.toLower) = lowercaseAfter cased cs := by
  induction cs generalizing cased with
  | nil => rfl
  | cons c cs ih =>
      have hsigma : c.toLower = 'Σ' ↔ c = 'Σ' := by
        rw [← beq_iff_eq, beq_sigma_toLower, beq_iff_eq]
      rw [List.map_cons, lowercaseAfter, lowercaseAfter, ih, startsCased_map_toLower,
        lowercaseChar_toLower, isCaseIgnorable_toLower, isCased_toLower]
      simp only [hsigma]

/-- The texts differ at most in the case of letters in ASCII. -/
def SameButCase (s t : String) : Prop := s.toList.map Char.toLower = t.toList.map Char.toLower

instance (s t : String) : Decidable (SameButCase s t) := inferInstanceAs (Decidable (_ = _))

theorem lowercaseChars_congr {s t : String} (h : SameButCase s t) :
    lowercaseChars s.toList = lowercaseChars t.toList := by
  rw [lowercaseChars, lowercaseChars, ← lowercaseAfter_map_toLower, h, lowercaseAfter_map_toLower]

/-- Texts that differ in the case of ASCII letters have one lowercase. -/
theorem lowercase_congr {s t : String} (h : SameButCase s t) : lowercase s = lowercase t :=
  congrArg String.ofList (lowercaseChars_congr h)

theorem any_map_toLower {f : Char → Bool}
    (hall : ∀ n < 128, f (Char.ofNat n).toLower = f (Char.ofNat n)) (cs : List Char) :
    (cs.map Char.toLower).any f = cs.any f := by
  rw [List.any_map]
  exact congrArg cs.any (funext (apply_toLower hall))

end Linkage.Text
