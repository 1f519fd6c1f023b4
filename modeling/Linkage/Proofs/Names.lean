import Linkage.Name
import Linkage.Proofs.Pieces

/-!
# Names and their texts

A text is read as a name exactly if it is the text of the name (`BinaryName.ofText_eq_ok_iff`,
`UnqualifiedName.ofText_eq_ok_iff`). The name of a member has no delimiter
(`UnqualifiedName.isNameDelimiter_of_mem`), and that of a class has those between its segments only
(`BinaryName.isNameDelimiter_of_mem`).
-/

set_option autoImplicit false

namespace Linkage

variable {c : Char} {cs : List Char} {text : String}

theorem memberNameFault?_eq_none_iff :
    memberNameFault? cs = none ↔ (∀ c ∈ cs, isNameDelimiter c = false) ∧ cs ≠ [] := by
  unfold memberNameFault?
  split
  · rename_i hany
    obtain ⟨c, hc, hdelimiter⟩ := List.any_eq_true.1 hany
    simp only [reduceCtorEq, false_iff]
    rintro ⟨hplain, -⟩
    rw [hplain c hc] at hdelimiter
    cases hdelimiter
  · rename_i hany
    have hplain : ∀ c ∈ cs, isNameDelimiter c = false := by simpa using hany
    cases cs with
    | nil => simp
    | cons c cs => simpa using hplain

/-! ## Names of members -/

namespace UnqualifiedName

/-- A text is read as a name exactly if it is the text of the name. -/
theorem ofText_eq_ok_iff {name : UnqualifiedName} : ofText text = .ok name ↔ name.text = text := by
  unfold ofText
  split
  · rename_i hvalid
    constructor
    · intro h
      cases h
      rfl
    · rintro rfl
      rfl
  · rename_i e hfault
    constructor
    · intro h
      cases h
    · rintro rfl
      rw [name.valid] at hfault
      cases hfault

/-- Names are told apart by their texts. -/
theorem eq_of_text_eq {a b : UnqualifiedName} (h : a.text = b.text) : a = b := by
  cases a
  cases b
  cases h
  rfl

/-- No delimiter is in the name of a member. -/
theorem isNameDelimiter_of_mem (name : UnqualifiedName) (hc : c ∈ name.text.toList) : isNameDelimiter c = false :=
  (memberNameFault?_eq_none_iff.1 name.valid).1 c hc

end UnqualifiedName

/-! ## Names of classes -/

namespace BinaryName

/-- A text is read as a name exactly if it is the text of the name. -/
theorem ofText_eq_ok_iff {name : BinaryName} : ofText text = .ok name ↔ name.text = text := by
  unfold ofText
  split
  · rename_i hvalid
    constructor
    · intro h
      cases h
      rfl
    · rintro rfl
      rfl
  · rename_i e hfault
    constructor
    · intro h
      cases h
    · rintro rfl
      rw [name.valid] at hfault
      cases hfault

/-- Names are told apart by their texts. -/
theorem eq_of_text_eq {a b : BinaryName} (h : a.text = b.text) : a = b := by
  cases a
  cases b
  cases h
  rfl

/-- The only delimiter in the name of a class is the one between its segments. -/
theorem isNameDelimiter_of_mem (name : BinaryName) (hc : c ∈ name.text.toList) (hslash : c ≠ '/') :
    isNameDelimiter c = false := by
  have hvalid := name.valid
  unfold classNameFault? at hvalid
  split at hvalid
  · cases hvalid
  · obtain ⟨piece, hpiece, hmem⟩ := Text.exists_piece_of_mem hc hslash
    have hfine := List.findSome?_eq_none_iff.1 hvalid piece hpiece
    exact (memberNameFault?_eq_none_iff.1 hfine).1 c hmem

end BinaryName

end Linkage
