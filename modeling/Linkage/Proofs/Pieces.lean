import Linkage.Text.Pieces

/-!
# Cutting texts

A text is cut at the first place of a separator, and there is one way only to do that
(`cut?_eq_some_iff`, `append_cons_inj`). Cutting it everywhere loses no character but the separators
(`exists_piece_of_mem`), and what stands before the first one is in the first piece
(`exists_pieces_append`). A text stands inside another one exactly if it is a part of it
(`isInside_iff_infix`).
-/

set_option autoImplicit false

namespace Linkage.Text

variable {sep c : Char} {cs front back front' back' : List Char}

/-- A text is cut at its first separator. -/
theorem cut?_eq_some_iff : cut? sep cs = some (front, back) ↔ cs = front ++ sep :: back ∧ sep ∉ front := by
  induction cs generalizing front with
  | nil => simp [cut?]
  | cons c cs ih =>
      rw [cut?]
      split
      · rename_i hsep
        subst hsep
        cases front with
        | nil => simp [eq_comm]
        | cons d front => simp_all
      · rename_i hsep
        cases front with
        | nil => simp [hsep]
        | cons d front =>
            rw [Option.map_eq_some_iff, List.cons_append, List.cons.injEq, List.mem_cons, not_or]
            constructor
            · rintro ⟨⟨first, second⟩, hcut, hhalves⟩
              cases hhalves
              obtain ⟨hcs, hnone⟩ := ih.1 hcut
              exact ⟨⟨rfl, hcs⟩, Ne.symm hsep, hnone⟩
            · rintro ⟨⟨rfl, hcs⟩, -, hnone⟩
              exact ⟨(front, back), ih.2 ⟨hcs, hnone⟩, rfl⟩

theorem cut?_eq_none_iff : cut? sep cs = none ↔ sep ∉ cs := by
  induction cs with
  | nil => simp [cut?]
  | cons c cs ih =>
      rw [cut?]
      split
      · rename_i hsep
        simp [hsep]
      · rename_i hsep
        simp [ih, Ne.symm hsep]

/-- The texts before and after the first separator are told by the whole text. -/
theorem append_cons_inj (hfront : sep ∉ front) (hfront' : sep ∉ front')
    (h : front ++ sep :: back = front' ++ sep :: back') : front = front' ∧ back = back' := by
  have hcut : cut? sep (front ++ sep :: back) = some (front, back) := cut?_eq_some_iff.2 ⟨rfl, hfront⟩
  rw [h, cut?_eq_some_iff.2 ⟨rfl, hfront'⟩] at hcut
  cases hcut
  exact ⟨rfl, rfl⟩

/-- There is a first piece. -/
theorem exists_pieces_eq_cons (sep : Char) (cs : List Char) :
    ∃ piece more, pieces sep cs = piece :: more := by
  cases cs with
  | nil => exact ⟨[], [], rfl⟩
  | cons c cs =>
      rw [pieces]
      split
      · exact ⟨[], pieces sep cs, rfl⟩
      · split
        · exact ⟨[c], [], rfl⟩
        · rename_i piece more hpieces
          exact ⟨c :: piece, more, rfl⟩

/-- Characters without the separator go into the first piece. -/
theorem exists_pieces_append (hfront : sep ∉ front) (cs : List Char) :
    ∃ piece more, pieces sep cs = piece :: more ∧
      pieces sep (front ++ cs) = (front ++ piece) :: more := by
  induction front with
  | nil =>
      obtain ⟨piece, more, hpieces⟩ := exists_pieces_eq_cons sep cs
      exact ⟨piece, more, hpieces, hpieces⟩
  | cons c front ih =>
      rw [List.mem_cons, not_or] at hfront
      obtain ⟨piece, more, hpieces, happend⟩ := ih hfront.2
      refine ⟨piece, more, hpieces, ?_⟩
      rw [List.cons_append, pieces, if_neg (Ne.symm hfront.1), happend, List.cons_append]

/-- A character that is no separator stands in one of the pieces. -/
theorem exists_piece_of_mem (hc : c ∈ cs) (hsep : c ≠ sep) : ∃ piece ∈ pieces sep cs, c ∈ piece := by
  induction cs with
  | nil => cases hc
  | cons d cs ih =>
      rw [pieces]
      split
      · rename_i hd
        rcases List.mem_cons.1 hc with rfl | hc
        · exact absurd hd hsep
        · obtain ⟨piece, hpiece, hmem⟩ := ih hc
          exact ⟨piece, List.mem_cons_of_mem _ hpiece, hmem⟩
      · -- the character is put in front of the first piece of the rest
        split
        · rename_i hnone
          rcases List.mem_cons.1 hc with rfl | hc
          · exact ⟨[c], List.mem_cons_self, List.mem_cons_self⟩
          · obtain ⟨piece, hpiece, -⟩ := ih hc
            rw [hnone] at hpiece
            cases hpiece
        · rename_i first more hpieces
          rcases List.mem_cons.1 hc with rfl | hc
          · exact ⟨c :: first, List.mem_cons_self, List.mem_cons_self⟩
          · obtain ⟨piece, hpiece, hmem⟩ := ih hc
            rw [hpieces] at hpiece
            rcases List.mem_cons.1 hpiece with rfl | hpiece
            · exact ⟨d :: piece, List.mem_cons_self, List.mem_cons_of_mem _ hmem⟩
            · exact ⟨piece, List.mem_cons_of_mem _ hpiece, hmem⟩

/-- Looking for a text inside another one finds it wherever it stands. -/
theorem isInside_iff_infix {needle : List Char} : isInside needle cs = true ↔ needle <:+: cs := by
  induction cs with
  | nil => rw [isInside, List.isEmpty_iff, List.infix_nil]
  | cons c cs ih => rw [isInside, Bool.or_eq_true, List.isPrefixOf_iff_prefix, ih, List.infix_cons_iff]

end Linkage.Text
