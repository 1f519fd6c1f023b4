import Linkage.Proofs.NullComponents
import Linkage.Proofs.Pieces

/-!
# Hollow lists

A version ends hollow if its last nested list has components that mean nothing, and no others: `1-0`,
`1-`, `1.2final` and `2-rc0.0` do, while `1.0`, `1-rc` and `1-rc0-beta` do not. Where nested lists begin
is said here by the characters of the text (`OpensBetween`), and the tokens that the text is read as
agree with that (`Token.hollow_scan_iff`).

- `Token.forall_isNullItem_scan_iff`: a text is read as null items only, exactly if all of its
  components mean nothing;
- `Token.endsHollow_of_hollow` and `Token.hollow_of_endsHollow`: the two directions.
-/

set_option autoImplicit false

namespace Linkage.Version

/-! ## Texts -/

/-- A nested list begins between the two texts: behind a hyphen, or between a digit and a character of
another kind. -/
def OpensBetween (front back : List Char) : Prop :=
  front.getLast? = some '-' ∨ ∃ digit c d, front.getLast? = some c ∧ back.head? = some d ∧
    InRun digit c ∧ InRun (!digit) d

/-- In the last nested list of the lowercase text no component means anything. -/
def EndsHollow (text : List Char) : Prop :=
  ∃ front back, text = front ++ back ∧ OpensBetween front back ∧
    ∀ component ∈ Text.pieces '.' back, MeansNothing component

/-- It makes no difference what stands in front. -/
theorem EndsHollow.prepend {text : List Char} (h : EndsHollow text) (before : List Char) :
    EndsHollow (before ++ text) := by
  obtain ⟨front, back, rfl, hopens, hnothing⟩ := h
  refine ⟨before ++ front, back, (List.append_assoc _ _ _).symm, ?_, hnothing⟩
  have hlast : ∀ c, front.getLast? = some c → (before ++ front).getLast? = some c := by
    intro c hc
    rw [List.getLast?_append, hc]
    rfl
  rcases hopens with hhyphen | ⟨digit, c, d, hc, hd, hkinds⟩
  · exact Or.inl (hlast _ hhyphen)
  · exact Or.inr ⟨digit, c, d, hlast _ hc, hd, hkinds⟩

section Scan

variable {digit : Bool} {run cs : List Char} {c : Char}

theorem inRun_of_mem_nil : ∀ d ∈ ([] : List Char), InRun true d := nofun

theorem inRun_of_mem_singleton (hdot : c ≠ '.') (hhyphen : c ≠ '-') :
    ∀ d ∈ [c], InRun c.isDigit d :=
  List.forall_mem_singleton.2 ⟨rfl, hdot, hhyphen⟩

/-- A character of the same kind goes on with the run. -/
theorem inRun_of_beq {d : Char} (hd : InRun digit d) (hsame : (d.isDigit == c.isDigit) = true)
    (hdot : c ≠ '.') (hhyphen : c ≠ '-') : InRun digit c :=
  ⟨(beq_iff_eq.1 hsame).symm.trans hd.1, hdot, hhyphen⟩

theorem dot_notMem_reverse (hrun : ∀ d ∈ run, InRun digit d) : '.' ∉ run.reverse :=
  fun h => (hrun '.' (List.mem_reverse.1 h)).2.1 rfl

/-- A component with a hyphen or with two kinds of characters means something. -/
theorem not_meansNothing_of_mem {component : List Char} (hc : c ∈ component)
    (hother : c = '-' ∨ ∃ d ∈ component, d.isDigit ≠ c.isDigit) : ¬ MeansNothing component := by
  intro hnothing
  obtain ⟨digit, hrun⟩ := exists_inRun_of_meansNothing hnothing
  rcases hother with hhyphen | ⟨d, hd, hchange⟩
  · exact (hrun c hc).2.2 hhyphen
  · exact hchange ((hrun d hd).1.trans (hrun c hc).1.symm)

/-- Where a run goes on with something else and no dot between, there is a component that means
something. -/
theorem not_forall_meansNothing (hrun : ∀ d ∈ run, InRun digit d) (hdot : c ≠ '.') (cs : List Char)
    (hother : c = '-' ∨ ∃ d ∈ run, d.isDigit ≠ c.isDigit) :
    ¬ ∀ component ∈ Text.pieces '.' (run.reverse ++ c :: cs), MeansNothing component := by
  intro hall
  have hfront : '.' ∉ run.reverse ++ [c] := by
    rw [List.mem_append, List.mem_singleton, not_or]
    exact ⟨dot_notMem_reverse hrun, hdot.symm⟩
  obtain ⟨piece, more, -, hpieces⟩ := Text.exists_pieces_append hfront cs
  rw [List.append_cons, hpieces] at hall
  have hc : c ∈ run.reverse ++ [c] ++ piece := by simp
  refine not_meansNothing_of_mem hc ?_ (hall _ List.mem_cons_self)
  rcases hother with hhyphen | ⟨d, hd, hchange⟩
  · exact Or.inl hhyphen
  · exact Or.inr ⟨d, by simp [hd], hchange⟩

namespace Token

/-! ## Null items -/

/-- The token is a null item. -/
def IsNullItem (t : Token) : Prop := ∃ i : Item, t = .item i ∧ i.isNull = true

theorem not_isNullItem_nest : ¬ nest.IsNullItem := by
  rintro ⟨i, hi, -⟩
  cases hi

theorem isNullItem_ofRun_iff (hrun : ∀ d ∈ run, InRun digit d) :
    (item (ofRun run.reverse false)).IsNullItem ↔ MeansNothing run.reverse := by
  rw [← isNull_ofRun_iff fun d hd => hrun d (List.mem_reverse.1 hd)]
  constructor
  · rintro ⟨i, hi, hnull⟩
    cases hi
    exact hnull
  · exact fun hnull => ⟨_, rfl, hnull⟩

/-- The scan gives null items only, exactly if no component means anything. -/
theorem forall_isNullItem_scan_iff (hrun : ∀ d ∈ run, InRun digit d) :
    (∀ t ∈ scan run cs, t.IsNullItem) ↔
      ∀ component ∈ Text.pieces '.' (run.reverse ++ cs), MeansNothing component := by
  -- a dot ends a component and a run; at a hyphen and at a change of kind both sides fail
  fun_induction scan run cs generalizing digit with
  | case1 run hnil =>
      obtain rfl : run = [] := List.isEmpty_iff.1 hnil
      simp [Text.pieces, MeansNothing]
  | case2 run hnil =>
      obtain ⟨piece, more, hend, hpieces⟩ := Text.exists_pieces_append (dot_notMem_reverse hrun) []
      cases hend
      rw [hpieces, List.forall_mem_singleton, List.forall_mem_singleton, isNullItem_ofRun_iff hrun,
        List.append_nil]
  | case3 run cs ih =>
      obtain ⟨piece, more, hdot, hpieces⟩ :=
        Text.exists_pieces_append (dot_notMem_reverse hrun) ('.' :: cs)
      cases hdot
      rw [hpieces, List.forall_mem_cons, List.forall_mem_cons, isNullItem_ofRun_iff hrun,
        List.append_nil, ih inRun_of_mem_nil]
      rfl
  | case4 run cs hdot ih =>
      refine iff_of_false (fun hall => ?_) (not_forall_meansNothing hrun hdot cs (Or.inl rfl))
      exact not_isNullItem_nest (hall .nest (by simp))
  | case5 c cs hdot hhyphen ih =>
      exact ih (inRun_of_mem_singleton hdot hhyphen)
  | case6 c cs hdot hhyphen d ds hsame ih =>
      have hc := inRun_of_beq (hrun d List.mem_cons_self) hsame hdot hhyphen
      rw [ih (List.forall_mem_cons.2 ⟨hc, hrun⟩), List.reverse_cons, ← List.append_cons]
  | case7 c cs hdot hhyphen d ds hchange ih =>
      refine iff_of_false (fun hall => ?_)
        (not_forall_meansNothing hrun hdot cs (Or.inr ⟨d, List.mem_cons_self, ?_⟩))
      · exact not_isNullItem_nest (hall .nest (by simp))
      · simpa using hchange

/-! ## The last nested list -/

/-- The last nested list has null items, and nothing else. -/
def Hollow (ts : List Token) : Prop :=
  ∃ front inner, ts = front ++ .nest :: inner ∧ ∀ t ∈ inner, t.IsNullItem

theorem Hollow.of_cons_item {ts : List Token} {i : Item} (h : Hollow (.item i :: ts)) : Hollow ts := by
  obtain ⟨front, inner, hts, hnull⟩ := h
  cases front with
  | nil => cases hts
  | cons t front => exact ⟨front, inner, (List.cons.inj hts).2, hnull⟩

theorem Hollow.of_cons_nest {ts : List Token} (h : Hollow (.nest :: ts)) :
    (∀ t ∈ ts, t.IsNullItem) ∨ Hollow ts := by
  obtain ⟨front, inner, hts, hnull⟩ := h
  cases front with
  | nil => exact Or.inl ((List.cons.inj hts).2 ▸ hnull)
  | cons t front => exact Or.inr ⟨front, inner, (List.cons.inj hts).2, hnull⟩

theorem endsHollow_of_hollow (hrun : ∀ d ∈ run, InRun digit d) (h : Hollow (scan run cs)) :
    EndsHollow (run.reverse ++ cs) := by
  -- a nested list begins at a hyphen or a change of kind, and is the last one or has another one after it
  fun_induction scan run cs generalizing digit with
  | case1 run hnil =>
      obtain ⟨front, inner, hts, -⟩ := h
      simp at hts
  | case2 run hnil =>
      obtain ⟨front, inner, hts, -⟩ := h.of_cons_item
      simp at hts
  | case3 run cs ih =>
      rw [List.append_cons]
      exact (ih inRun_of_mem_nil h.of_cons_item).prepend _
  | case4 run cs hdot ih =>
      rw [List.append_cons]
      rcases h.of_cons_item.of_cons_nest with hnull | hmore
      · exact ⟨_, cs, rfl, Or.inl (by simp),
          (forall_isNullItem_scan_iff inRun_of_mem_nil).1 hnull⟩
      · exact (ih inRun_of_mem_nil hmore).prepend _
  | case5 c cs hdot hhyphen ih =>
      exact ih (inRun_of_mem_singleton hdot hhyphen) h
  | case6 c cs hdot hhyphen d ds hsame ih =>
      have hc := inRun_of_beq (hrun d List.mem_cons_self) hsame hdot hhyphen
      have hend := ih (List.forall_mem_cons.2 ⟨hc, hrun⟩) h
      rwa [List.reverse_cons, ← List.append_cons] at hend
  | case7 c cs hdot hhyphen d ds hchange ih =>
      have hnext := inRun_of_mem_singleton hdot hhyphen
      rcases h.of_cons_item.of_cons_nest with hnull | hmore
      · have hd := hrun d List.mem_cons_self
        have hkind : c.isDigit = !digit := by
          rw [← hd.1]
          revert hchange
          cases d.isDigit <;> cases c.isDigit <;> decide
        exact ⟨(d :: ds).reverse, c :: cs, rfl,
          Or.inr ⟨digit, d, c, by simp, rfl, hd, hkind, hdot, hhyphen⟩,
          (forall_isNullItem_scan_iff hnext).1 hnull⟩
      · exact (ih hnext hmore).prepend _

theorem hollow_of_endsHollow (h : EndsHollow cs) : Hollow (scan [] cs) := by
  obtain ⟨front, back, rfl, hopens, hnothing⟩ := h
  have hnull : ∀ t ∈ scan [] back, t.IsNullItem :=
    (forall_isNullItem_scan_iff inRun_of_mem_nil).2 hnothing
  rcases hopens with hhyphen | ⟨digit, c, d, hc, hd, hkind, hother⟩
  · obtain ⟨before, rfl⟩ := List.getLast?_eq_some_iff.1 hhyphen
    obtain ⟨zeros, hclosed⟩ := exists_closedBy before
    rw [← List.append_cons, hclosed.hyphen, ← List.append_assoc]
    exact ⟨_, _, rfl, hnull⟩
  · obtain ⟨before, rfl⟩ := List.getLast?_eq_some_iff.1 hc
    obtain ⟨more, rfl⟩ := List.head?_eq_some_iff.1 hd
    -- the run that ends before the list ends in a character of the other kind
    obtain ⟨ts, run, hbefore⟩ := exists_scan_append [] before
    obtain ⟨us, run', hlast, hscan⟩ := exists_scan_cons run c
    obtain ⟨ds, rfl⟩ := List.head?_eq_some_iff.1 (hlast hkind.2.1 hkind.2.2)
    have hchange : ¬ (c.isDigit == d.isDigit) = true := by
      rw [hkind.1, hother.1]
      cases digit <;> decide
    rw [scan, if_neg hother.2.1, if_neg hother.2.2] at hnull
    rw [← List.append_cons, hbefore, hscan, scan, if_neg hother.2.1, if_neg hother.2.2]
    simp only [if_neg hchange]
    exact ⟨ts ++ (us ++ [.item (ofRun (c :: ds).reverse d.isDigit)]), scan [d] more, by simp, hnull⟩

/-- The tokens of a text are hollow exactly if the text ends hollow. -/
theorem hollow_scan_iff : Hollow (scan [] cs) ↔ EndsHollow cs :=
  ⟨fun h => endsHollow_of_hollow inRun_of_mem_nil h, hollow_of_endsHollow⟩

end Token

end Scan

end Linkage.Version
