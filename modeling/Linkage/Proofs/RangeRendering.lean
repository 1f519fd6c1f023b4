import Linkage.Proofs.RangeGrammar

/-!
# Writing version ranges

The text that is written for a range is read as a range again, which is equal to the first one and is
written in the same way. The two need not be one and the same: bounds of different texts that are equal
as versions are written once.

* `Version.Legible`, `Interval.Legible`: the versions and intervals that are found in the text of a range.
* `Interval.collapse`: the interval that the text of an interval stands for.
* `Interval.intervalText_render`, `unionText_render`: the texts of intervals and of rows of them stand
  for what they are collapsed to.
* `VersionRange.parse_render`: the main result.
-/

set_option autoImplicit false

namespace Linkage

/-! ## Equal ranges -/

/-- The bounds are of one kind, and their versions are equal. -/
inductive Bound.Alike : Bound → Bound → Prop
  | unbounded : Alike .unbounded .unbounded
  | included {v w : Version} : compare v w = .eq → Alike (.included v) (.included w)
  | excluded {v w : Version} : compare v w = .eq → Alike (.excluded v) (.excluded w)

/-- The intervals have bounds that are alike. -/
structure Interval.Alike (i j : Interval) : Prop where
  lower : i.lower.Alike j.lower
  upper : i.upper.Alike j.upper

theorem Version.beq_iff {v w : Version} : (v == w) = true ↔ compare v w = .eq := by
  have hbeq : (v == w) = (compare v w == .eq) := rfl
  rw [hbeq, beq_iff_eq]

theorem Bound.beq_iff_alike {a b : Bound} : (a == b) = true ↔ a.Alike b := by
  constructor
  · intro h
    cases a <;> cases b <;> first | cases h | skip
    · exact .unbounded
    · exact .included (Version.beq_iff.1 h)
    · exact .excluded (Version.beq_iff.1 h)
  · rintro (_ | heq | heq)
    · rfl
    · exact Version.beq_iff.2 heq
    · exact Version.beq_iff.2 heq

theorem Interval.beq_iff_alike {i j : Interval} : (i == j) = true ↔ i.Alike j := by
  have hbeq : (i == j) = (i.lower == j.lower && i.upper == j.upper) := rfl
  rw [hbeq, Bool.and_eq_true, Bound.beq_iff_alike, Bound.beq_iff_alike]
  exact ⟨fun h => ⟨h.1, h.2⟩, fun h => ⟨h.lower, h.upper⟩⟩

theorem VersionRange.beq_iff_alike {r r' : VersionRange} :
    (r == r') = true ↔ List.Forall₂ Interval.Alike r.intervals r'.intervals := by
  obtain ⟨is⟩ := r
  obtain ⟨js⟩ := r'
  have hbeq : (VersionRange.mk is == VersionRange.mk js) = (is == js) := rfl
  rw [hbeq]
  induction is generalizing js with
  | nil => cases js <;> simp
  | cons i is ih =>
      cases js with
      | nil => simp
      | cons j js =>
          rw [List.cons_beq_cons, Bool.and_eq_true, List.forall₂_cons, Interval.beq_iff_alike]
          exact and_congr_right fun _ => ih js rfl

/-! ## What is found in a text -/

variable {cs t : List Char} {v : Version} {b : Bound} {i : Interval} {is : List Interval}

theorem Version.ofText_text (v : Version) : ofText v.text = v := by
  obtain ⟨text, items, rfl⟩ := v
  rfl

/-- The text of the version can stand between brackets and commas. -/
structure Version.Legible (v : Version) : Prop where
  plain : Plain v.text.toList
  trims : Text.Trims v.text.toList v.text.toList
  ne_nil : v.text.toList ≠ []

/-- The version at the bound, if any, is legible. -/
def Bound.Legible (b : Bound) : Prop := ∀ v ∈ b.limit?, v.1.Legible

/-- The bounds of the interval are legible, and there is something between them. -/
structure Interval.Legible (i : Interval) : Prop where
  lower : i.lower.Legible
  upper : i.upper.Legible
  ordered : i.Ordered

theorem Text.Trims.self (h : Text.Trims cs t) : Text.Trims t t :=
  ⟨⟨[], [], nofun, nofun, (List.append_nil t).symm⟩, h.head, h.last⟩

theorem Text.Trims.mem (h : Text.Trims cs t) {c : Char} (hc : c ∈ t) : c ∈ cs := by
  obtain ⟨before, after, -, -, rfl⟩ := h.framed
  exact List.mem_append_right before (List.mem_append_left after hc)

/-- What is left of a plain text is the text of a legible version. -/
theorem Version.legible_of_trims (hplain : Plain cs) (htrims : Text.Trims cs t) (hne : t ≠ []) :
    (ofText (String.ofList t)).Legible := by
  have htext : (ofText (String.ofList t)).text.toList = t := String.toList_ofList
  refine ⟨?_, ?_, ?_⟩
  · rw [htext]
    exact fun c hc => hplain c (htrims.mem hc)
  · rw [htext]
    exact htrims.self
  · rwa [htext]

theorem BoundText.legible {inclusive : Bool} (h : BoundText inclusive cs b) (hplain : Plain cs) :
    b.Legible := by
  cases h with
  | unbounded _ => exact nofun
  | included htrims hne _ =>
      rintro v ⟨⟩
      exact Version.legible_of_trims hplain htrims hne
  | excluded htrims hne _ =>
      rintro v ⟨⟩
      exact Version.legible_of_trims hplain htrims hne

theorem Interval.legible_exactly (h : v.Legible) : (Interval.exactly v).Legible := by
  refine ⟨?_, ?_, Interval.ordered_exactly v⟩
  · rintro _ ⟨⟩
    exact h
  · rintro _ ⟨⟩
    exact h

theorem IntervalText.legible (h : IntervalText cs i) : i.Legible := by
  cases h with
  | exactly hplain htrims hne =>
      exact Interval.legible_exactly (Version.legible_of_trims hplain htrims hne)
  | between _ _ hlower hupper hl hu hordered =>
      exact ⟨hl.legible hlower, hu.legible hupper, hordered⟩

theorem UnionText.legible (h : UnionText cs is) : is ≠ [] ∧ ∀ i ∈ is, i.Legible := by
  induction h with
  | last htext =>
      refine ⟨List.cons_ne_nil _ _, ?_⟩
      rw [List.forall_mem_singleton]
      exact htext.legible
  | more htext _ _ _ ih =>
      refine ⟨List.cons_ne_nil _ _, ?_⟩
      rw [List.forall_mem_cons]
      exact ⟨htext.legible, ih.2⟩

/-- A range that is found in a text has intervals, and all of them are legible. -/
theorem RangeText.legible {r : VersionRange} (h : RangeText t r) (htrims : Text.Trims cs t) :
    r.intervals ≠ [] ∧ ∀ i ∈ r.intervals, i.Legible := by
  cases h with
  | bare hne hplain =>
      refine ⟨List.cons_ne_nil _ _, ?_⟩
      rw [List.forall_mem_singleton]
      exact Interval.legible_exactly (Version.legible_of_trims hplain htrims.self hne)
  | union hunion => exact hunion.legible

/-! ## What is written -/

/-- Interval that the text of an interval stands for: equal bounds that belong to it are one version. -/
def Interval.collapse (i : Interval) : Interval :=
  match i.lower, i.upper with
  | .included l, .included u => if l == u then .exactly l else i
  | _, _ => i

theorem Bound.alike_refl (b : Bound) : b.Alike b := by
  cases b with
  | unbounded => exact .unbounded
  | included v => exact .included v.compare_self
  | excluded v => exact .excluded v.compare_self

/-- An interval is collapsed to one version, or stays as it is. -/
theorem Interval.collapse_cases (i : Interval) :
    (∃ l u, i = ⟨.included l, .included u⟩ ∧ compare l u = .eq ∧ i.collapse = .exactly l) ∨
      (∀ l u, i = ⟨.included l, .included u⟩ → compare l u ≠ .eq) ∧ i.collapse = i := by
  obtain ⟨lower, upper⟩ := i
  rw [collapse]
  split
  · rename_i l u hlower hupper
    dsimp only at hlower hupper
    subst hlower hupper
    by_cases heq : compare l u = .eq
    · exact Or.inl ⟨l, u, rfl, heq, if_pos (Version.beq_iff.2 heq)⟩
    · refine Or.inr ⟨?_, if_neg fun hbeq => heq (Version.beq_iff.1 hbeq)⟩
      rintro _ _ ⟨⟩
      exact heq
  · rename_i hnone
    refine Or.inr ⟨?_, rfl⟩
    rintro l u ⟨⟩
    exact absurd rfl (hnone l u rfl)

theorem Interval.alike_collapse (i : Interval) : i.collapse.Alike i := by
  rcases i.collapse_cases with ⟨l, u, rfl, heq, hcollapse⟩ | ⟨-, hcollapse⟩
  · rw [hcollapse]
    exact ⟨.included l.compare_self, .included heq⟩
  · rw [hcollapse]
    exact ⟨Bound.alike_refl _, Bound.alike_refl _⟩

theorem Interval.render_exactly (v : Version) :
    (Interval.exactly v).render = "[" ++ v.text ++ "]" :=
  if_pos (Version.beq_iff.2 v.compare_self)

theorem Interval.render_collapse (i : Interval) : i.collapse.render = i.render := by
  rcases i.collapse_cases with ⟨l, u, rfl, heq, hcollapse⟩ | ⟨-, hcollapse⟩
  · rw [hcollapse, render_exactly]
    exact (if_pos (Version.beq_iff.2 heq)).symm
  · rw [hcollapse]

/-- Text of the bound without a bracket. -/
def Bound.text : Bound → List Char
  | .unbounded => []
  | .included v => v.text.toList
  | .excluded v => v.text.toList

/-- Bracket that the bound is written with, of the two that a side of an interval has. -/
def Bound.bracket (square round : Char) : Bound → Char
  | .unbounded => round
  | .included _ => square
  | .excluded _ => round

theorem Bound.bracket_mem (square round : Char) (b : Bound) :
    b.bracket square round ∈ [square, round] := by
  cases b <;> simp [bracket]

/-- An interval that is not collapsed is written with both its bounds. -/
theorem Interval.toList_render (hne : ∀ l u, i = ⟨.included l, .included u⟩ → compare l u ≠ .eq) :
    i.render.toList = i.lower.bracket '[' '(' ::
      ((i.lower.text ++ ',' :: i.upper.text) ++ [i.upper.bracket ']' ')']) := by
  obtain ⟨lower, upper⟩ := i
  rw [render]
  split
  · rename_i l u hlower hupper
    dsimp only at hlower hupper
    subst hlower hupper
    rw [if_neg fun hbeq => hne l u rfl (Version.beq_iff.1 hbeq)]
    simp [Bound.bracket, Bound.text]
  · cases lower <;> cases upper <;>
      simp [render.lowerText, render.upperText, Bound.bracket, Bound.text]

theorem Bound.plain_text (h : b.Legible) : Plain b.text := by
  cases b with
  | unbounded => exact nofun
  | included v => exact (h _ rfl).plain
  | excluded v => exact (h _ rfl).plain

/-- The text of a bound stands for the bound, next to the bracket that is written. -/
theorem Bound.boundText_text (h : b.Legible) {square round : Char} (hne : round ≠ square) :
    BoundText (b.bracket square round == square) b.text b := by
  cases b with
  | unbounded => exact .unbounded ⟨⟨[], [], nofun, nofun, rfl⟩, nofun, nofun⟩
  | included v =>
      obtain ⟨-, htrims, hsome⟩ := h _ rfl
      have htext := BoundText.included htrims hsome (beq_self_eq_true square)
      rwa [String.ofList_toList, v.ofText_text] at htext
  | excluded v =>
      obtain ⟨-, htrims, hsome⟩ := h _ rfl
      have htext := BoundText.excluded htrims hsome (beq_eq_false_iff_ne.2 hne)
      rwa [String.ofList_toList, v.ofText_text] at htext

/-- The text of an interval stands for the interval with equal bounds made one. -/
theorem Interval.intervalText_render (h : i.Legible) : IntervalText i.render.toList i.collapse := by
  obtain ⟨hlower, hupper, hordered⟩ := h
  rcases i.collapse_cases with ⟨l, u, rfl, -, hcollapse⟩ | ⟨hne, hcollapse⟩
  -- the upper bound is not written, and the lower one stands for both
  · obtain ⟨hplain, htrims, hsome⟩ := hlower _ rfl
    have htext := IntervalText.exactly hplain htrims hsome
    rw [String.ofList_toList, l.ofText_text] at htext
    rw [← render_collapse, hcollapse, render_exactly]
    simpa using htext
  · rw [hcollapse, toList_render hne]
    exact .between (Bound.bracket_mem _ _ _) (Bound.bracket_mem _ _ _)
      (Bound.plain_text hlower) (Bound.plain_text hupper)
      (Bound.boundText_text hlower (by decide)) (Bound.boundText_text hupper (by decide)) hordered

/-- The texts of intervals with commas between them stand for the intervals. -/
theorem unionText_render (hne : is ≠ []) (h : ∀ i ∈ is, i.Legible) :
    UnionText (",".intercalate (is.map Interval.render)).toList (is.map Interval.collapse) := by
  induction is with
  | nil => exact absurd rfl hne
  | cons i is ih =>
      rw [List.forall_mem_cons] at h
      have hfirst := Interval.intervalText_render h.1
      cases is with
      | nil =>
          rw [List.map_singleton, List.map_singleton, String.intercalate_singleton]
          exact .last hfirst
      | cons j is =>
          have hlater := ih (List.cons_ne_nil j is) h.2
          have hblank : Text.AllBlank [] := nofun
          have htext := UnionText.more hfirst hblank hblank hlater
          rw [List.map_cons, List.map_cons, String.intercalate_cons_cons]
          simpa using htext

/-- A row of intervals ends with a closing bracket. -/
theorem UnionText.getLast? (h : UnionText cs is) : ∃ c, cs.getLast? = some c ∧ isClosing c = true := by
  induction h with
  | last htext =>
      obtain ⟨opening, closing, body, rfl, -, hclosing, -⟩ := htext.exists_body
      exact ⟨closing, List.getLast?_concat (l := opening :: body), hclosing⟩
  | more _ _ _ _ ih =>
      obtain ⟨c, hlast, hclosing⟩ := ih
      refine ⟨c, ?_, hclosing⟩
      rw [List.getLast?_append, List.getLast?_append, List.getLast?_cons, List.getLast?_append, hlast]
      rfl

/-- A row of intervals has no white space around it. -/
theorem UnionText.trims (h : UnionText cs is) : Text.Trims cs cs := by
  obtain ⟨opening, rest, rfl, hopening⟩ := h.exists_cons
  obtain ⟨closing, hlast, hclosing⟩ := h.getLast?
  refine ⟨⟨[], [], nofun, nofun, (List.append_nil _).symm⟩, ?_, ?_⟩
  · rintro c ⟨⟩
    exact isBlank_of_bracket (Or.inl hopening)
  · rw [hlast]
    rintro c ⟨⟩
    exact isBlank_of_bracket (Or.inr hclosing)

namespace VersionRange

/-- The text of a range that was read is read again, as a range with the same number of intervals, whose
bounds are of the same kinds and equal as versions, and which has the same text. -/
theorem parse_render (source : String) (r : VersionRange) (h : parse source = .ok r) :
    ∃ r', parse r.render = .ok r' ∧ (r' == r) = true ∧
      List.Forall₂ Interval.Alike r'.intervals r.intervals ∧ r'.render = r.render := by
  obtain ⟨t, htrims, htext⟩ := parse_eq_ok_iff.1 h
  obtain ⟨hne, hlegible⟩ := htext.legible htrims
  -- the text that is written stands for the intervals with equal bounds made one
  have hunion := unionText_render hne hlegible
  have halike : List.Forall₂ Interval.Alike (r.intervals.map Interval.collapse) r.intervals := by
    rw [List.forall₂_map_left_iff, List.forall₂_same]
    exact fun i _ => i.alike_collapse
  refine ⟨⟨r.intervals.map Interval.collapse⟩, ?_, ?_, halike, ?_⟩
  · exact parse_eq_ok_iff.2 ⟨_, hunion.trims, .union hunion⟩
  · exact beq_iff_alike.2 halike
  · rw [render, render, List.map_map]
    congr 2
    exact funext Interval.render_collapse

/-- Equal bounds of different texts are written once, and a side without a bound with a round bracket. -/
theorem parse_render_collapsed :
    ∃ r, parse "[1.0, 1],[,2.0)" = .ok r ∧ r.render = "[1.0],(,2.0)" ∧
      ∃ r', parse r.render = .ok r' ∧ (r' == r) = true ∧
        List.Forall₂ Interval.Alike r'.intervals r.intervals ∧ r'.render = r.render := by
  have htext : (parse "[1.0, 1],[,2.0)").toOption.map render = some "[1.0],(,2.0)" := by
    decide +kernel
  cases hread : parse "[1.0, 1],[,2.0)" with
  | error fault =>
      rw [hread] at htext
      cases htext
  | ok r =>
      rw [hread] at htext
      exact ⟨r, rfl, Option.some.inj htext, parse_render _ r hread⟩

end VersionRange

end Linkage
