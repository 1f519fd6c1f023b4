import Linkage.Proofs.Fallible
import Linkage.Proofs.Pieces
import Linkage.Proofs.VersionOrder
import Linkage.Version.Range
import Mathlib.Data.List.TakeWhile

/-!
# The grammar of version ranges

A text is read as a range of versions exactly if it is built after the grammar of ranges, which this
module states without a reader, and the range that is read is the one of the grammar.

* `Text.Trims`: a text and what is left of it without the white space around it.
* `BoundText`, `IntervalText`, `UnionText`, `RangeText`: the grammar, from a bound to a range.
* `Interval.ofBody_eq_ok_iff`: what stands between two brackets.
* `VersionRange.intervalsOf_eq_ok_iff`: a row of intervals.
* `VersionRange.parse_eq_ok_iff_rangeText`: the main result.
-/

set_option autoImplicit false

namespace Linkage

open Fallible

/-! ## White space -/

namespace Text

variable {cs before after t : List Char}

/-- All characters are blank. -/
def AllBlank (cs : List Char) : Prop := ∀ c ∈ cs, isBlank c = true

/-- The second text is the first one without the white space around it. -/
structure Trims (cs t : List Char) : Prop where
  framed : ∃ before after, AllBlank before ∧ AllBlank after ∧ cs = before ++ (t ++ after)
  head : ∀ c ∈ t.head?, isBlank c = false
  last : ∀ c ∈ t.getLast?, isBlank c = false

theorem trimLeft_append (h : AllBlank before) : trimLeft (before ++ cs) = trimLeft cs :=
  List.dropWhile_append_of_pos h

/-- A text that begins with no blank stays. -/
theorem trimLeft_eq_self (h : ∀ c ∈ cs.head?, isBlank c = false) : trimLeft cs = cs := by
  cases cs with
  | nil => rfl
  | cons c cs =>
      have hc : isBlank c = false := h c rfl
      exact List.dropWhile_cons_of_neg (by rw [hc]; exact Bool.false_ne_true)

/-- What is left of a text begins with no blank. -/
theorem isBlank_head_trimLeft (cs : List Char) : ∀ c ∈ (trimLeft cs).head?, isBlank c = false := by
  intro c hc
  rw [trimLeft, ← List.find?_not_eq_head?_dropWhile] at hc
  simpa using List.find?_some hc

theorem exists_eq_append_trimLeft (cs : List Char) :
    ∃ before, AllBlank before ∧ cs = before ++ trimLeft cs :=
  ⟨cs.takeWhile isBlank, fun _ hc => List.mem_takeWhile_imp hc,
    List.takeWhile_append_dropWhile.symm⟩

theorem allBlank_reverse : AllBlank cs.reverse ↔ AllBlank cs := by
  simp only [AllBlank, List.mem_reverse]

theorem trims_trim (cs : List Char) : Trims cs (trim cs) := by
  obtain ⟨before, hbefore, hfront⟩ := exists_eq_append_trimLeft cs
  -- the end of what is left is the front of its reversal
  obtain ⟨behind, hbehind, hback⟩ := exists_eq_append_trimLeft (trimLeft cs).reverse
  have hmiddle : trimLeft cs = trim cs ++ behind.reverse := by
    rw [← List.reverse_inj, hback, trim, trimRight, trimLeft, List.reverse_append, List.reverse_reverse,
      List.reverse_reverse]
  refine ⟨⟨before, behind.reverse, hbefore, allBlank_reverse.2 hbehind, ?_⟩, fun c hc => ?_,
    fun c hc => ?_⟩
  · rw [← hmiddle, ← hfront]
  · apply isBlank_head_trimLeft cs
    rw [hmiddle, List.head?_append, hc]
    rfl
  · rw [trim, trimRight, List.getLast?_reverse] at hc
    exact isBlank_head_trimLeft _ c hc

theorem Trims.trim_eq (h : Trims cs t) : trim cs = t := by
  obtain ⟨⟨before, after, hbefore, hafter, rfl⟩, hhead, hlast⟩ := h
  rw [trim, trimLeft_append hbefore]
  cases t with
  | nil =>
      have hnone : trimLeft (after ++ []) = [] := trimLeft_append hafter
      rw [List.nil_append, ← List.append_nil after, hnone]
      rfl
  | cons c cs =>
      have hback : trimLeft (after.reverse ++ (c :: cs).reverse) = (c :: cs).reverse := by
        rw [trimLeft_append (allBlank_reverse.2 hafter), trimLeft_eq_self]
        rwa [List.head?_reverse]
      have hfront : trimLeft (c :: cs ++ after) = c :: cs ++ after := trimLeft_eq_self hhead
      rw [hfront, trimRight, List.reverse_append]
      rw [trimLeft] at hback
      rw [hback, List.reverse_reverse]

end Text

/-! ## The grammar -/

/-- Text without commas and brackets. -/
def Plain (cs : List Char) : Prop := ∀ c ∈ cs, c ∉ [',', '[', ']', '(', ')']

/-- Bound that a text stands for, next to a bracket that includes it or not. A blank text stands for no
bound, and any other one for its version, without the white space around it. -/
inductive BoundText (inclusive : Bool) : List Char → Bound → Prop
  | unbounded {cs : List Char} : Text.Trims cs [] → BoundText inclusive cs .unbounded
  | included {cs t : List Char} : Text.Trims cs t → t ≠ [] → inclusive = true →
      BoundText inclusive cs (.included (.ofText (String.ofList t)))
  | excluded {cs t : List Char} : Text.Trims cs t → t ≠ [] → inclusive = false →
      BoundText inclusive cs (.excluded (.ofText (String.ofList t)))

/-- If there are two bounds, the lower one is below the upper one, or they are equal and both of them
belong to the interval. -/
def Interval.Ordered (i : Interval) : Prop :=
  ∀ l lowerIn u upperIn, i.lower.limit? = some (l, lowerIn) → i.upper.limit? = some (u, upperIn) →
    compare l u = .lt ∨ compare l u = .eq ∧ lowerIn = true ∧ upperIn = true

/-- Interval that a text in brackets stands for: one version between square brackets, or two bounds with
a comma between them. -/
inductive IntervalText : List Char → Interval → Prop
  | exactly {body t : List Char} : Plain body → Text.Trims body t → t ≠ [] →
      IntervalText ('[' :: (body ++ [']'])) (.exactly (.ofText (String.ofList t)))
  | between {opening closing : Char} {lower upper : List Char} {l u : Bound} :
      opening ∈ ['[', '('] → closing ∈ [']', ')'] → Plain lower → Plain upper →
        BoundText (opening == '[') lower l → BoundText (closing == ']') upper u →
          Interval.Ordered ⟨l, u⟩ →
            IntervalText (opening :: ((lower ++ ',' :: upper) ++ [closing])) ⟨l, u⟩

/-- Intervals that a text stands for, with commas between them and white space around the commas. -/
inductive UnionText : List Char → List Interval → Prop
  | last {cs : List Char} {i : Interval} : IntervalText cs i → UnionText cs [i]
  | more {cs before after rest : List Char} {i : Interval} {is : List Interval} : IntervalText cs i →
      Text.AllBlank before → Text.AllBlank after → UnionText rest is →
        UnionText (cs ++ (before ++ ',' :: (after ++ rest))) (i :: is)

/-- Range that a text without white space around it stands for: a version alone, or intervals. -/
inductive RangeText : List Char → VersionRange → Prop
  | bare {t : List Char} : t ≠ [] → Plain t →
      RangeText t ⟨[.exactly (.ofText (String.ofList t))]⟩
  | union {t : List Char} {is : List Interval} : UnionText t is → RangeText t ⟨is⟩

/-! ## Between two brackets -/

variable {cs body lower upper : List Char} {opening closing c : Char} {inclusive : Bool} {b : Bound}
  {i : Interval}

theorem isOpening_iff : isOpening c = true ↔ c ∈ ['[', '('] := by
  simp [isOpening]

theorem isClosing_iff : isClosing c = true ↔ c ∈ [']', ')'] := by
  simp [isClosing]

/-- Brackets are not blank. -/
theorem isBlank_of_bracket (h : isOpening c = true ∨ isClosing c = true) : Text.isBlank c = false := by
  rw [isOpening_iff, isClosing_iff, ← List.mem_append] at h
  simp only [List.cons_append, List.nil_append, List.mem_cons, List.not_mem_nil, or_false] at h
  rcases h with rfl | rfl | rfl | rfl <;> rfl

/-- A plain text has no comma and no bracket of either kind. -/
theorem plain_iff : Plain cs ↔
    ',' ∉ cs ∧ (∀ c ∈ cs, isOpening c = false) ∧ ∀ c ∈ cs, isClosing c = false := by
  rw [← List.forall_mem_ne', ← forall₂_and, ← forall₂_and]
  refine forall₂_congr fun c _ => ?_
  simp [isOpening, isClosing, and_assoc, and_left_comm]

theorem any_eq_false_iff_plain :
    (cs.any fun c => c == ',' || isOpening c || isClosing c) = false ↔ Plain cs := by
  rw [List.any_eq_false]
  refine forall₂_congr fun c _ => ?_
  simp [isOpening, isClosing, and_assoc, and_comm, and_left_comm]

theorem boundText_iff : BoundText inclusive cs b ↔ Bound.ofText cs inclusive = b := by
  constructor
  · rintro (htrims | ⟨htrims, hne, hin⟩ | ⟨htrims, hne, hout⟩)
    · rw [Bound.ofText, htrims.trim_eq]
      rfl
    · simp only [Bound.ofText, htrims.trim_eq, List.isEmpty_eq_false_iff.2 hne, hin, if_true,
        Bool.false_eq_true, if_false]
    · simp only [Bound.ofText, htrims.trim_eq, List.isEmpty_eq_false_iff.2 hne, hout,
        Bool.false_eq_true, if_false]
  · rintro rfl
    have htrims := Text.trims_trim cs
    rw [Bound.ofText]
    cases htrim : Text.trim cs with
    | nil =>
        rw [htrim] at htrims
        exact .unbounded htrims
    | cons c t =>
        rw [htrim] at htrims
        cases inclusive with
        | true => exact .included htrims (List.cons_ne_nil _ _) rfl
        | false => exact .excluded htrims (List.cons_ne_nil _ _) rfl

theorem Interval.isInverted_eq_false_iff : i.isInverted = false ↔ i.Ordered := by
  rw [Interval.isInverted, Interval.Ordered]
  cases hlower : i.lower.limit? with
  | none => exact iff_of_true rfl nofun
  | some low =>
      cases hupper : i.upper.limit? with
      | none => exact iff_of_true rfl nofun
      | some high =>
          obtain ⟨l, lowerIn⟩ := low
          obtain ⟨u, upperIn⟩ := high
          constructor
          · intro hinverted l' lowerIn' u' upperIn' hl hu
            cases hl
            cases hu
            dsimp only at hinverted
            cases hcompare : compare l u with
            | lt => exact Or.inl rfl
            | eq =>
                rw [hcompare] at hinverted
                simpa using hinverted
            | gt =>
                rw [hcompare] at hinverted
                cases hinverted
          · intro hordered
            rcases hordered l lowerIn u upperIn rfl rfl with hlt | ⟨heq, rfl, rfl⟩
            · simp only [hlt]
            · simp only [heq, Bool.and_self, Bool.not_true]

theorem Version.compare_self (v : Version) : compare v v = .eq := by
  have hlists := Item.compare_self (.list v.items)
  rw [Item.compare] at hlists
  exact hlists

theorem Interval.ordered_exactly (v : Version) : (Interval.exactly v).Ordered := by
  rintro l lowerIn u upperIn ⟨⟩ ⟨⟩
  exact Or.inr ⟨v.compare_self, rfl, rfl⟩

/-- The last step of reading an interval refuses inverted ones, and changes nothing. -/
theorem Interval.refuseInverted_eq_ok_iff {j : Interval} :
    (do if j.isInverted then throw RangeFault.inverted
        return j : Except RangeFault Interval) = .ok i ↔ i.isInverted = false ∧ i = j := by
  split
  · rename_i hinverted
    refine iff_of_false nofun ?_
    rintro ⟨hordered, rfl⟩
    exact Bool.false_ne_true (hordered.symm.trans hinverted)
  · rename_i hordered
    rw [pure_eq_ok_iff, Bool.not_eq_true] at *
    constructor
    · rintro rfl
      exact ⟨hordered, rfl⟩
    · rintro ⟨-, rfl⟩
      rfl

/-- Reading what stands between two brackets, without the steps of its faults. -/
theorem Interval.ofBody_eq_ok_iff_cut (opening closing : Char) (body : List Char) :
    Interval.ofBody opening closing body = .ok i ↔
      (∀ c ∈ body, isOpening c = false) ∧ i.isInverted = false ∧
        ((Text.cut? ',' body = none ∧ opening = '[' ∧ closing = ']' ∧ Text.trim body ≠ [] ∧
            i = .exactly (.ofText (String.ofList (Text.trim body)))) ∨
          ∃ lower upper, Text.cut? ',' body = some (lower, upper) ∧ ',' ∉ upper ∧
            i = ⟨.ofText lower (opening == '['), .ofText upper (closing == ']')⟩) := by
  rw [Interval.ofBody]
  split
  · rename_i hnested
    refine iff_of_false nofun ?_
    rintro ⟨hopening, -, -⟩
    obtain ⟨c, hc, hopen⟩ := List.any_eq_true.1 hnested
    rw [hopening c hc] at hopen
    cases hopen
  · rename_i hnested
    have hopening : ∀ c ∈ body, isOpening c = false := by
      intro c hc
      by_contra hopen
      exact hnested (List.any_eq_true.2 ⟨c, hc, by simpa using hopen⟩)
    rw [and_iff_right hopening]
    cases hcut : Text.cut? ',' body with
    | none =>
        dsimp only
        split
        · rename_i hexact
          simp only [Bool.and_eq_true, beq_iff_eq, Bool.not_eq_true', List.isEmpty_eq_false_iff]
            at hexact
          rw [pure_bind]
          exact refuseInverted_eq_ok_iff.trans (by simp [hexact])
        · rename_i hexact
          simp only [Bool.and_eq_true, beq_iff_eq, Bool.not_eq_true', List.isEmpty_eq_false_iff]
            at hexact
          refine iff_of_false nofun ?_
          rintro ⟨-, ⟨-, hopen, hclose, hne, -⟩ | ⟨lower, upper, hsome, -⟩⟩
          · exact hexact ⟨⟨hopen, hclose⟩, hne⟩
          · cases hsome
    | some halves =>
        obtain ⟨lower, upper⟩ := halves
        dsimp only
        split
        · rename_i hmany
          refine iff_of_false nofun ?_
          rintro ⟨-, ⟨hnone, -⟩ | ⟨lower', upper', hsome, hfew, -⟩⟩
          · cases hnone
          · cases hsome
            exact hfew (List.contains_iff_mem.1 hmany)
        · rename_i hfew
          rw [List.contains_iff_mem] at hfew
          rw [pure_bind]
          refine refuseInverted_eq_ok_iff.trans (and_congr_right fun _ => ⟨fun heq => ?_, ?_⟩)
          · exact Or.inr ⟨lower, upper, rfl, hfew, heq⟩
          · rintro (⟨hnone, -⟩ | ⟨lower', upper', hsome, -, heq⟩)
            · cases hnone
            · cases hsome
              exact heq

/-- What stands between two brackets is read as an interval exactly if the text with its brackets stands
for the interval. -/
theorem Interval.ofBody_eq_ok_iff (hopening : isOpening opening = true)
    (hclosing : isClosing closing = true) (hbody : ∀ c ∈ body, isClosing c = false) :
    Interval.ofBody opening closing body = .ok i ↔ IntervalText (opening :: (body ++ [closing])) i := by
  rw [Interval.ofBody_eq_ok_iff_cut, Interval.isInverted_eq_false_iff]
  constructor
  · rintro ⟨hopen, hordered, ⟨hcut, rfl, rfl, hne, rfl⟩ | ⟨lower, upper, hcut, hupper, rfl⟩⟩
    · have hplain : Plain body := plain_iff.2 ⟨Text.cut?_eq_none_iff.1 hcut, hopen, hbody⟩
      exact .exactly hplain (Text.trims_trim body) hne
    · obtain ⟨rfl, hlower⟩ := Text.cut?_eq_some_iff.1 hcut
      rw [List.forall_mem_append, List.forall_mem_cons] at hopen hbody
      exact .between (isOpening_iff.1 hopening) (isClosing_iff.1 hclosing)
        (plain_iff.2 ⟨hlower, hopen.1, hbody.1⟩) (plain_iff.2 ⟨hupper, hopen.2.2, hbody.2.2⟩)
        (boundText_iff.2 rfl) (boundText_iff.2 rfl) hordered
  · intro htext
    generalize hcs : opening :: (body ++ [closing]) = cs at htext
    cases htext with
    | @exactly body' t hplain htrims hne =>
        obtain ⟨rfl, hbody'⟩ := List.cons.inj hcs
        obtain ⟨rfl, hclose⟩ := List.append_inj' hbody' rfl
        cases hclose
        obtain ⟨hcomma, hopen, -⟩ := plain_iff.1 hplain
        obtain rfl := htrims.trim_eq
        exact ⟨hopen, Interval.ordered_exactly _,
          Or.inl ⟨Text.cut?_eq_none_iff.2 hcomma, rfl, rfl, hne, rfl⟩⟩
    | @between opening' closing' lower upper l u hopening' hclosing' hlower hupper hl hu hordered =>
        obtain ⟨rfl, hbody'⟩ := List.cons.inj hcs
        obtain ⟨rfl, hclose⟩ := List.append_inj' hbody' rfl
        cases hclose
        obtain ⟨hlowerComma, hlowerOpen, -⟩ := plain_iff.1 hlower
        obtain ⟨hupperComma, hupperOpen, -⟩ := plain_iff.1 hupper
        refine ⟨?_, hordered, Or.inr ⟨lower, upper, Text.cut?_eq_some_iff.2 ⟨rfl, hlowerComma⟩,
          hupperComma, ?_⟩⟩
        · rw [List.forall_mem_append, List.forall_mem_cons]
          exact ⟨hlowerOpen, rfl, hupperOpen⟩
        · rw [boundText_iff.1 hl, boundText_iff.1 hu]

/-! ## Rows of intervals -/

variable {is : List Interval}

/-- The text of an interval begins with an opening bracket and ends with the first closing one. -/
theorem IntervalText.exists_body (h : IntervalText cs i) : ∃ opening closing body,
    cs = opening :: (body ++ [closing]) ∧ isOpening opening = true ∧ isClosing closing = true ∧
      ∀ c ∈ body, isClosing c = false := by
  cases h with
  | exactly hplain _ _ => exact ⟨'[', ']', _, rfl, rfl, rfl, (plain_iff.1 hplain).2.2⟩
  | @between opening closing lower upper _ _ hopening hclosing hlower hupper _ _ _ =>
      refine ⟨opening, closing, _, rfl, isOpening_iff.2 hopening, isClosing_iff.2 hclosing, ?_⟩
      rw [List.forall_mem_append, List.forall_mem_cons]
      exact ⟨(plain_iff.1 hlower).2.2, rfl, (plain_iff.1 hupper).2.2⟩

theorem UnionText.exists_cons (h : UnionText cs is) :
    ∃ opening rest, cs = opening :: rest ∧ isOpening opening = true := by
  cases h with
  | last htext =>
      obtain ⟨opening, closing, body, rfl, hopening, -⟩ := htext.exists_body
      exact ⟨opening, _, rfl, hopening⟩
  | more htext _ _ _ =>
      obtain ⟨opening, closing, body, rfl, hopening, -⟩ := htext.exists_body
      exact ⟨opening, _, rfl, hopening⟩

namespace VersionRange

/-- The text between brackets ends at the first closing one. -/
theorem closing_split (hclosing : isClosing closing = true) (hbody : ∀ c ∈ body, isClosing c = false)
    (after : List Char) :
    (body ++ closing :: after).dropWhile (!isClosing ·) = closing :: after ∧
      (body ++ closing :: after).takeWhile (!isClosing ·) = body := by
  have hpass : ∀ c ∈ body, (!isClosing c) = true := fun c hc => by rw [hbody c hc]; rfl
  have hstop : ¬ (!isClosing closing) = true := by rw [hclosing]; decide
  constructor
  · rw [List.dropWhile_append_of_pos hpass, List.dropWhile_cons_of_neg (p := (!isClosing ·)) hstop]
  · rw [List.takeWhile_append_of_pos hpass, List.takeWhile_cons_of_neg (p := (!isClosing ·)) hstop,
      List.append_nil]

/-- One interval is read, and then what comes after it. -/
theorem intervalsOf_append (htext : IntervalText cs i) (after : List Char) :
    intervalsOf (cs ++ after) =
      match Text.trimLeft after with
      | [] => .ok [i]
      | c :: more =>
          if c = ',' then (intervalsOf (Text.trimLeft more)).map (i :: ·) else .error .noComma := by
  obtain ⟨opening, closing, body, rfl, hopening, hclosing, hbody⟩ := htext.exists_body
  obtain ⟨hdrop, htake⟩ := closing_split hclosing hbody after
  have hread := (Interval.ofBody_eq_ok_iff hopening hclosing hbody).2 htext
  have hcs : opening :: (body ++ [closing]) ++ after = opening :: (body ++ closing :: after) := by
    simp
  rw [hcs, intervalsOf, hopening]
  simp only [Bool.not_true, Bool.false_eq_true, if_false]
  split
  · rename_i hnil
    rw [hdrop] at hnil
    cases hnil
  · rename_i closing' after' hcons
    rw [hdrop] at hcons
    cases hcons
    rw [htake, hread]
    dsimp only
    split
    · rename_i hend
      rw [hend]
    · rename_i c more hmore
      rw [hmore]

/-- A text that stands for intervals is read as these. -/
theorem intervalsOf_of_unionText (h : UnionText cs is) : intervalsOf cs = .ok is := by
  induction h with
  | last htext =>
      have hread := intervalsOf_append htext []
      rwa [List.append_nil] at hread
  | @more cs before after rest i is htext hbefore hafter hrest ih =>
      obtain ⟨opening, behind, rfl, hopening⟩ := hrest.exists_cons
      -- white space is skipped up to the comma, and behind it up to the next bracket
      have hcomma : Text.trimLeft (before ++ ',' :: (after ++ opening :: behind)) =
          ',' :: (after ++ opening :: behind) := by
        rw [Text.trimLeft_append hbefore]
        rfl
      have hopen : Text.trimLeft (after ++ opening :: behind) = opening :: behind := by
        rw [Text.trimLeft_append hafter]
        apply Text.trimLeft_eq_self
        rintro c ⟨⟩
        exact isBlank_of_bracket (Or.inl hopening)
      rw [intervalsOf_append htext, hcomma]
      dsimp only
      rw [if_pos rfl, hopen, ih]
      rfl

/-- What is read as an interval up to the first closing bracket is the text of that interval. -/
theorem exists_intervalText_of_ofBody {after : List Char} (hopening : isOpening opening = true)
    (hdrop : cs.dropWhile (!isClosing ·) = closing :: after)
    (hread : Interval.ofBody opening closing (cs.takeWhile (!isClosing ·)) = .ok i) :
    ∃ text, opening :: cs = text ++ after ∧ IntervalText text i := by
  have hhead := List.find?_not_eq_head?_dropWhile (!isClosing ·) cs
  rw [hdrop] at hhead
  have hclosing : isClosing closing = true := by simpa using List.find?_some hhead
  have hbody : ∀ c ∈ cs.takeWhile (!isClosing ·), isClosing c = false := by
    intro c hc
    simpa using List.mem_takeWhile_imp hc
  refine ⟨_, ?_, (Interval.ofBody_eq_ok_iff hopening hclosing hbody).1 hread⟩
  have hsplit := List.takeWhile_append_dropWhile (p := (!isClosing ·)) (l := cs)
  rw [hdrop] at hsplit
  simp [hsplit]

/-- A text that is read as intervals stands for them, up to white space at its end. -/
theorem exists_unionText_of_intervalsOf (h : intervalsOf cs = .ok is) :
    ∃ text after, cs = text ++ after ∧ Text.AllBlank after ∧ UnionText text is := by
  -- along the intervals that are read; the cases that are closed at once are faults
  fun_induction intervalsOf cs generalizing is with
  | case1 | case2 | case3 | case4 | case7 => cases h
  | case5 opening cs hopening closing after hdrop i hread hend =>
      rw [Bool.not_eq_true, Bool.not_eq_false'] at hopening
      obtain ⟨text, htext, hinterval⟩ := exists_intervalText_of_ofBody hopening hdrop hread
      cases h
      -- nothing but white space comes after the last interval
      refine ⟨text, after, htext, ?_, .last hinterval⟩
      exact List.dropWhile_eq_nil_iff.1 hend
  | case6 opening cs hopening closing after hdrop i hread more hcomma ih =>
      rw [Bool.not_eq_true, Bool.not_eq_false'] at hopening
      obtain ⟨text, htext, hinterval⟩ := exists_intervalText_of_ofBody hopening hdrop hread
      cases hrest : intervalsOf (Text.trimLeft more) with
      | error fault =>
          rw [hrest] at h
          cases h
      | ok later =>
          rw [hrest] at h
          cases h
          obtain ⟨rest, behind, hbehind, hblank, hunion⟩ := ih hrest
          -- the white space on both sides of the comma
          obtain ⟨before, hbefore, hfront⟩ := Text.exists_eq_append_trimLeft after
          obtain ⟨between, hbetween, hmore⟩ := Text.exists_eq_append_trimLeft more
          refine ⟨_, behind, ?_, hblank, .more hinterval hbefore hbetween hunion⟩
          rw [htext, hfront, hcomma, hmore, hbehind]
          simp

/-- A text that does not end in white space is read as the intervals that it stands for. -/
theorem intervalsOf_eq_ok_iff (hlast : ∀ c ∈ cs.getLast?, Text.isBlank c = false) :
    intervalsOf cs = .ok is ↔ UnionText cs is := by
  refine ⟨fun hread => ?_, intervalsOf_of_unionText⟩
  obtain ⟨text, after, rfl, hblank, hunion⟩ := exists_unionText_of_intervalsOf hread
  by_cases hnone : after = []
  · rwa [hnone, List.append_nil]
  · have hend : (text ++ after).getLast? = some (after.getLast hnone) := by
      rw [List.getLast?_append_of_ne_nil _ hnone, List.getLast?_eq_some_getLast hnone]
    have hfull := hlast _ hend
    rw [hblank _ (List.getLast_mem hnone)] at hfull
    cases hfull

/-- A text with no white space around it is read as the range that it stands for. -/
theorem ofTrimmed_eq_ok_iff (hlast : ∀ c ∈ cs.getLast?, Text.isBlank c = false) (r : VersionRange) :
    ofTrimmed cs = .ok r ↔ RangeText cs r := by
  cases cs with
  | nil =>
      refine iff_of_false nofun ?_
      rintro (⟨hne, -⟩ | hunion)
      · exact hne rfl
      · obtain ⟨opening, rest, hcons, -⟩ := hunion.exists_cons
        cases hcons
  | cons c cs =>
      rw [ofTrimmed]
      by_cases hopening : isOpening c = true
      · rw [if_pos hopening]
        constructor
        · intro h
          cases hread : intervalsOf (c :: cs) with
          | error fault =>
              rw [hread] at h
              cases h
          | ok is =>
              rw [hread] at h
              cases h
              exact .union ((intervalsOf_eq_ok_iff hlast).1 hread)
        · intro htext
          cases htext with
          | bare _ hplain =>
              rw [(plain_iff.1 hplain).2.1 c List.mem_cons_self] at hopening
              cases hopening
          | union hunion =>
              rw [intervalsOf_of_unionText hunion]
              rfl
      · rw [if_neg hopening]
        have hplain : ((c :: cs).any fun d => d == ',' || isOpening d || isClosing d) = false ↔
            Plain (c :: cs) := any_eq_false_iff_plain
        constructor
        · intro h
          split at h
          · cases h
          · rename_i hnone
            cases h
            exact .bare (List.cons_ne_nil c cs) (hplain.1 (Bool.not_eq_true _ ▸ hnone))
        · intro htext
          cases htext with
          | bare _ hbare =>
              rw [hplain.2 hbare]
              rfl
          | union hunion =>
              obtain ⟨opening, rest, hcons, hopen⟩ := hunion.exists_cons
              cases hcons
              exact absurd hopen hopening

/-- A text is read as a range exactly if it stands for that range without the white space around it. -/
theorem parse_eq_ok_iff {source : String} {r : VersionRange} :
    parse source = .ok r ↔ ∃ t, Text.Trims source.toList t ∧ RangeText t r := by
  have htrims := Text.trims_trim source.toList
  rw [parse, mapError_eq_ok_iff, ofTrimmed_eq_ok_iff htrims.last]
  constructor
  · exact fun htext => ⟨_, htrims, htext⟩
  · rintro ⟨t, ht, htext⟩
    rwa [ht.trim_eq]

/-- The texts of ranges are those of the grammar: they are read as the ranges that they stand for, and any
other text is refused as no range. -/
theorem parse_eq_ok_iff_rangeText (source : String) :
    (∀ r, parse source = .ok r ↔ ∃ t, Text.Trims source.toList t ∧ RangeText t r) ∧
      ((∃ r, parse source = .ok r) ∨ ∃ fault, parse source = .error ⟨source, fault⟩) := by
  refine ⟨fun r => parse_eq_ok_iff, ?_⟩
  rw [parse]
  cases ofTrimmed (Text.trim source.toList) with
  | ok r => exact Or.inl ⟨r, rfl⟩
  | error fault => exact Or.inr ⟨fault, rfl⟩

end VersionRange

end Linkage
