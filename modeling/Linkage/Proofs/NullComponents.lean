import Linkage.Proofs.ConventionalOrder

/-!
# Components that mean nothing

Between two separators of a version there may be nothing, or zeros, or a word for the plain release.
Such components are read as null items, and the normal form takes null items off the end of a version,
whether they are in the list that holds the last component or in nested lists of their own. So they can
be written behind every version, as in `2.0-rc1.0-FINAL`, and make no difference
(`items_extend_and_compare_extend`).

- `Token.exists_scan_append`: a scan goes on after some characters as it would go on after a run;
- `Token.exists_closedBy`: tokens that a separator adds;
- `Token.normalizeAll_items_append`: tokens without a meaning leave the normal form as it is.
-/

set_option autoImplicit false

namespace Linkage.Version

/-! ## Texts -/

/-- Lowercase characters between two separators that say nothing: none at all, only zeros, or a word
for the plain release. -/
def MeansNothing (component : List Char) : Prop :=
  (∀ c ∈ component, c = '0') ∨ String.ofList component ∈ ["ga", "final", "release"]

instance (component : List Char) : Decidable (MeansNothing component) :=
  -- the quantifier goes through the component, and not through all characters there are
  @instDecidableOr _ _ (List.decidableBAll _ component) inferInstance

/-- A separator and a component that means nothing, in any case. -/
structure NullSuffix where
  hyphen : Bool
  component : List Char
  meansNothing : MeansNothing (component.map Char.toLower)

/-- Characters of the suffix. -/
def NullSuffix.chars (s : NullSuffix) : List Char :=
  (if s.hyphen then '-' else '.') :: s.component

theorem inRun_of_mem_release {word : List Char}
    (h : String.ofList word ∈ ["ga", "final", "release"]) : ∀ c ∈ word, InRun false c := by
  have hall : ∀ s ∈ ["ga", "final", "release"], ∀ c ∈ s.toList, InRun false c := by
    simp [InRun]
  have hword := hall _ h
  rwa [String.toList_ofList] at hword

/-- A component that means nothing is one run. -/
theorem exists_inRun_of_meansNothing {component : List Char} (h : MeansNothing component) :
    ∃ digit, ∀ c ∈ component, InRun digit c := by
  rcases h with hzeros | hword
  · exact ⟨true, fun c hc => hzeros c hc ▸ by decide⟩
  · exact ⟨false, inRun_of_mem_release hword⟩

/-! ## Items -/

namespace Item

theorem normalize_of_isNull {i : Item} (h : i.isNull = true) : i.normalize = i := by
  match i with
  | .number n => rfl
  | .qualifier q => rfl
  | .list [] => rfl

/-- A nested list is dropped exactly if its normal form is empty. -/
theorem normalizeAll_list (is : List Item) :
    normalizeAll [.list is] = if normalizeAll is = [] then [] else [.list (normalizeAll is)] := by
  rw [normalizeAll, normalize]
  cases normalizeAll is <;> rfl

end Item

namespace Token

/-- Tokens without any meaning: null items, and starts of nested lists. -/
def IsVoid : Token → Prop
  | .item i => i.isNull = true
  | .nest => True

theorem normalizeAll_items_of_isVoid {ts : List Token} (h : ∀ t ∈ ts, t.IsVoid) :
    Item.normalizeAll (items ts) = [] := by
  induction ts with
  | nil => rfl
  | cons t ts ih =>
      obtain ⟨ht, hts⟩ := List.forall_mem_cons.1 h
      cases t with
      | item i =>
          have hi : i.isNull = true := ht
          rw [items, Item.normalizeAll, ih hts, Item.normalize_of_isNull hi, hi]
          rfl
      | nest =>
          rw [items, Item.normalizeAll, Item.normalize, ih hts]
          rfl

/-- The normal form of what a token is followed by is all that matters to the normal form. -/
theorem normalizeAll_items_append {us : List Token} (ts : List Token) (h : ∀ u ∈ us, u.IsVoid) :
    Item.normalizeAll (items (ts ++ us)) = Item.normalizeAll (items ts) := by
  induction ts with
  | nil => exact normalizeAll_items_of_isVoid h
  | cons t ts ih =>
      cases t with
      | item i => rw [List.cons_append, items, items, Item.normalizeAll, Item.normalizeAll, ih]
      | nest => rw [List.cons_append, items, items, Item.normalizeAll_list, Item.normalizeAll_list, ih]

/-! ## Separators -/

/-- One character puts some tokens in front of what is read after it. -/
theorem exists_scan_cons (run : List Char) (c : Char) :
    ∃ ts run', (c ≠ '.' → c ≠ '-' → run'.head? = some c) ∧
      ∀ rest, scan run (c :: rest) = ts ++ scan run' rest := by
  by_cases hdot : c = '.'
  · subst hdot
    exact ⟨[.item (ofRun run.reverse false)], [], fun h => absurd rfl h, fun rest => scan_dot⟩
  by_cases hhyphen : c = '-'
  · subst hhyphen
    exact ⟨[.item (ofRun run.reverse false), .nest], [], fun _ h => absurd rfl h,
      fun rest => scan_hyphen⟩
  cases run with
  | nil => exact ⟨[], [c], fun _ _ => rfl, fun rest => by rw [scan, if_neg hdot, if_neg hhyphen]; rfl⟩
  | cons d ds =>
      by_cases hsame : (d.isDigit == c.isDigit) = true
      · refine ⟨[], c :: d :: ds, fun _ _ => rfl, fun rest => ?_⟩
        rw [scan, if_neg hdot, if_neg hhyphen]
        exact if_pos hsame
      · refine ⟨[.item (ofRun (d :: ds).reverse c.isDigit), .nest], [c], fun _ _ => rfl,
          fun rest => ?_⟩
        rw [scan, if_neg hdot, if_neg hhyphen]
        exact if_neg hsame

/-- Characters put some tokens in front of what is read after them. -/
theorem exists_scan_append (run cs : List Char) :
    ∃ ts run', ∀ rest, scan run (cs ++ rest) = ts ++ scan run' rest := by
  induction cs generalizing run with
  | nil => exact ⟨[], run, fun rest => rfl⟩
  | cons c cs ih =>
      obtain ⟨ts, run', -, hfirst⟩ := exists_scan_cons run c
      obtain ⟨us, run'', hmore⟩ := ih run'
      exact ⟨ts ++ us, run'', fun rest => by rw [List.cons_append, hfirst, hmore, List.append_assoc]⟩

/-- Tokens that a separator behind the characters adds to theirs: a zero if a component was about to
begin, and otherwise none. -/
structure ClosedBy (cs : List Char) (zeros : List Token) : Prop where
  zero : ∀ t ∈ zeros, t = .item (.number 0)
  filled : zeros = [] → ∃ ts i, scan [] cs = ts ++ [.item i]
  dot : ∀ rest, scan [] (cs ++ '.' :: rest) = scan [] cs ++ (zeros ++ scan [] rest)
  hyphen : ∀ rest, scan [] (cs ++ '-' :: rest) = scan [] cs ++ (zeros ++ .nest :: scan [] rest)

theorem exists_closedBy (cs : List Char) : ∃ zeros, ClosedBy cs zeros := by
  obtain ⟨ts, run, hscan⟩ := exists_scan_append [] cs
  have hend : scan [] cs = ts ++ scan run [] := by simpa using hscan []
  by_cases hrun : run = []
  · subst hrun
    refine ⟨[.item (.number 0)], by simp, fun h => absurd h (List.cons_ne_nil _ _), fun rest => ?_,
      fun rest => ?_⟩
    · rw [hscan, hend, scan_dot]
      simp [scan, ofRun]
    · rw [hscan, hend, scan_hyphen]
      simp [scan, ofRun]
  · -- the run makes an item in any case
    rw [scan_end hrun] at hend
    refine ⟨[], List.forall_mem_nil _, fun _ => ⟨ts, _, hend⟩, fun rest => ?_, fun rest => ?_⟩
    · rw [hscan, hend, scan_dot]
      simp
    · rw [hscan, hend, scan_hyphen]
      simp

/-! ## Runs -/

theorem foldl_decimal_eq_zero (run : List Char) (n : Nat) (hrun : ∀ c ∈ run, c.isDigit = true) :
    run.foldl (fun n d => 10 * n + (d.toNat - '0'.toNat)) n = 0 ↔ n = 0 ∧ ∀ c ∈ run, c = '0' := by
  induction run generalizing n with
  | nil => simp
  | cons c cs ih =>
      obtain ⟨hc, hcs⟩ := List.forall_mem_cons.1 hrun
      have hzero : c.toNat - '0'.toNat = 0 ↔ c = '0' := by
        have hlow := (Char.isDigit_iff_toNat.1 hc).1
        rw [← Char.toNat_inj]
        omega
      rw [List.foldl_cons, ih _ hcs, List.forall_mem_cons, Nat.add_eq_zero_iff, hzero]
      simp [and_assoc]

/-- A run is read as a null item exactly if it means nothing. -/
theorem isNull_ofRun_iff {digit : Bool} {run : List Char} (hrun : ∀ c ∈ run, InRun digit c) :
    (ofRun run false).isNull = true ↔ MeansNothing run := by
  cases run with
  | nil => exact ⟨fun _ => Or.inl (List.forall_mem_nil _), fun _ => rfl⟩
  | cons c cs =>
      cases digit with
      | true =>
          have hdigits : ∀ d ∈ c :: cs, d.isDigit = true := fun d hd => (hrun d hd).1
          have hword : String.ofList (c :: cs) ∉ ["ga", "final", "release"] := by
            intro hword
            have hletter := (inRun_of_mem_release hword c List.mem_cons_self).1
            rw [hdigits c List.mem_cons_self] at hletter
            cases hletter
          rw [ofRun, if_pos (hdigits c List.mem_cons_self), Item.isNull, beq_iff_eq, decimal,
            foldl_decimal_eq_zero _ _ hdigits, MeansNothing, or_iff_left hword, and_iff_right rfl]
      | false =>
          have hletter : c.isDigit = false := (hrun c List.mem_cons_self).1
          have hzero : ¬ ∀ d ∈ c :: cs, d = '0' := by
            intro h
            rw [h c List.mem_cons_self] at hletter
            cases hletter
          rw [ofRun, if_neg (by rw [hletter]; decide), Item.isNull, beq_iff_eq, MeansNothing,
            or_iff_right hzero]
          constructor
          · intro h
            by_contra hword
            refine Qualifier.ofWord_ne_release false hword ?_ h
            rw [ne_eq, String.ofList_eq_empty_iff]
            exact List.cons_ne_nil _ _
          · intro hword
            have hall : ∀ word ∈ ["ga", "final", "release"],
                Qualifier.ofWord word false = .release := by decide
            exact hall _ hword

/-- A component that means nothing is read as void tokens. -/
theorem isVoid_of_mem_scan {component : List Char} (h : MeansNothing component) :
    ∀ t ∈ scan [] component, t.IsVoid := by
  obtain ⟨digit, hrun⟩ := exists_inRun_of_meansNothing h
  have hscan : scan [] (component ++ []) = scan component.reverse [] := scan_run hrun
  rw [List.append_nil] at hscan
  rw [hscan]
  cases component with
  | nil => nofun
  | cons c cs =>
      rw [scan_end (by simp), List.reverse_reverse]
      exact fun t ht => List.mem_singleton.1 ht ▸ (isNull_ofRun_iff hrun).2 h

/-- A separator and a component that means nothing leave the normal form as it is. -/
theorem normalizeAll_items_scan_append (cs : List Char) {component : List Char} (hyphen : Bool)
    (h : MeansNothing component) :
    Item.normalizeAll (items (scan [] (cs ++ (if hyphen then '-' else '.') :: component))) =
      Item.normalizeAll (items (scan [] cs)) := by
  obtain ⟨zeros, hclosed⟩ := exists_closedBy cs
  have hzeros : ∀ t ∈ zeros, t.IsVoid := fun t ht => hclosed.zero t ht ▸ rfl
  have hnull := isVoid_of_mem_scan h
  cases hyphen with
  | false =>
      rw [if_neg Bool.false_ne_true, hclosed.dot]
      exact normalizeAll_items_append _ (List.forall_mem_append.2 ⟨hzeros, hnull⟩)
  | true =>
      rw [if_pos rfl, hclosed.hyphen]
      exact normalizeAll_items_append _
        (List.forall_mem_append.2 ⟨hzeros, List.forall_mem_cons.2 ⟨trivial, hnull⟩⟩)

end Token

/-! ## Texts with suffixes -/

/-- Text with suffixes behind it. -/
def extend (text : String) (suffixes : List NullSuffix) : String :=
  text ++ String.ofList (suffixes.flatMap NullSuffix.chars)

theorem normalizeAll_items_scan_suffixes (cs : List Char) (suffixes : List NullSuffix) :
    Item.normalizeAll (Token.items (Token.scan []
        (cs ++ (suffixes.flatMap NullSuffix.chars).map Char.toLower))) =
      Item.normalizeAll (Token.items (Token.scan [] cs)) := by
  induction suffixes generalizing cs with
  | nil => simp
  | cons s suffixes ih =>
      have hsep : (if s.hyphen then '-' else '.').toLower = if s.hyphen then '-' else '.' := by
        cases s.hyphen <;> rfl
      rw [List.flatMap_cons, List.map_append, ← List.append_assoc, ih, NullSuffix.chars, List.map_cons,
        hsep]
      exact Token.normalizeAll_items_scan_append cs s.hyphen s.meansNothing

theorem NullSuffix.ascii (s : NullSuffix) : ∀ c ∈ s.chars, c.toNat < 128 := by
  have hcomponent : ∀ c ∈ s.component, c.toNat < 128 := by
    refine Text.ascii_of_map_toLower fun c hc => ?_
    rcases s.meansNothing with hzeros | hword
    · rw [hzeros c hc]
      decide
    · have hall : ∀ word ∈ ["ga", "final", "release"], ∀ c ∈ word.toList, c.toNat < 128 := by
        simp
      exact hall _ hword c (by rwa [String.toList_ofList])
  refine List.forall_mem_cons.2 ⟨?_, hcomponent⟩
  cases s.hyphen <;> decide

theorem itemsOf_extend {text : String} (hascii : ∀ c ∈ text.toList, c.toNat < 128)
    (suffixes : List NullSuffix) : itemsOf (extend text suffixes) = itemsOf text := by
  have hsuffixes : ∀ c ∈ suffixes.flatMap NullSuffix.chars, c.toNat < 128 := by
    intro c hc
    obtain ⟨s, -, hs⟩ := List.mem_flatMap.1 hc
    exact s.ascii c hs
  rw [itemsOf, itemsOf, extend, String.toList_append, String.toList_ofList,
    Text.lowercaseChars_of_ascii (List.forall_mem_append.2 ⟨hascii, hsuffixes⟩),
    Text.lowercaseChars_of_ascii hascii, List.map_append]
  exact normalizeAll_items_scan_suffixes _ suffixes

/-- Components that mean nothing can be written behind every version: it keeps its items, is equal to
what it was, and compares with all other versions as before. -/
theorem items_extend_and_compare_extend {text : String} (hascii : ∀ c ∈ text.toList, c.toNat < 128)
    (suffixes : List NullSuffix) :
    (ofText (extend text suffixes)).items = (ofText text).items ∧
      compare (ofText (extend text suffixes)) (ofText text) = .eq ∧
        ∀ v : Version, compare (ofText (extend text suffixes)) v = compare (ofText text) v ∧
          compare v (ofText (extend text suffixes)) = compare v (ofText text) := by
  have hitems : (ofText (extend text suffixes)).items = (ofText text).items :=
    itemsOf_extend hascii suffixes
  refine ⟨hitems, ?_, fun v => ⟨?_, ?_⟩⟩
  · exact (congrArg (Item.compareLists · (ofText text).items) hitems).trans Std.ReflCmp.compare_self
  · exact congrArg (Item.compareLists · v.items) hitems
  · exact congrArg (Item.compareLists v.items ·) hitems

/-- Suffixes behind a version that ends in a separator. -/
theorem items_extend_releaseCandidate :
    (∀ c ∈ "1.0-rc2-".toList, c.toNat < 128) ∧
      (ofText "1.0-rc2-.00-FiNaL-0").items = (ofText "1.0-rc2-").items ∧
        compare (ofText "1.0-rc2-.00-FiNaL-0") (ofText "1.0-rc2-") = .eq ∧
          compare (ofText "1.0-rc2-.00-FiNaL-0") (ofText "1.0") =
            compare (ofText "1.0-rc2-") (ofText "1.0") := by
  have hascii : ∀ c ∈ "1.0-rc2-".toList, c.toNat < 128 := by simp
  let zeros : NullSuffix := ⟨false, "00".toList, by decide⟩
  let final : NullSuffix := ⟨true, "FiNaL".toList, by decide⟩
  let zero : NullSuffix := ⟨true, "0".toList, by decide⟩
  have hlaw := items_extend_and_compare_extend hascii [zeros, final, zero]
  have htext : extend "1.0-rc2-" [zeros, final, zero] = "1.0-rc2-.00-FiNaL-0" := by decide
  rw [htext] at hlaw
  exact ⟨hascii, hlaw.1, hlaw.2.1, (hlaw.2.2 _).1⟩

end Linkage.Version
