import Linkage.Proofs.HollowLists

/-!
# Further components

With one more number written behind it, as `1.0.1` is to `1.0`, a version becomes newer, or it stays
equal to what it was: the number goes into the last nested list, and if nothing else in that list means
anything, the list as a whole is missing from the shorter version and is compared by its first item
alone (`compare_further_iff`). So `1-0` and `1-0.1` are equal (`compare_further_zero`).

- `Item.compareLists_normalizeAll_append`: a further number makes a list without nested lists greater;
- `Token.compareLists_normalizeAll_nest`: what stands in front of the last nested list does not matter;
- `Token.compareLists_of_not_hollow` and `Token.compareLists_of_hollow`: the two cases.
-/

set_option autoImplicit false

namespace Linkage.Version

namespace Item

/-! ## Null items -/

theorem compareNull_of_isNull {i : Item} (h : i.isNull = true) : i.compareNull = .eq := by
  match i with
  | .number n => rw [show n = 0 from beq_iff_eq.1 h]; rfl
  | .qualifier q => rw [show q = .release from beq_iff_eq.1 h]; rfl
  | .list [] => rfl

theorem compareNulls_append {ns : List Item} (hns : ∀ i ∈ ns, i.isNull = true) (is : List Item) :
    compareNulls (ns ++ is) = compareNulls is := by
  induction ns with
  | nil => rfl
  | cons i ns ih =>
      obtain ⟨hi, hns⟩ := List.forall_mem_cons.1 hns
      rw [List.cons_append, compareNulls, compareNull_of_isNull hi, ih hns]
      rfl

/-- What a list goes on with after the end of the other one is compared with that end. -/
theorem compareLists_append (is js : List Item) :
    compareLists is (is ++ js) = (compareNulls js).swap := by
  induction is with
  | nil => rfl
  | cons i is ih => rw [List.cons_append, compareLists_cons_self, ih]

/-! ## Normal forms of items without nested lists -/

section Flat

variable {i : Item} {is : List Item}

theorem normalizeAll_cons (hi : i.isList = false) (is : List Item) :
    normalizeAll (i :: is) =
      if i.isNull && (normalizeAll is).all isList then normalizeAll is else i :: normalizeAll is := by
  cases i with
  | list items => cases hi
  | number n => rfl
  | qualifier q => rfl

/-- The normal form is what is left when null items are taken off the end. -/
theorem exists_eq_normalizeAll_append (his : ∀ i ∈ is, i.isList = false) :
    ∃ nulls, is = normalizeAll is ++ nulls ∧ ∀ i ∈ nulls, i.isNull = true := by
  induction is with
  | nil => exact ⟨[], rfl, nofun⟩
  | cons i is ih =>
      obtain ⟨hi, his⟩ := List.forall_mem_cons.1 his
      obtain ⟨nulls, hnulls, hnull⟩ := ih his
      rw [normalizeAll_cons hi]
      split
      · rename_i hdrop
        rw [Bool.and_eq_true] at hdrop
        -- there is no list among the items, so none of them is left
        have hnone : normalizeAll is = [] := by
          refine List.eq_nil_iff_forall_not_mem.2 fun j hj => ?_
          have hlist := List.all_eq_true.1 hdrop.2 j hj
          rw [his j (hnulls ▸ List.mem_append_left nulls hj)] at hlist
          cases hlist
        refine ⟨i :: nulls, ?_, List.forall_mem_cons.2 ⟨hdrop.1, hnull⟩⟩
        rw [hnone] at hnulls ⊢
        rw [hnulls]
        rfl
      · exact ⟨nulls, by rw [List.cons_append, ← hnulls], hnull⟩

/-- Nothing is taken off a number that is not zero. -/
theorem normalizeAll_append_number {n : Nat} (his : ∀ i ∈ is, i.isList = false) (hn : n ≠ 0) :
    normalizeAll (is ++ [.number n]) = is ++ [.number n] := by
  induction is with
  | nil => simp [normalizeAll, normalize, isNull, hn]
  | cons i is ih =>
      obtain ⟨hi, his⟩ := List.forall_mem_cons.1 his
      have hnumber : (is ++ [Item.number n]).all isList = false := by simp [isList]
      rw [List.cons_append, normalizeAll_cons hi, ih his, hnumber, Bool.and_false]
      rfl

/-- A further number makes a list greater. -/
theorem compareLists_normalizeAll_append {n : Nat} {zeros : List Item}
    (his : ∀ i ∈ is, i.isList = false) (hzeros : ∀ i ∈ zeros, i = .number 0) (hn : n ≠ 0) :
    compareLists (normalizeAll is) (normalizeAll (is ++ (zeros ++ [.number n]))) = .lt := by
  obtain ⟨nulls, hnulls, hnull⟩ := exists_eq_normalizeAll_append his
  have hflat : ∀ i ∈ is ++ zeros, i.isList = false :=
    List.forall_mem_append.2 ⟨his, fun i hi => hzeros i hi ▸ rfl⟩
  have hnull' : ∀ i ∈ nulls ++ zeros, i.isNull = true :=
    List.forall_mem_append.2 ⟨hnull, fun i hi => hzeros i hi ▸ rfl⟩
  have hpositive : (Ord.compare n 0).swap = .lt := by
    rw [Nat.compare_swap]
    exact Nat.compare_eq_lt.2 (Nat.pos_of_ne_zero hn)
  calc compareLists (normalizeAll is) (normalizeAll (is ++ (zeros ++ [.number n])))
      = compareLists (normalizeAll is) (normalizeAll is ++ ((nulls ++ zeros) ++ [.number n])) := by
        rw [← List.append_assoc, normalizeAll_append_number hflat hn,
          ← List.append_assoc (normalizeAll is), ← List.append_assoc (normalizeAll is), ← hnulls]
    _ = (compareNulls [.number n]).swap := by rw [compareLists_append, compareNulls_append hnull']
    _ = .lt := by rw [compareNulls, compareNull, compareNulls, Ordering.then_eq, hpositive]

end Flat

theorem all_isList_normalizeAll_list (is : List Item) :
    (normalizeAll [.list is]).all isList = true := by
  rw [normalizeAll_list]
  split <;> rfl

end Item

namespace Token

/-! ## What is in front of a nested list -/

section Nested

variable {us vs : List Token}

/-- Whether only nested lists are left of the items does not depend on what is in the nested list. -/
theorem all_isList_normalizeAll_nest (us vs : List Token) {front : List Token}
    (hfront : ∀ t ∈ front, t.IsPlain) :
    (Item.normalizeAll (items (front ++ nest :: us))).all Item.isList =
      (Item.normalizeAll (items (front ++ nest :: vs))).all Item.isList := by
  induction front with
  | nil => exact (Item.all_isList_normalizeAll_list _).trans (Item.all_isList_normalizeAll_list _).symm
  | cons t front ih =>
      obtain ⟨ht, hrest⟩ := List.forall_mem_cons.1 hfront
      cases t with
      | nest => exact (Item.all_isList_normalizeAll_list _).trans (Item.all_isList_normalizeAll_list _).symm
      | item i =>
          have hi : i.isList = false := ht
          rw [List.cons_append, List.cons_append, items, items, Item.normalizeAll_cons hi,
            Item.normalizeAll_cons hi, ih hrest]
          split
          · exact ih hrest
          · rw [List.all_cons, List.all_cons, hi]
            rfl

theorem normalizeAll_items_ne_nil (hvs : Item.normalizeAll (items vs) ≠ []) (front : List Token) :
    Item.normalizeAll (items (front ++ vs)) ≠ [] := by
  induction front with
  | nil => exact hvs
  | cons t front ih =>
      cases t with
      | nest =>
          rw [List.cons_append, items, Item.normalizeAll_list, if_neg ih]
          exact List.cons_ne_nil _ _
      | item i =>
          rw [List.cons_append, items, Item.normalizeAll]
          split
          · exact ih
          · exact List.cons_ne_nil _ _

/-- A list without an end of its own is compared with the end as if it were not nested. -/
theorem compareNull_list_normalizeAll {is : List Item} (hlast : Item.AllNestLast is)
    (hlists : (Item.normalizeAll is).all Item.isList = true) :
    (Item.list (Item.normalizeAll is)).compareNull = Item.compareNulls (Item.normalizeAll is) := by
  have hnormal := Item.allNestLast_normalizeAll is hlast
  cases his : Item.normalizeAll is with
  | nil => rfl
  | cons i more =>
      rw [his] at hnormal hlists
      rw [List.all_cons, Bool.and_eq_true] at hlists
      obtain rfl := hnormal.1 hlists.1
      exact Ordering.then_eq.symm

/-- Behind a common front, the comparison is the one of the nested lists. -/
theorem compareLists_normalizeAll_nest {front : List Token} (hfront : ∀ t ∈ front, t.IsPlain)
    (hplain : ∀ v ∈ vs, v.IsPlain) (hvs : Item.normalizeAll (items vs) ≠ []) :
    Item.compareLists (Item.normalizeAll (items (front ++ nest :: us)))
        (Item.normalizeAll (items (front ++ nest :: vs))) =
      Item.compareLists (Item.normalizeAll [.list (items us)]) (Item.normalizeAll [.list (items vs)]) := by
  induction front with
  | nil => rfl
  | cons t front ih =>
      obtain ⟨ht, hrest⟩ := List.forall_mem_cons.1 hfront
      cases t with
      | item i =>
          -- the item is dropped from both lists or from none
          have hi : i.isList = false := ht
          rw [List.cons_append, List.cons_append, items, items, Item.normalizeAll_cons hi,
            Item.normalizeAll_cons hi, all_isList_normalizeAll_nest us vs hrest, ← ih hrest]
          split
          · rfl
          · exact Item.compareLists_cons_self i _ _
      | nest =>
          have hnest : Item.normalizeAll (items (nest :: vs)) ≠ [] := by
            rw [items, Item.normalizeAll_list, if_neg hvs]
            exact List.cons_ne_nil _ _
          have hright := normalizeAll_items_ne_nil hnest front
          rw [List.cons_append, List.cons_append, items, items, Item.normalizeAll_list,
            Item.normalizeAll_list (items (front ++ nest :: vs)), if_neg hright, ← ih hrest]
          split
          · rename_i hleft
            -- nothing is left of the one nested list, and nothing but lists of the other one
            have hlists := all_isList_normalizeAll_nest us vs hrest
            rw [hleft] at hlists
            have hall : ∀ t ∈ front ++ nest :: vs, t.IsPlain :=
              List.forall_mem_append.2 ⟨hrest, List.forall_mem_cons.2 ⟨trivial, hplain⟩⟩
            rw [hleft, Item.nil_compareLists, Item.nil_compareLists, Item.compareNulls,
              compareNull_list_normalizeAll (allNestLast_items hall) hlists.symm, Item.compareNulls,
              Ordering.then_eq]
          · exact Item.compareLists_singleton _ _

end Nested

/-! ## The last nested list -/

theorem exists_eq_map_of_isNullItem {ts : List Token} (h : ∀ t ∈ ts, t.IsNullItem) :
    ∃ is : List Item, ts = is.map item ∧ ∀ i ∈ is, i.isNull = true := by
  induction ts with
  | nil => exact ⟨[], rfl, nofun⟩
  | cons t ts ih =>
      obtain ⟨⟨i, rfl, hi⟩, hrest⟩ := List.forall_mem_cons.1 h
      obtain ⟨is, rfl, his⟩ := ih hrest
      exact ⟨i :: is, rfl, List.forall_mem_cons.2 ⟨hi, his⟩⟩

theorem items_map_append (is : List Item) (us : List Token) :
    items (is.map item ++ us) = is ++ items us := by
  induction is with
  | nil => rfl
  | cons i is ih => rw [List.map_cons, List.cons_append, items, ih, List.cons_append]

theorem items_map (is : List Item) : items (is.map item) = is := by
  have hitems := items_map_append is []
  rwa [List.append_nil, items, List.append_nil] at hitems

/-- Tokens end in the items of the innermost list. -/
theorem exists_innermost {ts : List Token} (hts : ∀ t ∈ ts, t.IsPlain) :
    ∃ is : List Item, (∀ i ∈ is, i.isList = false) ∧
      (ts = is.map item ∨ ∃ front, ts = front ++ nest :: is.map item) := by
  induction ts with
  | nil => exact ⟨[], nofun, Or.inl rfl⟩
  | cons t ts ih =>
      obtain ⟨ht, hrest⟩ := List.forall_mem_cons.1 hts
      obtain ⟨is, his, rfl | ⟨front, rfl⟩⟩ := ih hrest
      · cases t with
        | nest => exact ⟨is, his, Or.inr ⟨[], rfl⟩⟩
        | item i => exact ⟨i :: is, List.forall_mem_cons.2 ⟨ht, his⟩, Or.inl rfl⟩
      · exact ⟨is, his, Or.inr ⟨t :: front, rfl⟩⟩

section Further

variable {ts zeros : List Token} {n : Nat}

/-- Items of a list with a further number. -/
theorem items_further (is : List Item) (hzeros : ∀ t ∈ zeros, t = item (.number 0)) :
    items (is.map item ++ (zeros ++ [item (.number n)])) =
      is ++ (List.replicate zeros.length (Item.number 0) ++ [Item.number n]) := by
  have hmap : zeros = (List.replicate zeros.length (Item.number 0)).map item := by
    rw [List.map_replicate]
    exact List.eq_replicate_iff.2 ⟨rfl, hzeros⟩
  conv => lhs; rw [hmap]
  rw [items_map_append, items_map_append]
  rfl

theorem normalizeAll_items_further (is : List Item) (his : ∀ i ∈ is, i.isList = false)
    (hzeros : ∀ t ∈ zeros, t = item (.number 0)) (hn : n ≠ 0) :
    Item.normalizeAll (items (is.map item ++ (zeros ++ [item (.number n)]))) =
      is ++ (List.replicate zeros.length (Item.number 0) ++ [Item.number n]) := by
  have hflat : ∀ i ∈ is ++ List.replicate zeros.length (Item.number 0), i.isList = false :=
    List.forall_mem_append.2 ⟨his, fun i hi => List.eq_of_mem_replicate hi ▸ rfl⟩
  rw [items_further is hzeros, ← List.append_assoc, Item.normalizeAll_append_number hflat hn]

/-- With a further number, the comparison is the one of the last nested lists. -/
theorem compareLists_further {front : List Token} {is : List Item} (hfront : ∀ t ∈ front, t.IsPlain)
    (his : ∀ i ∈ is, i.isList = false) (hzeros : ∀ t ∈ zeros, t = item (.number 0)) (hn : n ≠ 0) :
    Item.compareLists (Item.normalizeAll (items (front ++ nest :: is.map item)))
        (Item.normalizeAll (items (front ++ nest :: is.map item ++ (zeros ++ [item (.number n)])))) =
      Item.compareLists (Item.normalizeAll [Item.list is])
        [Item.list (is ++ (List.replicate zeros.length (Item.number 0) ++ [Item.number n]))] := by
  have hnormal := normalizeAll_items_further is his hzeros hn
  have hplain : ∀ t ∈ is.map item ++ (zeros ++ [item (.number n)]), t.IsPlain := by
    refine List.forall_mem_append.2 ⟨List.forall_mem_map.2 his, List.forall_mem_append.2 ⟨?_, ?_⟩⟩
    · exact fun t ht => hzeros t ht ▸ rfl
    · exact fun t ht => List.mem_singleton.1 ht ▸ rfl
  have hne : Item.normalizeAll (items (is.map item ++ (zeros ++ [item (.number n)]))) ≠ [] := by
    rw [hnormal]
    simp
  rw [List.append_assoc, List.cons_append, compareLists_normalizeAll_nest hfront hplain hne, items_map,
    Item.normalizeAll_list (items _), if_neg hne, hnormal]

/-- A further number makes a version newer if something in its last list means anything. -/
theorem compareLists_of_not_hollow (hts : ∀ t ∈ ts, t.IsPlain)
    (hzeros : ∀ t ∈ zeros, t = item (.number 0)) (hn : n ≠ 0) (hhollow : ¬ Hollow ts) :
    Item.compareLists (Item.normalizeAll (items ts))
      (Item.normalizeAll (items (ts ++ (zeros ++ [item (.number n)])))) = .lt := by
  obtain ⟨is, his, hlast⟩ := exists_innermost hts
  have hnumbers : ∀ i ∈ List.replicate zeros.length (Item.number 0), i = .number 0 :=
    fun i hi => List.eq_of_mem_replicate hi
  have hmore := Item.compareLists_normalizeAll_append his hnumbers hn
  rcases hlast with rfl | ⟨front, rfl⟩
  · rw [items_map, items_further is hzeros]
    exact hmore
  · have hmeans : Item.normalizeAll is ≠ [] := by
      intro hnone
      obtain ⟨nulls, hnulls, hnull⟩ := Item.exists_eq_normalizeAll_append his
      rw [hnone, List.nil_append] at hnulls
      exact hhollow ⟨front, is.map item, rfl,
        List.forall_mem_map.2 fun i hi => ⟨i, rfl, hnull i (hnulls ▸ hi)⟩⟩
    rw [← items_further is hzeros, normalizeAll_items_further is his hzeros hn] at hmore
    rw [compareLists_further (List.forall_mem_append.1 hts).1 his hzeros hn, Item.normalizeAll_list,
      if_neg hmeans, Item.compareLists_singleton, hmore]

/-- A further number does not reach the comparison if the last nested list is hollow: that list as a
whole is missing from the shorter version, and its first item is null. -/
theorem compareLists_of_hollow (hts : ∀ t ∈ ts, t.IsPlain)
    (hzeros : ∀ t ∈ zeros, t = item (.number 0))
    (hfilled : zeros = [] → ∃ front i, ts = front ++ [item i]) (hn : n ≠ 0) (hhollow : Hollow ts) :
    Item.compareLists (Item.normalizeAll (items ts))
      (Item.normalizeAll (items (ts ++ (zeros ++ [item (.number n)])))) = .eq := by
  obtain ⟨front, inner, rfl, hinner⟩ := hhollow
  obtain ⟨is, rfl, hnull⟩ := exists_eq_map_of_isNullItem hinner
  obtain ⟨hfront, hnest⟩ := List.forall_mem_append.1 hts
  have his : ∀ i ∈ is, i.isList = false :=
    fun i hi => hnest (.item i) (List.mem_cons_of_mem _ (List.mem_map_of_mem hi))
  have hnone : Item.normalizeAll is = [] := by
    rw [← items_map is]
    exact normalizeAll_items_of_isVoid (List.forall_mem_map.2 hnull)
  rw [compareLists_further hfront his hzeros hn, Item.normalizeAll_list, if_pos hnone,
    Item.nil_compareLists, Item.compareNulls, Item.compareNulls, Ordering.then_eq]
  -- the list begins with an item of its own, or with the zero that the dot adds
  cases is with
  | cons i is => exact congrArg Ordering.swap (Item.compareNull_of_isNull (hnull i List.mem_cons_self))
  | nil =>
      cases zeros with
      | cons zero zeros => rfl
      | nil =>
          obtain ⟨before, i, hend⟩ := hfilled rfl
          have hlast := List.append_inj_right' hend rfl
          cases hlast

end Further

end Token

/-! ## Versions -/

/-- Text with one more number behind it. -/
def further (text : String) (n : Numeral) : String := text ++ String.ofList ('.' :: n.digits)

theorem isCased_of_isDigit {c : Char} (h : c.isDigit = true) : Text.isCased c = false :=
  Text.of_ascii (p := fun c => c.isDigit = true → Text.isCased c = false) (by decide +kernel)
    (toNat_lt_of_isDigit h) h

/-- The text in front of a further number keeps its lowercase. -/
theorem lowercaseChars_further (text : String) (n : Numeral) :
    Text.lowercaseChars (further text n).toList =
      Text.lowercaseChars text.toList ++ '.' :: n.digits := by
  have hascii : ∀ c ∈ '.' :: n.digits, c.toNat < 128 :=
    List.forall_mem_cons.2 ⟨by decide, n.ascii⟩
  have hcased : ∀ c ∈ '.' :: n.digits, Text.isCased c = false :=
    List.forall_mem_cons.2 ⟨by decide +kernel, fun c hc => isCased_of_isDigit (n.isDigit c hc)⟩
  rw [further, String.toList_append, String.toList_ofList, Text.lowercaseChars_append _ hascii hcased,
    List.map_cons, n.map_toLower]
  rfl

/-- Items of a text with one more number behind it. -/
theorem exists_itemsOf_further (text : String) (n : Numeral) :
    ∃ zeros, Token.ClosedBy (Text.lowercaseChars text.toList) zeros ∧
      itemsOf (further text n) = Item.normalizeAll (Token.items
        (Token.scan [] (Text.lowercaseChars text.toList) ++ (zeros ++ [.item (.number n.value)]))) := by
  obtain ⟨zeros, hclosed⟩ := Token.exists_closedBy (Text.lowercaseChars text.toList)
  have hdigits : Token.scan [] n.digits = [.item (.number n.value)] := by
    have hrun : Token.scan [] (n.digits ++ []) = Token.scan n.digits.reverse [] :=
      Token.scan_run n.inRun
    rw [List.append_nil, Token.scan_end (by simpa using n.ne_nil), List.reverse_reverse,
      Token.ofRun_digits] at hrun
    exact hrun
  exact ⟨zeros, hclosed, by rw [itemsOf, lowercaseChars_further, hclosed.dot, hdigits]⟩

/-- A version with a further number that is not zero is newer, apart from versions that end hollow, which
stay equal to what they were. -/
theorem compare_further_iff (text : String) (n : Numeral) (hn : n.value ≠ 0) :
    (compare (ofText text) (ofText (further text n)) = .lt ↔
        ¬ EndsHollow (Text.lowercaseChars text.toList)) ∧
      (compare (ofText text) (ofText (further text n)) = .eq ↔
        EndsHollow (Text.lowercaseChars text.toList)) := by
  obtain ⟨zeros, hclosed, hitems⟩ := exists_itemsOf_further text n
  have hplain : ∀ t ∈ Token.scan [] (Text.lowercaseChars text.toList), t.IsPlain :=
    fun _ ht => Token.isPlain_of_mem_scan _ _ ht
  have hcompare : compare (ofText text) (ofText (further text n)) =
      Item.compareLists (itemsOf text) (itemsOf (further text n)) := rfl
  rw [hcompare, hitems, itemsOf]
  by_cases hhollow : EndsHollow (Text.lowercaseChars text.toList)
  · rw [Token.compareLists_of_hollow hplain hclosed.zero hclosed.filled hn
      (Token.hollow_scan_iff.2 hhollow)]
    exact ⟨iff_of_false (by decide) (not_not_intro hhollow), iff_of_true rfl hhollow⟩
  · rw [Token.compareLists_of_not_hollow hplain hclosed.zero hn
      (fun h => hhollow (Token.hollow_scan_iff.1 h))]
    exact ⟨iff_of_true rfl hhollow, iff_of_false (by decide) hhollow⟩

/-- Numeral `1`. -/
def Numeral.one : Numeral := ⟨['1'], by decide, by simp⟩

/-- A release candidate with the number zero ends hollow. -/
theorem compare_further_releaseCandidate :
    Numeral.one.value ≠ 0 ∧ EndsHollow "1.0-rc0".toList ∧
      compare (ofText "1.0-RC0") (ofText "1.0-RC0.1") = .eq := by
  have hone : Numeral.one.value ≠ 0 := by decide
  have hopens : OpensBetween "1.0-rc".toList "0".toList :=
    Or.inr ⟨false, 'c', '0', rfl, rfl, by decide, by decide⟩
  have hhollow : EndsHollow "1.0-rc0".toList := ⟨_, _, rfl, hopens, by decide⟩
  have hlaw := (compare_further_iff "1.0-RC0" Numeral.one hone).2
  have hlower : Text.lowercaseChars "1.0-RC0".toList = "1.0-rc0".toList := by decide +kernel
  have htext : further "1.0-RC0" Numeral.one = "1.0-RC0.1" := rfl
  rw [hlower, htext] at hlaw
  exact ⟨hone, hhollow, hlaw.2 hhollow⟩

/-- The nested list that the hyphen opens begins with a zero, whatever comes after it. -/
theorem compare_further_zero : compare (ofText "1-0") (ofText "1-0.1") = .eq := by
  decide +kernel

end Linkage.Version
