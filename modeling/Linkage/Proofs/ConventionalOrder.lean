import Linkage.Proofs.ConventionalVersions

/-!
# The order of conventional versions

Among conventional versions the comparison item by item comes down to a plain one
(`Conventional.order`): by the numbers, where a missing one is zero, by the qualifier and by its number.
So no three of them clash (`Conventional.compare_ofText_and_preorders`).

The normal form drops the zeros at the end of the numbers (`Item.normalizeAll_numbers`), and the
comparison does not miss them (`Item.compareLists_trimmed`). What follows the numbers is never null, and
it is compared with the end of a version by its qualifier alone (`Item.compareNulls_suffixItems`).
-/

set_option autoImplicit false

namespace Linkage.Version

/-! ## The plain order -/

/-- Comparison of two rows of numbers. The shorter one goes on with zeros. -/
def comparePadded : List Nat → List Nat → Ordering
  | [], [] => .eq
  | a :: as, [] => (compare a 0).then (comparePadded as [])
  | [], b :: bs => (compare 0 b).then (comparePadded [] bs)
  | a :: as, b :: bs => (compare a b).then (comparePadded as bs)

/-- Qualifiers that have a place of their own, in their order. The empty one stands for the release. -/
def places : List String := ["alpha", "beta", "milestone", "rc", "snapshot", "", "sp"]

/-- Qualifier of a word, with the abbreviations spelled out. A single letter is an abbreviation only
before a number. -/
def spellOut (word : String) (beforeNumber : Bool) : String :=
  if word = "cr" then "rc"
  else if beforeNumber = false then word
  else if word = "a" then "alpha"
  else if word = "b" then "beta"
  else if word = "m" then "milestone"
  else word

/-- Qualifier of the suffix. -/
def Suffix.name (s : Suffix) : String := spellOut (wordOf s.letters) s.number.isSome

namespace Conventional

/-- Qualifier of the version, which is empty if there is none. -/
def qualifier (c : Conventional) : String := c.suffix.elim "" Suffix.name

/-- Number of the qualifier, which is zero if there is none. -/
def number (c : Conventional) : Nat := (c.suffix.bind Suffix.number).elim 0 Numeral.value

/-- Order of what follows the numbers: by the place of the qualifier, by the qualifier itself, which
makes a difference after the last place only, and by its number. Qualifiers are in ASCII, where the
order of the characters is the one of the bytes. -/
def suffixOrder : Conventional → Conventional → Ordering :=
  compareLex (compareOn fun c => places.idxOf c.qualifier)
    (compareLex (compareOn qualifier) (compareOn number))

/-- Conventional versions compare by their numbers and then by what follows them. -/
def order : Conventional → Conventional → Ordering :=
  compareLex (fun a b => comparePadded a.core b.core) suffixOrder

end Conventional

/-! ## Qualifiers -/

namespace Qualifier

/-- Spelling of a qualifier. -/
def name : Qualifier → String
  | .alpha => "alpha"
  | .beta => "beta"
  | .milestone => "milestone"
  | .candidate => "rc"
  | .snapshot => "snapshot"
  | .release => ""
  | .servicePack => "sp"
  | .other name => name

theorem compare_eq_then (a b : Qualifier) :
    a.compare b = (Ord.compare a.rank b.rank).then (Ord.compare a.name b.name) := by
  cases a <;> cases b <;> rfl

/-- Words that can be read as a qualifier with a place of its own. -/
def knownWords : List String :=
  ["alpha", "beta", "milestone", "rc", "snapshot", "", "sp", "a", "b", "m", "cr", "ga", "final",
    "release"]

theorem ofWord_eq_other {word : String} (beforeDigit : Bool) (h : word ∉ knownWords) :
    ofWord word beforeDigit = .other word := by
  simp only [knownWords, List.mem_cons, List.not_mem_nil, or_false, not_or] at h
  simp only [ofWord, beq_iff_eq, Bool.and_eq_true, Bool.or_eq_true, h, and_false, or_false, if_false]

/-- A word without a place of its own is none of those that have one. -/
theorem idxOf_name_ofWord (word : String) (beforeDigit : Bool) :
    places.idxOf (ofWord word beforeDigit).name = (ofWord word beforeDigit).rank := by
  by_cases hknown : word ∈ knownWords
  · have hall : ∀ word ∈ knownWords, ∀ beforeDigit : Bool,
        places.idxOf (ofWord word beforeDigit).name = (ofWord word beforeDigit).rank := by
      decide +kernel
    exact hall word hknown beforeDigit
  · rw [ofWord_eq_other beforeDigit hknown]
    have hplaces : places ⊆ knownWords := by decide
    exact List.idxOf_eq_length fun hword => hknown (hplaces hword)

/-- A word that does not stand for the plain release is read as what it is short for. -/
theorem name_ofWord {word : String} (beforeDigit : Bool)
    (hrelease : word ∉ ["ga", "final", "release"]) :
    (ofWord word beforeDigit).name = spellOut word beforeDigit := by
  by_cases hknown : word ∈ knownWords
  · have hall : ∀ word ∈ knownWords, word ∉ ["ga", "final", "release"] → ∀ beforeDigit : Bool,
        (ofWord word beforeDigit).name = spellOut word beforeDigit := by
      decide +kernel
    exact hall word hknown hrelease beforeDigit
  · rw [ofWord_eq_other beforeDigit hknown]
    simp only [knownWords, List.mem_cons, List.not_mem_nil, or_false, not_or] at hknown
    simp only [spellOut, hknown, if_false, ite_self, name]

theorem ofWord_ne_release {word : String} (beforeDigit : Bool)
    (hrelease : word ∉ ["ga", "final", "release"]) (hempty : word ≠ "") :
    ofWord word beforeDigit ≠ .release := by
  by_cases hknown : word ∈ knownWords
  · have hall : ∀ word ∈ knownWords, word ∉ ["ga", "final", "release"] → word ≠ "" →
        ∀ beforeDigit : Bool, ofWord word beforeDigit ≠ .release := by
      decide +kernel
    exact hall word hknown hrelease hempty beforeDigit
  · rw [ofWord_eq_other beforeDigit hknown]
    nofun

end Qualifier

namespace Suffix

theorem name_kind (s : Suffix) : s.kind.name = s.name :=
  Qualifier.name_ofWord s.number.isSome s.not_release

theorem kind_ne_release (s : Suffix) : s.kind ≠ .release := by
  apply Qualifier.ofWord_ne_release s.number.isSome s.not_release
  rw [wordOf, ne_eq, String.ofList_eq_empty_iff]
  exact s.lowered_ne_nil

theorem idxOf_name (s : Suffix) : places.idxOf s.name = s.kind.rank := by
  rw [← name_kind]
  exact Qualifier.idxOf_name_ofWord (wordOf s.letters) s.number.isSome

end Suffix

/-! ## Normal forms -/

/-- Numbers without the zeros at the end. -/
def trim : List Nat → List Nat
  | [] => []
  | n :: ns => if n = 0 ∧ trim ns = [] then [] else n :: trim ns

/-- Numbers without the zeros at the end, and what is left of the items after them. -/
def trimmed (ns : List Nat) (tail : List Item) : List Item := (trim ns).map Item.number ++ tail

namespace Item

/-- Of numbers before nested lists, the normal form drops the zeros at the end. -/
theorem normalizeAll_numbers (ns : List Nat) {tail : List Item}
    (htail : (normalizeAll tail).all isList = true) :
    normalizeAll (ns.map Item.number ++ tail) = trimmed ns (normalizeAll tail) := by
  induction ns with
  | nil => rfl
  | cons n ns ih =>
      rw [List.map_cons, List.cons_append, normalizeAll, ih, trimmed, trimmed, trim]
      -- only nested lists are left after the number exactly if no number is
      cases htrim : trim ns with
      | nil =>
          rw [List.map_nil, List.nil_append, htail]
          by_cases hn : n = 0
          · subst hn
            rfl
          · simp [normalize, isNull, hn]
      | cons m ms => simp [normalize, isNull, isList]

/-- A number as a nested list, which is gone if it is zero. -/
def numbered (n : Nat) : List Item := if n = 0 then [] else [.list [.number n]]

theorem normalizeAll_numberItems (n : Option Numeral) :
    normalizeAll (Token.numberItems n) = numbered (n.elim 0 Numeral.value) := by
  cases n with
  | none => rfl
  | some n =>
      rw [Token.numberItems, Option.elim_some, Option.elim_some, numbered]
      by_cases hzero : n.value = 0
      · rw [hzero]
        rfl
      · simp [normalizeAll, normalize, isNull, hzero]

theorem normalizeAll_suffixItems (s : Suffix) :
    normalizeAll (Token.suffixItems (some s)) =
      [.list (.qualifier s.kind :: numbered (s.number.elim 0 Numeral.value))] := by
  have hkind : (s.kind == .release) = false := beq_false_of_ne s.kind_ne_release
  simp [Token.suffixItems, normalizeAll, normalize, isNull, hkind, normalizeAll_numberItems]

theorem isList_normalizeAll_suffixItems (s : Option Suffix) :
    (normalizeAll (Token.suffixItems s)).all isList = true := by
  cases s with
  | none => rfl
  | some s =>
      rw [normalizeAll_suffixItems]
      rfl

end Item

/-- Items of a conventional version. -/
theorem Conventional.itemsOf_text_eq_trimmed (c : Conventional) :
    itemsOf c.text = trimmed c.core (Item.normalizeAll (Token.suffixItems c.suffix)) := by
  rw [itemsOf_text, Item.normalizeAll_numbers c.core (Item.isList_normalizeAll_suffixItems c.suffix)]

/-! ## Comparison of what follows the numbers -/

namespace Item

theorem compareNulls_numbered (n : Nat) : compareNulls (numbered n) = Ord.compare n 0 := by
  rw [numbered]
  split_ifs with hn
  · rw [hn]
    rfl
  · exact Ordering.then_eq

theorem compareLists_numbered (m n : Nat) :
    compareLists (numbered m) (numbered n) = Ord.compare m n := by
  by_cases hm : m = 0
  · have hleft : numbered m = [] := if_pos hm
    rw [hleft, nil_compareLists, compareNulls_numbered, Nat.compare_swap, hm]
  · by_cases hn : n = 0
    · have hright : numbered n = [] := if_pos hn
      rw [hright, compareLists_nil, compareNulls_numbered, hn]
    · rw [numbered, numbered, if_neg hm, if_neg hn, compareLists_singleton]
      exact Ordering.then_eq

/-- A version that has no suffix compares with one that has by the place of the qualifier. -/
theorem compareNulls_suffixItems (s : Suffix) (o : Ordering) :
    compareNulls (normalizeAll (Token.suffixItems (some s))) =
      (Ord.compare (places.idxOf s.name) (places.idxOf "")).then o := by
  have hkind := s.kind_ne_release
  rw [normalizeAll_suffixItems, s.idxOf_name]
  cases hk : s.kind with
  | release => exact absurd hk hkind
  | _ => rfl

theorem nil_compareLists_suffixItems (s : Suffix) (o : Ordering) :
    compareLists [] (normalizeAll (Token.suffixItems (some s))) =
      (Ord.compare (places.idxOf "") (places.idxOf s.name)).then o := by
  rw [nil_compareLists, compareNulls_suffixItems s o.swap, Ordering.swap_then, Nat.compare_swap,
    Ordering.swap_swap]

end Item

namespace Conventional

open Item

theorem compareLists_suffixItems (a b : Conventional) :
    compareLists (normalizeAll (Token.suffixItems a.suffix))
      (normalizeAll (Token.suffixItems b.suffix)) = suffixOrder a b := by
  simp only [suffixOrder, compareLex, compareOn, qualifier, number]
  cases a.suffix with
  | none =>
      cases b.suffix with
      | none => rfl
      | some t => exact nil_compareLists_suffixItems t _
  | some s =>
      cases b.suffix with
      | none => exact (compareLists_nil _).trans (compareNulls_suffixItems s _)
      | some t =>
          -- both lists begin with the qualifiers, and what is nested in them are the numbers
          have hkind := Qualifier.compare_eq_then s.kind t.kind
          rw [← s.idxOf_name, ← t.idxOf_name, s.name_kind, t.name_kind] at hkind
          rw [normalizeAll_suffixItems, normalizeAll_suffixItems, compareLists_singleton, compareLists,
            compareLists_numbered, Item.compare, hkind, Ordering.then_assoc]
          rfl

end Conventional

/-! ## Comparison of the numbers -/

namespace Item

variable {ta tb : List Item}

theorem trimmed_cons (n : Nat) (ns : List Nat) (tail : List Item) :
    trimmed (n :: ns) tail =
      if n = 0 ∧ trim ns = [] then trimmed ns tail else .number n :: trimmed ns tail := by
  rw [trimmed, trimmed, trim]
  split_ifs with h
  · rw [h.2]
  · rfl

/-- A row that has ended is compared as if a zero came next. -/
theorem compareLists_ended (hta : ta.all isList = true) {b : Nat} {bs : List Nat}
    (hkept : ¬ (b = 0 ∧ trim bs = [])) :
    compareLists ta (.number b :: trimmed bs tb) =
      (Ord.compare 0 b).then (compareLists ta (trimmed bs tb)) := by
  cases ta with
  | nil =>
      rw [nil_compareLists, nil_compareLists, compareNulls, Ordering.swap_then, compareNull,
        Nat.compare_swap]
  | cons i is =>
      -- a nested list is below every number
      have hbelow : ∀ n xs, compareLists (i :: is) (.number n :: xs) = .lt := by
        intro n xs
        cases i with
        | list items => rfl
        | _ => cases hta
      rw [hbelow]
      cases b with
      | succ b => rfl
      | zero =>
          cases hbs : trim bs with
          | nil => exact absurd ⟨rfl, hbs⟩ hkept
          | cons m ms =>
              rw [trimmed, hbs, List.map_cons, List.cons_append, hbelow]
              rfl

theorem ended_compareLists (htb : tb.all isList = true) {a : Nat} {as : List Nat}
    (hkept : ¬ (a = 0 ∧ trim as = [])) :
    compareLists (.number a :: trimmed as ta) tb =
      (Ord.compare a 0).then (compareLists (trimmed as ta) tb) := by
  rw [← compareLists_swap, compareLists_ended htb hkept, Ordering.swap_then, Nat.compare_swap,
    compareLists_swap]

theorem compareLists_trimmed_cons (hta : ta.all isList = true) (htb : tb.all isList = true)
    (a b : Nat) (as bs : List Nat) :
    compareLists (trimmed (a :: as) ta) (trimmed (b :: bs) tb) =
      (Ord.compare a b).then (compareLists (trimmed as ta) (trimmed bs tb)) := by
  rw [trimmed_cons, trimmed_cons]
  split_ifs with ha hb hb
  · rw [ha.1, hb.1]
    rfl
  · have hleft : trimmed as ta = ta := by rw [trimmed, ha.2]; rfl
    rw [hleft, compareLists_ended hta hb, ha.1]
  · have hright : trimmed bs tb = tb := by rw [trimmed, hb.2]; rfl
    rw [hright, ended_compareLists htb ha, hb.1]
  · rfl

/-- Zeros at the end of the numbers make no difference. -/
theorem compareLists_trimmed (hta : ta.all isList = true) (htb : tb.all isList = true)
    (as bs : List Nat) :
    compareLists (trimmed as ta) (trimmed bs tb) =
      (comparePadded as bs).then (compareLists ta tb) := by
  -- a row that has ended is the same as one with a zero more
  have hnil : ∀ tail, trimmed [] tail = trimmed [0] tail := fun _ => rfl
  fun_induction comparePadded as bs with
  | case1 => rfl
  | case2 a as ih => rw [hnil tb, compareLists_trimmed_cons hta htb, ih, Ordering.then_assoc]
  | case3 b bs ih => rw [hnil ta, compareLists_trimmed_cons hta htb, ih, Ordering.then_assoc]
  | case4 a as b bs ih => rw [compareLists_trimmed_cons hta htb, ih, Ordering.then_assoc]

end Item

/-! ## The order is a preorder -/

theorem rightpad_cons (n : Nat) (ns : List Nat) (length : Nat) :
    (n :: ns).rightpad (length + 1) 0 = n :: ns.rightpad length 0 := by
  simp [List.rightpad]

/-- Rows are compared as if they had been filled up with zeros to any length that is enough. -/
theorem comparePadded_eq_compare {as bs : List Nat} (length : Nat) (ha : as.length ≤ length)
    (hb : bs.length ≤ length) :
    comparePadded as bs = compare (as.rightpad length 0) (bs.rightpad length 0) := by
  have hnil : ∀ length, [].rightpad (length + 1) 0 = 0 :: [].rightpad length 0 := fun _ => rfl
  fun_induction comparePadded as bs generalizing length with
  | case1 => exact Std.compare_self.symm
  | case2 a as ih =>
      obtain ⟨length, rfl⟩ := Nat.exists_eq_add_one.2 (Nat.zero_lt_of_lt ha)
      rw [ih length (Nat.le_of_succ_le_succ ha) (Nat.zero_le length), rightpad_cons, hnil]
      exact List.compareLex_cons_cons.symm
  | case3 b bs ih =>
      obtain ⟨length, rfl⟩ := Nat.exists_eq_add_one.2 (Nat.zero_lt_of_lt hb)
      rw [ih length (Nat.zero_le length) (Nat.le_of_succ_le_succ hb), rightpad_cons, hnil]
      exact List.compareLex_cons_cons.symm
  | case4 a as b bs ih =>
      obtain ⟨length, rfl⟩ := Nat.exists_eq_add_one.2 (Nat.zero_lt_of_lt ha)
      rw [ih length (Nat.le_of_succ_le_succ ha) (Nat.le_of_succ_le_succ hb), rightpad_cons,
        rightpad_cons]
      exact List.compareLex_cons_cons.symm

instance : Std.TransCmp comparePadded where
  eq_swap {as bs} := by
    have ha : as.length ≤ max as.length bs.length := Nat.le_max_left _ _
    have hb : bs.length ≤ max as.length bs.length := Nat.le_max_right _ _
    rw [comparePadded_eq_compare _ ha hb, comparePadded_eq_compare _ hb ha]
    exact Std.OrientedCmp.eq_swap
  isLE_trans {as bs cs} hab hbc := by
    -- all three rows are filled up to one length, where they compare as lists
    have ha : as.length ≤ as.length + bs.length + cs.length := by omega
    have hb : bs.length ≤ as.length + bs.length + cs.length := by omega
    have hc : cs.length ≤ as.length + bs.length + cs.length := by omega
    rw [comparePadded_eq_compare _ ha hb] at hab
    rw [comparePadded_eq_compare _ hb hc] at hbc
    rw [comparePadded_eq_compare _ ha hc]
    exact Std.TransCmp.isLE_trans hab hbc

namespace Conventional

instance : Std.TransCmp fun a b : Conventional => comparePadded a.core b.core where
  eq_swap := Std.OrientedCmp.eq_swap
  isLE_trans := Std.TransCmp.isLE_trans

instance : Std.TransCmp order := by
  unfold order suffixOrder
  infer_instance

theorem compareLists_itemsOf (a b : Conventional) :
    Item.compareLists (itemsOf a.text) (itemsOf b.text) = a.order b := by
  rw [itemsOf_text_eq_trimmed, itemsOf_text_eq_trimmed, order, compareLex,
    Item.compareLists_trimmed (Item.isList_normalizeAll_suffixItems a.suffix)
      (Item.isList_normalizeAll_suffixItems b.suffix), compareLists_suffixItems]

/-- Conventional versions compare by their numbers, as if zeros followed them, then by the place of the
qualifier, by the qualifier and by its number. So they are in a total preorder. -/
theorem compare_ofText_and_preorders :
    (∀ a b : Conventional, compare (ofText a.text) (ofText b.text) = a.order b) ∧
      Preorders {v | ∃ c : Conventional, v.text = c.text} := by
  have horder : ∀ {v w : Version} {a b : Conventional}, v.text = a.text → w.text = b.text →
      compare v w = a.order b := by
    intro v w a b hv hw
    rw [← compareLists_itemsOf, ← hv, ← hw, ← v.items_eq, ← w.items_eq]
    rfl
  refine ⟨fun a b => compareLists_itemsOf a b, fun v _ w _ => compare_total v w, ?_⟩
  rintro u ⟨a, ha⟩ v ⟨b, hb⟩ w ⟨c, hc⟩ huv hvw
  rw [horder ha hb] at huv
  rw [horder hb hc] at hvw
  rw [horder ha hc]
  exact Std.TransCmp.isLE_trans huv hvw

end Conventional

end Linkage.Version
