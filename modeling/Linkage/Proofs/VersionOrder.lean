import Linkage.Version.Basic
import Mathlib.Data.Set.Insert

/-!
# The order of versions

Versions compare item by item. At one position a number is above a list and a list is above a
qualifier, but the end of a version has no fixed place among the three: a version that ends is
compared with whatever the other one goes on with, down to the first item that is not null.

This module proves:

- `Item.compareLists_swap`: comparing the other way round gives the opposite answer;
- `Item.trans_or_clash` and `Item.Clash.not_trans`: the comparison of three lists of items is
  transitive unless they clash, which is to say that one of them ends where one of the other two goes
  on at or below the end, and the other one at or above it, and yet the former is the greater one;
- `preorders_iff_no_clash`: versions are in a total preorder exactly if no three of them clash;
- `clash_of_service_pack`: three short versions that clash.
-/

set_option autoImplicit false

namespace Linkage.Version

/-! ## Qualifiers -/

namespace Qualifier

/-- Name of a qualifier that has no place of its own. -/
def word : Qualifier → String
  | .other name => name
  | _ => ""

/-- Qualifiers compare by their places, and then by their names. -/
theorem compare_eq_compareLex (a b : Qualifier) :
    a.compare b = compareLex (compareOn rank) (compareOn word) a b := by
  cases a <;> cases b <;> rfl

instance : Std.TransCmp compare := by
  have heq : compare = compareLex (compareOn rank) (compareOn word) :=
    funext fun a => funext fun b => compare_eq_compareLex a b
  rw [heq]
  infer_instance

theorem compare_swap (a b : Qualifier) : (a.compare b).swap = b.compare a :=
  Std.OrientedCmp.eq_swap.symm

theorem eq_of_compare {a b : Qualifier} (h : a.compare b = .eq) : a = b := by
  rw [compare_eq_compareLex, compareLex, Ordering.then_eq_eq] at h
  obtain ⟨hrank, hword⟩ := h
  have hrank : a.rank = b.rank := Std.compare_eq_iff_eq.1 hrank
  have hword : a.word = b.word := Std.compare_eq_iff_eq.1 hword
  cases a <;> cases b <;> simp_all [rank, word]

end Qualifier

namespace Item

/-! ## Both ways round -/

mutual

theorem compare_swap (a b : Item) : (compare a b).swap = compare b a := by
  match a, b with
  | .number a, .number b => exact Nat.compare_swap a b
  | .number a, .qualifier b => rfl
  | .number a, .list bs => rfl
  | .qualifier a, .number b => rfl
  | .qualifier a, .qualifier b => exact Qualifier.compare_swap a b
  | .qualifier a, .list bs => rfl
  | .list as, .number b => rfl
  | .list as, .qualifier b => rfl
  | .list as, .list bs => exact compareLists_swap as bs

/-- Comparing lists the other way round gives the opposite answer. -/
theorem compareLists_swap (as bs : List Item) :
    (compareLists as bs).swap = compareLists bs as := by
  match as, bs with
  | [], [] => rfl
  | [], b :: bs => exact Ordering.swap_swap
  | a :: as, [] => rfl
  | a :: as, b :: bs =>
      rw [compareLists, Ordering.swap_then, compare_swap a b, compareLists_swap as bs, compareLists]

end

instance : Std.OrientedCmp compare := ⟨(compare_swap _ _).symm⟩

instance : Std.OrientedCmp compareLists := ⟨(compareLists_swap _ _).symm⟩

theorem compare_self (a : Item) : compare a a = .eq := Std.ReflCmp.compare_self

/-! ## Comparison with an end -/

theorem compareLists_nil (as : List Item) : compareLists as [] = compareNulls as := by
  cases as <;> rfl

theorem nil_compareLists (as : List Item) : compareLists [] as = (compareNulls as).swap := rfl

/-- A list that compares like an end begins with an item that does. -/
theorem compareNull_list_of_compareNulls (as : List Item) (h : compareNulls as = .eq) :
    (Item.list as).compareNull = .eq := by
  cases as with
  | nil => rfl
  | cons a as => exact (Ordering.then_eq_eq.1 h).1

/-- Equal items compare alike with a missing one. -/
theorem compareNull_congr (a b : Item) (h : compare a b = .eq) : a.compareNull = b.compareNull := by
  match a, b with
  | .number a, .number b => rw [show a = b from Std.compare_eq_iff_eq.1 h]
  | .number a, .qualifier b => cases h
  | .number a, .list bs => cases h
  | .qualifier a, .number b => cases h
  | .qualifier a, .qualifier b => rw [Qualifier.eq_of_compare h]
  | .qualifier a, .list bs => cases h
  | .list as, .number b => cases h
  | .list as, .qualifier b => cases h
  | .list [], .list bs =>
      have hbs : compareNulls bs = .eq := Ordering.swap_eq_eq.1 h
      exact (compareNull_list_of_compareNulls bs hbs).symm
  | .list (a :: as), .list [] => exact compareNull_list_of_compareNulls (a :: as) h
  | .list (a :: as), .list (b :: bs) =>
      exact compareNull_congr a b (Ordering.then_eq_eq.1 h).1

/-- Equal lists compare alike with an end. -/
theorem compareNulls_congr {as bs : List Item} (h : compareLists as bs = .eq) :
    compareNulls as = compareNulls bs := by
  induction as generalizing bs with
  | nil => exact (Ordering.swap_eq_eq.1 h).symm
  | cons a as ih =>
      cases bs with
      | nil => exact h
      | cons b bs =>
          obtain ⟨hhead, htail⟩ := Ordering.then_eq_eq.1 h
          rw [compareNulls, compareNulls, compareNull_congr a b hhead, ih htail]

/-! ## Nested lists come last -/

mutual

/-- A nested list stands at the end of its list only, here and further inside. -/
def NestsLast : Item → Prop
  | .list items => AllNestLast items
  | _ => True

/-- Only the last one of the items can be a nested list, and so on inside of it. -/
def AllNestLast : List Item → Prop
  | [] => True
  | i :: is => (i.isList = true → is = []) ∧ i.NestsLast ∧ AllNestLast is

end

mutual

theorem nestsLast_normalize (i : Item) (h : i.NestsLast) : i.normalize.NestsLast := by
  match i with
  | .number n => trivial
  | .qualifier q => trivial
  | .list items => exact allNestLast_normalizeAll items h

/-- Normal forms have their nested lists at the end. -/
theorem allNestLast_normalizeAll (is : List Item) (h : AllNestLast is) :
    AllNestLast (normalizeAll is) := by
  match is with
  | [] => trivial
  | i :: is =>
      obtain ⟨hlast, hi, his⟩ := h
      have hrest := allNestLast_normalizeAll is his
      rw [normalizeAll]
      split
      · exact hrest
      · -- normalizing makes no list of anything else, and leaves nothing behind the last item
        refine ⟨fun hlist => ?_, nestsLast_normalize i hi, hrest⟩
        have hi : i.isList = true := by
          cases i with
          | list items => rfl
          | _ => cases hlist
        rw [hlast hi]
        rfl

end

end Item

namespace Token

/-- Every token but the start of a nested list is an item that is no list. -/
def IsPlain : Token → Prop
  | .item i => i.isList = false
  | .nest => True

theorem isPlain_ofRun (run : List Char) (beforeDigit : Bool) :
    (Token.item (ofRun run beforeDigit)).IsPlain := by
  cases run with
  | nil => rfl
  | cons c cs =>
      rw [IsPlain, ofRun]
      split <;> rfl

theorem isPlain_of_mem_scan {t : Token} (run cs : List Char) (ht : t ∈ scan run cs) :
    t.IsPlain := by
  -- a run becomes an item at the end, before a dot or a hyphen, and where its kind changes
  fun_induction scan run cs with
  | case1 run hrun => cases ht
  | case2 run hrun =>
      rw [List.mem_singleton] at ht
      exact ht ▸ isPlain_ofRun run.reverse false
  | case3 run cs ih =>
      rcases List.mem_cons.1 ht with rfl | ht
      · exact isPlain_ofRun run.reverse false
      · exact ih ht
  | case4 run cs hdot ih =>
      rcases List.mem_cons.1 ht with rfl | ht
      · exact isPlain_ofRun run.reverse false
      · rcases List.mem_cons.1 ht with rfl | ht
        · trivial
        · exact ih ht
  | case5 c cs hdot hhyphen ih => exact ih ht
  | case6 c cs hdot hhyphen d ds hsame ih => exact ih ht
  | case7 c cs hdot hhyphen d ds hchange ih =>
      rcases List.mem_cons.1 ht with rfl | ht
      · exact isPlain_ofRun (d :: ds).reverse c.isDigit
      · rcases List.mem_cons.1 ht with rfl | ht
        · trivial
        · exact ih ht

theorem allNestLast_items {ts : List Token} (h : ∀ t ∈ ts, t.IsPlain) :
    Item.AllNestLast (items ts) := by
  induction ts with
  | nil => trivial
  | cons t ts ih =>
      obtain ⟨ht, hts⟩ := List.forall_mem_cons.1 h
      cases t with
      | nest => exact ⟨fun _ => rfl, ih hts, trivial⟩
      | item i =>
          refine ⟨fun hlist => ?_, ?_, ih hts⟩
          · rw [ht] at hlist
            cases hlist
          · cases i with
            | list items => cases ht
            | _ => trivial

end Token

/-- Versions have their nested lists at the end. -/
theorem allNestLast_itemsOf (text : String) : Item.AllNestLast (itemsOf text) :=
  Item.allNestLast_normalizeAll _
    (Token.allNestLast_items fun _ ht => Token.isPlain_of_mem_scan _ _ ht)

/-! ## Clashes -/

namespace Item

/-- Three lists clash where one of them ends: of the other two, one goes on at or below the end and the
other one at or above it, and yet the former is the greater one. -/
inductive Clash : List Item → List Item → List Item → Prop
  | ended {low high : List Item} : (compareNulls low).isLE = true → (compareNulls high).isGE = true →
      compareLists low high = .gt → Clash [] low high
  | rotate {a b c : List Item} : Clash a b c → Clash b c a
  | swap {a b c : List Item} : Clash a b c → Clash b a c
  | next (i : Item) {a b c : List Item} : Clash a b c → Clash (i :: a) (i :: b) (i :: c)
  | nested {a b c : List Item} : Clash a b c → Clash [.list a] [.list b] [.list c]

theorem compareLists_cons_self (i : Item) (as bs : List Item) :
    compareLists (i :: as) (i :: bs) = compareLists as bs := by
  rw [compareLists, compare_self]
  rfl

theorem compareLists_singleton (as bs : List Item) :
    compareLists [.list as] [.list bs] = compareLists as bs := by
  rw [compareLists, compare]
  exact Ordering.then_eq

/-- Items that come round in a circle are one and the same, or they are nested lists. -/
theorem eq_or_lists_of_circle {x y z : Item} (hxy : (compare x y).isLE = true)
    (hyz : (compare y z).isLE = true) (hzx : (compare z x).isLE = true) :
    x = y ∧ y = z ∨ ∃ p q r, x = .list p ∧ y = .list q ∧ z = .list r := by
  cases x with
  | number a =>
      cases y with
      | number b =>
          cases z with
          | number c =>
              simp only [compare, Nat.isLE_compare] at hxy hyz hzx
              obtain rfl : a = b := by omega
              obtain rfl : a = c := by omega
              exact Or.inl ⟨rfl, rfl⟩
          | qualifier r => cases hyz
          | list r => cases hyz
      | qualifier q => cases hxy
      | list q => cases hxy
  | qualifier p =>
      cases z with
      | number c => cases hzx
      | list r => cases hzx
      | qualifier r =>
          cases y with
          | number b => cases hyz
          | list q => cases hyz
          | qualifier q =>
              have hpr : p.compare r = .eq := Std.OrientedCmp.isLE_antisymm
                (Std.TransCmp.isLE_trans hxy hyz) hzx
              have hqr : q.compare r = .eq := Std.OrientedCmp.isLE_antisymm hyz
                (Std.TransCmp.isLE_trans hzx hxy)
              obtain rfl := Qualifier.eq_of_compare hpr
              obtain rfl := Qualifier.eq_of_compare hqr
              exact Or.inl ⟨rfl, rfl⟩
  | list p =>
      cases y with
      | qualifier q => cases hxy
      | number b =>
          cases z with
          | number c => cases hzx
          | qualifier r => cases hyz
          | list r => cases hyz
      | list q =>
          cases z with
          | number c => cases hzx
          | qualifier r => cases hyz
          | list r => exact Or.inr ⟨p, q, r, rfl, rfl, rfl⟩

/-- What is strictly below the end and what is not below it are not equal. -/
theorem compareLists_eq_gt_of_le {as bs : List Item} (hle : (compareLists as bs).isLE = true)
    (hne : compareNulls as ≠ compareNulls bs) : compareLists bs as = .gt := by
  rw [← compareLists_swap as bs]
  cases h : compareLists as bs with
  | lt => rfl
  | eq => exact absurd (compareNulls_congr h) hne
  | gt =>
      rw [h] at hle
      cases hle

/-- Three lists that compare the one way and not the other way round clash. The recursion goes down to
the first position where one of them ends. -/
theorem trans_or_clash {a b c : List Item} (ha : AllNestLast a) (hb : AllNestLast b)
    (hc : AllNestLast c) (hab : (compareLists a b).isLE = true) (hbc : (compareLists b c).isLE = true) :
    (compareLists a c).isLE = true ∨ Clash a b c := by
  by_cases hac : (compareLists a c).isLE = true
  · exact Or.inl hac
  have hgt : compareLists a c = .gt := by
    cases h : compareLists a c with
    | gt => rfl
    | _ => exact absurd (h ▸ rfl) hac
  refine Or.inr ?_
  match a, b, c with
  | [], b, c =>
      -- the third list is below the end, and the second one is not
      have hlow : compareNulls c = .lt := Ordering.swap_eq_gt.1 hgt
      have hhigh : (compareNulls b).isGE = true := Ordering.isLE_swap.symm.trans hab
      have hne : compareNulls b ≠ compareNulls c := by
        rintro heq
        rw [heq, hlow] at hhigh
        cases hhigh
      exact (Clash.ended (by rw [hlow]; rfl) hhigh (compareLists_eq_gt_of_le hbc hne)).swap.rotate
  | a, [], c =>
      rw [compareLists_nil] at hab
      exact (Clash.ended hab (Ordering.isLE_swap.symm.trans hbc) hgt).swap
  | a, b, [] =>
      -- the first list is above the end, and the second one is not
      rw [compareLists_nil] at hbc hgt
      have hne : compareNulls a ≠ compareNulls b := by
        rintro heq
        rw [← heq, hgt] at hbc
        cases hbc
      exact (Clash.ended hbc (by rw [hgt]; rfl) (compareLists_eq_gt_of_le hab hne)).rotate.swap
  | x :: a, y :: b, z :: c =>
      -- the first items come round in a circle, so they are one and the same or nested lists
      have hxy : (compare x y).isLE = true := Ordering.isLE_left_of_isLE_then hab
      have hyz : (compare y z).isLE = true := Ordering.isLE_left_of_isLE_then hbc
      have hzx : (compare z x).isLE = true := by
        rw [← compareLists_swap, Ordering.swap_eq_gt] at hgt
        exact Ordering.isLE_left_of_isLE_then (by rw [← compareLists, hgt]; rfl)
      rcases eq_or_lists_of_circle hxy hyz hzx with ⟨rfl, rfl⟩ | ⟨p, q, r, rfl, rfl, rfl⟩
      · rw [compareLists_cons_self] at hab hbc hac
        exact ((trans_or_clash ha.2.2 hb.2.2 hc.2.2 hab hbc).resolve_left hac).next x
      · -- nested lists have nothing behind them
        obtain rfl := ha.1 rfl
        obtain rfl := hb.1 rfl
        obtain rfl := hc.1 rfl
        rw [compareLists_singleton] at hab hbc hac
        exact ((trans_or_clash ha.2.1 hb.2.1 hc.2.1 hab hbc).resolve_left hac).nested
termination_by sizeOf a

/-- Lists that clash are in no transitive order. -/
theorem Clash.not_trans {a b c : List Item} (h : Clash a b c) :
    ∃ u ∈ [a, b, c], ∃ v ∈ [a, b, c], ∃ w ∈ [a, b, c], (compareLists u v).isLE = true ∧
      (compareLists v w).isLE = true ∧ compareLists u w = .gt := by
  induction h with
  | ended hlow hhigh hgt =>
      rename_i low high
      refine ⟨low, by simp, [], by simp, high, by simp, ?_, ?_, hgt⟩
      · rwa [compareLists_nil]
      · rwa [nil_compareLists, Ordering.isLE_swap]
  | @rotate a b c _ ih =>
      obtain ⟨u, hu, v, hv, w, hw, hlaw⟩ := ih
      have hmem : ∀ {l}, l ∈ [a, b, c] → l ∈ [b, c, a] :=
        (List.perm_append_comm : List.Perm ([a] ++ [b, c]) ([b, c] ++ [a])).mem_iff.1
      exact ⟨u, hmem hu, v, hmem hv, w, hmem hw, hlaw⟩
  | @swap a b c _ ih =>
      obtain ⟨u, hu, v, hv, w, hw, hlaw⟩ := ih
      have hmem : ∀ {l}, l ∈ [a, b, c] → l ∈ [b, a, c] := (List.Perm.swap b a [c]).mem_iff.1
      exact ⟨u, hmem hu, v, hmem hv, w, hmem hw, hlaw⟩
  | @next i a b c _ ih =>
      obtain ⟨u, hu, v, hv, w, hw, hlaw⟩ := ih
      have hmem : ∀ {l}, l ∈ [a, b, c] → i :: l ∈ [i :: a, i :: b, i :: c] :=
        List.mem_map_of_mem (f := (i :: ·))
      refine ⟨i :: u, hmem hu, i :: v, hmem hv, i :: w, hmem hw, ?_⟩
      simpa only [compareLists_cons_self] using hlaw
  | @nested a b c _ ih =>
      obtain ⟨u, hu, v, hv, w, hw, hlaw⟩ := ih
      have hmem : ∀ {l}, l ∈ [a, b, c] → [Item.list l] ∈ [[Item.list a], [.list b], [.list c]] :=
        List.mem_map_of_mem (f := fun l => [Item.list l])
      refine ⟨[.list u], hmem hu, [.list v], hmem hv, [.list w], hmem hw, ?_⟩
      simpa only [compareLists_singleton] using hlaw

end Item

/-! ## Sets of versions -/

/-- The versions of the set are in a total preorder. -/
def Preorders (versions : Set Version) : Prop :=
  (∀ a ∈ versions, ∀ b ∈ versions, (compare a b).isLE = true ∨ (compare b a).isLE = true) ∧
    ∀ a ∈ versions, ∀ b ∈ versions, ∀ c ∈ versions, (compare a b).isLE = true →
      (compare b c).isLE = true → (compare a c).isLE = true

instance : Std.OrientedOrd Version := ⟨(Item.compareLists_swap _ _).symm⟩

theorem compare_total (a b : Version) :
    (compare a b).isLE = true ∨ (compare b a).isLE = true := by
  have hswap : compare b a = (compare a b).swap := Std.OrientedOrd.eq_swap
  rw [hswap]
  cases compare a b <;> decide

/-- Versions are in a total preorder exactly if no three of them clash. -/
theorem preorders_iff_no_clash (versions : Set Version) :
    Preorders versions ↔ ∀ a ∈ versions, ∀ b ∈ versions, ∀ c ∈ versions,
      ¬ Item.Clash a.items b.items c.items := by
  constructor
  · rintro ⟨-, htrans⟩ a ha b hb c hc hclash
    -- the lists that are out of order are those of some of the three versions
    have hversion : ∀ l ∈ [a.items, b.items, c.items], ∃ v ∈ versions, v.items = l := by
      simp only [List.forall_mem_cons, List.not_mem_nil, false_imp_iff, implies_true, and_true]
      exact ⟨⟨a, ha, rfl⟩, ⟨b, hb, rfl⟩, ⟨c, hc, rfl⟩⟩
    obtain ⟨u, hu, v, hv, w, hw, huv, hvw, hgt⟩ := hclash.not_trans
    obtain ⟨x, hx, rfl⟩ := hversion u hu
    obtain ⟨y, hy, rfl⟩ := hversion v hv
    obtain ⟨z, hz, rfl⟩ := hversion w hw
    have hxz : (Item.compareLists x.items z.items).isLE = true := htrans x hx y hy z hz huv hvw
    rw [hgt] at hxz
    cases hxz
  · -- the order is total in any case, and a clash is the only way out of transitivity
    intro hnone
    refine ⟨fun a _ b _ => compare_total a b, fun a ha b hb c hc hab hbc => ?_⟩
    have hlast : ∀ v : Version, Item.AllNestLast v.items := fun v =>
      v.items_eq ▸ allNestLast_itemsOf v.text
    exact (Item.trans_or_clash (hlast a) (hlast b) (hlast c) hab hbc).resolve_right
      (hnone a ha b hb c hc)

/-- Three versions in a circle: a service pack is above the release, and the release above a number
zero that a pre-release follows, but that zero is above the service pack as a number. -/
theorem clash_of_service_pack :
    (compare (ofText "1.0.alpha") (ofText "1")).isLE = true ∧
      (compare (ofText "1") (ofText "1.sp")).isLE = true ∧
        compare (ofText "1.0.alpha") (ofText "1.sp") = .gt := by
  decide +kernel

end Linkage.Version
