import Linkage.Proofs.OwnLineage
import Mathlib.Data.List.Nodup
import Mathlib.Logic.Function.Iterate

/-!
# Walks up the superclasses

Own classes can name any superclasses, also in circles. The two walks up from an own class are taken here
step by step, each one with the guard of its own against circles: gathering superclasses ends before a
class that has been gathered or is the one it began at (`climbStep`), and the search for the class at which
linking begins ends at a class that it has visited before (`searchStep`). Both have ended after at most one
step more than there are own classes (`iterate_climbStep`, `iterate_searchStep`), because each step but the
last visits another own class.

The walks agree: the search finds the end of the superclasses that have been gathered, if that is beyond
the own classes and none of those on the way declares the member (`linkOwnerFrom_eq_some_iff`).
-/

set_option autoImplicit false

namespace Linkage.OwnClasses

/-- Superclasses that have been gathered, and the class that comes next. -/
structure Climb where
  gathered : List BinaryName
  next : Option BinaryName
  deriving DecidableEq

/-- State of a search up the superclasses: at a class, after others that it has visited, or at its end. -/
inductive Search where
  | going (visited : List BinaryName) (current : BinaryName)
  | ended (owner : Option BinaryName)
  deriving DecidableEq

/-- Superclass that an own class names. -/
def superclass? (own : OwnClasses) (name : BinaryName) : Option BinaryName :=
  (own.find? name).bind OwnClass.superClass

/-- The own class declares the member. -/
def Declares (own : OwnClasses) (owner : BinaryName) (name descriptor : String) : Prop :=
  ∃ k, own.find? owner = some k ∧ k.declares name descriptor = true

/-- One step of gathering the superclasses of a class. -/
def climbStep (own : OwnClasses) (start : BinaryName) : Climb → Climb
  | ⟨gathered, none⟩ => ⟨gathered, none⟩
  | ⟨gathered, some name⟩ =>
      if name = start ∨ name ∈ gathered then ⟨gathered, none⟩
      else ⟨gathered ++ [name], own.superclass? name⟩

/-- One step of the search for the class at which linking of a member begins. -/
def searchStep (own : OwnClasses) (name descriptor : String) : Search → Search
  | .ended owner => .ended owner
  | .going visited current =>
      match own.find? current with
      | none => .ended (some current)
      | some k =>
          if k.declares name descriptor = true ∨ current ∈ visited then .ended none
          else
            match k.superClass with
            | none => .ended none
            | some superClass => .going (current :: visited) superClass

/-- The walks up from an own class end, and they agree. -/
structure WalksAgree (own : OwnClasses) (a : BinaryName) : Prop where
  climb_ends : (own.climbStep a)^[own.names.length + 1] ⟨[], own.superclass? a⟩ =
    ⟨own.superclasses a, none⟩
  nodup : (own.superclasses a).Nodup
  not_mem_self : a ∉ own.superclasses a
  own_of_mem_dropLast : ∀ b ∈ (own.superclasses a).dropLast, own.contains b = true
  search_ends : ∀ name descriptor,
    (own.searchStep name descriptor)^[own.names.length + 1] (.going [] a) =
      .ended (own.linkOwner? name descriptor a)
  linkOwner?_eq_some_iff : ∀ name descriptor x, own.linkOwner? name descriptor a = some x ↔
    (own.superclasses a).getLast? = some x ∧ own.contains x = false ∧
      ∀ b ∈ a :: own.superclasses a, ¬ own.Declares b name descriptor

variable {own : OwnClasses} {a b start x : BinaryName} {visited gathered : List BinaryName}
  {name descriptor : String} {k : OwnClass} {n : Nat}

theorem contains_of_find? (h : own.find? a = some k) : own.contains a = true := by
  rw [contains, h]
  rfl

theorem contains_eq_false_iff : own.contains a = false ↔ own.find? a = none := by
  rw [contains, Option.isSome_eq_false_iff, Option.isNone_iff_eq_none]

theorem unvisited_le (own : OwnClasses) (visited : List BinaryName) :
    unvisited own.names visited ≤ own.names.length := List.countP_le_length

/-! ## The whole way -/

/-- No class comes twice, and none that has been visited comes. -/
theorem nodup_lineageFrom :
    (own.lineageFrom visited a).Nodup ∧ ∀ b ∈ own.lineageFrom visited a, b ∉ visited := by
  fun_induction lineageFrom own visited a with
  | case1 => exact ⟨List.nodup_nil, fun b hb => absurd hb List.not_mem_nil⟩
  | case2 visited a hfirst => exact ⟨List.nodup_singleton a, List.forall_mem_singleton.2 hfirst⟩
  | case3 visited a hfirst => exact ⟨List.nodup_singleton a, List.forall_mem_singleton.2 hfirst⟩
  | case4 visited a hfirst k hk b hsuper ih =>
      obtain ⟨hnodup, hunvisited⟩ := ih
      constructor
      · exact List.nodup_cons.2 ⟨fun ha => hunvisited a ha List.mem_cons_self, hnodup⟩
      · refine List.forall_mem_cons.2 ⟨hfirst, fun c hc hvisited => ?_⟩
        exact hunvisited c hc (List.mem_cons_of_mem a hvisited)

/-- The way goes on from own classes only. -/
theorem contains_of_mem_dropLast (h : b ∈ (own.lineageFrom visited a).dropLast) :
    own.contains b = true := by
  fun_induction lineageFrom own visited a with
  | case1 => cases h
  | case2 => cases h
  | case3 => cases h
  | case4 visited a hfirst k hk c hsuper ih =>
      cases hrest : own.lineageFrom (a :: visited) c with
      | nil =>
          rw [hrest] at h
          cases h
      | cons d ds =>
          rw [hrest, List.dropLast_cons_of_ne_nil (List.cons_ne_nil d ds)] at h
          rcases List.mem_cons.1 h with rfl | h
          · exact contains_of_find? hk
          · exact ih (hrest ▸ h)

/-- A way that ends at an own class does not lead beyond the own classes. -/
theorem not_beyond_of_own {p : Prop} (h : own.find? a = some k) :
    ¬ ([a].getLast? = some x ∧ own.contains x = false ∧ p) := by
  rintro ⟨hlast, hbeyond, -⟩
  rw [List.getLast?_singleton, Option.some.injEq] at hlast
  rw [← hlast, contains_of_find? h] at hbeyond
  cases hbeyond

/-- The search ends where the way ends, if that is beyond the own classes and nothing on the way
declares the member. -/
theorem linkOwnerFrom_eq_some_iff :
    own.linkOwnerFrom name descriptor visited a = some x ↔
      (own.lineageFrom visited a).getLast? = some x ∧ own.contains x = false ∧
        ∀ b ∈ own.lineageFrom visited a, ¬ own.Declares b name descriptor := by
  fun_induction lineageFrom own visited a with
  | case1 visited a hvisited =>
      rw [linkOwnerFrom_visited hvisited]
      simp only [List.getLast?_nil, reduceCtorEq, false_and]
  | case2 visited a hfirst hnone =>
      rw [linkOwnerFrom_absent hfirst hnone]
      constructor
      · intro h
        obtain rfl := Option.some.inj h
        refine ⟨rfl, contains_eq_false_iff.2 hnone, List.forall_mem_singleton.2 ?_⟩
        rintro ⟨k, hk, -⟩
        rw [hnone] at hk
        cases hk
      · exact fun h => h.1
  | case3 visited a hfirst k hk hsuper =>
      rw [linkOwnerFrom_own hfirst hk, hsuper, Option.bind_none, ite_self]
      exact iff_of_false (Option.some_ne_none x).symm (not_beyond_of_own hk)
  | case4 visited a hfirst k hk b hsuper ih =>
      rw [linkOwnerFrom_own hfirst hk, hsuper, List.forall_mem_cons]
      by_cases hdeclares : k.declares name descriptor = true
      · rw [if_pos hdeclares]
        exact iff_of_false (Option.some_ne_none x).symm (fun h => h.2.2.1 ⟨k, hk, hdeclares⟩)
      · rw [if_neg hdeclares, Option.bind_some, ih]
        have hown : ¬ own.Declares a name descriptor := by
          rintro ⟨k', hk', hdeclares'⟩
          cases hk.symm.trans hk'
          exact hdeclares hdeclares'
        rw [and_iff_right hown]
        cases hrest : own.lineageFrom (a :: visited) b with
        | nil =>
            -- the superclass has been visited, so the way ends at an own class
            rw [List.getLast?_nil]
            exact iff_of_false (fun h => Option.some_ne_none x h.1.symm) (not_beyond_of_own hk)
        | cons c cs => rw [List.getLast?_cons_cons]

/-! ## The steps -/

theorem iterate_climbStep_ended (own : OwnClasses) (start : BinaryName) (gathered : List BinaryName)
    (n : Nat) : (own.climbStep start)^[n] ⟨gathered, none⟩ = ⟨gathered, none⟩ :=
  Function.iterate_fixed rfl n

theorem iterate_searchStep_ended (own : OwnClasses) (name descriptor : String)
    (owner : Option BinaryName) (n : Nat) :
    (own.searchStep name descriptor)^[n] (.ended owner) = .ended owner :=
  Function.iterate_fixed rfl n

/-- Gathering superclasses has ended after one step more than there are own classes left to visit. What
it has visited are the class that it began at and what it has gathered. -/
theorem iterate_climbStep (hseen : ∀ y, y ∈ visited ↔ y = start ∨ y ∈ gathered)
    (hn : unvisited own.names visited < n) :
    (own.climbStep start)^[n] ⟨gathered, some a⟩ = ⟨gathered ++ own.lineageFrom visited a, none⟩ := by
  obtain ⟨n, rfl⟩ := Nat.exists_eq_add_one.2 (Nat.zero_lt_of_lt hn)
  fun_induction lineageFrom own visited a generalizing gathered n with
  | case1 visited a hvisited =>
      rw [Function.iterate_succ_apply, climbStep, if_pos ((hseen a).1 hvisited), List.append_nil]
      exact iterate_climbStep_ended own start gathered n
  | case2 visited a hfirst hnone =>
      have hsuper : own.superclass? a = none := by rw [superclass?, hnone]; rfl
      rw [Function.iterate_succ_apply, climbStep, if_neg (mt (hseen a).2 hfirst), hsuper]
      exact iterate_climbStep_ended own start _ n
  | case3 visited a hfirst k hk hnone =>
      have hsuper : own.superclass? a = none := by rw [superclass?, hk]; exact hnone
      rw [Function.iterate_succ_apply, climbStep, if_neg (mt (hseen a).2 hfirst), hsuper]
      exact iterate_climbStep_ended own start _ n
  | case4 visited a hfirst k hk b hnext ih =>
      have hsuper : own.superclass? a = some b := by rw [superclass?, hk]; exact hnext
      have hfewer := unvisited_cons_lt (mem_names_of_find? hk) hfirst
      obtain ⟨n, rfl⟩ := Nat.exists_eq_add_one.2 (show 0 < n by omega)
      have hseen' : ∀ y, y ∈ a :: visited ↔ y = start ∨ y ∈ gathered ++ [a] := by
        intro y
        rw [List.mem_cons, hseen y, List.mem_append, List.mem_singleton]
        tauto
      rw [Function.iterate_succ_apply, climbStep, if_neg (mt (hseen a).2 hfirst), hsuper,
        ih hseen' n (by omega), List.append_assoc, List.singleton_append]

/-- The search has ended after one step more than there are own classes left to visit. -/
theorem iterate_searchStep (hown : ∀ y ∈ visited, own.contains y = true)
    (hn : unvisited own.names visited < n) :
    (own.searchStep name descriptor)^[n] (.going visited a) =
      .ended (own.linkOwnerFrom name descriptor visited a) := by
  obtain ⟨n, rfl⟩ := Nat.exists_eq_add_one.2 (Nat.zero_lt_of_lt hn)
  fun_induction linkOwnerFrom own name descriptor visited a generalizing n with
  | case1 visited a hvisited =>
      -- what has been visited is an own class, so the search looks at what it declares before it ends
      obtain ⟨k, hk⟩ := Option.isSome_iff_exists.1 (hown a hvisited)
      rw [Function.iterate_succ_apply, searchStep, hk]
      simp only [hvisited, or_true, if_true]
      exact iterate_searchStep_ended own name descriptor none n
  | case2 visited a hfirst hnone =>
      rw [Function.iterate_succ_apply, searchStep, hnone]
      exact iterate_searchStep_ended own name descriptor (some a) n
  | case3 visited a hfirst k hk hdeclares =>
      rw [Function.iterate_succ_apply, searchStep, hk]
      simp only [hdeclares, true_or, if_true]
      exact iterate_searchStep_ended own name descriptor none n
  | case4 visited a hfirst k hk hdeclares hnone =>
      rw [Function.iterate_succ_apply, searchStep, hk]
      simp only [hdeclares, hfirst, hnone]
      exact iterate_searchStep_ended own name descriptor none n
  | case5 visited a hfirst k hk hdeclares b hnext ih =>
      have hfewer := unvisited_cons_lt (mem_names_of_find? hk) hfirst
      obtain ⟨n, rfl⟩ := Nat.exists_eq_add_one.2 (show 0 < n by omega)
      have hown' : ∀ y ∈ a :: visited, own.contains y = true :=
        List.forall_mem_cons.2 ⟨contains_of_find? hk, hown⟩
      rw [Function.iterate_succ_apply, searchStep, hk]
      simp only [hdeclares, hfirst, hnext]
      exact ih hown' n (by omega)

/-! ## Walks from an own class -/

/-- The way up from an own class begins with the class, and its superclasses come after it. -/
theorem lineageFrom_nil (h : own.contains a = true) :
    own.lineageFrom [] a = a :: own.superclasses a := by
  obtain ⟨k, hk⟩ := Option.isSome_iff_exists.1 h
  rw [superclasses, lineageFrom_own List.not_mem_nil hk]
  rfl

theorem climb_ends (h : own.contains a = true) :
    (own.climbStep a)^[own.names.length + 1] ⟨[], own.superclass? a⟩ = ⟨own.superclasses a, none⟩ := by
  obtain ⟨k, hk⟩ := Option.isSome_iff_exists.1 h
  have hway : own.superclasses a = k.superClass.elim [] (own.lineageFrom [a]) := by
    rw [superclasses, lineageFrom_own List.not_mem_nil hk]
    rfl
  have hsuper : own.superclass? a = k.superClass := by rw [superclass?, hk]; rfl
  rw [hway, hsuper]
  cases k.superClass with
  | none => exact iterate_climbStep_ended own a [] _
  | some b =>
      have hseen : ∀ y, y ∈ [a] ↔ y = a ∨ y ∈ ([] : List BinaryName) := by simp
      exact iterate_climbStep hseen (Nat.lt_succ_of_le (unvisited_le own [a]))

/-- From every own class the walks up the superclasses end, and they agree. -/
theorem walksAgree_of_contains (h : own.contains a = true) : own.WalksAgree a := by
  have hway := lineageFrom_nil h
  have hnodup : (own.lineageFrom [] a).Nodup := nodup_lineageFrom.1
  rw [hway, List.nodup_cons] at hnodup
  exact {
    climb_ends := climb_ends h
    nodup := hnodup.2
    not_mem_self := hnodup.1
    own_of_mem_dropLast := by
      intro b hb
      have hne : own.superclasses a ≠ [] := by
        intro hnone
        rw [hnone] at hb
        cases hb
      have hmem : b ∈ (own.lineageFrom [] a).dropLast := by
        rw [hway, List.dropLast_cons_of_ne_nil hne]
        exact List.mem_cons_of_mem a hb
      exact contains_of_mem_dropLast hmem
    search_ends := by
      intro name descriptor
      have hnone : ∀ y ∈ ([] : List BinaryName), own.contains y = true :=
        fun y hy => absurd hy List.not_mem_nil
      exact iterate_searchStep hnone (Nat.lt_succ_of_le (unvisited_le own []))
    linkOwner?_eq_some_iff := by
      intro name descriptor x
      rw [linkOwner?, linkOwnerFrom_eq_some_iff, hway]
      cases hsuper : own.superclasses a with
      | nil =>
          -- no superclass is known, and the class itself is an own one
          obtain ⟨k, hk⟩ := Option.isSome_iff_exists.1 h
          rw [List.getLast?_nil]
          exact iff_of_false (not_beyond_of_own hk) (fun h => Option.some_ne_none x h.1.symm)
      | cons b bs => rw [List.getLast?_cons_cons] }

/-! ## A circle -/

namespace Circle

def entryName : BinaryName := ⟨"agent/Entry", rfl⟩

def leftName : BinaryName := ⟨"agent/Left", rfl⟩

def rightName : BinaryName := ⟨"agent/Right", rfl⟩

def leafName : BinaryName := ⟨"agent/Leaf", rfl⟩

def baseName : BinaryName := ⟨"lib/Root", rfl⟩

/-- Two classes that extend each other, one that extends the first of them, and one that extends a
class beyond the own ones. -/
def classes : OwnClasses where
  rows := [
    (entryName, ⟨some leftName, []⟩),
    (leftName, ⟨some rightName, []⟩),
    (rightName, ⟨some leftName, []⟩),
    (leafName, ⟨some baseName, [("run", "()V")]⟩)]

/-- From the class that does not belong to the circle both walks end after once around it. From the one
that leads out of the own classes they get to the class beyond, unless the member is found before. -/
theorem walksAgree_of_contains_entry :
    classes.contains entryName = true ∧ classes.contains leafName = true ∧
      classes.superclasses entryName = [leftName, rightName] ∧
        classes.linkOwner? "greet" "()V" entryName = none ∧
          classes.linkOwner? "greet" "()V" leafName = some baseName ∧
            classes.linkOwner? "run" "()V" leafName = none := by
  have hentry : classes.contains entryName = true := by decide
  have hleaf : classes.contains leafName = true := by decide
  have hcircle := walksAgree_of_contains hentry
  have hout := walksAgree_of_contains hleaf
  refine ⟨hentry, hleaf, ?_, ?_, ?_, ?_⟩
  · exact (congrArg Climb.gathered hcircle.climb_ends).symm.trans (by decide)
  · exact Search.ended.inj ((hcircle.search_ends "greet" "()V").symm.trans (by decide))
  · exact Search.ended.inj ((hout.search_ends "greet" "()V").symm.trans (by decide))
  · exact Search.ended.inj ((hout.search_ends "run" "()V").symm.trans (by decide))

end Circle

end Linkage.OwnClasses
