import Linkage.Matching
import Mathlib.Logic.Function.Iterate

/-!
# The search for a member, step by step

A member can be searched for without gathering the hierarchy of its owner first. Each step takes the next
name off a queue, looks at the namesakes that the class of the name declares, and puts its supertypes
behind the others (`searchStep`). The search ends early at the first namesake that agrees and is visible
enough. Of everything else it keeps but three marks (`Evidence`), which tell the outcome once the queue is
empty.

* `MemberQuery.look_eq`: looking at namesakes ends early exactly if one of them is the member, and else it
  adds their marks.
* `MemberQuery.outcomeAfter_empty`: the outcome of a hierarchy is told by the marks of its members and
  superclasses.
* `Context.endsWith_searchStep`: from every state the search comes to an end, with the outcome of what is
  still to be walked after the marks that there are.
* `Context.endsWith_findMember`: the search for a member of a class ends with the outcome of looking for it
  in the hierarchy of the class.
-/

set_option autoImplicit false

namespace Linkage

/-! ## Marks -/

/-- What a search has come across: a member that agrees but is not visible enough, a namesake that does
not agree, and a superclass on the platform. -/
structure Evidence where
  tooRestrictive : Bool
  sameName : Bool
  undescribed : Bool
  deriving DecidableEq

/-- What is asked of the classes that a search comes by: a member of a kind, with its name and shape. -/
structure MemberQuery (type : Type) where
  members : ClassOutline → List (DeclaredMember type)
  name : UnqualifiedName
  descriptor : type
  isStatic : Bool
  required : Visibility

/-- State of a search: going on with what is in the queue, or at its end. -/
inductive SearchState where
  | going (evidence : Evidence) (visited : List BinaryName) (pending : List Supertype)
  | ended (outcome : Outcome)

namespace SearchState

/-- From the state on, the steps lead to this outcome and no further. -/
def EndsWith (s : SearchState) (step : SearchState → SearchState) (outcome : Outcome) : Prop :=
  ∃ n, ∀ k, n ≤ k → step^[k] s = .ended outcome

theorem EndsWith.of_step {s s' : SearchState} {step : SearchState → SearchState} {outcome : Outcome}
    (h : s'.EndsWith step outcome) (hstep : step s = s') : s.EndsWith step outcome := by
  obtain ⟨n, hn⟩ := h
  refine ⟨n + 1, fun k hk => ?_⟩
  obtain ⟨k, rfl⟩ := Nat.exists_eq_add_one.2 (Nat.zero_lt_of_lt hk)
  rw [Function.iterate_succ_apply, hstep]
  exact hn k (Nat.le_of_succ_le_succ hk)

end SearchState

namespace Evidence

/-- No marks. -/
def empty : Evidence := ⟨false, false, false⟩

/-- Outcome of a search that has come across nothing else. What is described comes before what is not. -/
def outcome (e : Evidence) : Outcome :=
  if e.tooRestrictive then .visibilityViolation
  else if e.sameName then .signatureMismatch
  else if e.undescribed then .resolved
  else .missingMember

/-- The marks of both. -/
def join (a b : Evidence) : Evidence :=
  ⟨a.tooRestrictive || b.tooRestrictive, a.sameName || b.sameName, a.undescribed || b.undescribed⟩

theorem join_assoc (a b c : Evidence) : (a.join b).join c = a.join (b.join c) := by
  simp only [join, Bool.or_assoc]

@[simp] theorem join_empty (e : Evidence) : e.join empty = e := by
  simp only [join, empty, Bool.or_false]

@[simp] theorem empty_join (e : Evidence) : empty.join e = e := by
  simp only [join, empty, Bool.false_or]

end Evidence

namespace MemberQuery

variable {type : Type} [DecidableEq type] (q : MemberQuery type)

/-- Members of the name that a class declares. -/
def namesakes (outline : ClassOutline) : List (DeclaredMember type) :=
  (q.members outline).filter fun m => m.name == q.name

/-- The member is among the namesakes. -/
def finds (namesakes : List (DeclaredMember type)) : Bool :=
  namesakes.any fun m => m.agrees q.descriptor q.isStatic && m.visibility.satisfies q.required

/-- Marks of namesakes none of which is the member. -/
def marks (namesakes : List (DeclaredMember type)) : Evidence where
  tooRestrictive := namesakes.any fun m => m.agrees q.descriptor q.isStatic
  sameName := namesakes.any fun m => !m.agrees q.descriptor q.isStatic
  undescribed := false

/-- Marks after looking at namesakes one after the other, unless one of them is the member. -/
def look (evidence : Evidence) : List (DeclaredMember type) → Option Evidence
  | [] => some evidence
  | m :: ms =>
      if !m.agrees q.descriptor q.isStatic then look { evidence with sameName := true } ms
      else if m.visibility.satisfies q.required then none
      else look { evidence with tooRestrictive := true } ms

variable {q}

theorem finds_append (as bs : List (DeclaredMember type)) :
    q.finds (as ++ bs) = (q.finds as || q.finds bs) := List.any_append

theorem marks_append (as bs : List (DeclaredMember type)) :
    q.marks (as ++ bs) = (q.marks as).join (q.marks bs) := by
  simp only [marks, Evidence.join, List.any_append, Bool.or_false]

theorem marks_cons (m : DeclaredMember type) (ms : List (DeclaredMember type)) :
    q.marks (m :: ms) = Evidence.join
      ⟨m.agrees q.descriptor q.isStatic, !m.agrees q.descriptor q.isStatic, false⟩ (q.marks ms) := by
  simp only [marks, Evidence.join, List.any_cons, Bool.or_false]

/-- Looking at namesakes ends early exactly if one of them is the member. Else their marks are added. -/
theorem look_eq (evidence : Evidence) (ms : List (DeclaredMember type)) :
    q.look evidence ms = if q.finds ms then none else some (evidence.join (q.marks ms)) := by
  induction ms generalizing evidence with
  | nil => exact congrArg some (Evidence.join_empty evidence).symm
  | cons m ms ih =>
      rw [look, finds, List.any_cons, marks_cons, ← Evidence.join_assoc]
      cases hagrees : m.agrees q.descriptor q.isStatic with
      | false => simp [ih, finds, Evidence.join]
      | true =>
          cases hvisible : m.visibility.satisfies q.required with
          | false => simp [ih, finds, Evidence.join]
          | true => simp

/-- Outcome of a search that has these marks and is to walk this hierarchy. -/
def outcomeAfter (q : MemberQuery type) (platform : Platform) (evidence : Evidence) (h : Hierarchy) :
    Outcome :=
  let namesakes := h.namesakes q.members q.name
  if q.finds namesakes then .resolved
  else ((evidence.join (q.marks namesakes)).join ⟨false, false, h.leadsTo platform⟩).outcome

variable {platform : Platform}

/-- Without marks it is the outcome of the hierarchy. -/
theorem outcomeAfter_empty (h : Hierarchy) :
    q.outcomeAfter platform .empty h = .ofNamesakes (h.namesakes q.members q.name) q.descriptor
      q.isStatic q.required (h.leadsTo platform) := by
  generalize hnames : h.namesakes q.members q.name = namesakes
  have hfinds : (namesakes.filter fun m => m.agrees q.descriptor q.isStatic).any
      (fun m => m.visibility.satisfies q.required) = q.finds namesakes := List.any_filter
  have hrestrictive : (!(namesakes.filter fun m => m.agrees q.descriptor q.isStatic).isEmpty) =
      namesakes.any fun m => m.agrees q.descriptor q.isStatic := by
    rw [Bool.eq_iff_iff]
    simp [List.any_eq_true]
  simp only [outcomeAfter, hnames, Outcome.ofNamesakes, Evidence.empty_join, hfinds, hrestrictive]
  split
  · rfl
  · simp only [Evidence.outcome, marks, Evidence.join, Bool.or_false, Bool.false_or]
    split
    · rfl
    · rename_i hnone
      -- without a member that agrees, every namesake is one that does not
      have hsame : (!namesakes.isEmpty) =
          namesakes.any fun m => !m.agrees q.descriptor q.isStatic := by
        cases namesakes with
        | nil => rfl
        | cons m ms =>
            rw [List.any_cons, Bool.or_eq_true, not_or] at hnone
            simp [hnone.1]
      rw [hsame]

/-- A class with the member ends the search, and the marks of another one are added. -/
theorem outcomeAfter_cons (evidence : Evidence) (outline : ClassOutline) (h : Hierarchy) :
    q.outcomeAfter platform evidence ⟨outline :: h.classes, h.absent⟩ =
      match q.look evidence (q.namesakes outline) with
      | none => .resolved
      | some evidence => q.outcomeAfter platform evidence h := by
  have hnamesakes : Hierarchy.namesakes ⟨outline :: h.classes, h.absent⟩ q.members q.name =
      q.namesakes outline ++ h.namesakes q.members q.name := by
    rw [Hierarchy.namesakes, List.flatMap_cons, List.filter_append]
    rfl
  have hleads : Hierarchy.leadsTo ⟨outline :: h.classes, h.absent⟩ platform = h.leadsTo platform := rfl
  rw [outcomeAfter, hnamesakes, hleads, finds_append, marks_append, look_eq]
  cases q.finds (q.namesakes outline) with
  | true => rfl
  | false =>
      rw [Bool.false_or, ← Evidence.join_assoc evidence]
      rfl

/-- A superclass on the platform is a mark. -/
theorem outcomeAfter_absent (evidence : Evidence) (next : Supertype) (h : Hierarchy) :
    q.outcomeAfter platform evidence ⟨h.classes, next :: h.absent⟩ =
      q.outcomeAfter platform
        (evidence.join ⟨false, false, next.onChain && platform.provides next.name⟩) h := by
  have hnamesakes : Hierarchy.namesakes ⟨h.classes, next :: h.absent⟩ q.members q.name =
      h.namesakes q.members q.name := rfl
  have hleads : Hierarchy.leadsTo ⟨h.classes, next :: h.absent⟩ platform =
      (next.onChain && platform.provides next.name || h.leadsTo platform) := List.any_cons
  simp only [outcomeAfter, marks, Evidence.join, hnamesakes, hleads, Bool.or_false, Bool.or_assoc]

end MemberQuery

/-! ## Steps -/

namespace Context

variable {type : Type} [DecidableEq type]

/-- One step of the search. A name that has been visited before is only taken off the queue. -/
def searchStep (c : Context) (platform : Platform) (follow : Bool) (q : MemberQuery type) :
    SearchState → SearchState
  | .ended outcome => .ended outcome
  | .going evidence _ [] => .ended evidence.outcome
  | .going evidence visited (next :: rest) =>
      if next.name ∈ visited then .going evidence visited rest
      else
        match c.find? next.name.text with
        | none =>
            let undescribed := evidence.undescribed || next.onChain && platform.provides next.name
            .going { evidence with undescribed := undescribed } (next.name :: visited) rest
        | some outline =>
            match q.look evidence (q.namesakes outline) with
            | none => .ended .resolved
            | some evidence =>
                .going evidence (next.name :: visited) (rest ++ outline.supertypes follow next.onChain)

variable {c : Context} {platform : Platform} {follow : Bool} {q : MemberQuery type}

theorem endsWith_ended (outcome : Outcome) :
    (SearchState.ended outcome).EndsWith (c.searchStep platform follow q) outcome :=
  ⟨0, fun k _ => Function.iterate_fixed rfl k⟩

/-- From every state the search comes to an end, with the outcome of the hierarchy that is still to be
walked. -/
theorem endsWith_searchStep (evidence : Evidence) (visited : List BinaryName)
    (pending : List Supertype) :
    (SearchState.going evidence visited pending).EndsWith (c.searchStep platform follow q)
      (q.outcomeAfter platform evidence (c.walk follow visited pending)) := by
  -- the induction follows the walk: for each of its equations the search takes one step
  fun_induction walk c follow visited pending generalizing evidence with
  | case1 visited =>
      have houtcome : q.outcomeAfter platform evidence ⟨[], []⟩ = evidence.outcome := by
        have hnone : (evidence.join (q.marks [])).join ⟨false, false, false⟩ = evidence := by
          rw [Evidence.join_assoc]
          exact Evidence.join_empty evidence
        exact congrArg Evidence.outcome hnone
      rw [houtcome]
      exact (endsWith_ended _).of_step rfl
  | case2 visited next rest hvisited ih =>
      apply (ih evidence).of_step
      rw [searchStep, if_pos hvisited]
  | case3 visited next rest hfirst hnone h ih =>
      rw [MemberQuery.outcomeAfter_absent]
      apply (ih _).of_step
      rw [searchStep, if_neg hfirst, hnone]
      simp only [Evidence.join, Bool.or_false]
  | case4 visited next rest hfirst outline hsome h ih =>
      rw [MemberQuery.outcomeAfter_cons]
      cases hlook : q.look evidence (q.namesakes outline) with
      -- the walk goes on here, but nothing that it still comes by changes the outcome
      | none =>
          apply (endsWith_ended _).of_step
          simp only [searchStep, if_neg hfirst, hsome, hlook]
      | some evidence' =>
          apply (ih evidence').of_step
          simp only [searchStep, if_neg hfirst, hsome, hlook]

/-- The search for a member of a class ends with the outcome of looking for it in the hierarchy of the
class. -/
theorem endsWith_findMember (owner : BinaryName) :
    (SearchState.going .empty [] [⟨owner, true⟩]).EndsWith (c.searchStep platform follow q)
      (c.findMember platform follow q.members owner q.name q.descriptor q.isStatic q.required) := by
  rw [findMember, ← MemberQuery.outcomeAfter_empty]
  exact endsWith_searchStep .empty [] [⟨owner, true⟩]

end Context

end Linkage
