import Linkage.Proofs.Supertypes

/-!
# The walk through a hierarchy

The walk takes names from a queue, passes over the ones it has visited and queues the supertypes of
a class that it finds. Two invariants tell what it delivers.

* `Frontier`: every queued name is reached from the owner, and whatever a visited name names is
  visited or queued. Hence the walk finds exactly the classes that are reached
  (`mem_hierarchy_classes_iff`).
* `Layers`: the queue is the rest of one layer and the beginning of the next one, and the marked
  name of a layer, which superclasses alone lead to, stands at its front. Hence an absent name ends
  up marked exactly if the superclasses leave the context there and no way over fewer supertypes
  leads to it (`marked_mem_hierarchy_absent_iff`).
-/

set_option autoImplicit false

namespace Linkage.Context

variable {c : Context} {follow : Bool} {owner a b : BinaryName} {visited : List BinaryName}
  {next : Supertype} {rest pending near far : List Supertype} {outline : ClassOutline} {k : Nat}

/-! ## One step of the walk -/

theorem walk_nil : c.walk follow visited [] = ⟨[], []⟩ := by
  rw [walk]

theorem walk_cons_visited (h : next.name ∈ visited) :
    c.walk follow visited (next :: rest) = c.walk follow visited rest := by
  rw [walk, if_pos h]

theorem walk_cons_absent (h : next.name ∉ visited) (habsent : c.find? next.name.text = none) :
    c.walk follow visited (next :: rest) =
      ⟨(c.walk follow (next.name :: visited) rest).classes,
        next :: (c.walk follow (next.name :: visited) rest).absent⟩ := by
  rw [walk, if_neg h]
  split
  · rfl
  · rename_i hfound
    rw [habsent] at hfound
    cases hfound

theorem walk_cons_found (h : next.name ∉ visited) (hfound : c.find? next.name.text = some outline) :
    c.walk follow visited (next :: rest) =
      ⟨outline :: (c.walk follow (next.name :: visited)
          (rest ++ outline.supertypes follow next.onChain)).classes,
        (c.walk follow (next.name :: visited)
          (rest ++ outline.supertypes follow next.onChain)).absent⟩ := by
  rw [walk, if_neg h]
  split
  · rename_i habsent
    rw [habsent] at hfound
    cases hfound
  · rename_i outline' hfound'
    rw [hfound] at hfound'
    cases hfound'
    rfl

/-! ## Visited and queued names -/

/-- A name is in the queue. -/
def Queued (pending : List Supertype) (name : BinaryName) : Prop := ∃ s ∈ pending, s.name = name

theorem not_queued_nil : ¬ Queued [] a := by
  rintro ⟨s, hs, -⟩
  cases hs

theorem queued_cons_iff : Queued (next :: rest) a ↔ next.name = a ∨ Queued rest a := by
  simp [Queued]

theorem queued_append_iff : Queued (near ++ far) a ↔ Queued near a ∨ Queued far a := by
  simp [Queued, or_and_right, exists_or]

/-- What the walk from the owner keeps of its visited names and its queue. -/
structure Frontier (c : Context) (follow : Bool) (owner : BinaryName) (visited : List BinaryName)
    (pending : List Supertype) : Prop where
  started : owner ∈ visited ∨ Queued pending owner
  reached : ∀ {a}, Queued pending a → c.Reaches follow owner a
  closed : ∀ {a b}, a ∈ visited → c.NamesSupertype follow a b → b ∈ visited ∨ Queued pending b

namespace Frontier

theorem start : Frontier c follow owner [] [⟨owner, true⟩] where
  started := Or.inr ⟨_, List.mem_singleton_self _, rfl⟩
  reached := by
    rintro a ⟨s, hs, rfl⟩
    rw [List.mem_singleton.1 hs]
  closed := fun h => absurd h List.not_mem_nil

/-- A visited name leaves the queue. -/
theorem skip (h : Frontier c follow owner visited (next :: rest)) (hvisited : next.name ∈ visited) :
    Frontier c follow owner visited rest := by
  have hdrop : ∀ {a}, a ∈ visited ∨ Queued (next :: rest) a → a ∈ visited ∨ Queued rest a := by
    rintro a (ha | ha)
    · exact Or.inl ha
    · rcases queued_cons_iff.1 ha with rfl | ha
      · exact Or.inl hvisited
      · exact Or.inr ha
  exact ⟨hdrop h.started, fun ha => h.reached (queued_cons_iff.2 (Or.inr ha)),
    fun ha hab => hdrop (h.closed ha hab)⟩

/-- A name is visited when exactly the names that it names are queued behind the others. -/
theorem visit {added : List Supertype} (h : Frontier c follow owner visited (next :: rest))
    (hadded : ∀ {b}, Queued added b ↔ c.NamesSupertype follow next.name b) :
    Frontier c follow owner (next.name :: visited) (rest ++ added) := by
  have hdrop : ∀ {a}, a ∈ visited ∨ Queued (next :: rest) a →
      a ∈ next.name :: visited ∨ Queued (rest ++ added) a := by
    rintro a (ha | ha)
    · exact Or.inl (List.mem_cons_of_mem _ ha)
    · rcases queued_cons_iff.1 ha with rfl | ha
      · exact Or.inl List.mem_cons_self
      · exact Or.inr (queued_append_iff.2 (Or.inl ha))
  have hnext : c.Reaches follow owner next.name := h.reached (queued_cons_iff.2 (Or.inl rfl))
  refine ⟨hdrop h.started, fun ha => ?_, fun ha hab => ?_⟩
  · rcases queued_append_iff.1 ha with ha | ha
    · exact h.reached (queued_cons_iff.2 (Or.inr ha))
    · exact hnext.tail (hadded.1 ha)
  · rcases List.mem_cons.1 ha with rfl | ha
    · exact Or.inr (queued_append_iff.2 (Or.inr (hadded.2 hab)))
    · exact hdrop (h.closed ha hab)

/-- An absent name names nothing. -/
theorem visit_absent (h : Frontier c follow owner visited (next :: rest))
    (habsent : c.find? next.name.text = none) :
    Frontier c follow owner (next.name :: visited) rest := by
  have hadded : ∀ {b}, Queued [] b ↔ c.NamesSupertype follow next.name b :=
    iff_of_false not_queued_nil (not_namesSupertype_of_absent habsent)
  simpa using h.visit hadded

theorem visit_found (h : Frontier c follow owner visited (next :: rest))
    (hfound : c.find? next.name.text = some outline) :
    Frontier c follow owner (next.name :: visited)
      (rest ++ outline.supertypes follow next.onChain) :=
  h.visit (exists_mem_supertypes_iff next.onChain hfound)

/-- With nothing left in the queue everything that is reached has been visited. -/
theorem mem_visited_of_reaches (h : Frontier c follow owner visited [])
    (hreach : c.Reaches follow owner a) : a ∈ visited := by
  have hdrop : ∀ {a}, a ∈ visited ∨ Queued [] a → a ∈ visited :=
    fun ha => ha.resolve_right not_queued_nil
  induction hreach with
  | refl => exact hdrop h.started
  | tail _ hstep ih => exact hdrop (h.closed ih hstep)

/-- From a frontier the walk finds the classes that are reached and have not been visited. -/
theorem mem_classes_iff (h : Frontier c follow owner visited pending) :
    outline ∈ (c.walk follow visited pending).classes ↔
      ∃ name, name ∉ visited ∧ c.Reaches follow owner name ∧ c.find? name.text = some outline := by
  induction visited, pending using walk.induct c follow with
  | case1 visited =>
      -- the queue is empty: what is reached has been visited
      rw [walk_nil]
      refine iff_of_false List.not_mem_nil ?_
      rintro ⟨name, hname, hreach, -⟩
      exact hname (h.mem_visited_of_reaches hreach)
  | case2 visited next rest hvisited ih =>
      -- a visited name is passed over
      rw [walk_cons_visited hvisited]
      exact ih (h.skip hvisited)
  | case3 visited next rest hfirst habsent ih =>
      -- an absent name has no class, so it is left out on both sides
      rw [walk_cons_absent hfirst habsent, ih (h.visit_absent habsent)]
      constructor
      · rintro ⟨name, hname, hreach, hfound⟩
        exact ⟨name, fun hmem => hname (List.mem_cons_of_mem _ hmem), hreach, hfound⟩
      · rintro ⟨name, hname, hreach, hfound⟩
        refine ⟨name, fun hmem => ?_, hreach, hfound⟩
        rcases List.mem_cons.1 hmem with rfl | hmem
        · rw [habsent] at hfound
          cases hfound
        · exact hname hmem
  | case4 visited next rest hfirst found hfound ih =>
      -- the class that is found is delivered, and the others have other names
      rw [walk_cons_found hfirst hfound, List.mem_cons, ih (h.visit_found hfound)]
      constructor
      · rintro (rfl | ⟨name, hname, hreach, hfound'⟩)
        · exact ⟨next.name, hfirst, h.reached (queued_cons_iff.2 (Or.inl rfl)), hfound⟩
        · exact ⟨name, fun hmem => hname (List.mem_cons_of_mem _ hmem), hreach, hfound'⟩
      · rintro ⟨name, hname, hreach, hfound'⟩
        by_cases heq : name = next.name
        · subst heq
          rw [hfound] at hfound'
          exact Or.inl (Option.some.inj hfound').symm
        · refine Or.inr ⟨name, fun hmem => ?_, hreach, hfound'⟩
          rcases List.mem_cons.1 hmem with hmem | hmem
          · exact heq hmem
          · exact hname hmem

end Frontier

/-- The search for a member looks at exactly the classes that are reached from the owner. -/
theorem mem_hierarchy_classes_iff :
    outline ∈ (c.hierarchy follow owner).classes ↔ c.InReach follow owner outline := by
  rw [hierarchy, Frontier.start.mem_classes_iff]
  simp [InReach]

/-! ## Layers -/

/-- What the walk from the owner keeps while the names that `k` supertypes lead to are at the front
of its queue and the names one supertype further are behind them. -/
structure Layers (c : Context) (follow : Bool) (owner : BinaryName) (k : Nat)
    (visited : List BinaryName) (near far : List Supertype) : Prop where
  /-- Visited names are no further away than this layer. -/
  visited_within : ∀ {a}, a ∈ visited → ∃ m ≤ k, c.ReachesIn follow owner m a
  near_at : ∀ {a}, Queued near a → c.ReachesIn follow owner k a
  far_at : ∀ {a}, Queued far a → c.ReachesIn follow owner (k + 1) a
  /-- The layers in front of this one have been visited. -/
  below : ∀ {m a}, m < k → c.ReachesIn follow owner m a → a ∈ visited
  here : ∀ {a}, c.ReachesIn follow owner k a → a ∈ visited ∨ Queued near a
  closed : ∀ {a b}, a ∈ visited → c.NamesSupertype follow a b →
    b ∈ visited ∨ Queued near b ∨ Queued far b
  /-- Superclasses alone lead to marked names. -/
  near_marked : ∀ {s}, s ∈ near → s.onChain = true → c.ancestor? owner k = some s.name
  far_marked : ∀ {s}, s ∈ far → s.onChain = true → c.ancestor? owner (k + 1) = some s.name
  /-- The marked name of a layer is the first one of it, so that it is visited as a marked one. -/
  near_front : ∀ {a}, c.ancestor? owner k = some a → c.NoShorterWay follow owner k a →
    a ∈ visited ∨ (near.head? = some ⟨a, true⟩ ∧ far = [])
  far_front : ∀ {a b}, a ∈ visited → c.ancestor? owner k = some a →
    c.NoShorterWay follow owner k a → c.superclass? a = some b → far.head? = some ⟨b, true⟩

namespace Layers

theorem start : Layers c follow owner 0 [] [⟨owner, true⟩] [] where
  visited_within := fun h => absurd h List.not_mem_nil
  near_at := by
    rintro a ⟨s, hs, rfl⟩
    rw [List.mem_singleton.1 hs]
    exact .start
  far_at := fun h => absurd h not_queued_nil
  below := fun h => absurd h (Nat.not_lt_zero _)
  here := fun h => Or.inr ⟨_, List.mem_singleton_self _, (reachesIn_zero_iff.1 h).symm⟩
  closed := fun h => absurd h List.not_mem_nil
  near_marked := by
    intro s hs _
    rw [List.mem_singleton.1 hs]
    rfl
  far_marked := fun h => absurd h List.not_mem_nil
  near_front := by
    intro a ha _
    cases ha
    exact Or.inr ⟨rfl, rfl⟩
  far_front := fun h => absurd h List.not_mem_nil

/-- When a layer has been passed the next one begins. -/
theorem advance (h : Layers c follow owner k visited [] far) :
    Layers c follow owner (k + 1) visited far [] where
  visited_within := by
    intro a ha
    obtain ⟨m, hm, hreach⟩ := h.visited_within ha
    exact ⟨m, by omega, hreach⟩
  near_at := h.far_at
  far_at := fun ha => absurd ha not_queued_nil
  below := by
    intro m a hm hreach
    rcases Nat.lt_succ_iff_lt_or_eq.1 hm with hlt | rfl
    · exact h.below hlt hreach
    · exact (h.here hreach).resolve_right not_queued_nil
  here := by
    intro b hreach
    obtain ⟨a, ha, hab⟩ := reachesIn_succ_iff.1 hreach
    rcases h.closed ((h.here ha).resolve_right not_queued_nil) hab with hb | hb | hb
    · exact Or.inl hb
    · exact absurd hb not_queued_nil
    · exact Or.inr hb
  closed := by
    intro a b ha hab
    rcases h.closed ha hab with hb | hb | hb
    · exact Or.inl hb
    · exact absurd hb not_queued_nil
    · exact Or.inr (Or.inl hb)
  near_marked := h.far_marked
  far_marked := fun hs => absurd hs List.not_mem_nil
  near_front := by
    intro b hb hshort
    obtain ⟨a, ha, hsuper⟩ := ancestor?_succ_eq_some_iff.1 hb
    have hshortA : c.NoShorterWay follow owner k a := fun m hm hreach =>
      hshort (m + 1) (by omega) (.step hreach (namesSupertype_of_superclass? hsuper))
    -- the layer is empty, so its marked name is no longer at the front
    have hvisited : a ∈ visited := by
      rcases h.near_front ha hshortA with hmem | ⟨hhead, -⟩
      · exact hmem
      · cases hhead
    exact Or.inr ⟨h.far_front hvisited ha hshortA hsuper, rfl⟩
  far_front := by
    -- a name of the new layer that has been visited was reached over fewer supertypes
    intro a b ha _ hshort _
    obtain ⟨m, hm, hreach⟩ := h.visited_within ha
    exact absurd hreach (hshort m (by omega))

/-- A visited name leaves the queue. -/
theorem skip (h : Layers c follow owner k visited (next :: near) far)
    (hvisited : next.name ∈ visited) : Layers c follow owner k visited near far where
  visited_within := h.visited_within
  near_at := fun ha => h.near_at (queued_cons_iff.2 (Or.inr ha))
  far_at := h.far_at
  below := h.below
  here := by
    intro a ha
    rcases h.here ha with hmem | hqueued
    · exact Or.inl hmem
    · rcases queued_cons_iff.1 hqueued with rfl | hqueued
      · exact Or.inl hvisited
      · exact Or.inr hqueued
  closed := by
    intro a b ha hab
    rcases h.closed ha hab with hmem | hqueued | hqueued
    · exact Or.inl hmem
    · rcases queued_cons_iff.1 hqueued with rfl | hqueued
      · exact Or.inl hvisited
      · exact Or.inr (Or.inl hqueued)
    · exact Or.inr (Or.inr hqueued)
  near_marked := fun hs => h.near_marked (List.mem_cons_of_mem _ hs)
  far_marked := h.far_marked
  near_front := by
    intro a ha hshort
    rcases h.near_front ha hshort with hmem | ⟨hhead, -⟩
    · exact Or.inl hmem
    · cases hhead
      exact Or.inl hvisited
  far_front := h.far_front

/-- A name is visited when exactly the names that it names are queued behind the next layer, its
superclass in front and marked as the name itself is. -/
theorem visit {added : List Supertype} (h : Layers c follow owner k visited (next :: near) far)
    (hfirst : next.name ∉ visited)
    (hadded : ∀ {b}, Queued added b ↔ c.NamesSupertype follow next.name b)
    (hmarked : ∀ {s}, s ∈ added → s.onChain = true →
      next.onChain = true ∧ c.superclass? next.name = some s.name)
    (hfront : ∀ {b}, c.superclass? next.name = some b → added.head? = some ⟨b, next.onChain⟩) :
    Layers c follow owner k (next.name :: visited) near (far ++ added) where
  visited_within := by
    intro a ha
    rcases List.mem_cons.1 ha with rfl | ha
    · exact ⟨k, Nat.le_refl k, h.near_at (queued_cons_iff.2 (Or.inl rfl))⟩
    · exact h.visited_within ha
  near_at := fun ha => h.near_at (queued_cons_iff.2 (Or.inr ha))
  far_at := by
    intro a ha
    rcases queued_append_iff.1 ha with ha | ha
    · exact h.far_at ha
    · exact .step (h.near_at (queued_cons_iff.2 (Or.inl rfl))) (hadded.1 ha)
  below := fun hm hreach => List.mem_cons_of_mem _ (h.below hm hreach)
  here := by
    intro a ha
    rcases h.here ha with hmem | hqueued
    · exact Or.inl (List.mem_cons_of_mem _ hmem)
    · rcases queued_cons_iff.1 hqueued with rfl | hqueued
      · exact Or.inl List.mem_cons_self
      · exact Or.inr hqueued
  closed := by
    intro a b ha hab
    rcases List.mem_cons.1 ha with rfl | ha
    · exact Or.inr (Or.inr (queued_append_iff.2 (Or.inr (hadded.2 hab))))
    · rcases h.closed ha hab with hmem | hqueued | hqueued
      · exact Or.inl (List.mem_cons_of_mem _ hmem)
      · rcases queued_cons_iff.1 hqueued with rfl | hqueued
        · exact Or.inl List.mem_cons_self
        · exact Or.inr (Or.inl hqueued)
      · exact Or.inr (Or.inr (queued_append_iff.2 (Or.inl hqueued)))
  near_marked := fun hs => h.near_marked (List.mem_cons_of_mem _ hs)
  far_marked := by
    intro s hs hon
    rcases List.mem_append.1 hs with hs | hs
    · exact h.far_marked hs hon
    · obtain ⟨hnext, hsuper⟩ := hmarked hs hon
      exact ancestor?_succ_eq_some_iff.2 ⟨_, h.near_marked List.mem_cons_self hnext, hsuper⟩
  near_front := by
    intro a ha hshort
    rcases h.near_front ha hshort with hmem | ⟨hhead, -⟩
    · exact Or.inl (List.mem_cons_of_mem _ hmem)
    · cases hhead
      exact Or.inl List.mem_cons_self
  far_front := by
    intro a b ha hancestor hshort hsuper
    rcases h.near_front hancestor hshort with hmem | ⟨hhead, rfl⟩
    · -- it was visited before, and what is added now goes behind its superclass
      have hhead := h.far_front hmem hancestor hshort hsuper
      simp [List.head?_append, hhead]
    · -- the marked name is visited right now, and nothing of the next layer is queued yet
      cases hhead
      exact hfront hsuper

theorem visit_absent (h : Layers c follow owner k visited (next :: near) far)
    (hfirst : next.name ∉ visited) (habsent : c.find? next.name.text = none) :
    Layers c follow owner k (next.name :: visited) near far := by
  have hadded : ∀ {b}, Queued [] b ↔ c.NamesSupertype follow next.name b :=
    iff_of_false not_queued_nil (not_namesSupertype_of_absent habsent)
  have hsuper : c.superclass? next.name = none := by simp [superclass?, habsent]
  have hvisit := h.visit hfirst hadded (fun hs => absurd hs List.not_mem_nil)
    (fun hb => absurd hb (by simp [hsuper]))
  simpa using hvisit

theorem visit_found (h : Layers c follow owner k visited (next :: near) far)
    (hfirst : next.name ∉ visited) (hfound : c.find? next.name.text = some outline) :
    Layers c follow owner k (next.name :: visited) near
      (far ++ outline.supertypes follow next.onChain) := by
  have hsuper : ∀ {b}, c.superclass? next.name = some b ↔ outline.superClass = some b := by
    intro b
    simp [superclass?, hfound]
  refine h.visit hfirst (exists_mem_supertypes_iff next.onChain hfound) ?_ ?_
  · intro s hs hon
    rcases mem_supertypes_iff.1 hs with ⟨hname, hmark⟩ | ⟨-, -, hmark⟩
    · exact ⟨hmark.symm.trans hon, hsuper.2 hname⟩
    · rw [hmark] at hon
      cases hon
  · intro b hb
    simp [ClassOutline.supertypes, hsuper.1 hb]

/-- The layers are a frontier. -/
theorem frontier (h : Layers c follow owner k visited near far) :
    Frontier c follow owner visited (near ++ far) where
  started := by
    rw [queued_append_iff]
    rcases Nat.eq_zero_or_pos k with rfl | hk
    · exact (h.here .start).imp_right Or.inl
    · exact Or.inl (h.below hk .start)
  reached := by
    intro a ha
    rcases queued_append_iff.1 ha with ha | ha
    · exact (h.near_at ha).reaches
    · exact (h.far_at ha).reaches
  closed := by
    intro a b ha hab
    rw [queued_append_iff]
    exact h.closed ha hab

/-- The first name of the queue is the first one of a layer. -/
theorem exists_front (h : Layers c follow owner k visited near far)
    (hpending : near ++ far = next :: rest) :
    ∃ k' near' far', Layers c follow owner k' visited (next :: near') far' ∧
      near' ++ far' = rest := by
  cases near with
  | nil =>
      rw [List.nil_append] at hpending
      subst hpending
      exact ⟨k + 1, rest, [], h.advance, List.append_nil rest⟩
  | cons s near' =>
      obtain ⟨rfl, hrest⟩ := List.cons.inj hpending
      exact ⟨k, near', far, h, hrest⟩

/-- An absent name that is visited first is marked exactly if superclasses lead there and no way
over fewer supertypes does. -/
theorem front_marked_iff (h : Layers c follow owner k visited (next :: near) far)
    (hfirst : next.name ∉ visited) (habsent : c.find? next.name.text = none) :
    next.onChain = true ↔ c.EndsFirstAt follow owner next.name := by
  have hat : c.ReachesIn follow owner k next.name := h.near_at (queued_cons_iff.2 (Or.inl rfl))
  constructor
  · intro hon
    exact ⟨habsent, k, h.near_marked List.mem_cons_self hon,
      fun m hm hreach => hfirst (h.below hm hreach)⟩
  · rintro ⟨-, n, hn, hshort⟩
    -- superclasses lead there over as many names as lie before the layer: fewer would have been
    -- visited, and more would be longer than the way into the layer
    have hnk : n = k := by
      rcases Nat.lt_trichotomy n k with hlt | heq | hlt
      · exact absurd (h.below hlt (reachesIn_of_ancestor? hn)) hfirst
      · exact heq
      · exact absurd hat (hshort k hlt)
    subst hnk
    rcases h.near_front hn hshort with hmem | ⟨hhead, -⟩
    · exact absurd hmem hfirst
    · exact congrArg Supertype.onChain (Option.some.inj hhead)

/-- Between layers, the walk goes on to deliver as marked exactly the names that have not been
visited and at which superclasses leave the context, with no way over fewer supertypes. -/
theorem marked_mem_absent_iff (h : Layers c follow owner k visited near far) :
    ⟨a, true⟩ ∈ (c.walk follow visited (near ++ far)).absent ↔
      a ∉ visited ∧ c.EndsFirstAt follow owner a := by
  generalize hpending : near ++ far = pending
  induction visited, pending using walk.induct c follow generalizing k near far with
  | case1 visited =>
      -- the queue is empty: the end of the superclasses is reached and so has been visited
      rw [walk_nil]
      refine iff_of_false List.not_mem_nil ?_
      rintro ⟨hfirst, -, n, hn, -⟩
      have hfrontier := h.frontier
      rw [hpending] at hfrontier
      exact hfirst (hfrontier.mem_visited_of_reaches (reachesIn_of_ancestor? hn).reaches)
  | case2 visited next rest hvisited ih =>
      -- a visited name is passed over
      obtain ⟨k', near', far', hlayers, hrest⟩ := h.exists_front hpending
      rw [walk_cons_visited hvisited]
      exact ih (hlayers.skip hvisited) hrest
  | case3 visited next rest hfirst habsent ih =>
      obtain ⟨k', near', far', hlayers, hrest⟩ := h.exists_front hpending
      rw [walk_cons_absent hfirst habsent, List.mem_cons,
        ih (hlayers.visit_absent hfirst habsent) hrest, List.mem_cons]
      by_cases heq : a = next.name
      · -- the name itself is delivered, marked as its layer says
        subst heq
        have hmarked := hlayers.front_marked_iff hfirst habsent
        have hnext : (⟨next.name, true⟩ : Supertype) = next ↔ next.onChain = true := by
          cases next
          simp [eq_comm]
        simp [hnext, hmarked, hfirst]
      · have hne : (⟨a, true⟩ : Supertype) ≠ next := fun h => heq (congrArg Supertype.name h)
        simp [heq, hne]
  | case4 visited next rest hfirst found hfound ih =>
      obtain ⟨k', near', far', hlayers, hrest⟩ := h.exists_front hpending
      rw [walk_cons_found hfirst hfound,
        ih (hlayers.visit_found hfirst hfound) (by rw [← hrest, List.append_assoc]), List.mem_cons]
      -- no chain ends at a class that is found
      have hne : c.EndsFirstAt follow owner a → a ≠ next.name := by
        rintro ⟨habsent, -⟩ rfl
        rw [hfound] at habsent
        cases habsent
      constructor
      · rintro ⟨hmem, hends⟩
        exact ⟨fun h => hmem (Or.inr h), hends⟩
      · rintro ⟨hmem, hends⟩
        exact ⟨fun h => h.elim (hne hends) hmem, hends⟩

end Layers

/-- The search marks an absent name exactly if the superclasses of the owner leave the context
there and no way over fewer supertypes leads to it. -/
theorem marked_mem_hierarchy_absent_iff :
    ⟨a, true⟩ ∈ (c.hierarchy follow owner).absent ↔ c.EndsFirstAt follow owner a := by
  have hstart : Layers c follow owner 0 [] ([⟨owner, true⟩] : List Supertype) [] := Layers.start
  have hrun := hstart.marked_mem_absent_iff (a := a)
  rw [List.append_nil] at hrun
  rw [hierarchy, hrun]
  simp

/-! ## Running the walk -/

/-- The walk, given up after so many names of the queue. -/
def walkWithin (c : Context) (followInterfaces : Bool) :
    Nat → List BinaryName → List Supertype → Option Hierarchy
  | _, _, [] => some ⟨[], []⟩
  | 0, _, _ :: _ => none
  | fuel + 1, visited, next :: rest =>
      if next.name ∈ visited then c.walkWithin followInterfaces fuel visited rest
      else
        match c.find? next.name.text with
        | none =>
            (c.walkWithin followInterfaces fuel (next.name :: visited) rest).map fun h =>
              ⟨h.classes, next :: h.absent⟩
        | some outline =>
            (c.walkWithin followInterfaces fuel (next.name :: visited)
              (rest ++ outline.supertypes followInterfaces next.onChain)).map fun h =>
                ⟨outline :: h.classes, h.absent⟩

/-- A walk that is not given up is the walk. -/
theorem walk_eq_of_walkWithin (fuel : Nat) {h : Hierarchy}
    (hrun : c.walkWithin follow fuel visited pending = some h) :
    c.walk follow visited pending = h := by
  induction fuel generalizing visited pending h with
  | zero =>
      cases pending with
      | nil =>
          rw [walk_nil]
          exact Option.some.inj hrun
      | cons next rest => cases hrun
  | succ fuel ih =>
      cases pending with
      | nil =>
          rw [walk_nil]
          exact Option.some.inj hrun
      | cons next rest =>
          rw [walkWithin] at hrun
          -- the same three cases as in the walk
          split at hrun
          · rename_i hvisited
            rw [walk_cons_visited hvisited, ih hrun]
          · rename_i hfirst
            split at hrun
            · rename_i habsent
              obtain ⟨h', hrun', rfl⟩ := Option.map_eq_some_iff.1 hrun
              rw [walk_cons_absent hfirst habsent, ih hrun']
            · rename_i outline hfound
              obtain ⟨h', hrun', rfl⟩ := Option.map_eq_some_iff.1 hrun
              rw [walk_cons_found hfirst hfound, ih hrun']

end Linkage.Context
