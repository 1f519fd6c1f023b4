import Mathlib.Data.List.Forall2

/-!
# Computations that can fail

What it means that a computation which can fail has a result: all its steps have one. For a list of
elements that go through one step each, the results stand beside their elements (`mapM_eq_ok_iff`),
so every result comes from an element (`mem_iff_of_mapM`), and there are results for the list exactly
if there is one for each element (`exists_mapM_eq_ok_iff`).

A loop whose steps put results into a state puts all of them into it (`foldlM_eq_ok_iff`), or it ends at
the first element whose step fails (`foldlM_eq_error_iff`).
-/

set_option autoImplicit false

namespace Linkage.Fallible

variable {ε α β γ : Type}

theorem pure_eq_ok_iff {a b : α} : (pure a : Except ε α) = .ok b ↔ a = b :=
  Except.ok.injEq a b ▸ Iff.rfl

theorem bind_eq_ok_iff {x : Except ε α} {f : α → Except ε β} {b : β} :
    x >>= f = .ok b ↔ ∃ a, x = .ok a ∧ f a = .ok b := by
  cases x with
  | error e => simp [bind, Except.bind]
  | ok a => simp [bind, Except.bind]

theorem bind_eq_error_iff {x : Except ε α} {f : α → Except ε β} {e : ε} :
    x >>= f = .error e ↔ x = .error e ∨ ∃ a, x = .ok a ∧ f a = .error e := by
  cases x with
  | error e' => simp [bind, Except.bind]
  | ok a => simp [bind, Except.bind]

/-- Naming the fault in another way changes no result. -/
theorem mapError_eq_ok_iff {ε' : Type} {x : Except ε α} {g : ε → ε'} {a : α} :
    x.mapError g = .ok a ↔ x = .ok a := by
  cases x with
  | error e => simp [Except.mapError]
  | ok a' => simp [Except.mapError]

theorem mapError_eq_error_iff {ε' : Type} {x : Except ε α} {g : ε → ε'} {e' : ε'} :
    x.mapError g = .error e' ↔ ∃ e, x = .error e ∧ g e = e' := by
  cases x with
  | error e => simp [Except.mapError]
  | ok a => simp [Except.mapError]

theorem map_eq_ok_iff {x : Except ε α} {g : α → β} {b : β} :
    g <$> x = .ok b ↔ ∃ a, x = .ok a ∧ g a = b := by
  cases x with
  | error e => simp [Functor.map, Except.map]
  | ok a => simp [Functor.map, Except.map]

theorem map_eq_error_iff {x : Except ε α} {g : α → β} {e : ε} : g <$> x = .error e ↔ x = .error e := by
  cases x with
  | error e' => simp [Functor.map, Except.map]
  | ok a => simp [Functor.map, Except.map]

variable {f : α → Except ε β} {xs : List α} {ys : List β}

/-- A list goes through with results that stand beside their elements. -/
theorem mapM_eq_ok_iff : xs.mapM f = .ok ys ↔ List.Forall₂ (fun x y => f x = .ok y) xs ys := by
  induction xs generalizing ys with
  | nil => rw [List.mapM_nil, pure_eq_ok_iff, List.forall₂_nil_left_iff, eq_comm]
  | cons x xs ih =>
      rw [List.mapM_cons, bind_eq_ok_iff, List.forall₂_cons_left_iff]
      constructor
      · rintro ⟨y, hy, hrest⟩
        obtain ⟨ys', hys', hcons⟩ := bind_eq_ok_iff.1 hrest
        exact ⟨y, ys', hy, ih.1 hys', (pure_eq_ok_iff.1 hcons).symm⟩
      · rintro ⟨y, ys', hy, hys', rfl⟩
        exact ⟨y, hy, bind_eq_ok_iff.2 ⟨ys', ih.2 hys', rfl⟩⟩

/-- The results are those of the elements. -/
theorem mem_iff_of_mapM (h : xs.mapM f = .ok ys) {y : β} : y ∈ ys ↔ ∃ x ∈ xs, f x = .ok y := by
  have hforall := mapM_eq_ok_iff.1 h
  clear h
  induction hforall with
  | nil => simp
  | cons hy _ ih =>
      rw [List.mem_cons, List.exists_mem_cons_iff, hy, Except.ok.injEq]
      exact or_congr eq_comm ih

/-- There are elements that stand beside those of a list if there is one for each. -/
theorem exists_forall₂_iff {r : α → β → Prop} :
    (∃ ys, List.Forall₂ r xs ys) ↔ ∀ x ∈ xs, ∃ y, r x y := by
  induction xs with
  | nil => exact ⟨fun _ x hx => absurd hx List.not_mem_nil, fun _ => ⟨[], .nil⟩⟩
  | cons x xs ih =>
      rw [List.forall_mem_cons, ← ih]
      constructor
      · rintro ⟨ys, hys⟩
        obtain ⟨y, ys', hy, hys', -⟩ := List.forall₂_cons_left_iff.1 hys
        exact ⟨⟨y, hy⟩, ys', hys'⟩
      · rintro ⟨⟨y, hy⟩, ys, hys⟩
        exact ⟨y :: ys, .cons hy hys⟩

/-- A list goes through exactly if every element of it does. -/
theorem exists_mapM_eq_ok_iff : (∃ ys, xs.mapM f = .ok ys) ↔ ∀ x ∈ xs, ∃ y, f x = .ok y := by
  simp only [mapM_eq_ok_iff, exists_forall₂_iff]

/-- The results of all elements together, given what is among the results of each one. -/
theorem mem_flatten_iff_of_mapM {f : α → Except ε (List β)} {yss : List (List β)}
    (h : xs.mapM f = .ok yss) {b : β} {p : α → Prop}
    (hp : ∀ x ∈ xs, ∀ ys, f x = .ok ys → (b ∈ ys ↔ p x)) : b ∈ yss.flatten ↔ ∃ x ∈ xs, p x := by
  rw [List.mem_flatten]
  constructor
  · rintro ⟨ys, hys, hb⟩
    obtain ⟨x, hx, hxys⟩ := (mem_iff_of_mapM h).1 hys
    exact ⟨x, hx, (hp x hx ys hxys).1 hb⟩
  · rintro ⟨x, hx, hpx⟩
    obtain ⟨ys, hxys⟩ := exists_mapM_eq_ok_iff.1 ⟨yss, h⟩ x hx
    exact ⟨ys, (mem_iff_of_mapM h).2 ⟨x, hx, hxys⟩, (hp x hx ys hxys).2 hpx⟩

/-- What is done to the result of every step can be done to all results at the end. -/
theorem mapM_map_eq (g : β → γ) : (xs.mapM fun x => g <$> f x) = List.map g <$> xs.mapM f := by
  induction xs with
  | nil => rfl
  | cons x xs ih => simp only [List.mapM_cons, ih, bind_map_left, map_bind, map_pure, List.map_cons]

/-- What a step keeps of an element is kept of the list. -/
theorem map_eq_of_mapM {g : β → γ} {k : α → γ} (h : xs.mapM f = .ok ys)
    (hkeep : ∀ x y, f x = .ok y → g y = k x) : ys.map g = xs.map k := by
  have hforall := mapM_eq_ok_iff.1 h
  clear h
  induction hforall with
  | nil => rfl
  | cons hy _ ih => rw [List.map_cons, List.map_cons, hkeep _ _ hy, ih]

/-- A list that does not go through has the fault of one of its elements. -/
theorem exists_mem_of_mapM_eq_error {e : ε} (h : xs.mapM f = .error e) : ∃ x ∈ xs, f x = .error e := by
  induction xs with
  | nil => cases h
  | cons x xs ih =>
      rw [List.mapM_cons] at h
      rcases bind_eq_error_iff.1 h with hx | ⟨y, -, hrest⟩
      · exact ⟨x, List.mem_cons_self, hx⟩
      · rcases bind_eq_error_iff.1 hrest with htail | ⟨ys, -, hcons⟩
        · obtain ⟨x', hmem, hx'⟩ := ih htail
          exact ⟨x', List.mem_cons_of_mem x hmem, hx'⟩
        · cases hcons

/-- What two steps give for the same element is alike, so what they give for a list is alike, too. -/
theorem forall₂_of_mapM {g : α → Except ε γ} {zs : List γ} {r : β → γ → Prop}
    (hf : xs.mapM f = .ok ys) (hg : xs.mapM g = .ok zs)
    (hr : ∀ x ∈ xs, ∀ y z, f x = .ok y → g x = .ok z → r y z) : List.Forall₂ r ys zs := by
  have hys := mapM_eq_ok_iff.1 hf
  have hzs := mapM_eq_ok_iff.1 hg
  clear hf hg
  induction hys generalizing zs with
  | nil =>
      cases hzs
      exact .nil
  | cons hy _ ih =>
      cases hzs with
      | cons hz hzs =>
          exact .cons (hr _ List.mem_cons_self _ _ hy hz)
            (ih (fun x hx => hr x (List.mem_cons_of_mem _ hx)) hzs)

/-! ## Loops over a state -/

variable {step : γ → α → Except ε γ} {c c' : γ}

/-- A loop whose steps put a result into the state puts the results of all elements into it, in order. -/
theorem foldlM_eq_ok_iff {r : α → β → Prop} {put : γ → β → γ}
    (hstep : ∀ c x c', step c x = .ok c' ↔ ∃ y, r x y ∧ c' = put c y) :
    xs.foldlM step c = .ok c' ↔ ∃ ys, List.Forall₂ r xs ys ∧ c' = ys.foldl put c := by
  induction xs generalizing c with
  | nil =>
      rw [List.foldlM_nil, pure_eq_ok_iff]
      constructor
      · rintro rfl
        exact ⟨[], .nil, rfl⟩
      · rintro ⟨ys, hys, rfl⟩
        rw [List.forall₂_nil_left_iff.1 hys, List.foldl_nil]
  | cons x xs ih =>
      rw [List.foldlM_cons, bind_eq_ok_iff]
      constructor
      · rintro ⟨d, hd, hrest⟩
        obtain ⟨y, hy, rfl⟩ := (hstep c x d).1 hd
        obtain ⟨ys, hys, rfl⟩ := ih.1 hrest
        exact ⟨y :: ys, .cons hy hys, rfl⟩
      · rintro ⟨ys, hys, rfl⟩
        obtain ⟨y, rest, hy, hrest, rfl⟩ := List.forall₂_cons_left_iff.1 hys
        exact ⟨put c y, (hstep c x _).2 ⟨y, hy, rfl⟩, ih.2 ⟨rest, hrest, rfl⟩⟩

/-- A loop ends with the fault of the first element whose step fails. -/
theorem foldlM_eq_error_iff {e : ε} {fails : α → ε → Prop}
    (hfails : ∀ c x e, step c x = .error e ↔ fails x e) :
    xs.foldlM step c = .error e ↔ ∃ front x back c', xs = front ++ x :: back ∧
      front.foldlM step c = .ok c' ∧ fails x e := by
  induction xs generalizing c with
  | nil =>
      rw [List.foldlM_nil]
      constructor
      · intro h
        cases h
      · rintro ⟨front, x, back, c', h, -⟩
        exact absurd h.symm (List.append_ne_nil_of_right_ne_nil front (List.cons_ne_nil x back))
  | cons x xs ih =>
      rw [List.foldlM_cons, bind_eq_error_iff]
      constructor
      · rintro (hx | ⟨d, hd, hrest⟩)
        · exact ⟨[], x, xs, c, rfl, rfl, (hfails c x e).1 hx⟩
        · obtain ⟨front, y, back, c', rfl, hfront, hy⟩ := ih.1 hrest
          exact ⟨x :: front, y, back, c', rfl, bind_eq_ok_iff.2 ⟨d, hd, hfront⟩, hy⟩
      · rintro ⟨front, y, back, c', h, hfront, hy⟩
        cases front with
        | nil =>
            obtain ⟨rfl, -⟩ := List.cons.inj h
            exact Or.inl ((hfails c x e).2 hy)
        | cons d front =>
            obtain ⟨rfl, rfl⟩ := List.cons.inj h
            obtain ⟨d, hd, hfront⟩ := bind_eq_ok_iff.1 hfront
            exact Or.inr ⟨d, hd, ih.2 ⟨front, y, back, c', rfl, hfront, hy⟩⟩

/-- A loop that fails has the fault of one of its steps. -/
theorem exists_of_foldlM_eq_error {e : ε} (h : xs.foldlM step c = .error e) :
    ∃ d x, step d x = .error e := by
  induction xs generalizing c with
  | nil => cases h
  | cons x xs ih =>
      rw [List.foldlM_cons] at h
      rcases bind_eq_error_iff.1 h with hx | ⟨d, -, hrest⟩
      · exact ⟨c, x, hx⟩
      · exact ih hrest

end Linkage.Fallible
