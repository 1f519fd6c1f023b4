import Linkage.Proofs.Interning

/-!
# One map for each kind of constants

The index of a pool builder is one map, whose keys are constants. It can be split into one map for each
kind of constants that a builder is asked for, with what tells the constants of the kind apart for keys
(`IndexMaps`). A builder with such maps does the same as a builder with one index: whatever is asked for,
it gives the same answers and makes the same pool (`MapBuilder.serve_eq`).
-/

set_option autoImplicit false

namespace Linkage

open PoolBuilder

/-- Indices of constants, by kind. -/
structure IndexMaps where
  utf8s : Std.HashMap String PoolIndex
  classes : Std.HashMap PoolIndex PoolIndex
  strings : Std.HashMap PoolIndex PoolIndex
  integers : Std.HashMap Int32 PoolIndex
  longs : Std.HashMap Int64 PoolIndex
  nameAndTypes : Std.HashMap (PoolIndex × PoolIndex) PoolIndex
  fieldRefs : Std.HashMap (PoolIndex × PoolIndex) PoolIndex
  methodRefs : Std.HashMap (PoolIndex × PoolIndex × Bool) PoolIndex

namespace IndexMaps

/-- Maps without constants. -/
def empty : IndexMaps := ⟨∅, ∅, ∅, ∅, ∅, ∅, ∅, ∅⟩

/-- There is a map for the kind of the constant. -/
def HasMap : Constant → Prop
  | .utf8 _ | .classInfo _ | .string _ | .integer _ | .long _ => True
  | .nameAndType _ _ | .fieldRef _ _ | .methodRef _ _ _ => True
  | _ => False

/-- Index of a constant in the map of its kind. -/
def find? (m : IndexMaps) : Constant → Option PoolIndex
  | .utf8 text => m.utf8s[text]?
  | .classInfo name => m.classes[name]?
  | .string text => m.strings[text]?
  | .integer value => m.integers[value]?
  | .long value => m.longs[value]?
  | .nameAndType name descriptor => m.nameAndTypes[(name, descriptor)]?
  | .fieldRef owner signature => m.fieldRefs[(owner, signature)]?
  | .methodRef owner signature isInterface => m.methodRefs[(owner, signature, isInterface)]?
  | _ => none

/-- Maps with the index of one more constant. -/
def insert (m : IndexMaps) (i : PoolIndex) : Constant → IndexMaps
  | .utf8 text => { m with utf8s := m.utf8s.insert text i }
  | .classInfo name => { m with classes := m.classes.insert name i }
  | .string text => { m with strings := m.strings.insert text i }
  | .integer value => { m with integers := m.integers.insert value i }
  | .long value => { m with longs := m.longs.insert value i }
  | .nameAndType name descriptor =>
      { m with nameAndTypes := m.nameAndTypes.insert (name, descriptor) i }
  | .fieldRef owner signature => { m with fieldRefs := m.fieldRefs.insert (owner, signature) i }
  | .methodRef owner signature isInterface =>
      { m with methodRefs := m.methodRefs.insert (owner, signature, isInterface) i }
  | _ => m

theorem find?_empty (c : Constant) : empty.find? c = none := by
  cases c <;> simp [find?, empty]

/-- One more constant is found at its index, and all others where they were. -/
theorem find?_insert (m : IndexMaps) (i : PoolIndex) {c : Constant} (h : HasMap c) (c' : Constant) :
    (m.insert i c).find? c' = if c = c' then some i else m.find? c' := by
  cases c <;> cases c' <;> simp [find?, insert, Std.HashMap.getElem?_insert, HasMap] at h ⊢

end IndexMaps

/-- Pool with maps of its constants. -/
structure MapBuilder where
  pool : ConstantPool
  maps : IndexMaps

namespace MapBuilder

/-! ## Requests -/

/-- Requests to a builder with maps. -/
abbrev MapM (α : Type) : Type := ExceptT ClassError (StateM MapBuilder) α

/-- Builder of a pool without constants. -/
def empty : MapBuilder := ⟨ConstantPool.empty, .empty⟩

/-- Index of a constant, which is added if its map does not have it. -/
def intern (c : Constant) : MapM PoolIndex := fun b =>
  match b.maps.find? c with
  | some i => (.ok i, b)
  | none =>
      let next := b.pool.table.next
      if next + c.width ≤ maxNext then
        let i := UInt16.ofNat next
        (.ok i, ⟨b.pool.push c, b.maps.insert i c⟩)
      else (.error (.poolOverflow next), b)

/-- Index of a class. -/
def classInfo (name : String) : MapM PoolIndex := do intern (.classInfo (← intern (.utf8 name)))

/-- Index of a name with a descriptor. -/
def nameAndType (name descriptor : String) : MapM PoolIndex := do
  intern (.nameAndType (← intern (.utf8 name)) (← intern (.utf8 descriptor)))

/-- What the builder with maps does. -/
def run : Request → MapM PoolIndex
  | .utf8 text => intern (.utf8 text)
  | .classInfo name => classInfo name
  | .string text => do intern (.string (← intern (.utf8 text)))
  | .integer value => intern (.integer value)
  | .long value => intern (.long value)
  | .nameAndType name descriptor => nameAndType name descriptor
  | .fieldRef owner name descriptor => do
      intern (.fieldRef (← classInfo owner) (← nameAndType name descriptor))
  | .methodRef owner name descriptor isInterface => do
      intern (.methodRef (← classInfo owner) (← nameAndType name descriptor) isInterface)

/-- Answers of the builder with maps to a list of requests, and the builder after the last one. -/
def serve : List Request → MapBuilder → Log × MapBuilder
  | [], b => ([], b)
  | r :: rs, b =>
      let first := (run r).run b
      let later := serve rs first.2
      ((r, first.1) :: later.1, later.2)

/-! ## The same answers -/

variable {α β : Type} {m : MapBuilder} {b : PoolBuilder}

/-- The builders have the same pool, and the maps together have what the index has. -/
structure Matches (m : MapBuilder) (b : PoolBuilder) : Prop where
  pool_eq : m.pool = b.pool
  find?_eq : ∀ c, IndexMaps.HasMap c → m.maps.find? c = b.index[c]?

/-- From builders that match, the steps give the same answer and lead to builders that match. -/
def Simulates (x : MapM α) (y : PoolM α) : Prop :=
  ∀ m b, Matches m b → (x.run m).1 = (y.run b).1 ∧ Matches (x.run m).2 (y.run b).2

theorem matches_empty : Matches empty PoolBuilder.empty where
  pool_eq := rfl
  find?_eq := by
    intro c _
    rw [PoolBuilder.empty, Std.HashMap.getElem?_empty]
    exact IndexMaps.find?_empty c

theorem Simulates.bind {x : MapM α} {y : PoolM α} {f : α → MapM β} {g : α → PoolM β}
    (h : Simulates x y) (hnext : ∀ a, Simulates (f a) (g a)) : Simulates (x >>= f) (y >>= g) := by
  intro m b hmatches
  obtain ⟨hanswer, hafter⟩ := h m b hmatches
  rw [run_bind, run_bind]
  generalize x.run m = result at hanswer hafter
  generalize y.run b = result' at hanswer hafter
  obtain ⟨answer, m'⟩ := result
  obtain ⟨answer', b'⟩ := result'
  obtain rfl : answer = answer' := hanswer
  cases answer with
  -- what has been added before a failure stays, in both builders
  | error e => exact ⟨rfl, hafter⟩
  | ok a => exact hnext a m' b' hafter

/-- A constant that has a map is found by both builders or by none, and is added by both or by none. -/
theorem simulates_intern {c : Constant} (hc : IndexMaps.HasMap c) :
    Simulates (intern c) (PoolBuilder.intern c) := by
  rintro ⟨pool, maps⟩ ⟨pool', index⟩ ⟨rfl, hfind⟩
  have hsame := hfind c hc
  simp only [intern, PoolBuilder.intern, ExceptT.run, hsame]
  cases hindex : index[c]? with
  | some i => exact ⟨rfl, rfl, hfind⟩
  | none =>
      -- the pools are the same, so either both have room for the constant or none has
      by_cases hroom : pool.table.next + c.width ≤ maxNext
      · simp only [if_pos hroom]
        refine ⟨trivial, rfl, fun c' hc' => ?_⟩
        rw [IndexMaps.find?_insert maps _ hc, Std.HashMap.getElem?_insert, hfind c' hc']
        by_cases heq : c = c' <;> simp [heq]
      · simp only [if_neg hroom]
        exact ⟨trivial, rfl, hfind⟩

theorem simulates_utf8 (text : String) :
    Simulates (intern (.utf8 text)) (PoolBuilder.utf8 text) := simulates_intern trivial

theorem simulates_classInfo (name : String) :
    Simulates (classInfo name) (PoolBuilder.classInfo name) := by
  apply (simulates_utf8 name).bind
  intro i
  exact simulates_intern trivial

theorem simulates_nameAndType (name descriptor : String) :
    Simulates (nameAndType name descriptor) (PoolBuilder.nameAndType name descriptor) := by
  apply (simulates_utf8 name).bind
  intro i
  apply (simulates_utf8 descriptor).bind
  intro j
  exact simulates_intern trivial

theorem simulates_run (r : Request) : Simulates (run r) r.run := by
  cases r with
  | utf8 text => exact simulates_utf8 text
  | classInfo name => exact simulates_classInfo name
  | string text =>
      apply (simulates_utf8 text).bind
      intro i
      exact simulates_intern trivial
  | integer value => exact simulates_intern trivial
  | long value => exact simulates_intern trivial
  | nameAndType name descriptor => exact simulates_nameAndType name descriptor
  | fieldRef owner name descriptor =>
      apply (simulates_classInfo owner).bind
      intro i
      apply (simulates_nameAndType name descriptor).bind
      intro j
      exact simulates_intern trivial
  | methodRef owner name descriptor isInterface =>
      apply (simulates_classInfo owner).bind
      intro i
      apply (simulates_nameAndType name descriptor).bind
      intro j
      exact simulates_intern trivial

/-- Builders that match answer the same to a list of requests, and match after it. -/
theorem serve_matches (rs : List Request) (h : Matches m b) :
    (serve rs m).1 = (PoolBuilder.serve rs b).1 ∧
      Matches (serve rs m).2 (PoolBuilder.serve rs b).2 := by
  induction rs generalizing m b with
  | nil => exact ⟨rfl, h⟩
  | cons r rs ih =>
      obtain ⟨hanswer, hafter⟩ := simulates_run r m b h
      obtain ⟨hlog, hlater⟩ := ih hafter
      refine ⟨?_, hlater⟩
      rw [serve, PoolBuilder.serve, hanswer, hlog]

/-- One map for each kind of constants and one index of all constants lead to the same answers and to the
same pool. -/
theorem serve_eq (rs : List Request) :
    (serve rs empty).1 = (PoolBuilder.serve rs PoolBuilder.empty).1 ∧
      (serve rs empty).2.pool = (PoolBuilder.serve rs PoolBuilder.empty).2.pool := by
  obtain ⟨hlog, hafter⟩ := serve_matches rs matches_empty
  exact ⟨hlog, hafter.pool_eq⟩

end MapBuilder

end Linkage
