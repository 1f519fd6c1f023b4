import Linkage.Proofs.Building
import Linkage.Proofs.Lookup

/-!
# Requests to a pool builder

What a pool builder answers to any list of requests (`PoolBuilder.serve`), some of which may find no
room. The builder's index of constants is its pool turned around (`PoolBuilder.Faithful`): every step of
a request keeps it so and moves no constant, whether the request goes through or not
(`PoolBuilder.registers_intern`, `PoolBuilder.Registers.bind`). So no constant comes twice, and the
answers and what they were asked for stand in a one-to-one correspondence that can be read off the pool
at any later time (`PoolBuilder.accurate_serve`).
-/

set_option autoImplicit false

namespace Linkage

/-! ## Faithful builders -/

namespace PoolBuilder

open ConstantPool

variable {b b' : PoolBuilder} {c : Constant} {α β : Type}

/-- The index of the constants is the pool turned around. -/
structure Faithful (b : PoolBuilder) : Prop where
  sound : b.Sound
  indexed : ∀ c i, b.index[c]? = some i ↔ b.pool.get? i = some c

theorem Sound.sorted (h : b.Sound) : b.pool.table.Sorted := by
  rw [h.layout]
  exact sorted_ofConstants _

theorem faithful_empty : empty.Faithful where
  sound := sound_empty
  indexed := by
    intro c i
    rw [get?_eq_some_iff sound_empty.sorted, empty, Std.HashMap.getElem?_empty]
    simp [ConstantPool.empty, SlotTable.startingAt, SlotTable.toList]

/-- A constant that the index does not have gets the next slot. -/
theorem Faithful.push (h : b.Faithful) (hnew : b.index[c]? = none)
    (hroom : b.pool.table.next + c.width ≤ maxNext) :
    Faithful ⟨b.pool.push c, b.index.insert c (UInt16.ofNat b.pool.table.next)⟩ where
  sound := h.sound.push hroom h.sound.ofNat_next_ne_zero
  indexed := by
    intro c' i
    have hnext : i.toNat = b.pool.table.next ↔ UInt16.ofNat b.pool.table.next = i := by
      rw [← UInt16.toNat_inj, h.sound.toNat_ofNat_next, eq_comm]
    rw [Std.HashMap.getElem?_insert, get?_push_iff h.sound.sorted, ← h.indexed c' i, hnext]
    by_cases hc : c = c'
    · subst hc
      simp [hnew]
    · simp [hc, Ne.symm hc]

/-- There is one index for each constant. -/
theorem Faithful.index_eq (h : b.Faithful) {i j : PoolIndex} (hi : b.pool.get? i = some c)
    (hj : b.pool.get? j = some c) : i = j := by
  rw [← h.indexed] at hi hj
  rw [hi] at hj
  exact Option.some.inj hj

theorem Sound.lt_of_mem (h : b.Sound) {x : Nat × Constant} (hx : x ∈ b.pool.table.toList) :
    x.1 < 0x10000 := by
  have hlt := h.sorted.next x hx
  have hmax : maxNext = 65535 := rfl
  have hslots := h.slots
  omega

/-- No constant comes twice: its two indices would be different ones. -/
theorem Faithful.nodup (h : b.Faithful) : b.pool.constants.Nodup := by
  rw [constants, List.nodup_iff_pairwise_ne, List.pairwise_map]
  refine h.sound.sorted.entries.imp_of_mem ?_
  intro x y hx hy hlt heq
  have hfound : ∀ z ∈ b.pool.table.toList, b.pool.get? (UInt16.ofNat z.1) = some z.2 := by
    intro z hz
    rw [get?_eq_some_iff h.sound.sorted, UInt16.toNat_ofNat_of_lt' (h.sound.lt_of_mem hz)]
    exact hz
  have hindex := h.index_eq (hfound x hx) (heq ▸ hfound y hy)
  have hnat := congrArg UInt16.toNat hindex
  rw [UInt16.toNat_ofNat_of_lt' (h.sound.lt_of_mem hx),
    UInt16.toNat_ofNat_of_lt' (h.sound.lt_of_mem hy)] at hnat
  omega

/-! ## Steps -/

/-- The fault of a pool in which no constant of width two has room any more. -/
def IsFull (e : ClassError) : Prop := ∃ next, e = .poolOverflow next ∧ maxNext < next + 2

/-- The builder after a step is faithful, and its pool goes on from the one before. What the step has
answered has the property in it, and it has failed only if the pool is full. -/
structure Advances (b : PoolBuilder) (p : ConstantPool → α → Prop)
    (result : Except ClassError α × PoolBuilder) : Prop where
  faithful : result.2.Faithful
  kept : b.pool.Extends result.2.pool
  answered : ∀ a, result.1 = .ok a → p result.2.pool a
  failed : ∀ e, result.1 = .error e → IsFull e

/-- Whether the step goes through or not, it leads on from every faithful builder. -/
def Registers (step : PoolM α) (p : ConstantPool → α → Prop) : Prop :=
  ∀ b, b.Faithful → Advances b p (step.run b)

section Steps

variable {step : PoolM α} {next : α → PoolM β} {p p' : ConstantPool → α → Prop}
  {r : ConstantPool → β → Prop}

theorem Registers.mono (h : Registers step p) (himp : ∀ q a, p q a → p' q a) : Registers step p' := by
  intro b hb
  have hstep := h b hb
  exact { hstep with answered := fun a ha => himp _ a (hstep.answered a ha) }

/-- What the first step has answered still has its property after the second one. -/
theorem Registers.bind (h : Registers step p)
    (hstays : ∀ q q' a, q.Extends q' → p q a → p q' a)
    (hnext : ∀ a, Registers (next a) fun q b => p q a → r q b) : Registers (step >>= next) r := by
  intro b hb
  have hfirst := h b hb
  rw [run_bind]
  generalize step.run b = result at hfirst
  obtain ⟨e | a, b'⟩ := result
  · show Advances b r (.error e, b')
    refine ⟨hfirst.faithful, hfirst.kept, nofun, ?_⟩
    intro e' he
    cases he
    exact hfirst.failed e rfl
  · show Advances b r ((next a).run b')
    have hsecond := hnext a b' hfirst.faithful
    refine ⟨hsecond.faithful, hfirst.kept.trans hsecond.kept, ?_, hsecond.failed⟩
    intro b₂ hb₂
    apply hsecond.answered b₂ hb₂
    exact hstays _ _ a hsecond.kept (hfirst.answered a rfl)

theorem registers_intern (c : Constant) : Registers (intern c) fun q i => q.get? i = some c := by
  intro b hb
  rcases hrun : (intern c).run b with ⟨e | i, b'⟩
  · obtain ⟨rfl, rfl, hfull⟩ := intern_error_cases hrun
    refine ⟨hb, Extends.refl _, nofun, ?_⟩
    intro e he
    cases he
    have htwo := c.width_le_two
    exact ⟨_, rfl, by omega⟩
  · obtain ⟨hindex, rfl⟩ | ⟨hnew, hroom, rfl, rfl⟩ := runs_intern_cases hrun
    · -- the constant is found where it was put before
      refine ⟨hb, Extends.refl _, ?_, nofun⟩
      intro j hj
      cases hj
      exact (hb.indexed c i).1 hindex
    · have hpush := hb.push hnew hroom
      refine ⟨hpush, extends_push hb.sound.sorted c, ?_, nofun⟩
      intro j hj
      cases hj
      rw [← hpush.indexed, Std.HashMap.getElem?_insert_self]

end Steps

/-! ## Requests -/

/-- What was asked for is found at the index. -/
def Resolves (p : ConstantPool) (i : PoolIndex) : Request → Prop
  | .utf8 text => p.utf8 i = .ok text
  | .classInfo name => p.className i = .ok name
  | .string text => ∃ j, p.get? i = some (.string j) ∧ p.utf8 j = .ok text
  | .integer value => p.get? i = some (.integer value)
  | .long value => p.get? i = some (.long value)
  | .nameAndType name descriptor => p.nameAndType i = .ok (name, descriptor)
  | .fieldRef owner name descriptor => p.member i = .ok ⟨owner, name, descriptor, .field⟩
  | .methodRef owner name descriptor isInterface =>
      p.member i = .ok ⟨owner, name, descriptor, .method isInterface⟩

theorem Resolves.mono {p q : ConstantPool} {i : PoolIndex} {r : Request} (h : p.Extends q)
    (hresolves : Resolves p i r) : Resolves q i r := by
  cases r with
  | utf8 text => exact h.utf8 hresolves
  | classInfo name => exact h.className hresolves
  | string text =>
      obtain ⟨j, hget, htext⟩ := hresolves
      exact ⟨j, h i _ hget, h.utf8 htext⟩
  | integer value => exact h i _ hresolves
  | long value => exact h i _ hresolves
  | nameAndType name descriptor => exact h.nameAndType hresolves
  | fieldRef owner name descriptor => exact h.member hresolves
  | methodRef owner name descriptor isInterface => exact h.member hresolves

theorem registers_utf8 (text : String) : Registers (utf8 text) fun q i => q.utf8 i = .ok text := by
  apply (registers_intern (.utf8 text)).mono
  intro q i hget
  exact utf8_eq_ok_iff.2 hget

theorem registers_classInfo (name : String) :
    Registers (classInfo name) fun q i => q.className i = .ok name := by
  apply (registers_utf8 name).bind fun _ _ _ h => h.utf8
  intro j
  apply (registers_intern (.classInfo j)).mono
  intro q i hget htext
  exact className_eq_ok_iff.2 ⟨j, hget, htext⟩

theorem registers_nameAndType (name descriptor : String) :
    Registers (nameAndType name descriptor) fun q i => q.nameAndType i = .ok (name, descriptor) := by
  apply (registers_utf8 name).bind fun _ _ _ h => h.utf8
  intro j
  apply (registers_utf8 descriptor).bind fun _ _ _ h => h.utf8
  intro k
  apply (registers_intern (.nameAndType j k)).mono
  intro q i hget hdescriptor hname
  exact nameAndType_eq_ok_iff.2 ⟨j, k, hget, hname, hdescriptor⟩

theorem registers_member (owner name descriptor : String) (kind : MemberKind) :
    Registers (do intern (memberRef (← classInfo owner) (← nameAndType name descriptor) kind))
      fun q i => q.member i = .ok ⟨owner, name, descriptor, kind⟩ := by
  apply (registers_classInfo owner).bind fun _ _ _ h => h.className
  intro j
  apply (registers_nameAndType name descriptor).bind fun _ _ _ h => h.nameAndType
  intro k
  apply (registers_intern (memberRef j k kind)).mono
  intro q i hget hsignature howner
  exact member_eq_ok_iff.2 ⟨j, k, hget, howner, hsignature⟩

/-- Every request that is answered with an index puts there what was asked for. -/
theorem Request.registers_run (r : Request) : Registers r.run fun q i => Resolves q i r := by
  cases r with
  | utf8 text => exact registers_utf8 text
  | classInfo name => exact registers_classInfo name
  | string text =>
      apply (registers_utf8 text).bind fun _ _ _ h => h.utf8
      intro j
      apply (registers_intern (.string j)).mono
      intro q i hget htext
      exact ⟨j, hget, htext⟩
  | integer value => exact registers_intern (.integer value)
  | long value => exact registers_intern (.long value)
  | nameAndType name descriptor => exact registers_nameAndType name descriptor
  | fieldRef owner name descriptor => exact registers_member owner name descriptor .field
  | methodRef owner name descriptor isInterface =>
      exact registers_member owner name descriptor (.method isInterface)

/-! ## Indices and what was asked for -/

/-- What a request has to ask for to be answered with an index. -/
def requestAt? (p : ConstantPool) (i : PoolIndex) : Option Request :=
  match p.get? i with
  | some (.utf8 text) => some (.utf8 text)
  | some (.classInfo j) => (p.utf8 j).toOption.map .classInfo
  | some (.string j) => (p.utf8 j).toOption.map .string
  | some (.integer value) => some (.integer value)
  | some (.long value) => some (.long value)
  | some (.nameAndType _ _) =>
      (p.nameAndType i).toOption.map fun texts => .nameAndType texts.1 texts.2
  | some (.fieldRef _ _) =>
      (p.member i).toOption.map fun m => .fieldRef m.owner m.name m.descriptor
  | some (.methodRef _ _ isInterface) =>
      (p.member i).toOption.map fun m => .methodRef m.owner m.name m.descriptor isInterface
  | _ => none

/-- The pool tells from the index what was asked for. -/
theorem requestAt?_eq_some {p : ConstantPool} {i : PoolIndex} {r : Request} (h : Resolves p i r) :
    requestAt? p i = some r := by
  cases r with
  | utf8 text =>
      have hget := utf8_eq_ok_iff.1 h
      simp [requestAt?, hget]
  | classInfo name =>
      obtain ⟨j, hget, htext⟩ := className_eq_ok_iff.1 h
      simp [requestAt?, hget, htext, Except.toOption]
  | string text =>
      obtain ⟨j, hget, htext⟩ := h
      simp [requestAt?, hget, htext, Except.toOption]
  | integer value =>
      have hget : p.get? i = some (.integer value) := h
      simp [requestAt?, hget]
  | long value =>
      have hget : p.get? i = some (.long value) := h
      simp [requestAt?, hget]
  | nameAndType name descriptor =>
      have hsignature : p.nameAndType i = .ok (name, descriptor) := h
      obtain ⟨j, k, hget, -⟩ := nameAndType_eq_ok_iff.1 h
      simp [requestAt?, hget, hsignature, Except.toOption]
  | fieldRef owner name descriptor =>
      have hmember : p.member i = .ok ⟨owner, name, descriptor, .field⟩ := h
      obtain ⟨j, k, hget, -⟩ := member_eq_ok_iff.1 h
      simp [requestAt?, memberRef, hget, hmember, Except.toOption]
  | methodRef owner name descriptor isInterface =>
      have hmember : p.member i = .ok ⟨owner, name, descriptor, .method isInterface⟩ := h
      obtain ⟨j, k, hget, -⟩ := member_eq_ok_iff.1 h
      simp [requestAt?, memberRef, hget, hmember, Except.toOption]

section Places

variable {i j : PoolIndex} {text name descriptor : String} {m : MemberInfo}

theorem Faithful.utf8_inj (h : b.Faithful) (hi : b.pool.utf8 i = .ok text)
    (hj : b.pool.utf8 j = .ok text) : i = j :=
  h.index_eq (utf8_eq_ok_iff.1 hi) (utf8_eq_ok_iff.1 hj)

theorem Faithful.className_inj (h : b.Faithful) (hi : b.pool.className i = .ok text)
    (hj : b.pool.className j = .ok text) : i = j := by
  obtain ⟨i', hi, hitext⟩ := className_eq_ok_iff.1 hi
  obtain ⟨j', hj, hjtext⟩ := className_eq_ok_iff.1 hj
  obtain rfl := h.utf8_inj hitext hjtext
  exact h.index_eq hi hj

theorem Faithful.nameAndType_inj (h : b.Faithful)
    (hi : b.pool.nameAndType i = .ok (name, descriptor))
    (hj : b.pool.nameAndType j = .ok (name, descriptor)) : i = j := by
  obtain ⟨i₁, i₂, hi, hi₁, hi₂⟩ := nameAndType_eq_ok_iff.1 hi
  obtain ⟨j₁, j₂, hj, hj₁, hj₂⟩ := nameAndType_eq_ok_iff.1 hj
  obtain rfl := h.utf8_inj hi₁ hj₁
  obtain rfl := h.utf8_inj hi₂ hj₂
  exact h.index_eq hi hj

theorem Faithful.member_inj (h : b.Faithful) (hi : b.pool.member i = .ok m)
    (hj : b.pool.member j = .ok m) : i = j := by
  obtain ⟨i₁, i₂, hi, hi₁, hi₂⟩ := member_eq_ok_iff.1 hi
  obtain ⟨j₁, j₂, hj, hj₁, hj₂⟩ := member_eq_ok_iff.1 hj
  obtain rfl := h.className_inj hi₁ hj₁
  obtain rfl := h.nameAndType_inj hi₂ hj₂
  exact h.index_eq hi hj

/-- What was asked for has one place. -/
theorem Faithful.resolves_inj (h : b.Faithful) {r : Request} (hi : Resolves b.pool i r)
    (hj : Resolves b.pool j r) : i = j := by
  cases r with
  | utf8 text => exact h.utf8_inj hi hj
  | classInfo name => exact h.className_inj hi hj
  | string text =>
      obtain ⟨i', hi, hitext⟩ := hi
      obtain ⟨j', hj, hjtext⟩ := hj
      obtain rfl := h.utf8_inj hitext hjtext
      exact h.index_eq hi hj
  | integer value => exact h.index_eq hi hj
  | long value => exact h.index_eq hi hj
  | nameAndType name descriptor => exact h.nameAndType_inj hi hj
  | fieldRef owner name descriptor => exact h.member_inj hi hj
  | methodRef owner name descriptor isInterface => exact h.member_inj hi hj

end Places

/-! ## Lists of requests -/

/-- Requests with their answers. -/
abbrev Log : Type := List (Request × Except ClassError PoolIndex)

/-- Answers to a list of requests, and the builder after the last one. A request that fails leaves its
parts to the ones after it. -/
def serve : List Request → PoolBuilder → Log × PoolBuilder
  | [], b => ([], b)
  | r :: rs, b =>
      let first := r.run.run b
      let later := serve rs first.2
      ((r, first.1) :: later.1, later.2)

/-- The answers in the log are the places of what was asked for. -/
structure Accurate (log : Log) (b : PoolBuilder) : Prop where
  /-- No two constants of the pool are equal. -/
  distinct : b.pool.constants.Nodup
  /-- The next slot is counted in two bytes. -/
  next : 1 ≤ b.pool.table.next ∧ b.pool.table.next ≤ 65535
  /-- So is the slot of every constant. -/
  slots : ∀ x ∈ b.pool.table.toList, (UInt16.ofNat x.1).toNat = x.1
  /-- What was asked for is found at the index that was answered. -/
  resolves : ∀ r i, (r, .ok i) ∈ log → Resolves b.pool i r
  /-- Two indices are the same exactly if the same was asked for. -/
  same_iff : ∀ r i r' j, (r, .ok i) ∈ log → (r', .ok j) ∈ log → (i = j ↔ r = r')
  /-- Requests fail only for want of room. -/
  failed : ∀ r e, (r, .error e) ∈ log → IsFull e

/-- A list of requests leads on from every faithful builder. What one of them has put into the pool is
not moved by the later ones. -/
theorem serve_cases (rs : List Request) (hb : b.Faithful) :
    (serve rs b).2.Faithful ∧ b.pool.Extends (serve rs b).2.pool ∧
      (∀ r i, (r, .ok i) ∈ (serve rs b).1 → Resolves (serve rs b).2.pool i r) ∧
      ∀ r e, (r, .error e) ∈ (serve rs b).1 → IsFull e := by
  induction rs generalizing b with
  | nil =>
      refine ⟨hb, Extends.refl _, ?_, ?_⟩
      · intro r i hmem
        cases hmem
      · intro r e hmem
        cases hmem
  | cons r rs ih =>
      have hfirst := r.registers_run b hb
      obtain ⟨hfaithful, hkept, hresolves, hfailed⟩ := ih hfirst.faithful
      refine ⟨hfaithful, hfirst.kept.trans hkept, ?_, ?_⟩
      · intro r' i hmem
        rcases List.mem_cons.1 hmem with heq | hmem
        · obtain ⟨rfl, hanswer⟩ := Prod.mk.inj heq
          exact Resolves.mono hkept (hfirst.answered i hanswer.symm)
        · exact hresolves r' i hmem
      · intro r' e hmem
        rcases List.mem_cons.1 hmem with heq | hmem
        · exact hfirst.failed e (Prod.mk.inj heq).2.symm
        · exact hfailed r' e hmem

/-- Whatever is asked for, in any order, and whichever requests fail: at any time the answers so far
are the places of what was asked for. -/
theorem accurate_serve (rs : List Request) : Accurate (serve rs empty).1 (serve rs empty).2 := by
  obtain ⟨hfaithful, -, hresolves, hfailed⟩ := serve_cases rs faithful_empty
  refine
    { distinct := hfaithful.nodup
      next := ⟨hfaithful.sound.next_pos, hfaithful.sound.slots⟩
      slots := fun x hx => UInt16.toNat_ofNat_of_lt' (hfaithful.sound.lt_of_mem hx)
      resolves := hresolves
      same_iff := ?_
      failed := hfailed }
  intro r i r' j hi hj
  constructor
  · rintro rfl
    have hr := requestAt?_eq_some (hresolves r i hi)
    have hr' := requestAt?_eq_some (hresolves r' i hj)
    exact Option.some.inj (hr.symm.trans hr')
  · rintro rfl
    exact hfaithful.resolves_inj (hresolves r i hi) (hresolves r j hj)

end PoolBuilder

end Linkage
