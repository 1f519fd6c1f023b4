import Linkage.ClassFile.ClassBuilder
import Linkage.Proofs.ClassCodec
import Std.Data.HashMap.Lemmas

/-!
# Built classes and the limits of the format

The builder checks one limit of the format, the number of slots of the pool. A class file that it
makes fits into the format exactly if the calls that made it keep to the other limits
(`ClassBuilder.fits_result_iff`): the bytes of texts, the numbers of interfaces, fields and methods,
and the bytes of bodies.

* One call (`ClassBuilder.Call.adds_run`) and a list of calls (`ClassBuilder.adds_forM`) add their
  texts to the pool, their parts to the class and their bodies to its methods.
* A step is affordable if it goes through wherever the pool has so many slots left (`Affordable`). Calls
  that have room in the pool go through (`ClassBuilder.exists_runs_forM`).
-/

set_option autoImplicit false

namespace Linkage

open ClassReader

/-! ## Steps that go through -/

section Runs

variable {ε σ α β : Type} {x : ExceptT ε (StateM σ) α} {f : α → ExceptT ε (StateM σ) β}
  {a a' : α} {b : β} {s s' : σ}

/-- The step goes through from the first state to the second one, with the given answer. -/
def Runs (x : ExceptT ε (StateM σ) α) (s : σ) (a : α) (s' : σ) : Prop := x.run s = (.ok a, s')

theorem runs_pure_iff : Runs (pure a : ExceptT ε (StateM σ) α) s a' s' ↔ a = a' ∧ s = s' := by
  have hrun : (pure a : ExceptT ε (StateM σ) α).run s = (.ok a, s) := rfl
  rw [Runs, hrun, Prod.mk.injEq, Except.ok.injEq]

theorem runs_modify_iff {g : σ → σ} {u : Unit} :
    Runs (modify g : ExceptT ε (StateM σ) Unit) s u s' ↔ g s = s' := by
  have hrun : (modify g : ExceptT ε (StateM σ) Unit).run s = (.ok (), g s) := rfl
  rw [Runs, hrun, Prod.mk.injEq]
  exact and_iff_right rfl

/-- A step that fails ends the steps where it has come to. -/
theorem run_bind : (x >>= f).run s =
    match x.run s with
    | (.ok a, t) => (f a).run t
    | (.error e, t) => (.error e, t) := by
  show (ExceptT.bindCont f (x.run s).1) (x.run s).2 = _
  rcases x.run s with ⟨e | a, t⟩ <;> rfl

theorem runs_bind_iff : Runs (x >>= f) s b s' ↔ ∃ a t, Runs x s a t ∧ Runs (f a) t b s' := by
  rw [Runs, run_bind]
  unfold Runs
  rcases x.run s with ⟨e | a, t⟩
  · constructor
    · intro h
      cases h
    · rintro ⟨a, t', h, -⟩
      cases h
  · constructor
    · intro h
      exact ⟨a, t, rfl, h⟩
    · rintro ⟨a', t', h, hf⟩
      cases h
      exact hf

end Runs

/-! ## Steps that have room -/

section Affordable

variable {σ α β γ : Type} {nextSlot : σ → Nat}

/-- With so many slots left the step goes through, and takes no more of them. -/
def Affordable (nextSlot : σ → Nat) (step : ExceptT ClassError (StateM σ) α) (slots : Nat) : Prop :=
  ∀ s, nextSlot s + slots ≤ PoolBuilder.maxNext →
    ∃ a s', Runs step s a s' ∧ nextSlot s' ≤ nextSlot s + slots

theorem affordable_pure (a : α) :
    Affordable nextSlot (pure a : ExceptT ClassError (StateM σ) α) 0 := by
  intro s _
  exact ⟨a, s, runs_pure_iff.2 ⟨rfl, rfl⟩, Nat.le_refl _⟩

theorem affordable_modify {g : σ → σ} (hg : ∀ s, nextSlot (g s) = nextSlot s) :
    Affordable nextSlot (modify g : ExceptT ClassError (StateM σ) Unit) 0 := by
  intro s _
  exact ⟨(), g s, runs_modify_iff.2 rfl, Nat.le_of_eq (hg s)⟩

/-- Steps after one another need the sum. -/
theorem Affordable.bind {step : ExceptT ClassError (StateM σ) α}
    {next : α → ExceptT ClassError (StateM σ) β} {slots slots' : Nat}
    (h : Affordable nextSlot step slots) (hnext : ∀ a, Affordable nextSlot (next a) slots') :
    Affordable nextSlot (step >>= next) (slots + slots') := by
  intro s hroom
  obtain ⟨a, s₁, hfirst, hleft⟩ := h s (by omega)
  obtain ⟨b, s₂, hsecond, hleft'⟩ := hnext a s₁ (by omega)
  exact ⟨b, s₂, runs_bind_iff.2 ⟨a, s₁, hfirst, hsecond⟩, by omega⟩

theorem affordable_mapM {step : γ → ExceptT ClassError (StateM σ) α} {slotsOf : γ → Nat}
    (h : ∀ x, Affordable nextSlot (step x) (slotsOf x)) (xs : List γ) :
    Affordable nextSlot (xs.mapM step) (xs.map slotsOf).sum := by
  induction xs with
  | nil => exact affordable_pure []
  | cons x xs ih =>
      rw [List.mapM_cons, List.map_cons, List.sum_cons]
      apply (h x).bind
      intro y
      exact ih.bind fun ys => affordable_pure (y :: ys)

theorem affordable_forM {step : γ → ExceptT ClassError (StateM σ) PUnit} {slotsOf : γ → Nat}
    (h : ∀ x, Affordable nextSlot (step x) (slotsOf x)) (xs : List γ) :
    Affordable nextSlot (xs.forM step) (xs.map slotsOf).sum := by
  induction xs with
  | nil => exact affordable_pure PUnit.unit
  | cons x xs ih =>
      rw [List.map_cons, List.sum_cons]
      exact (h x).bind fun _ => ih

end Affordable

/-! ## Constant pools -/

namespace Constant

/-- Text of a constant that is one. -/
def texts : Constant → List String
  | .utf8 text => [text]
  | _ => []

theorem mem_texts_iff {c : Constant} {t : String} : t ∈ c.texts ↔ .utf8 t = c := by
  cases c <;> simp [texts]

end Constant

namespace PoolBuilder

/-- The pool has the constants that its index has, and its slots are counted in two bytes. -/
structure Sound (b : PoolBuilder) : Prop where
  layout : b.pool = .ofConstants b.pool.constants
  slots : b.pool.table.next ≤ maxNext
  indexed : ∀ c i, b.index[c]? = some i → i ≠ 0 ∧ c ∈ b.pool.constants

/-- The second builder is sound and has the given texts besides those of the first one. -/
structure Adds (b : PoolBuilder) (texts : List String) (b' : PoolBuilder) : Prop where
  sound : b'.Sound
  mem_iff : ∀ t, .utf8 t ∈ b'.pool.constants ↔ .utf8 t ∈ b.pool.constants ∨ t ∈ texts

/-- Every answer to the request is an index, and the given texts have come into the pool. -/
def Asks (request : PoolM PoolIndex) (texts : List String) : Prop :=
  ∀ b i b', b.Sound → Runs request b i b' → i ≠ 0 ∧ Adds b texts b'

section Asking

variable {b b' : PoolBuilder} {c : Constant} {i : PoolIndex} {request : PoolM PoolIndex}
  {next : PoolIndex → PoolM PoolIndex} {texts texts' : List String}

theorem sound_empty : Sound empty where
  layout := rfl
  slots := by decide
  indexed := by
    intro c i hindex
    rw [empty, Std.HashMap.getElem?_empty] at hindex
    cases hindex

theorem Sound.next_pos (h : b.Sound) : 0 < b.pool.table.next := by
  rw [h.layout, ConstantPool.next_ofConstants]
  omega

/-- The next slot has room in two bytes. -/
theorem Sound.toNat_ofNat_next (h : b.Sound) :
    (UInt16.ofNat b.pool.table.next).toNat = b.pool.table.next :=
  UInt16.toNat_ofNat_of_lt' (Nat.lt_succ_of_le h.slots)

theorem Sound.ofNat_next_ne_zero (h : b.Sound) : UInt16.ofNat b.pool.table.next ≠ 0 := by
  intro hzero
  have hnat := congrArg UInt16.toNat hzero
  rw [h.toNat_ofNat_next] at hnat
  exact Nat.ne_of_gt h.next_pos hnat

theorem Adds.trans {b'' : PoolBuilder} (h : Adds b texts b') (h' : Adds b' texts' b'') :
    Adds b (texts ++ texts') b'' where
  sound := h'.sound
  mem_iff := by
    intro t
    rw [h'.mem_iff, h.mem_iff, List.mem_append, or_assoc]

theorem Asks.bind (h : Asks request texts) (hnext : ∀ i, Asks (next i) texts') :
    Asks (request >>= next) (texts ++ texts') := by
  intro b i b'' hsound hruns
  obtain ⟨j, b', hfirst, hsecond⟩ := runs_bind_iff.1 hruns
  obtain ⟨-, hadds⟩ := h b j b' hsound hfirst
  obtain ⟨hi, hadds'⟩ := hnext j b' i b'' hadds.sound hsecond
  exact ⟨hi, hadds.trans hadds'⟩

/-- A constant is found, or there is room for it and it is put at the end. -/
theorem runs_intern_cases (h : Runs (intern c) b i b') :
    (b.index[c]? = some i ∧ b' = b) ∨
      (b.index[c]? = none ∧ b.pool.table.next + c.width ≤ maxNext ∧
        i = UInt16.ofNat b.pool.table.next ∧ b' = ⟨b.pool.push c, b.index.insert c i⟩) := by
  obtain ⟨pool, index⟩ := b
  simp only [Runs, intern, ExceptT.run] at h
  split at h
  · rename_i j hindex
    cases h
    exact Or.inl ⟨hindex, rfl⟩
  · rename_i hnew
    split at h
    · rename_i hroom
      cases h
      exact Or.inr ⟨hnew, hroom, rfl, rfl⟩
    · cases h

/-- A constant that finds no room leaves the builder as it is. -/
theorem intern_error_cases {e : ClassError} (h : (intern c).run b = (.error e, b')) :
    b' = b ∧ e = .poolOverflow b.pool.table.next ∧ maxNext < b.pool.table.next + c.width := by
  obtain ⟨pool, index⟩ := b
  simp only [intern, ExceptT.run] at h
  split at h
  · cases h
  · split at h
    · cases h
    · rename_i hfull
      cases h
      exact ⟨rfl, rfl, Nat.lt_of_not_le hfull⟩

theorem Sound.push (h : b.Sound) (hroom : b.pool.table.next + c.width ≤ maxNext) (hi : i ≠ 0) :
    Sound ⟨b.pool.push c, b.index.insert c i⟩ where
  layout := by
    rw [ConstantPool.constants_push, ConstantPool.ofConstants_append, ← h.layout]
  slots := hroom
  indexed := by
    intro c' i' hindex
    rw [Std.HashMap.getElem?_insert] at hindex
    split at hindex
    · rename_i heq
      rw [← eq_of_beq heq, ← Option.some.inj hindex]
      exact ⟨hi, by simp⟩
    · obtain ⟨hi', hmem⟩ := h.indexed c' i' hindex
      exact ⟨hi', by simp [hmem]⟩

theorem asks_intern (c : Constant) : Asks (intern c) c.texts := by
  intro b i b' hsound hruns
  obtain ⟨hindex, rfl⟩ | ⟨-, hroom, rfl, rfl⟩ := runs_intern_cases hruns
  · -- a constant that is found has been in the pool before
    obtain ⟨hi, hmem⟩ := hsound.indexed c i hindex
    refine ⟨hi, hsound, fun t => ?_⟩
    rw [Constant.mem_texts_iff]
    constructor
    · exact Or.inl
    · rintro (ht | rfl)
      · exact ht
      · exact hmem
  · -- a new one gets the next slot, which has room in two bytes
    have hi := hsound.ofNat_next_ne_zero
    refine ⟨hi, hsound.push hroom hi, fun t => ?_⟩
    rw [ConstantPool.constants_push, List.mem_append, List.mem_singleton, Constant.mem_texts_iff]

theorem asks_utf8 (text : String) : Asks (utf8 text) [text] := asks_intern (.utf8 text)

theorem asks_classInfo (name : String) : Asks (classInfo name) [name] :=
  (asks_utf8 name).bind fun i => asks_intern (.classInfo i)

theorem asks_nameAndType (name descriptor : String) :
    Asks (nameAndType name descriptor) [name, descriptor] :=
  (asks_utf8 name).bind fun i => (asks_utf8 descriptor).bind fun j =>
    asks_intern (.nameAndType i j)

/-- Offset of the next constant of a pool. -/
def nextSlot (b : PoolBuilder) : Nat := b.pool.table.next

theorem affordable_intern (c : Constant) : Affordable nextSlot (intern c) c.width := by
  rintro ⟨pool, index⟩ hroom
  cases hindex : index[c]? with
  | some i =>
      refine ⟨i, ⟨pool, index⟩, ?_, Nat.le_add_right _ _⟩
      simp only [Runs, intern, ExceptT.run, hindex]
  | none =>
      let i := UInt16.ofNat pool.table.next
      have hnext : pool.table.next + c.width ≤ maxNext := hroom
      refine ⟨i, ⟨pool.push c, index.insert c i⟩, ?_, Nat.le_refl _⟩
      simp only [Runs, intern, ExceptT.run, hindex, if_pos hnext, i]

theorem affordable_classInfo (name : String) : Affordable nextSlot (classInfo name) 2 :=
  (affordable_intern (.utf8 name)).bind fun i => affordable_intern (.classInfo i)

theorem affordable_nameAndType (name descriptor : String) :
    Affordable nextSlot (nameAndType name descriptor) 3 :=
  (affordable_intern (.utf8 name)).bind fun i => (affordable_intern (.utf8 descriptor)).bind fun j =>
    affordable_intern (.nameAndType i j)

end Asking

/-! ### Requests -/

/-- Requests to a pool builder that answer with an index. -/
inductive Request where
  | utf8 (text : String)
  | classInfo (name : String)
  | string (text : String)
  | integer (value : Int32)
  | long (value : Int64)
  | nameAndType (name descriptor : String)
  | fieldRef (owner name descriptor : String)
  | methodRef (owner name descriptor : String) (isInterface : Bool)

namespace Request

/-- What the builder does. -/
def run : Request → PoolM PoolIndex
  | .utf8 text => PoolBuilder.utf8 text
  | .classInfo name => PoolBuilder.classInfo name
  | .string text => PoolBuilder.string text
  | .integer value => PoolBuilder.integer value
  | .long value => PoolBuilder.long value
  | .nameAndType name descriptor => PoolBuilder.nameAndType name descriptor
  | .fieldRef owner name descriptor => PoolBuilder.fieldRef owner name descriptor
  | .methodRef owner name descriptor isInterface =>
      PoolBuilder.methodRef owner name descriptor isInterface

/-- Texts that a request puts into the pool. -/
def texts : Request → List String
  | .utf8 text => [text]
  | .classInfo name => [name]
  | .string text => [text]
  | .integer _ => []
  | .long _ => []
  | .nameAndType name descriptor => [name, descriptor]
  | .fieldRef owner name descriptor => [owner, name, descriptor]
  | .methodRef owner name descriptor _ => [owner, name, descriptor]

/-- Slots of the constants that a request asks for. -/
def slots : Request → Nat
  | .utf8 _ => 1
  | .classInfo _ => 2
  | .string _ => 2
  | .integer _ => 1
  | .long _ => 2
  | .nameAndType _ _ => 3
  | .fieldRef _ _ _ => 6
  | .methodRef _ _ _ _ => 6

theorem asks_run (r : Request) : Asks r.run r.texts := by
  cases r with
  | utf8 text => exact asks_utf8 text
  | classInfo name => exact asks_classInfo name
  | string text => exact (asks_utf8 text).bind fun i => asks_intern (.string i)
  | integer value => exact asks_intern (.integer value)
  | long value => exact asks_intern (.long value)
  | nameAndType name descriptor => exact asks_nameAndType name descriptor
  | fieldRef owner name descriptor =>
      exact (asks_classInfo owner).bind fun i => (asks_nameAndType name descriptor).bind fun j =>
        asks_intern (.fieldRef i j)
  | methodRef owner name descriptor isInterface =>
      exact (asks_classInfo owner).bind fun i => (asks_nameAndType name descriptor).bind fun j =>
        asks_intern (.methodRef i j isInterface)

theorem affordable_run (r : Request) : Affordable nextSlot r.run r.slots := by
  cases r with
  | utf8 text => exact affordable_intern (.utf8 text)
  | classInfo name => exact affordable_classInfo name
  | string text =>
      exact (affordable_intern (.utf8 text)).bind fun i => affordable_intern (.string i)
  | integer value => exact affordable_intern (.integer value)
  | long value => exact affordable_intern (.long value)
  | nameAndType name descriptor => exact affordable_nameAndType name descriptor
  | fieldRef owner name descriptor =>
      exact (affordable_classInfo owner).bind fun i =>
        (affordable_nameAndType name descriptor).bind fun j => affordable_intern (.fieldRef i j)
  | methodRef owner name descriptor isInterface =>
      exact (affordable_classInfo owner).bind fun i =>
        (affordable_nameAndType name descriptor).bind fun j =>
          affordable_intern (.methodRef i j isInterface)

end Request

end PoolBuilder

/-! ## Calls -/

namespace ClassBuilder

/-- Calls of a class builder. Catch types and operands of instructions are indices that requests have
answered with. -/
inductive Call where
  | request (r : PoolBuilder.Request)
  | addInterface (name : String)
  | addField (flags : FieldFlags) (name descriptor : String)
  | addAbstractMethod (flags : MethodFlags) (name descriptor : String)
  | addMethod (flags : MethodFlags) (name descriptor : String) (instructions : List Instruction)
      (handlers : List Handler)

/-- Kinds of parts that a class has lists of. -/
inductive Part where
  | interface
  | field
  | method
  deriving DecidableEq

/-- Number of parts of a kind. -/
def count (b : ClassBuilder) : Part → Nat
  | .interface => b.interfaces.size
  | .field => b.fields.size
  | .method => b.methods.size

/-- Contents of the attributes of the methods. -/
def infos (b : ClassBuilder) : List (List UInt8) :=
  b.methods.toList.flatMap fun m => m.attributes.map Attribute.info

namespace Call

/-- What the builder does. -/
def run : Call → ClassM Unit
  | .request r => do let _ ← ask r.run
  | .addInterface name => ClassBuilder.addInterface name
  | .addField flags name descriptor => ClassBuilder.addField flags name descriptor
  | .addAbstractMethod flags name descriptor =>
      ClassBuilder.addAbstractMethod flags name descriptor
  | .addMethod flags name descriptor instructions handlers =>
      ClassBuilder.addMethod flags name descriptor instructions handlers

/-- Texts that a call puts into the pool. -/
def texts : Call → List String
  | .request r => r.texts
  | .addInterface name => [name]
  | .addField _ name descriptor => [name, descriptor]
  | .addAbstractMethod _ name descriptor => [name, descriptor]
  | .addMethod _ name descriptor _ _ => [MethodBody.attributeName, name, descriptor]

/-- Slots of the constants that a call asks for. -/
def slots : Call → Nat
  | .request r => r.slots
  | .addInterface _ => 2
  | .addField _ _ _ => 2
  | .addAbstractMethod _ _ _ => 2
  | .addMethod _ _ _ _ _ => 3

/-- Kind of the part that a call adds, if it adds one. -/
def part? : Call → Option Part
  | .request _ => none
  | .addInterface _ => some .interface
  | .addField _ _ _ => some .field
  | .addAbstractMethod _ _ _ => some .method
  | .addMethod _ _ _ _ _ => some .method

/-- Bytes of the body of the method that a call adds, if there is one. -/
def body? : Call → Option (List UInt8)
  | .addMethod _ _ _ instructions handlers =>
      some (MethodBody.write ⟨frameSize, frameSize, Instruction.assemble instructions, handlers, []⟩)
  | _ => none

end Call

/-- The pool is sound, zero stands for no superclass, and no member has many attributes. -/
structure Sound (b : ClassBuilder) : Prop where
  constants : b.constants.Sound
  superClass : b.superClass ≠ some 0
  fields : ∀ f ∈ b.fields, f.attributes = []
  methods : ∀ m ∈ b.methods, m.attributes.length ≤ 1

/-- The second builder is sound and has what the calls add, besides what the first one has. -/
structure Adds (b : ClassBuilder) (calls : List Call) (b' : ClassBuilder) : Prop where
  sound : b'.Sound
  constants : b.constants.Adds (calls.flatMap Call.texts) b'.constants
  count : ∀ part, b'.count part = b.count part + (calls.filterMap Call.part?).count part
  infos : b'.infos = b.infos ++ calls.filterMap Call.body?

variable {b b' : ClassBuilder}

theorem runs_ask_iff {α : Type} {request : PoolM α} {a : α} :
    Runs (ask request) b a b' ↔
      ∃ constants, Runs request b.constants a constants ∧ b' = { b with constants := constants } := by
  obtain ⟨constants, flags, thisClass, superClass, interfaces, fields, methods⟩ := b
  simp only [Runs, ask, ExceptT.run]
  rcases request constants with ⟨answer, constants'⟩
  constructor
  · intro h
    cases h
    exact ⟨constants', rfl, rfl⟩
  · rintro ⟨_, h, rfl⟩
    cases h
    rfl

/-- A call that starts with a request goes on with an index, and its texts are in the pool. -/
theorem exists_of_ask {request : PoolM PoolIndex} {texts : List String}
    {next : PoolIndex → ClassM Unit} {u : Unit} (hasks : PoolBuilder.Asks request texts)
    (hsound : b.constants.Sound) (h : Runs (ask request >>= next) b u b') :
    ∃ i constants, b.constants.Adds texts constants ∧
      Runs (next i) { b with constants := constants } u b' := by
  obtain ⟨i, b1, hask, hnext⟩ := runs_bind_iff.1 h
  obtain ⟨constants, hrequest, rfl⟩ := runs_ask_iff.1 hask
  exact ⟨i, constants, (hasks b.constants i constants hsound hrequest).2, hnext⟩

theorem adds_addMethodWith {flags : MethodFlags} {name descriptor : String}
    {attributes : List Attribute} {u : Unit} (hsound : b.constants.Sound)
    (h : Runs (addMethodWith flags name descriptor attributes) b u b') :
    ∃ i j constants, b.constants.Adds [name, descriptor] constants ∧
      b' = { b with
        constants := constants
        methods := b.methods.push ⟨flags, i, j, attributes⟩ } := by
  obtain ⟨i, constants, hname, h⟩ := exists_of_ask (PoolBuilder.asks_utf8 name) hsound h
  obtain ⟨j, constants', hdescriptor, h⟩ :=
    exists_of_ask (PoolBuilder.asks_utf8 descriptor) hname.sound h
  exact ⟨i, j, constants', hname.trans hdescriptor, (runs_modify_iff.1 h).symm⟩

theorem Call.adds_run {call : Call} (hsound : b.Sound) (h : Runs call.run b () b') :
    b.Adds [call] b' := by
  cases call with
  | request r =>
      obtain ⟨i, constants, hadds, h⟩ := exists_of_ask r.asks_run hsound.constants h
      obtain ⟨-, rfl⟩ := runs_pure_iff.1 h
      exact
        { sound := { hsound with constants := hadds.sound }
          constants := by simpa [texts] using hadds
          count := by intro part; cases part <;> rfl
          infos := by simp [body?, infos] }
  | addInterface name =>
      obtain ⟨i, constants, hadds, h⟩ :=
        exists_of_ask (PoolBuilder.asks_classInfo name) hsound.constants h
      obtain rfl := runs_modify_iff.1 h
      exact
        { sound := { hsound with constants := hadds.sound }
          constants := by simpa [texts] using hadds
          count := by intro part; cases part <;> simp [count, part?]
          infos := by simp [body?, infos] }
  | addField flags name descriptor =>
      obtain ⟨i, constants, hname, h⟩ :=
        exists_of_ask (PoolBuilder.asks_utf8 name) hsound.constants h
      obtain ⟨j, constants', hdescriptor, h⟩ :=
        exists_of_ask (PoolBuilder.asks_utf8 descriptor) hname.sound h
      obtain rfl := runs_modify_iff.1 h
      exact
        { sound :=
            { hsound with
              constants := hdescriptor.sound
              fields := Array.forall_mem_push.2 ⟨rfl, hsound.fields⟩ }
          constants := by simpa [texts] using hname.trans hdescriptor
          count := by intro part; cases part <;> simp [count, part?]
          infos := by simp [body?, infos] }
  | addAbstractMethod flags name descriptor =>
      obtain ⟨i, j, constants, hadds, rfl⟩ := adds_addMethodWith hsound.constants h
      exact
        { sound :=
            { hsound with
              constants := hadds.sound
              methods := Array.forall_mem_push.2 ⟨Nat.zero_le 1, hsound.methods⟩ }
          constants := by simpa [texts] using hadds
          count := by intro part; cases part <;> simp [count, part?]
          infos := by simp [body?, infos] }
  | addMethod flags name descriptor instructions handlers =>
      obtain ⟨k, constants, hcode, h⟩ :=
        exists_of_ask (PoolBuilder.asks_utf8 MethodBody.attributeName) hsound.constants h
      obtain ⟨i, j, constants', hadds, rfl⟩ := adds_addMethodWith hcode.sound h
      exact
        { sound :=
            { hsound with
              constants := hadds.sound
              methods := Array.forall_mem_push.2 ⟨Nat.le_refl 1, hsound.methods⟩ }
          constants := by simpa [texts] using hcode.trans hadds
          count := by intro part; cases part <;> simp [count, part?]
          infos := by simp [body?, infos] }

theorem Adds.cons {b'' : ClassBuilder} {call : Call} {calls : List Call} (h : b.Adds [call] b')
    (h' : b'.Adds calls b'') : b.Adds (call :: calls) b'' where
  sound := h'.sound
  constants := by simpa using h.constants.trans h'.constants
  count := by
    intro part
    rw [h'.count, h.count, Nat.add_assoc, ← List.count_append, ← List.filterMap_append,
      List.singleton_append]
  infos := by
    rw [h'.infos, h.infos, List.append_assoc, ← List.filterMap_append, List.singleton_append]

/-- Calls that all go through add what each of them adds. -/
theorem adds_forM {calls : List Call} (hsound : b.Sound) (h : Runs (calls.forM Call.run) b () b') :
    b.Adds calls b' := by
  induction calls generalizing b with
  | nil =>
      obtain ⟨-, rfl⟩ := runs_pure_iff.1 h
      exact
        { sound := hsound
          constants := ⟨hsound.constants, by simp⟩
          count := by simp
          infos := by simp }
  | cons call calls ih =>
      obtain ⟨_, b1, hcall, hcalls⟩ := runs_bind_iff.1 h
      have hadds := Call.adds_run hsound hcall
      exact hadds.cons (ih hadds.sound hcalls)

/-- Texts of the names that a class is started with. -/
def startTexts (name : BinaryName) (superName : Option BinaryName) : List String :=
  name.text :: superName.toList.map BinaryName.text

/-- Builder without parts of constants and the indices of its names. -/
def ofConstants (constants : PoolBuilder) (flags : ClassFlags) (thisClass : PoolIndex)
    (superClass : Option PoolIndex) : ClassBuilder :=
  ⟨constants, flags, thisClass, superClass, #[], #[], #[]⟩

/-- Request for the names that a class is started with. -/
def requestNames (name : BinaryName) (superName : Option BinaryName) :
    PoolM (PoolIndex × Option PoolIndex) := do
  let thisClass ← PoolBuilder.classInfo name.text
  match superName with
  | none => return (thisClass, none)
  | some superName => return (thisClass, some (← PoolBuilder.classInfo superName.text))

/-- A class is started if its names find room in an empty pool. -/
theorem start_eq_ok_iff {flags : ClassFlags} {name : BinaryName} {superName : Option BinaryName} :
    start flags name superName = .ok b ↔ ∃ thisClass superClass constants,
      Runs (requestNames name superName) PoolBuilder.empty (thisClass, superClass) constants ∧
        b = ofConstants constants flags thisClass superClass := by
  unfold Runs
  rw [start]
  split
  · -- a pool that is full starts no class
    rename_i e constants hrun
    constructor
    · intro h
      cases h
    · rintro ⟨i, j, constants', h, -⟩
      cases hrun.symm.trans h
  · rename_i i j constants hrun
    constructor
    · intro h
      cases h
      exact ⟨i, j, constants, hrun, rfl⟩
    · rintro ⟨i', j', constants', h, rfl⟩
      cases hrun.symm.trans h
      rfl

/-- A class starts with the texts of its names and without parts. -/
theorem start_cases {flags : ClassFlags} {name : BinaryName} {superName : Option BinaryName}
    (h : start flags name superName = .ok b) :
    ∃ constants thisClass superClass, superClass ≠ some 0 ∧
      PoolBuilder.empty.Adds (startTexts name superName) constants ∧
      b = ofConstants constants flags thisClass superClass := by
  obtain ⟨thisClass, superClass, constants, hruns, rfl⟩ := start_eq_ok_iff.1 h
  refine ⟨constants, thisClass, superClass, ?_⟩
  have hempty := PoolBuilder.sound_empty
  obtain ⟨i, constants', hname, hsuper⟩ := runs_bind_iff.1 hruns
  have hadds := (PoolBuilder.asks_classInfo name.text _ i constants' hempty hname).2
  cases superName with
  | none =>
      obtain ⟨hpair, rfl⟩ := runs_pure_iff.1 hsuper
      cases hpair
      exact ⟨nofun, hadds, rfl⟩
  | some superName =>
      obtain ⟨j, constants'', hclass, hpure⟩ := runs_bind_iff.1 hsuper
      obtain ⟨hj, hadds'⟩ :=
        PoolBuilder.asks_classInfo superName.text _ j constants'' hadds.sound hclass
      obtain ⟨hpair, rfl⟩ := runs_pure_iff.1 hpure
      cases hpair
      exact ⟨fun hzero => hj (Option.some.inj hzero), hadds.trans hadds', rfl⟩

/-- A class of which all calls went through has the texts of its names and what the calls added. -/
theorem adds_of_start {flags : ClassFlags} {name : BinaryName} {superName : Option BinaryName}
    {calls : List Call} (hstart : start flags name superName = .ok b)
    (hcalls : Runs (calls.forM Call.run) b () b') :
    b'.Sound ∧
      (∀ t, .utf8 t ∈ b'.constants.pool.constants ↔
        t ∈ startTexts name superName ++ calls.flatMap Call.texts) ∧
      (∀ part, b'.count part = (calls.filterMap Call.part?).count part) ∧
      b'.infos = calls.filterMap Call.body? := by
  obtain ⟨constants, thisClass, superClass, hsuper, hnames, rfl⟩ := start_cases hstart
  have hadds := adds_forM
    { constants := hnames.sound, superClass := hsuper, fields := by simp [ofConstants],
      methods := by simp [ofConstants] } hcalls
  refine ⟨hadds.sound, fun t => ?_, fun part => ?_, hadds.infos⟩
  · rw [hadds.constants.mem_iff, ofConstants, hnames.mem_iff, List.mem_append]
    exact or_congr_left (or_iff_right List.not_mem_nil)
  · rw [hadds.count]
    cases part <;> exact Nat.zero_add _

/-! ## Limits -/

/-- Limits of the format that the builder does not check: the bytes of a text and the parts of a kind
are counted in two bytes, and the bytes of a body in four. -/
structure WithinLimits (name : BinaryName) (superName : Option BinaryName) (calls : List Call) :
    Prop where
  texts : ∀ t ∈ startTexts name superName ++ calls.flatMap Call.texts,
    (Text.modifiedUtf8 t).length ≤ maxLength
  parts : ∀ part, (calls.filterMap Call.part?).count part ≤ maxLength
  bodies : ∀ info ∈ calls.filterMap Call.body?, info.length < byteLimit

theorem forall_fits_iff {cs : List Constant} :
    (∀ c ∈ cs, c.Fits) ↔ ∀ t, .utf8 t ∈ cs → (Text.modifiedUtf8 t).length ≤ maxLength := by
  constructor
  · intro hfits t ht
    exact hfits (.utf8 t) ht
  · intro htexts c hc
    cases c with
    | utf8 text => exact htexts text hc
    | _ => trivial

theorem mem_infos_iff {info : List UInt8} :
    info ∈ b.infos ↔ ∃ m ∈ b.methods, ∃ a ∈ m.attributes, a.info = info := by
  simp [infos]

/-- Of the limits only some are left to the calls. -/
theorem Sound.fits_result_iff (hsound : b.Sound) :
    b.result.Fits ↔
      (∀ t, .utf8 t ∈ b.constants.pool.constants → (Text.modifiedUtf8 t).length ≤ maxLength) ∧
        (∀ part, b.count part ≤ maxLength) ∧ ∀ info ∈ b.infos, info.length < byteLimit := by
  constructor
  · intro hfits
    refine ⟨forall_fits_iff.1 hfits.pool.constants, ?_, ?_⟩
    · intro part
      cases part with
      | interface => exact hfits.interfaces
      | field => exact hfits.fields.1
      | method => exact hfits.methods.1
    · intro info hinfo
      obtain ⟨m, hm, a, ha, rfl⟩ := mem_infos_iff.1 hinfo
      exact (hfits.methods.2 m (Array.mem_toList_iff.2 hm)).2 a ha
  · -- the builder sees to the layout of the pool, the number of slots and the zeros by itself
    rintro ⟨htexts, hparts, hinfos⟩
    exact
      { pool :=
          { layout := hsound.constants.layout
            slots := hsound.constants.slots
            constants := forall_fits_iff.2 htexts }
        superClass := hsound.superClass
        interfaces := hparts .interface
        fields := by
          refine ⟨hparts .field, fun f hf => ?_⟩
          rw [Member.Fits, hsound.fields f (Array.mem_toList_iff.1 hf)]
          exact ⟨Nat.zero_le _, by simp⟩
        methods := by
          refine ⟨hparts .method, fun m hm => ?_⟩
          rw [result, Array.mem_toList_iff] at hm
          refine ⟨Nat.le_trans (hsound.methods m hm) (by decide), fun a ha => ?_⟩
          exact hinfos a.info (mem_infos_iff.2 ⟨m, hm, a, ha, rfl⟩)
        attributes := ⟨Nat.zero_le _, by simp [result]⟩ }

/-- The class file fits exactly if the calls keep to the limits. -/
theorem fits_result_iff {flags : ClassFlags} {name : BinaryName} {superName : Option BinaryName}
    {calls : List Call} (hstart : start flags name superName = .ok b)
    (hcalls : Runs (calls.forM Call.run) b () b') :
    b'.result.Fits ↔ WithinLimits name superName calls := by
  obtain ⟨hsound, htexts, hcount, hinfos⟩ := adds_of_start hstart hcalls
  rw [hsound.fits_result_iff]
  simp only [htexts, hcount, hinfos]
  constructor
  · rintro ⟨htexts, hparts, hbodies⟩
    exact ⟨htexts, hparts, hbodies⟩
  · rintro ⟨htexts, hparts, hbodies⟩
    exact ⟨htexts, hparts, hbodies⟩

/-! ## Calls that go through -/

/-- Offset of the next constant. -/
def nextSlot (b : ClassBuilder) : Nat := b.constants.pool.table.next

theorem affordable_ask {α : Type} {request : PoolM α} {slots : Nat}
    (h : Affordable PoolBuilder.nextSlot request slots) : Affordable nextSlot (ask request) slots := by
  intro b hroom
  obtain ⟨a, constants, hruns, hleft⟩ := h b.constants hroom
  exact ⟨a, { b with constants := constants }, runs_ask_iff.2 ⟨constants, hruns, rfl⟩, hleft⟩

theorem affordable_utf8 (text : String) : Affordable nextSlot (ask (PoolBuilder.utf8 text)) 1 :=
  affordable_ask (PoolBuilder.affordable_intern (.utf8 text))

theorem affordable_addMethodWith (flags : MethodFlags) (name descriptor : String)
    (attributes : List Attribute) :
    Affordable nextSlot (addMethodWith flags name descriptor attributes) 2 :=
  (affordable_utf8 name).bind fun _ => (affordable_utf8 descriptor).bind fun _ =>
    affordable_modify (by intro b; rfl)

theorem Call.affordable_run (call : Call) : Affordable nextSlot call.run call.slots := by
  cases call with
  | request r => exact (affordable_ask r.affordable_run).bind fun _ => affordable_pure ()
  | addInterface name =>
      exact (affordable_ask (PoolBuilder.affordable_classInfo name)).bind fun _ =>
        affordable_modify (by intro b; rfl)
  | addField flags name descriptor =>
      exact (affordable_utf8 name).bind fun _ => (affordable_utf8 descriptor).bind fun _ =>
        affordable_modify (by intro b; rfl)
  | addAbstractMethod flags name descriptor =>
      exact affordable_addMethodWith flags name descriptor []
  | addMethod flags name descriptor instructions handlers =>
      exact (affordable_utf8 MethodBody.attributeName).bind fun _ =>
        affordable_addMethodWith flags name descriptor _

/-- Calls that have room in the pool all go through. -/
theorem exists_runs_forM (calls : List Call)
    (hroom : b.nextSlot + (calls.map Call.slots).sum ≤ PoolBuilder.maxNext) :
    ∃ b', Runs (calls.forM Call.run) b () b' := by
  obtain ⟨u, b', hruns, -⟩ := affordable_forM Call.affordable_run calls b hroom
  exact ⟨b', hruns⟩

theorem affordable_requestNames (name : BinaryName) (superName : Option BinaryName) :
    Affordable PoolBuilder.nextSlot (requestNames name superName) (2 + 2) := by
  rw [requestNames]
  apply (PoolBuilder.affordable_classInfo name.text).bind
  intro i
  cases superName with
  | none =>
      intro constants hroom
      exact ⟨(i, none), constants, runs_pure_iff.2 ⟨rfl, rfl⟩, Nat.le_add_right _ _⟩
  | some superName =>
      exact (PoolBuilder.affordable_classInfo superName.text).bind fun j => affordable_pure (i, some j)

/-- Every class can be started, in the first four slots. -/
theorem exists_start (flags : ClassFlags) (name : BinaryName) (superName : Option BinaryName) :
    ∃ b, start flags name superName = .ok b ∧ b.nextSlot ≤ 5 := by
  obtain ⟨⟨i, superClass⟩, constants, hruns, hused⟩ :=
    affordable_requestNames name superName PoolBuilder.empty (by decide)
  exact ⟨_, start_eq_ok_iff.2 ⟨i, superClass, constants, hruns, rfl⟩, hused⟩

/-! ## Reading back -/

/-- What the builder makes of calls that all went through is read back exactly if the calls keep to
the limits that it does not check. -/
theorem parse_result_iff {flags : ClassFlags} {name : BinaryName} {superName : Option BinaryName}
    {calls : List Call} (hstart : start flags name superName = .ok b)
    (hcalls : Runs (calls.forM Call.run) b () b') :
    ClassFile.parse b'.result.toBytes = .ok b'.result ↔ WithinLimits name superName calls := by
  rw [ClassFile.parse_toBytes_iff, fits_result_iff hstart hcalls]

/-- Name of a class to be built. -/
def agentName : BinaryName := ⟨"agent/A", rfl⟩

/-- Name of its superclass. -/
def objectName : BinaryName := ⟨"java/lang/Object", BinaryName.object.valid⟩

/-- Calls that add an interface, a field and a method with a body. -/
def fewCalls : List Call :=
  [.addInterface "lib/Greeter", .addField (.ofBits 1) "count" "I",
    .addMethod (.ofBits 1) "run" "()V" [.other 0xb1 []] []]

theorem parse_result_fewCalls : ∃ b b', start (.ofBits 0x21) agentName (some objectName) = .ok b ∧
    Runs (fewCalls.forM Call.run) b () b' ∧ WithinLimits agentName (some objectName) fewCalls ∧
      ClassFile.parse b'.result.toBytes = .ok b'.result := by
  obtain ⟨b, hstart, hfive⟩ := exists_start (.ofBits 0x21) agentName (some objectName)
  obtain ⟨b', hcalls⟩ := exists_runs_forM fewCalls (b := b) (by
    have hslots : (fewCalls.map Call.slots).sum = 7 := rfl
    have hmax : PoolBuilder.maxNext = 65535 := rfl
    omega)
  have hwithin : WithinLimits agentName (some objectName) fewCalls :=
    { texts := by decide +kernel
      parts := by intro part; cases part <;> decide
      bodies := by decide }
  exact ⟨b, b', hstart, hcalls, hwithin, (parse_result_iff hstart hcalls).2 hwithin⟩

/-- Field name of one character more than the bytes of a text are counted. -/
def longName : String := String.ofList (List.replicate 0x10000 'a')

/-- Call that adds a field with this name. -/
def longCalls : List Call := [.addField (.ofBits 1) longName "I"]

theorem length_modifiedUtf8_replicate (count : Nat) :
    (Text.modifiedUtf8 (String.ofList (List.replicate count 'a'))).length = count := by
  rw [Text.modifiedUtf8, String.toList_ofList]
  induction count with
  | zero => rfl
  | succ count ih =>
      have hone : (Text.unitsOf 'a').flatMap Text.unitBytes = [97] := by decide
      rw [List.replicate_succ, Text.utf16, List.flatMap_cons, List.flatMap_append, hone,
        List.length_append, ← Text.utf16, ih, Nat.add_comm]
      rfl

theorem length_longName : (Text.modifiedUtf8 longName).length = 0x10000 :=
  length_modifiedUtf8_replicate 0x10000

/-- The class is built without a fault, but its bytes are not read as it. -/
theorem parse_result_longCalls : ∃ b b', start (.ofBits 0x21) agentName (some objectName) = .ok b ∧
    Runs (longCalls.forM Call.run) b () b' ∧
      ClassFile.parse b'.result.toBytes ≠ .ok b'.result := by
  obtain ⟨b, hstart, hfive⟩ := exists_start (.ofBits 0x21) agentName (some objectName)
  obtain ⟨b', hcalls⟩ := exists_runs_forM longCalls (b := b) (by
    have hslots : (longCalls.map Call.slots).sum = 2 := rfl
    have hmax : PoolBuilder.maxNext = 65535 := rfl
    omega)
  -- a class that is read back would keep to the limits, but the name has too many bytes
  refine ⟨b, b', hstart, hcalls, fun hparse => ?_⟩
  have hwithin := (fits_result_iff hstart hcalls).1 ((ClassFile.parse_toBytes_iff _).1 hparse)
  have hmem : longName ∈ longCalls.flatMap Call.texts :=
    List.mem_flatMap.2 ⟨_, List.mem_singleton_self _, List.mem_cons_self⟩
  have hlength := hwithin.texts longName (List.mem_append_right _ hmem)
  rw [length_longName] at hlength
  exact absurd hlength (by decide)

end ClassBuilder

end Linkage
