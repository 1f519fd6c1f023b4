import Linkage.Proofs.Interning

/-!
# What a builder stores of a class

A class that is given by names is stored as indices into the pool, which lead to what was asked for and
still do so after everything that is asked for later.

* `PoolBuilder.Gathers`: what requests that go through have answered with, and which texts they have put
  into the pool; for a list of requests (`PoolBuilder.gathers_mapM`), the answers stand beside what was
  asked for.
* `ClassBuilder.Shows`: the builder has stored the parts of a class in order. Every step of making a class
  keeps it so for the parts so far (`Shows.addInterface`, `Shows.addField`, `Shows.addMethod`), so in the
  end it holds for all of them (`ClassSpec.shows_of_build`).
-/

set_option autoImplicit false

namespace Linkage

/-! ## Requests that go through -/

namespace PoolBuilder

open ConstantPool

variable {α β γ : Type}

/-- The request has led from one builder to the other one: its constants are found where it says, all
other ones where they were, and only its texts have come into the pool. -/
structure Gathered (b : PoolBuilder) (texts : List String) (b' : PoolBuilder) : Prop where
  faithful : b'.Faithful
  kept : b.pool.Extends b'.pool
  texts : ∀ t, .utf8 t ∈ b'.pool.constants → .utf8 t ∈ b.pool.constants ∨ t ∈ texts

/-- Whenever the request goes through, its texts are gathered, and the answer has the property in the
pool. -/
def Gathers (request : PoolM α) (texts : List String) (p : ConstantPool → α → Prop) : Prop :=
  ∀ b a b', b.Faithful → Runs request b a b' → Gathered b texts b' ∧ p b'.pool a

theorem Gathered.refl {b : PoolBuilder} (h : b.Faithful) : Gathered b [] b :=
  ⟨h, Extends.refl _, fun _ => Or.inl⟩

theorem Gathered.trans {b b' b'' : PoolBuilder} {texts texts' : List String}
    (h : Gathered b texts b') (h' : Gathered b' texts' b'') : Gathered b (texts ++ texts') b'' where
  faithful := h'.faithful
  kept := h.kept.trans h'.kept
  texts := by
    intro t ht
    rw [List.mem_append, ← or_assoc]
    exact (h'.texts t ht).imp_left (h.texts t)

section Gathering

variable {request : PoolM α} {next : α → PoolM β} {texts texts' : List String}
  {p : ConstantPool → α → Prop} {r : ConstantPool → β → Prop}

theorem gathers_pure {a : α} (h : ∀ q, p q a) : Gathers (pure a) [] p := by
  intro b a' b' hb hruns
  obtain ⟨rfl, rfl⟩ := runs_pure_iff.1 hruns
  exact ⟨Gathered.refl hb, h _⟩

/-- The first answer still has its property after the second request. -/
theorem Gathers.bind (h : Gathers request texts p) (hstays : ∀ q q' a, q.Extends q' → p q a → p q' a)
    (hnext : ∀ a, Gathers (next a) texts' fun q b => p q a → r q b) :
    Gathers (request >>= next) (texts ++ texts') r := by
  intro b c b'' hb hruns
  obtain ⟨a, b', hfirst, hsecond⟩ := runs_bind_iff.1 hruns
  obtain ⟨hgathered, hanswer⟩ := h b a b' hb hfirst
  obtain ⟨hgathered', hanswer'⟩ := hnext a b' c b'' hgathered.faithful hsecond
  exact ⟨hgathered.trans hgathered', hanswer' (hstays _ _ a hgathered'.kept hanswer)⟩

/-- What is made of an answer. -/
theorem Gathers.map {make : α → β} (h : Gathers request texts p)
    (hmake : ∀ q a, p q a → r q (make a)) : Gathers (do return make (← request)) texts r := by
  intro b c b'' hb hruns
  obtain ⟨a, b', hfirst, hsecond⟩ := runs_bind_iff.1 hruns
  obtain ⟨rfl, rfl⟩ := runs_pure_iff.1 hsecond
  obtain ⟨hgathered, hanswer⟩ := h b a b' hb hfirst
  exact ⟨hgathered, hmake _ a hanswer⟩

/-- The answers to a list of requests stand beside what was asked for. -/
theorem gathers_mapM {step : γ → PoolM α} {textsOf : γ → List String} {s : ConstantPool → γ → α → Prop}
    (hstep : ∀ x, Gathers (step x) (textsOf x) fun q a => s q x a)
    (hstays : ∀ q q' x a, q.Extends q' → s q x a → s q' x a) (xs : List γ) :
    Gathers (xs.mapM step) (xs.flatMap textsOf) fun q ys => List.Forall₂ (s q) xs ys := by
  induction xs with
  | nil => exact gathers_pure fun _ => .nil
  | cons x xs ih =>
      rw [List.mapM_cons, List.flatMap_cons]
      apply (hstep x).bind fun q q' a => hstays q q' x a
      intro y
      apply ih.map
      intro q ys hys hy
      exact .cons hy hys

end Gathering

/-- Every request puts its texts into the pool and answers with the place of what was asked for. -/
theorem Request.gathers_run (r : Request) : Gathers r.run r.texts fun q i => Resolves q i r := by
  intro b i b' hb hruns
  have hadvances := r.registers_run b hb
  rw [hruns] at hadvances
  obtain ⟨-, hadds⟩ := r.asks_run b i b' hb.sound hruns
  exact ⟨⟨hadvances.faithful, hadvances.kept, fun t => (hadds.mem_iff t).1⟩, hadvances.answered i rfl⟩

/-- No constant is at zero. -/
theorem Faithful.ne_zero {b : PoolBuilder} {i : PoolIndex} {text : String} (h : b.Faithful)
    (hclass : b.pool.className i = .ok text) : i ≠ 0 := by
  obtain ⟨j, hget, -⟩ := className_eq_ok_iff.1 hclass
  exact (h.sound.indexed _ i ((h.indexed _ i).2 hget)).1

end PoolBuilder

open PoolBuilder

/-! ## Parts of a class -/

/-- The index is the one of a class with the name. -/
def ConstantPool.Names (p : ConstantPool) (name : String) (i : PoolIndex) : Prop :=
  p.className i = .ok name

/-- Constant that an instruction needs, and the instruction with the index of the constant. -/
def CodeSpec.request? : CodeSpec → Option (Request × (PoolIndex → Instruction))
  | .field access owner name descriptor =>
      some (.fieldRef owner name descriptor, access.instruction)
  | .method kind owner name descriptor isInterface =>
      some (.methodRef owner name descriptor isInterface, .invoke kind)
  | .callSite name descriptor => some (.nameAndType name descriptor, .invokeDynamic)
  | .classUse use name => some (.classInfo name, use.instruction)
  | .string text => some (.string text, .load)
  | .integer value => some (.integer value, .load)
  | .long value => some (.long value, .loadWide)
  | .plain _ => none

/-- The instruction is the given one, with the place of what it asks for as its index. -/
inductive CodeSpec.Denotes (p : ConstantPool) : CodeSpec → Instruction → Prop
  | plain (instruction : Instruction) : Denotes p (.plain instruction) instruction
  | constant {s : CodeSpec} {r : Request} {make : PoolIndex → Instruction} {index : PoolIndex} :
      s.request? = some (r, make) → Resolves p index r → Denotes p s (make index)

/-- The handler is for the given range and leads to the given target, and its class has the given name,
if it is not for all exceptions. -/
structure HandlerSpec.SeenAs (p : ConstantPool) (h : HandlerSpec) (handler : Handler) : Prop where
  start : handler.start = h.start
  stop : handler.stop = h.stop
  target : handler.target = h.target
  catchType : Option.Rel p.Names h.catchName handler.catchType

/-- The member has the given flags and indices of the given texts. -/
structure Member.Stores {mask : UInt16} (p : ConstantPool) (flags : FlagSet mask)
    (name descriptor : String) (m : Member mask) : Prop where
  flags : m.flags = flags
  name : p.utf8 m.name = .ok name
  descriptor : p.utf8 m.descriptor = .ok descriptor

/-- The attributes hold the body, if there is one. -/
inductive BodySpec.StoredIn (p : ConstantPool) : Option BodySpec → List Attribute → Prop
  | noBody : StoredIn p none []
  | withBody {body : BodySpec} {name : PoolIndex} {instructions : List Instruction}
      {handlers : List Handler} :
      p.utf8 name = .ok MethodBody.attributeName →
        List.Forall₂ (CodeSpec.Denotes p) body.code instructions →
        List.Forall₂ (HandlerSpec.SeenAs p) body.handlers handlers →
        StoredIn p (some body) [⟨name, MethodBody.write ⟨ClassBuilder.frameSize,
          ClassBuilder.frameSize, Instruction.assemble instructions, handlers, []⟩⟩]

/-- The field is the given one. -/
structure FieldSpec.StoredAs (p : ConstantPool) (f : FieldSpec) (field : Field) : Prop where
  member : field.Stores p f.flags f.name f.descriptor
  attributes : field.attributes = []

/-- The method is the given one, with its body. -/
structure MethodSpec.StoredAs (p : ConstantPool) (m : MethodSpec) (method : Method) : Prop where
  member : method.Stores p m.flags m.name m.descriptor
  attributes : BodySpec.StoredIn p m.body method.attributes

/-! ### Pools that go on -/

section Extends

variable {p q : ConstantPool}

theorem ConstantPool.Extends.names (h : p.Extends q) {name : String} {i : PoolIndex}
    (hname : p.Names name i) : q.Names name i := h.className hname

theorem CodeSpec.Denotes.mono (h : p.Extends q) {s : CodeSpec} {i : Instruction}
    (hdenotes : s.Denotes p i) : s.Denotes q i := by
  cases hdenotes with
  | plain => exact .plain i
  | constant hrequest hresolves => exact .constant hrequest (hresolves.mono h)

theorem rel_mono {α β : Type} {r s : α → β → Prop} (h : ∀ a b, r a b → s a b) {a : Option α}
    {b : Option β} (hrel : Option.Rel r a b) : Option.Rel s a b := by
  cases hrel with
  | none => exact .none
  | some hab => exact .some (h _ _ hab)

theorem HandlerSpec.SeenAs.mono (h : p.Extends q) {spec : HandlerSpec} {handler : Handler}
    (hseen : spec.SeenAs p handler) : spec.SeenAs q handler :=
  { hseen with catchType := rel_mono (fun _ _ => h.names) hseen.catchType }

theorem Member.Stores.mono (h : p.Extends q) {mask : UInt16} {flags : FlagSet mask}
    {name descriptor : String} {m : Member mask} (hstores : m.Stores p flags name descriptor) :
    m.Stores q flags name descriptor :=
  ⟨hstores.flags, h.utf8 hstores.name, h.utf8 hstores.descriptor⟩

theorem FieldSpec.StoredAs.mono (h : p.Extends q) {f : FieldSpec} {field : Field}
    (hstored : f.StoredAs p field) : f.StoredAs q field :=
  ⟨hstored.member.mono h, hstored.attributes⟩

theorem BodySpec.StoredIn.mono (h : p.Extends q) {body : Option BodySpec} {attributes : List Attribute}
    (hstored : StoredIn p body attributes) : StoredIn q body attributes := by
  cases hstored with
  | noBody => exact .noBody
  | withBody hname hcode hhandlers =>
      exact .withBody (h.utf8 hname) (hcode.imp fun _ _ => CodeSpec.Denotes.mono h)
        (hhandlers.imp fun _ _ => HandlerSpec.SeenAs.mono h)

theorem MethodSpec.StoredAs.mono (h : p.Extends q) {m : MethodSpec} {method : Method}
    (hstored : m.StoredAs p method) : m.StoredAs q method :=
  ⟨hstored.member.mono h, hstored.attributes.mono h⟩

end Extends

/-! ### Their texts -/

/-- Texts of the constant that an instruction needs. -/
def CodeSpec.texts (s : CodeSpec) : List String :=
  match s.request? with
  | none => []
  | some (r, _) => r.texts

/-- Texts of the instructions and of the classes of the handlers. -/
def BodySpec.texts (body : BodySpec) : List String :=
  body.code.flatMap CodeSpec.texts ++ body.handlers.flatMap fun h => h.catchName.toList

/-- Texts of a field. -/
def FieldSpec.texts (f : FieldSpec) : List String := [f.name, f.descriptor]

/-- Texts of a method and its body. -/
def MethodSpec.texts (m : MethodSpec) : List String :=
  match m.body with
  | none => [m.name, m.descriptor]
  | some body => body.texts ++ [MethodBody.attributeName, m.name, m.descriptor]

/-- Texts of a class and all of its parts. -/
def ClassSpec.texts (c : ClassSpec) : List String :=
  ClassBuilder.startTexts c.name c.superName ++ c.interfaces ++ c.fields.flatMap FieldSpec.texts ++
    c.methods.flatMap MethodSpec.texts

/-! ## Requests for the parts -/

/-- An instruction is given as it is, or it is made with the index of the constant that it needs. -/
theorem CodeSpec.instruction_cases (s : CodeSpec) : (∃ instruction, s = .plain instruction) ∨
    ∃ r make, s.request? = some (r, make) ∧ s.instruction = (do return make (← r.run)) := by
  cases s with
  | plain instruction => exact Or.inl ⟨instruction, rfl⟩
  | field access owner name descriptor =>
      exact Or.inr ⟨.fieldRef owner name descriptor, _, rfl, rfl⟩
  | method kind owner name descriptor isInterface =>
      exact Or.inr ⟨.methodRef owner name descriptor isInterface, _, rfl, rfl⟩
  | callSite name descriptor => exact Or.inr ⟨.nameAndType name descriptor, _, rfl, rfl⟩
  | classUse use name => exact Or.inr ⟨.classInfo name, _, rfl, rfl⟩
  | string text => exact Or.inr ⟨.string text, _, rfl, rfl⟩
  | integer value => exact Or.inr ⟨.integer value, _, rfl, rfl⟩
  | long value => exact Or.inr ⟨.long value, _, rfl, rfl⟩

theorem CodeSpec.gathers_instruction (s : CodeSpec) :
    Gathers s.instruction s.texts fun q i => s.Denotes q i := by
  rcases s.instruction_cases with ⟨instruction, rfl⟩ | ⟨r, make, hrequest, hmake⟩
  · exact gathers_pure fun q => .plain instruction
  · have htexts : s.texts = r.texts := by simp only [texts, hrequest]
    rw [hmake, htexts]
    exact r.gathers_run.map fun q i hresolves => .constant hrequest hresolves

theorem HandlerSpec.gathers_handler (h : HandlerSpec) :
    Gathers h.handler h.catchName.toList fun q handler => h.SeenAs q handler := by
  obtain ⟨start, stop, target, catchName⟩ := h
  cases catchName with
  | none => exact gathers_pure fun q => ⟨rfl, rfl, rfl, .none⟩
  | some name =>
      apply (Request.classInfo name).gathers_run.map
      intro q i hname
      exact ⟨rfl, rfl, rfl, .some hname⟩

/-! ## Steps of making a class -/

namespace ClassBuilder

/-- The builder has stored the class, in a pool that has no texts but the given ones. -/
structure Shows (b : ClassBuilder) (c : ClassSpec) (texts : List String) : Prop where
  constants : b.constants.Faithful
  texts : ∀ t, .utf8 t ∈ b.constants.pool.constants → t ∈ texts
  flags : b.flags = c.flags
  thisClass : b.constants.pool.Names c.name.text b.thisClass
  superClass : Option.Rel (fun name => b.constants.pool.Names name.text) c.superName b.superClass
  interfaces : List.Forall₂ b.constants.pool.Names c.interfaces b.interfaces.toList
  fields : List.Forall₂ (FieldSpec.StoredAs b.constants.pool) c.fields b.fields.toList
  methods : List.Forall₂ (MethodSpec.StoredAs b.constants.pool) c.methods b.methods.toList

variable {b b' : ClassBuilder} {c : ClassSpec} {texts : List String}

/-- What has been stored is found in a pool that goes on as well. -/
theorem Shows.gather (h : b.Shows c texts) {constants : PoolBuilder} {more : List String}
    (hgathered : Gathered b.constants more constants) :
    Shows { b with constants := constants } c (texts ++ more) where
  constants := hgathered.faithful
  texts := by
    intro t ht
    rw [List.mem_append]
    exact (hgathered.texts t ht).imp_left (h.texts t)
  flags := h.flags
  thisClass := hgathered.kept.names h.thisClass
  superClass := rel_mono (fun _ _ => hgathered.kept.names) h.superClass
  interfaces := h.interfaces.imp fun _ _ => hgathered.kept.names
  fields := h.fields.imp fun _ _ => FieldSpec.StoredAs.mono hgathered.kept
  methods := h.methods.imp fun _ _ => MethodSpec.StoredAs.mono hgathered.kept

/-- A step that begins with a request goes on with the answer. -/
theorem Shows.exists_of_ask (h : b.Shows c texts) {α : Type} {request : PoolM α} {more : List String}
    {p : ConstantPool → α → Prop} {next : α → ClassM Unit} (hgathers : Gathers request more p)
    (hruns : Runs (ask request >>= next) b () b') :
    ∃ a b₁, b₁.Shows c (texts ++ more) ∧ b.constants.pool.Extends b₁.constants.pool ∧
      p b₁.constants.pool a ∧ Runs (next a) b₁ () b' := by
  obtain ⟨a, b₁, hask, hnext⟩ := runs_bind_iff.1 hruns
  obtain ⟨constants, hrequest, rfl⟩ := runs_ask_iff.1 hask
  obtain ⟨hgathered, hanswer⟩ := hgathers _ a constants h.constants hrequest
  exact ⟨a, _, h.gather hgathered, hgathered.kept, hanswer, hnext⟩

theorem Shows.addInterface (h : b.Shows c texts) {name : String}
    (hruns : Runs (ClassBuilder.addInterface name) b () b') :
    b'.Shows { c with interfaces := c.interfaces ++ [name] } (texts ++ [name]) := by
  obtain ⟨i, b₁, h₁, -, hname, hmodify⟩ :=
    h.exists_of_ask (Request.classInfo name).gathers_run hruns
  obtain rfl := runs_modify_iff.1 hmodify
  exact
    { h₁ with
      interfaces := by
        rw [Array.toList_push]
        exact List.rel_append h₁.interfaces (.cons hname .nil) }

theorem Shows.addField (h : b.Shows c texts) {f : FieldSpec}
    (hruns : Runs (ClassBuilder.addField f.flags f.name f.descriptor) b () b') :
    b'.Shows { c with fields := c.fields ++ [f] } (texts ++ f.texts) := by
  obtain ⟨i, b₁, h₁, -, hname, hruns₁⟩ := h.exists_of_ask (Request.utf8 f.name).gathers_run hruns
  obtain ⟨j, b₂, h₂, hkept, hdescriptor, hmodify⟩ :=
    h₁.exists_of_ask (Request.utf8 f.descriptor).gathers_run hruns₁
  obtain rfl := runs_modify_iff.1 hmodify
  rw [List.append_assoc] at h₂
  exact
    { h₂ with
      fields := by
        rw [Array.toList_push]
        exact List.rel_append h₂.fields (.cons ⟨⟨rfl, hkept.utf8 hname, hdescriptor⟩, rfl⟩ .nil) }

/-- A method is added with attributes that hold its body. -/
theorem Shows.addMethodWith (h : b.Shows c texts) {m : MethodSpec} {attributes : List Attribute}
    (hattributes : BodySpec.StoredIn b.constants.pool m.body attributes)
    (hruns : Runs (ClassBuilder.addMethodWith m.flags m.name m.descriptor attributes) b () b') :
    b'.Shows { c with methods := c.methods ++ [m] } (texts ++ [m.name, m.descriptor]) := by
  obtain ⟨i, b₁, h₁, hkept₁, hname, hruns₁⟩ :=
    h.exists_of_ask (Request.utf8 m.name).gathers_run hruns
  obtain ⟨j, b₂, h₂, hkept₂, hdescriptor, hmodify⟩ :=
    h₁.exists_of_ask (Request.utf8 m.descriptor).gathers_run hruns₁
  obtain rfl := runs_modify_iff.1 hmodify
  rw [List.append_assoc] at h₂
  have hstored : m.StoredAs b₂.constants.pool ⟨m.flags, i, j, attributes⟩ :=
    ⟨⟨rfl, hkept₂.utf8 hname, hdescriptor⟩, hattributes.mono (hkept₁.trans hkept₂)⟩
  exact
    { h₂ with
      methods := by
        rw [Array.toList_push]
        exact List.rel_append h₂.methods (.cons hstored .nil) }

/-- A method is added with its body: the instructions, the handlers and the name of the attribute that
holds them are asked for one after the other. -/
theorem Shows.addMethod (h : b.Shows c texts) {m : MethodSpec}
    (hruns : Runs (ClassSpec.addMethod m) b () b') :
    b'.Shows { c with methods := c.methods ++ [m] } (texts ++ m.texts) := by
  obtain ⟨flags, name, descriptor, body⟩ := m
  cases body with
  | none => exact h.addMethodWith .noBody hruns
  | some body =>
      obtain ⟨instructions, b₁, h₁, -, hcode, hruns₁⟩ := h.exists_of_ask
        (gathers_mapM CodeSpec.gathers_instruction (fun _ _ _ _ h => CodeSpec.Denotes.mono h) body.code)
        hruns
      obtain ⟨handlers, b₂, h₂, hkept₂, hhandlers, hruns₂⟩ := h₁.exists_of_ask
        (gathers_mapM HandlerSpec.gathers_handler (fun _ _ _ _ h => HandlerSpec.SeenAs.mono h)
          body.handlers) hruns₁
      obtain ⟨i, b₃, h₃, hkept₃, hname, hruns₃⟩ :=
        h₂.exists_of_ask (Request.utf8 MethodBody.attributeName).gathers_run hruns₂
      -- the indices of the instructions are older than the pool in which the body is stored
      have hstored : BodySpec.StoredIn b₃.constants.pool (some body) _ := .withBody hname
        (hcode.imp fun _ _ => CodeSpec.Denotes.mono (hkept₂.trans hkept₃))
        (hhandlers.imp fun _ _ => HandlerSpec.SeenAs.mono hkept₃)
      have h₄ := h₃.addMethodWith hstored hruns₃
      simpa only [MethodSpec.texts, BodySpec.texts, Request.texts, List.append_assoc,
        List.singleton_append] using h₄

/-! ### All steps -/

/-- What each step keeps for the list so far holds for the whole list. -/
theorem forM_induction {α : Type} {step : α → ClassM Unit} {p : List α → ClassBuilder → Prop}
    (hstep : ∀ done x b b', p done b → Runs (step x) b () b' → p (done ++ [x]) b') {xs : List α}
    (hstart : p [] b) (hruns : Runs (xs.forM step) b () b') : p xs b' := by
  -- what is done grows at its end, while the list is taken from its front
  have hall : ∀ (xs done : List α) (b : ClassBuilder), p done b → Runs (xs.forM step) b () b' →
      p (done ++ xs) b' := by
    intro xs
    induction xs with
    | nil =>
        intro done b hdone hruns
        obtain ⟨-, rfl⟩ := runs_pure_iff.1 hruns
        rwa [List.append_nil]
    | cons x xs ih =>
        intro done b hdone hruns
        obtain ⟨_, b₁, hfirst, hrest⟩ := runs_bind_iff.1 hruns
        have hlater := ih (done ++ [x]) b₁ (hstep done x b b₁ hdone hfirst) hrest
        rwa [List.append_assoc] at hlater
  exact hall xs [] b hstart hruns

/-- A class is started with its name and its superclass. -/
theorem shows_of_start {flags : ClassFlags} {name : BinaryName} {superName : Option BinaryName}
    (h : start flags name superName = .ok b) :
    b.Shows ⟨flags, name, superName, [], [], []⟩ (startTexts name superName) := by
  obtain ⟨thisClass, superClass, constants, hruns, rfl⟩ := start_eq_ok_iff.1 h
  obtain ⟨i, constants₁, hfirst, hsecond⟩ := runs_bind_iff.1 hruns
  obtain ⟨hgathered, hname⟩ :=
    (Request.classInfo name.text).gathers_run _ i constants₁ faithful_empty hfirst
  -- the empty pool has no texts
  have htexts : ∀ {more : List String} {q : PoolBuilder}, Gathered PoolBuilder.empty more q →
      ∀ t, .utf8 t ∈ q.pool.constants → t ∈ more := by
    intro more q hq t ht
    exact (hq.texts t ht).resolve_left List.not_mem_nil
  cases superName with
  | none =>
      obtain ⟨hpair, rfl⟩ := runs_pure_iff.1 hsecond
      cases hpair
      exact ⟨hgathered.faithful, htexts hgathered, rfl, hname, .none, .nil, .nil, .nil⟩
  | some superName =>
      obtain ⟨j, constants₂, hclass, hpure⟩ := runs_bind_iff.1 hsecond
      obtain ⟨hpair, rfl⟩ := runs_pure_iff.1 hpure
      cases hpair
      obtain ⟨hgathered', hsuper⟩ := (Request.classInfo superName.text).gathers_run _ j constants₂
        hgathered.faithful hclass
      exact ⟨hgathered'.faithful, htexts (hgathered.trans hgathered'), rfl,
        hgathered'.kept.names hname, .some hsuper, .nil, .nil, .nil⟩

/-- The interfaces, the fields and the methods are added to a class without parts. -/
theorem Shows.addParts (h : b.Shows ⟨c.flags, c.name, c.superName, [], [], []⟩ texts)
    (hruns : Runs c.addParts b () b') :
    b'.Shows c (texts ++ c.interfaces ++ c.fields.flatMap FieldSpec.texts ++
      c.methods.flatMap MethodSpec.texts) := by
  obtain ⟨_, b₁, hinterfaces, hruns₁⟩ := runs_bind_iff.1 hruns
  obtain ⟨_, b₂, hfields, hmethods⟩ := runs_bind_iff.1 hruns₁
  have h₁ : b₁.Shows ⟨c.flags, c.name, c.superName, c.interfaces, [], []⟩ (texts ++ c.interfaces) := by
    apply forM_induction
      (p := fun done b => b.Shows ⟨c.flags, c.name, c.superName, done, [], []⟩ (texts ++ done))
      _ (by rwa [List.append_nil]) hinterfaces
    intro done name b b' hdone hstep
    rw [← List.append_assoc]
    exact hdone.addInterface hstep
  have h₂ : b₂.Shows ⟨c.flags, c.name, c.superName, c.interfaces, c.fields, []⟩
      (texts ++ c.interfaces ++ c.fields.flatMap FieldSpec.texts) := by
    apply forM_induction
      (p := fun done b => b.Shows ⟨c.flags, c.name, c.superName, c.interfaces, done, []⟩
        (texts ++ c.interfaces ++ done.flatMap FieldSpec.texts))
      _ (by rwa [List.flatMap_nil, List.append_nil]) hfields
    intro done f b b' hdone hstep
    rw [List.flatMap_append, List.flatMap_singleton, ← List.append_assoc]
    exact hdone.addField hstep
  apply forM_induction
    (p := fun done b => b.Shows ⟨c.flags, c.name, c.superName, c.interfaces, c.fields, done⟩
      (texts ++ c.interfaces ++ c.fields.flatMap FieldSpec.texts ++ done.flatMap MethodSpec.texts))
    _ (by rwa [List.flatMap_nil, List.append_nil]) hmethods
  intro done m b b' hdone hstep
  rw [List.flatMap_append, List.flatMap_singleton, ← List.append_assoc]
  exact hdone.addMethod hstep

end ClassBuilder

/-- A class that is built has been stored with all of its parts, and with no texts but its own ones. -/
theorem ClassSpec.shows_of_build {c : ClassSpec} {built : ClassFile} (h : c.build = .ok built) :
    ∃ b : ClassBuilder, b.Shows c c.texts ∧ built = b.result := by
  obtain ⟨b, hstart, hparts⟩ := Fallible.bind_eq_ok_iff.1 h
  split at hparts
  · rename_i u b' hruns
    cases hparts
    exact ⟨b', (ClassBuilder.shows_of_start hstart).addParts hruns, rfl⟩
  · cases hparts

end Linkage
