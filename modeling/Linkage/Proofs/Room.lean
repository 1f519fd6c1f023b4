import Linkage.Proofs.Storing

/-!
# Room for a class

A class is built if the pool has room for all constants that its parts ask for, counted as if none of them
were asked for twice (`ClassSpec.exists_build`).

Every part needs at most the slots of its own constants (`ClassBuilder.affordable_addMethod`).
-/

set_option autoImplicit false

namespace Linkage

/-! ## Slots of the parts -/

/-- Slots of the constant that an instruction needs, with its parts. -/
def CodeSpec.slots (s : CodeSpec) : Nat :=
  match s.request? with
  | none => 0
  | some (r, _) => r.slots

/-- Slots of the class of a handler. -/
def HandlerSpec.slots (h : HandlerSpec) : Nat :=
  match h.catchName with
  | none => 0
  | some _ => 2

/-- Slots of a method and its body. -/
def MethodSpec.slots (m : MethodSpec) : Nat :=
  match m.body with
  | none => 2
  | some body => (body.code.map CodeSpec.slots).sum + ((body.handlers.map HandlerSpec.slots).sum + 3)

/-- Slots of all parts of a class. -/
def ClassSpec.slots (c : ClassSpec) : Nat :=
  (c.interfaces.map fun _ => 2).sum + ((c.fields.map fun _ => 2).sum +
    (c.methods.map MethodSpec.slots).sum)

open PoolBuilder

theorem CodeSpec.affordable_instruction (s : CodeSpec) :
    Affordable PoolBuilder.nextSlot s.instruction s.slots := by
  rcases s.instruction_cases with ⟨instruction, rfl⟩ | ⟨r, make, hrequest, hmake⟩
  · exact affordable_pure instruction
  · have hslots : s.slots = r.slots + 0 := by simp only [slots, hrequest, Nat.add_zero]
    rw [hmake, hslots]
    exact r.affordable_run.bind fun i => affordable_pure (make i)

theorem HandlerSpec.affordable_handler (h : HandlerSpec) :
    Affordable PoolBuilder.nextSlot h.handler h.slots := by
  obtain ⟨start, stop, target, catchName⟩ := h
  cases catchName with
  | none => exact affordable_pure _
  | some name => exact (Request.classInfo name).affordable_run.bind fun i => affordable_pure _

namespace ClassBuilder

theorem affordable_addMethod (m : MethodSpec) :
    Affordable ClassBuilder.nextSlot (ClassSpec.addMethod m) m.slots := by
  obtain ⟨flags, name, descriptor, body⟩ := m
  cases body with
  | none => exact Call.affordable_run (.addAbstractMethod flags name descriptor)
  | some body =>
      -- once the constants of the body are there, what is left is a call with their indices
      apply (affordable_ask (affordable_mapM CodeSpec.affordable_instruction body.code)).bind
      intro instructions
      apply (affordable_ask (affordable_mapM HandlerSpec.affordable_handler body.handlers)).bind
      intro handlers
      exact Call.affordable_run (.addMethod flags name descriptor instructions handlers)

end ClassBuilder

/-- A class is built if its constants find room behind those of its name and of its superclass. -/
theorem ClassSpec.exists_build {c : ClassSpec} (hroom : 5 + c.slots ≤ maxNext) :
    ∃ built, c.build = .ok built := by
  obtain ⟨b, hstart, hfive⟩ := ClassBuilder.exists_start c.flags c.name c.superName
  have hparts : Affordable ClassBuilder.nextSlot c.addParts c.slots := by
    apply (affordable_forM (fun name => ClassBuilder.Call.affordable_run (.addInterface name))
      c.interfaces).bind
    intro _
    apply (affordable_forM (fun f : FieldSpec =>
      ClassBuilder.Call.affordable_run (.addField f.flags f.name f.descriptor)) c.fields).bind
    intro _
    exact affordable_forM ClassBuilder.affordable_addMethod c.methods
  obtain ⟨u, b', hruns, -⟩ := hparts b (by omega)
  refine ⟨b'.result, Fallible.bind_eq_ok_iff.2 ⟨b, hstart, ?_⟩⟩
  rw [show c.addParts.run b = (.ok u, b') from hruns]
  rfl

end Linkage
