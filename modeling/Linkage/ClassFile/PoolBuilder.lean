import Std.Data.HashMap
import Linkage.ClassFile.Pool

/-!
# Building constant pools

A pool is built by asking for constants: a constant that the pool already has is
found by an index of all constants, and a new one is put at the end. Compound
constants ask for their parts first. A pool ends before the slot 65535; a request
that would go beyond fails, but the parts that it has put into the pool stay.
-/

set_option autoImplicit false

namespace Linkage

/-- Pool with the index of every constant in it. -/
structure PoolBuilder where
  pool : ConstantPool
  index : Std.HashMap Constant PoolIndex

/-- Requests to a pool builder. What a failed request has added stays. -/
abbrev PoolM (α : Type) : Type := ExceptT ClassError (StateM PoolBuilder) α

namespace PoolBuilder

/-- Builder of a pool without constants. -/
def empty : PoolBuilder := ⟨ConstantPool.empty, ∅⟩

/-- Greatest offset that the next constant of a pool can have. -/
def maxNext : Nat := 65535

/-- Index of a constant, which is added if the pool does not have it. -/
def intern (c : Constant) : PoolM PoolIndex := fun b =>
  match b.index[c]? with
  | some i => (.ok i, b)
  | none =>
      match b with
      | ⟨pool, index⟩ =>
          let next := pool.table.next
          if next + c.width ≤ maxNext then
            let i := UInt16.ofNat next
            (.ok i, ⟨pool.push c, index.insert c i⟩)
          else (.error (.poolOverflow next), ⟨pool, index⟩)

/-- Index of a text. -/
def utf8 (text : String) : PoolM PoolIndex := intern (.utf8 text)

/-- Index of a class; an array class is named by its descriptor. -/
def classInfo (name : String) : PoolM PoolIndex := do intern (.classInfo (← utf8 name))

/-- Index of a constant text. -/
def string (text : String) : PoolM PoolIndex := do intern (.string (← utf8 text))

/-- Index of a constant of width one. -/
def integer (value : Int32) : PoolM PoolIndex := intern (.integer value)

/-- Index of a constant of width two. -/
def long (value : Int64) : PoolM PoolIndex := intern (.long value)

/-- Index of a name with a descriptor. -/
def nameAndType (name descriptor : String) : PoolM PoolIndex := do
  intern (.nameAndType (← utf8 name) (← utf8 descriptor))

/-- Index of a reference to a field. -/
def fieldRef (owner name descriptor : String) : PoolM PoolIndex := do
  intern (.fieldRef (← classInfo owner) (← nameAndType name descriptor))

/-- Index of a reference to a method. -/
def methodRef (owner name descriptor : String) (isInterface : Bool) : PoolM PoolIndex := do
  intern (.methodRef (← classInfo owner) (← nameAndType name descriptor) isInterface)

end PoolBuilder

end Linkage
