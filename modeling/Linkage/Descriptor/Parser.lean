import Linkage.Descriptor.Basic

/-!
# Reading descriptors

Readers take a type off the front of a list of characters and return what is
left; `parse` functions read a whole text. Every text that is read is the text of
the type that is returned, and every type can be read back from its text.
-/

set_option autoImplicit false

namespace Linkage

/-- Ways in which a text is no descriptor. -/
inductive DescriptorFault where
  | trailing (c : Char)
  | notBaseType (c : Char)
  | noBaseType
  | noClass
  | unterminatedClass (text : String)
  | badName (error : NameError)
  | noFieldType
  | noParameters
  | unterminatedParameters
  deriving DecidableEq, Repr

/-- What is wrong with the text. -/
def DescriptorFault.message : DescriptorFault → String
  | .trailing c => "trailing '" ++ c.toString ++ "'"
  | .notBaseType c => "'" ++ c.toString ++ "' is not a base type"
  | .noBaseType => "expected a base type"
  | .noClass => "expected 'L' to start a class"
  | .unterminatedClass text => "class 'L" ++ text ++ "' is missing its ';'"
  | .badName error => error.message
  | .noFieldType => "expected a field type"
  | .noParameters => "expected '(' to start the parameters"
  | .unterminatedParameters => "parameters are missing their ')'"

/-- Text that is no descriptor, with the first fault found in it. -/
structure DescriptorError where
  source : String
  fault : DescriptorFault
  deriving DecidableEq, Repr

/-- What is wrong with the text. -/
def DescriptorError.message (e : DescriptorError) : String :=
  "'" ++ e.source ++ "': " ++ e.fault.message

namespace Descriptor

/-- Reader of a value at the front of a list of characters. -/
abbrev Reader (α : Type) : Type := List Char → Except DescriptorFault (α × List Char)

/-- The value of a whole text. -/
def parseWith {α : Type} (read : Reader α) (source : String) : Except DescriptorError α :=
  match read source.toList with
  | .error fault => .error ⟨source, fault⟩
  | .ok (value, []) => .ok value
  | .ok (_, c :: _) => .error ⟨source, .trailing c⟩

/-- Reads the letter of a primitive type. -/
def readBaseType : Reader BaseType
  | [] => .error .noBaseType
  | c :: cs =>
      match BaseType.ofLetter? c with
      | some type => .ok (type, cs)
      | none => .error (.notBaseType c)

/-- Reads a class between `L` and `;`. -/
def readClass : Reader BinaryName
  | 'L' :: cs =>
      let text := String.ofList (cs.takeWhile (· ≠ ';'))
      match cs.dropWhile (· ≠ ';') with
      | [] => .error (.unterminatedClass text)
      | _ :: rest =>
          match BinaryName.ofText text with
          | .ok name => .ok (name, rest)
          | .error e => .error (.badName e)
  | _ => .error .noClass

/-- Reads a class or an array type. -/
def readReferenceType : Reader ReferenceType := fun cs =>
  match (cs.takeWhile (· = '[')).length with
  | 0 => do
      let (name, rest) ← readClass cs
      return (.object name, rest)
  | further + 1 =>
      match cs.dropWhile (· = '[') with
      | 'L' :: rest => do
          let (name, rest) ← readClass ('L' :: rest)
          return (.objectArray name further, rest)
      | rest => do
          let (type, rest) ← readBaseType rest
          return (.primitiveArray type further, rest)

/-- Reads a type of a field. -/
def readFieldType : Reader FieldType
  | [] => .error .noFieldType
  | c :: cs =>
      if c = 'L' ∨ c = '[' then do
        let (type, rest) ← readReferenceType (c :: cs)
        return (.reference type, rest)
      else do
        let (type, rest) ← readBaseType (c :: cs)
        return (.base type, rest)

/-! ## Progress of the readers -/

theorem length_lt_of_readBaseType {cs rest : List Char} {t : BaseType}
    (h : readBaseType cs = .ok (t, rest)) : rest.length < cs.length := by
  cases cs with
  | nil => simp [readBaseType] at h
  | cons c cs =>
      simp only [readBaseType] at h
      split at h
      · simp only [Except.ok.injEq, Prod.mk.injEq] at h
        simp [← h.2]
      · simp at h

theorem length_lt_of_readClass {cs rest : List Char} {n : BinaryName}
    (h : readClass cs = .ok (n, rest)) : rest.length < cs.length := by
  unfold readClass at h
  split at h
  · rename_i cs
    have hle := (List.dropWhile_suffix (l := cs) (· ≠ ';')).length_le
    dsimp only at h
    split at h
    · simp at h
    · rename_i hdrop
      rw [hdrop] at hle
      split at h
      · simp only [Except.ok.injEq, Prod.mk.injEq] at h
        simp only [List.length_cons, h.2] at *
        omega
      · simp at h
  · simp at h

theorem length_lt_of_readReferenceType {cs rest : List Char} {t : ReferenceType}
    (h : readReferenceType cs = .ok (t, rest)) : rest.length < cs.length := by
  unfold readReferenceType at h
  split at h
  · cases hread : readClass cs with
    | error e => simp [hread, bind, Except.bind] at h
    | ok p =>
        obtain ⟨value, left⟩ := p
        simp only [hread, bind, Except.bind, pure, Except.pure, Except.ok.injEq,
          Prod.mk.injEq] at h
        exact h.2 ▸ length_lt_of_readClass hread
  · have hle := (List.dropWhile_suffix (l := cs) (· = '[')).length_le
    split at h
    · rename_i more hdrop
      rw [hdrop] at hle
      cases hread : readClass ('L' :: more) with
      | error e => simp [hread, bind, Except.bind] at h
      | ok p =>
          obtain ⟨value, left⟩ := p
          simp only [hread, bind, Except.bind, pure, Except.pure, Except.ok.injEq,
            Prod.mk.injEq] at h
          have hlt := length_lt_of_readClass hread
          rw [h.2] at hlt
          omega
    · cases hread : readBaseType (cs.dropWhile (· = '[')) with
      | error e => simp [hread, bind, Except.bind] at h
      | ok p =>
          obtain ⟨value, left⟩ := p
          simp only [hread, bind, Except.bind, pure, Except.pure, Except.ok.injEq,
            Prod.mk.injEq] at h
          have hlt := length_lt_of_readBaseType hread
          rw [h.2] at hlt
          omega

/-- A type of a field takes at least one character. -/
theorem length_lt_of_readFieldType {cs rest : List Char} {t : FieldType}
    (h : readFieldType cs = .ok (t, rest)) : rest.length < cs.length := by
  cases cs with
  | nil => simp [readFieldType] at h
  | cons c cs =>
      simp only [readFieldType] at h
      split at h
      · cases hread : readReferenceType (c :: cs) with
        | error e => simp [hread, bind, Except.bind] at h
        | ok p =>
            obtain ⟨value, left⟩ := p
            simp only [hread, bind, Except.bind, pure, Except.pure, Except.ok.injEq,
              Prod.mk.injEq] at h
            exact h.2 ▸ length_lt_of_readReferenceType hread
      · cases hread : readBaseType (c :: cs) with
        | error e => simp [hread, bind, Except.bind] at h
        | ok p =>
            obtain ⟨value, left⟩ := p
            simp only [hread, bind, Except.bind, pure, Except.pure, Except.ok.injEq,
              Prod.mk.injEq] at h
            exact h.2 ▸ length_lt_of_readBaseType hread

/-! ## Methods -/

/-- Reads types up to the closing parenthesis and the parenthesis itself. -/
def readParameters : Reader (List FieldType)
  | [] => .error .unterminatedParameters
  | c :: cs =>
      if c = ')' then .ok ([], cs)
      else
        match _ : readFieldType (c :: cs) with
        | .error fault => .error fault
        | .ok (type, rest) =>
            match readParameters rest with
            | .error fault => .error fault
            | .ok (types, rest) => .ok (type :: types, rest)
termination_by cs => cs.length
decreasing_by
  rename_i h
  exact length_lt_of_readFieldType h

/-- Reads a result type; `V` is no result. -/
def readResult : Reader (Option FieldType)
  | 'V' :: cs => .ok (none, cs)
  | cs => do
      let (type, rest) ← readFieldType cs
      return (some type, rest)

/-- Reads a signature. -/
def readMethodDescriptor : Reader MethodDescriptor
  | '(' :: cs => do
      let (parameters, rest) ← readParameters cs
      let (result, rest) ← readResult rest
      return (⟨parameters, result⟩, rest)
  | _ => .error .noParameters

end Descriptor

/-- Primitive type of a text. -/
def BaseType.parse : String → Except DescriptorError BaseType :=
  Descriptor.parseWith Descriptor.readBaseType

/-- Class of a text that starts with `L`. -/
def BinaryName.parseType : String → Except DescriptorError BinaryName :=
  Descriptor.parseWith Descriptor.readClass

/-- Class or array type of a text. -/
def ReferenceType.parse : String → Except DescriptorError ReferenceType :=
  Descriptor.parseWith Descriptor.readReferenceType

/-- Type of a field of a text. -/
def FieldType.parse : String → Except DescriptorError FieldType :=
  Descriptor.parseWith Descriptor.readFieldType

/-- Signature of a text. -/
def MethodDescriptor.parse : String → Except DescriptorError MethodDescriptor :=
  Descriptor.parseWith Descriptor.readMethodDescriptor

end Linkage
