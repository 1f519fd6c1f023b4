import Linkage.Artifact
import Linkage.ClassOutline

/-!
# Resolution contexts

A closed world of classes, made of one list of artifacts as on a class path: of
several classes of one name the first one is found. The root of the hierarchy is
found even if no artifact defines it, and nothing else is added.
-/

set_option autoImplicit false

namespace Linkage

/-- Classes in the order in which they are looked for. -/
structure Context where
  classes : List ClassOutline
  deriving DecidableEq

namespace Context

/-! ## Looking up -/

/-- First class of the given name. -/
def find? (c : Context) (name : String) : Option ClassOutline :=
  c.classes.find? fun outline => outline.name.text == name

/-- Whether there is a class of the given name. -/
def contains (c : Context) (name : String) : Bool := (c.find? name).isSome

/-- Names of the classes, each once. -/
def names (c : Context) : List BinaryName := (c.classes.map ClassOutline.name).eraseDups

/-- Number of classes that can be found. -/
def size (c : Context) : Nat := c.names.length

/-- Whether no class can be found. -/
def isEmpty (c : Context) : Bool := c.classes.isEmpty

/-! ## Making contexts -/

/-- Context without classes. -/
def empty : Context := ⟨[]⟩

/-- Context with one more class, unless it has one of the name already. -/
def insert (c : Context) (outline : ClassOutline) : Context :=
  if c.contains outline.name.text then c else ⟨c.classes ++ [outline]⟩

/-- Context with the root of the hierarchy, which is built in if nothing defines it. -/
def finish (c : Context) : Context := c.insert ClassOutline.object

/-- Context of the given outlines. -/
def ofOutlines (outlines : List ClassOutline) : Context := (outlines.foldl insert empty).finish

/-- A class that is put in later is found only if there was none of the name. -/
theorem find?_insert (c : Context) (outline : ClassOutline) (name : String) :
    (c.insert outline).find? name =
      (c.find? name).or (if outline.name.text == name then some outline else none) := by
  rw [insert]
  split
  · rename_i hthere
    split
    · rename_i hname
      rw [eq_of_beq hname, contains] at hthere
      obtain ⟨found, hfound⟩ := Option.isSome_iff_exists.1 hthere
      rw [hfound, Option.some_or]
    · rw [Option.or_none]
  · simp only [find?, List.find?_append, List.find?_singleton]

theorem find?_foldl_insert (c : Context) (outlines : List ClassOutline) (name : String) :
    (outlines.foldl insert c).find? name =
      (c.find? name).or (outlines.find? fun outline => outline.name.text == name) := by
  induction outlines generalizing c with
  | nil => rw [List.foldl_nil, List.find?_nil, Option.or_none]
  | cons outline outlines ih =>
      rw [List.foldl_cons, ih, find?_insert, Option.or_assoc, List.find?_cons]
      congr 1
      cases outline.name.text == name <;> rfl

/-- Looking up finds the first outline of a name, and the built-in one behind all of them. -/
theorem find?_ofOutlines (outlines : List ClassOutline) (name : String) :
    (ofOutlines outlines).find? name =
      (outlines ++ [ClassOutline.object]).find? fun outline => outline.name.text == name := by
  have hnone : empty.find? name = none := rfl
  rw [ofOutlines, finish, find?_insert, find?_foldl_insert, hnone, Option.none_or, List.find?_append,
    List.find?_singleton]

/-- Context with the class of one more class file. -/
def addClass (c : Context) (f : ClassFile) : Except ClassError Context :=
  c.insert <$> ClassOutline.ofClassFile f

/-- Context of class files. -/
def ofClassFiles (classFiles : List ClassFile) : Except Error Context := do
  let c ← (classFiles.foldlM addClass empty).mapError .malformedClass
  return c.finish

/-- Context with the classes of one more artifact, which comes with its number. Every
class file has to have an outline, also the ones that are never found. -/
def addArtifact (reader : ArchiveReader) (c : Context) (artifact : List UInt8 × Nat) :
    Except Error Context := do
  let classFiles ← Artifact.readClasses reader artifact.1
  (classFiles.foldlM addClass c).mapError fun e => .malformedArtifact (.definition artifact.2 e)

/-- Context of artifacts. -/
def ofArtifacts (reader : ArchiveReader) (artifacts : List (List UInt8)) : Except Error Context := do
  let c ← artifacts.zipIdx.foldlM (addArtifact reader) empty
  return c.finish

end Context

end Linkage
