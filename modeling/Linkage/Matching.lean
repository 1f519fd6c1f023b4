import Linkage.Environment
import Linkage.Hierarchy
import Linkage.Manifest

/-!
# Matching

Tells whether a reference can be linked in a context. A class has to be there and
visible. A member is looked for in the hierarchy of its owner: fields of objects
are inherited from superclasses only, methods and static fields from interfaces as
well. If the superclasses of the owner lead to a class of the platform, which no
context describes, a member that has no namesake in the hierarchy is taken to be
inherited from there.
-/

set_option autoImplicit false

namespace Linkage

/-! ## Outcomes -/

/-- Outcomes of linking one reference. -/
inductive Outcome where
  | resolved
  | missingClass
  | missingMember
  | signatureMismatch
  | visibilityViolation
  deriving DecidableEq, Repr

namespace Outcome

/-- Text of an outcome. -/
def text : Outcome → String
  | .resolved => "resolved"
  | .missingClass => "missing class"
  | .missingMember => "missing member"
  | .signatureMismatch => "signature mismatch"
  | .visibilityViolation => "visibility violation"

instance : ToString Outcome := ⟨text⟩

end Outcome

/-! ## Looking for members -/

/-- Whether a declared member is the one that is asked for, apart from its
visibility. -/
def DeclaredMember.agrees {type : Type} [DecidableEq type] (m : DeclaredMember type)
    (descriptor : type) (isStatic : Bool) : Bool :=
  m.descriptor == descriptor && m.isStatic == isStatic

/-- Outcome of looking for a member, given its namesakes in the hierarchy of the
owner, and whether there can be more of them in classes that are not described. -/
def Outcome.ofNamesakes {type : Type} [DecidableEq type] (namesakes : List (DeclaredMember type))
    (descriptor : type) (isStatic : Bool) (required : Visibility) (undescribed : Bool) :
    Outcome :=
  let agreeing := namesakes.filter fun m => m.agrees descriptor isStatic
  if agreeing.any fun m => m.visibility.satisfies required then .resolved
  else if !agreeing.isEmpty then .visibilityViolation
  else if !namesakes.isEmpty then .signatureMismatch
  else if undescribed then .resolved
  else .missingMember

/-- Whether the superclasses lead to a class of the platform. -/
def Hierarchy.leadsTo (h : Hierarchy) (platform : Platform) : Bool :=
  h.absent.any fun s => s.onChain && platform.provides s.name

/-- Declared members of a hierarchy that have the name. -/
def Hierarchy.namesakes {type : Type} (h : Hierarchy)
    (members : ClassOutline → List (DeclaredMember type)) (name : UnqualifiedName) :
    List (DeclaredMember type) :=
  (h.classes.flatMap members).filter fun m => m.name == name

namespace Context

/-- Outcome of looking for a member of a class. -/
def findMember {type : Type} [DecidableEq type] (c : Context) (platform : Platform)
    (followInterfaces : Bool) (members : ClassOutline → List (DeclaredMember type))
    (owner : BinaryName) (name : UnqualifiedName) (descriptor : type) (isStatic : Bool)
    (required : Visibility) : Outcome :=
  let h := c.hierarchy followInterfaces owner
  .ofNamesakes (h.namesakes members name) descriptor isStatic required (h.leadsTo platform)

/-- Outcome of linking a reference. A method of a class that is called through an
interface, or the other way round, does not fit. -/
def check (c : Context) (platform : Platform) (r : Reference) : Outcome :=
  match c.find? r.owner.text with
  | none => .missingClass
  | some outline =>
      match r.target with
      | .classOf _ =>
          if outline.visibility.satisfies r.visibility then .resolved else .visibilityViolation
      | .methodOf owner name descriptor isStatic isInterface =>
          -- the kind of call is checked before any member is looked for
          if outline.isInterface != isInterface then .signatureMismatch
          else
            c.findMember platform true ClassOutline.methods owner name descriptor isStatic
              r.visibility
      | .fieldOf owner name type isStatic =>
          c.findMember platform isStatic ClassOutline.fields owner name type isStatic
            r.visibility

end Context

/-! ## Reports -/

/-- Outcomes of references, in order. -/
structure MatchReport where
  outcomes : List (Reference × Outcome)
  deriving DecidableEq

namespace MatchReport

/-- Report about no references. -/
def empty : MatchReport := ⟨[]⟩

/-- References that cannot be linked. -/
def mismatches (r : MatchReport) : List (Reference × Outcome) :=
  r.outcomes.filter fun entry => entry.2 != .resolved

/-- Whether every reference can be linked. -/
def allResolved (r : MatchReport) : Bool := r.outcomes.all fun entry => entry.2 == .resolved

/-- Text of a mismatch. -/
def renderEntry (entry : Reference × Outcome) : String :=
  entry.2.text ++ ": " ++ entry.1.render ++ "\n"

/-- A line for each mismatch. -/
def render (r : MatchReport) : String := String.join (r.mismatches.map renderEntry)

end MatchReport

/-- Report about every reference of a manifest. -/
def Context.checkAll (c : Context) (platform : Platform) (m : Manifest) : MatchReport :=
  ⟨m.references.map fun r => (r, c.check platform r)⟩

end Linkage
