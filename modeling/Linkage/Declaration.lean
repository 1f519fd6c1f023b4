import Linkage.Ascending
import Linkage.Coordinate
import Linkage.Version.Draft
import Linkage.Version.Range

/-!
# Declarations

Claims about the versions of a library that instrumentation can be woven into. A
declaration says of a range of versions that all references resolve, or that some
do not, and it can say the opposite of the versions outside of the range.
-/

set_option autoImplicit false

namespace Linkage

/-- What a declaration says of the versions in its range: every reference resolves,
or at least one does not. -/
inductive Expectation where
  | pass
  | fail
  deriving DecidableEq, Repr

/-- Word for an expectation. -/
def Expectation.text : Expectation → String
  | .pass => "pass"
  | .fail => "fail"

/-- Why a version is looked at: it is in the range, or it is outside of it and the
declaration says the opposite there. -/
inductive Scope where
  | inside
  | inverse
  deriving DecidableEq, Repr

/-- Claim about the versions of an artifact. The inverse is asserted only by
declarations that expect versions to pass. -/
structure Declaration where
  expectation : Expectation
  group : String
  artifact : String
  versions : VersionRange
  skipped : List String
  assertsInverse : Bool
  extraDependencies : List Coordinate
  excludedDependencies : List Coordinate
  excludedModules : List String
  name : Option String
  markers : DraftMarkers

namespace Declaration

/-! ## Making declarations -/

/-- Claim about every version of an artifact. -/
def about (expectation : Expectation) (group artifact : String) : Declaration where
  expectation := expectation
  group := group
  artifact := artifact
  versions := .unbounded
  skipped := []
  assertsInverse := false
  extraDependencies := []
  excludedDependencies := []
  excludedModules := []
  name := none
  markers := .standard

/-- The claim about the versions of a range. -/
def withVersions (d : Declaration) (range : String) : Except RangeError Declaration := do
  return { d with versions := ← VersionRange.parse range }

/-- The claim without a version. -/
def skipping (d : Declaration) (version : String) : Declaration :=
  { d with skipped := Ascending.insert version d.skipped }

/-- The claim that does or does not assert the inverse. -/
def assertingInverse (d : Declaration) (asserts : Bool) : Declaration :=
  { d with assertsInverse := asserts }

/-- The claim with one more artifact for every version. -/
def withDependency (d : Declaration) (coordinate : String) :
    Except CoordinateError Declaration := do
  let extra ← Coordinate.parse coordinate
  return { d with extraDependencies := d.extraDependencies ++ [extra] }

/-- The claim without the artifacts that a coordinate covers. -/
def withoutDependency (d : Declaration) (coordinate : String) :
    Except CoordinateError Declaration := do
  let pattern ← Coordinate.parse coordinate
  return { d with excludedDependencies := d.excludedDependencies ++ [pattern] }

/-- The claim without the references of a module. -/
def withoutModule (d : Declaration) (name : String) : Declaration :=
  { d with excludedModules := Ascending.insert name d.excludedModules }

/-- The claim with a name of its own. -/
def named (d : Declaration) (name : String) : Declaration := { d with name := some name }

/-- The claim with other markers of drafts. -/
def withMarkers (d : Declaration) (markers : DraftMarkers) : Declaration :=
  { d with markers := markers }

/-! ## What declarations say -/

/-- Filter of the versions that are looked at. -/
def versionFilter (d : Declaration) : VersionFilter := .ofMarkers d.markers d.skipped

/-- Whether an artifact is left out. -/
def excludes (d : Declaration) (c : Coordinate) : Bool :=
  d.excludedDependencies.any fun pattern => pattern.covers c

/-- Whether the references of a module are looked at. -/
def includesModule (d : Declaration) (name : String) : Bool := !d.excludedModules.contains name

/-- Name of the claim: its own one, or what it says. -/
def title (d : Declaration) : String :=
  match d.name with
  | some name => name
  | none =>
      d.expectation.text ++ " " ++ d.group ++ ":" ++ d.artifact ++ " " ++ d.versions.render

/-- Coordinate of a version of the library. -/
def coordinate (d : Declaration) (version : String) : Coordinate :=
  ⟨d.group, d.artifact, some version⟩

/-- Scope in which a version that passes the filter is looked at, if it is. -/
def scope? (d : Declaration) (version : String) : Option Scope :=
  if d.versions.contains (.ofText version) then some .inside
  else if d.expectation = .pass && d.assertsInverse then some .inverse
  else none

/-- Versions to look at among the candidates, each once, in order. -/
def select (d : Declaration) (candidates : List String) : List (String × Scope) :=
  let filter := d.versionFilter
  (candidates.eraseDups.filter filter.accepts).filterMap fun version =>
    (d.scope? version).map fun scope => (version, scope)

end Declaration

end Linkage
