import Linkage.Declaration
import Linkage.Matching

/-!
# Reports

How declarations fare. Every version that is looked at gets a verdict, which is
consistent if it agrees with the declaration. The report about a declaration lists
the failures, and it fails as well if no version was in the range. The summary of
several reports tells the details of the failed ones.
-/

set_option autoImplicit false

namespace Linkage

/-! ## Verdicts -/

/-- How a version fared, whatever was expected of it. -/
inductive Resolution where
  | allResolved
  | hasMismatches
  | malformedArtifact (message : String)
  deriving DecidableEq, Repr

/-- Verdict on one version. -/
structure Verdict where
  version : String
  expectation : Expectation
  scope : Scope
  resolution : Resolution
  report : MatchReport
  deriving DecidableEq

/-- Ways in which a declaration fails. -/
inductive Failure where
  | unresolvedInRange (version : String)
  | resolvedOutOfRange (version : String)
  | resolvedUnexpectedly (version : String)
  | malformedArtifact (version message : String)
  | noVersionsInRange
  deriving DecidableEq, Repr

namespace Failure

/-- Version that the failure is about, if it is about one. -/
def version? : Failure → Option String
  | .unresolvedInRange version => some version
  | .resolvedOutOfRange version => some version
  | .resolvedUnexpectedly version => some version
  | .malformedArtifact version _ => some version
  | .noVersionsInRange => none

/-- What failed. -/
def message : Failure → String
  | .unresolvedInRange version =>
      "version " ++ version ++ " is in range but has unresolved references"
  | .resolvedOutOfRange version =>
      "inverse assertion violated: version " ++ version ++ " is out of range but resolves"
  | .resolvedUnexpectedly version =>
      "version " ++ version ++ " is expected to fail but every reference resolves"
  | .malformedArtifact version message =>
      "version " ++ version ++ " has a malformed artifact: " ++ message
  | .noVersionsInRange => "no accepted versions in range"

end Failure

namespace Verdict

/-- Whether the version fared as the declaration says. References are expected to
resolve only in the range of a declaration that expects versions to pass. -/
def isConsistent (v : Verdict) : Bool :=
  match v.resolution, v.scope, v.expectation with
  | .allResolved, .inside, .pass => true
  | .hasMismatches, .inside, .fail => true
  | .hasMismatches, .inverse, _ => true
  | _, _, _ => false

/-- Failure that a verdict amounts to, if it is not consistent. -/
def failure? (v : Verdict) : Option Failure :=
  if v.isConsistent then none
  else
    match v.resolution, v.scope, v.expectation with
    | .malformedArtifact message, _, _ => some (.malformedArtifact v.version message)
    -- readable artifacts from here on
    | _, .inverse, _ => some (.resolvedOutOfRange v.version)
    | _, .inside, .pass => some (.unresolvedInRange v.version)
    | _, .inside, .fail => some (.resolvedUnexpectedly v.version)

end Verdict

/-! ## Reports and summaries -/

/-- Report about a declaration, with a verdict for every version in ascending
order. -/
structure DeclarationReport where
  declaration : String
  verdicts : List Verdict
  deriving DecidableEq

namespace DeclarationReport

/-- Failures of the verdicts, in order, and the failure to have a version in the
range. -/
def failures (r : DeclarationReport) : List Failure :=
  r.verdicts.filterMap Verdict.failure? ++
    if r.verdicts.any fun v => v.scope == .inside then [] else [.noVersionsInRange]

/-- Whether the declaration holds. -/
def passed (r : DeclarationReport) : Bool := r.failures.isEmpty

/-- First verdict on a version. -/
def verdict? (r : DeclarationReport) (version : String) : Option Verdict :=
  r.verdicts.find? fun v => v.version == version

/-- Lines for the mismatches of a version. -/
def mismatchLines (v : Verdict) : List String :=
  v.report.mismatches.map fun entry =>
    "    " ++ v.version ++ ": " ++ MatchReport.renderEntry entry

/-- Text of a report: one line if it passed, and otherwise the failures and the
mismatches of the versions that are not consistent. -/
def render (r : DeclarationReport) : String :=
  if r.passed then
    "PASSED " ++ r.declaration ++ " (" ++ toString r.verdicts.length ++ " versions)\n"
  else
    "FAILED " ++ r.declaration ++ "\n" ++
      String.join (r.failures.map fun failure => "  " ++ failure.message ++ "\n") ++
      String.join ((r.verdicts.filter (!·.isConsistent)).flatMap mismatchLines)

end DeclarationReport

/-- Reports about several declarations. -/
structure Summary where
  reports : List DeclarationReport
  deriving DecidableEq

namespace Summary

/-- Whether all declarations hold. -/
def passed (s : Summary) : Bool := s.reports.all DeclarationReport.passed

/-- Reports about the declarations that do not hold. -/
def failed (s : Summary) : List DeclarationReport := s.reports.filter (!·.passed)

/-- Text of a summary. -/
def render (s : Summary) : String :=
  let total := toString s.reports.length
  if s.failed.isEmpty then "All " ++ total ++ " declarations passed\n"
  else
    toString s.failed.length ++ " of " ++ total ++ " declarations failed\n" ++
      String.join (s.failed.map DeclarationReport.render)

end Summary

end Linkage
