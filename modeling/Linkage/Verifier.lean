import Linkage.Collection
import Linkage.Error
import Linkage.Report

/-!
# Verification

Verifies declarations against the versions of a library. What the modules ask for
is collected once. Every version then gets a context of its own, so that nothing
that one version defines is seen while another one is verified. Artifacts and
classes that are malformed are told by the verdict on their version; every other
error ends a verification.
-/

set_option autoImplicit false

namespace Linkage

/-- Verifier with the manifests of the modules by their names. -/
structure Verifier where
  reader : ArchiveReader
  repository : Repository
  environment : Environment
  manifests : List (String × Manifest)

namespace Verifier

/-- Name and manifest of a module. -/
def manifestOf (e : Environment) (m : Instrumentation) : Except ClassError (String × Manifest) := do
  return (m.name, ← m.collect e)

/-- Verifier for the references of modules. -/
def ofModules (reader : ArchiveReader) (repository : Repository) (environment : Environment)
    (modules : List Instrumentation) : Except Error Verifier := do
  let manifests ← (modules.mapM (manifestOf environment)).mapError .malformedClass
  return ⟨reader, repository, environment, manifests⟩

/-- Merged manifest of the modules that the declaration includes. -/
def manifestFor (v : Verifier) (d : Declaration) : Manifest :=
  (v.manifests.filter fun entry => d.includesModule entry.1).foldl
    (fun merged entry => merged.merge entry.2) .empty

/-- Artifacts that a coordinate is verified with: what is fetched for it, then what
is fetched for the extra dependencies, without the excluded artifacts. -/
def classPath (v : Verifier) (d : Declaration) (c : Coordinate) :
    Except Error (List FetchedArtifact) := do
  let fetch := fun c => (v.repository.fetch c).mapError Error.repository
  let own ← fetch c
  let extra ← d.extraDependencies.mapM fetch
  return (own ++ extra.flatten).filter fun artifact => !d.excludes artifact.coordinate

/-- Context of artifacts. -/
def context (v : Verifier) (artifacts : List FetchedArtifact) : Except Error Context :=
  Context.ofArtifacts v.reader (artifacts.map FetchedArtifact.bytes)

/-- How a manifest fares in the context of some artifacts. If there is none because
something is malformed, that is how it fares, without a report. -/
def resolve (v : Verifier) (m : Manifest) (context : Except Error Context) :
    Except Error (Resolution × MatchReport) :=
  match context with
  | .ok c =>
      let report := c.checkAll v.environment.platform m
      .ok (if report.allResolved then .allResolved else .hasMismatches, report)
  | .error (.malformedArtifact e) =>
      .ok (.malformedArtifact (Error.malformedArtifact e).message, .empty)
  | .error (.malformedClass e) =>
      .ok (.malformedArtifact (Error.malformedClass e).message, .empty)
  | .error e => .error e

/-- Verdict on a version. -/
def verify (v : Verifier) (d : Declaration) (m : Manifest) (selected : String × Scope) :
    Except Error Verdict := do
  let artifacts ← v.classPath d (d.coordinate selected.1)
  let (resolution, report) ← v.resolve m (v.context artifacts)
  return ⟨selected.1, d.expectation, selected.2, resolution, report⟩

/-- Report about a declaration. -/
def evaluate (v : Verifier) (d : Declaration) : Except Error DeclarationReport := do
  let candidates ← (v.repository.candidates d.group d.artifact).mapError .repository
  let manifest := v.manifestFor d
  -- versions are verified in the order of the candidates and sorted afterwards
  let verdicts ← (d.select candidates).mapM (v.verify d manifest)
  return ⟨d.title, Version.sortBy (fun verdict => .ofText verdict.version) verdicts⟩

/-- Summary of the reports about declarations. -/
def evaluateAll (v : Verifier) (ds : List Declaration) : Except Error Summary := do
  return ⟨← ds.mapM v.evaluate⟩

end Verifier

end Linkage
