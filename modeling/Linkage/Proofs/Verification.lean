import Linkage.Proofs.Artifacts
import Linkage.Proofs.Entries
import Linkage.Proofs.Recording
import Linkage.Verifier

/-!
# What a report says

A verifier looks at the versions of a library that a declaration is about (`LooksAt`), each once, and
a version bears the declaration out if its class path makes a context in which the references of the
modules fare as the declaration says (`Confirms`).

This module proves:

- `mem_select_iff`, `nodup_select`: which versions are selected, and that none is selected twice;
- `mem_verdicts_iff`: the verdicts are those on the selected versions;
- `isConsistent_iff_confirms`: a verdict is consistent exactly if its version bears the declaration
  out;
- `evaluate_spec`: what a report says about the versions, however the repository lists them.
-/

set_option autoImplicit false

namespace Linkage

open Fallible

/-! ## Versions to look at -/

namespace Declaration

/-- The version is in the range of the declaration. -/
def InRange (d : Declaration) (version : String) : Prop :=
  d.versions.contains (.ofText version) = true

/-- The declaration is about the version: it is accepted, and it is in the range or the declaration
says the opposite outside of it. -/
def LooksAt (d : Declaration) (version : String) : Prop :=
  d.versionFilter.accepts version = true ∧
    (d.InRange version ∨ d.expectation = .pass ∧ d.assertsInverse = true)

variable {d : Declaration} {version : String} {scope : Scope} {candidates : List String}

theorem scope?_eq_some_iff :
    d.scope? version = some scope ↔
      scope = .inside ∧ d.InRange version ∨
        scope = .inverse ∧ ¬ d.InRange version ∧ d.expectation = .pass ∧ d.assertsInverse = true := by
  unfold scope? InRange
  split
  · rename_i hrange
    cases scope <;> simp [hrange]
  · rename_i hrange
    split
    · rename_i hinverse
      rw [Bool.and_eq_true, decide_eq_true_eq] at hinverse
      cases scope <;> simp [hrange, hinverse]
    · rename_i hinverse
      rw [Bool.and_eq_true, decide_eq_true_eq] at hinverse
      cases scope <;> simp [hrange, hinverse]

/-- Every candidate is selected that the declaration is about, with its scope. -/
theorem mem_select_iff :
    (version, scope) ∈ d.select candidates ↔
      version ∈ candidates ∧ d.versionFilter.accepts version = true ∧
        d.scope? version = some scope := by
  simp only [select, List.mem_filterMap, List.mem_filter, List.mem_eraseDups, Option.map_eq_some_iff]
  constructor
  · rintro ⟨x, ⟨hx, haccepts⟩, y, hscope, hpair⟩
    cases hpair
    exact ⟨hx, haccepts, hscope⟩
  · rintro ⟨hmem, haccepts, hscope⟩
    exact ⟨version, ⟨hmem, haccepts⟩, scope, hscope, rfl⟩

theorem exists_mem_select_iff :
    (∃ scope, (version, scope) ∈ d.select candidates) ↔
      version ∈ candidates ∧ d.LooksAt version := by
  simp only [mem_select_iff, scope?_eq_some_iff, LooksAt]
  constructor
  · rintro ⟨scope, hmem, haccepts, ⟨-, hrange⟩ | ⟨-, -, hinverse⟩⟩
    · exact ⟨hmem, haccepts, Or.inl hrange⟩
    · exact ⟨hmem, haccepts, Or.inr hinverse⟩
  · rintro ⟨hmem, haccepts, hlooks⟩
    by_cases hrange : d.InRange version
    · exact ⟨.inside, hmem, haccepts, Or.inl ⟨rfl, hrange⟩⟩
    · exact ⟨.inverse, hmem, haccepts, Or.inr ⟨rfl, hrange, hlooks.resolve_left hrange⟩⟩

theorem nodup_eraseDups (xs : List String) : xs.eraseDups.Nodup := by
  match xs with
  | [] => exact List.nodup_nil
  | x :: xs =>
      rw [List.eraseDups_cons, List.nodup_cons]
      -- the recursion goes on behind the first element, with all of its copies taken out
      constructor
      · intro hmem
        simpa using List.of_mem_filter (List.mem_eraseDups.1 hmem)
      · exact nodup_eraseDups _
termination_by xs.length
decreasing_by exact Nat.lt_succ_of_le (List.length_filter_le _ xs)

/-- No version is selected twice, not even with two scopes. -/
theorem nodup_select : ((d.select candidates).map Prod.fst).Nodup := by
  -- the selected versions stand in the order of the distinct candidates
  have hfst : ∀ xs : List String, ((xs.filterMap fun version =>
      (d.scope? version).map fun scope => (version, scope)).map Prod.fst).Sublist xs := by
    intro xs
    induction xs with
    | nil => exact List.Sublist.refl []
    | cons x xs ih =>
        cases hscope : d.scope? x with
        | none =>
            rw [List.filterMap_cons_none (by rw [hscope]; rfl)]
            exact ih.cons x
        | some scope =>
            rw [List.filterMap_cons_some (by rw [hscope]; rfl), List.map_cons]
            exact ih.cons_cons x
  exact ((hfst _).trans List.filter_sublist).nodup (nodup_eraseDups candidates)

end Declaration

/-! ## Verdicts on versions -/

theorem DeclarationReport.passed_iff {r : DeclarationReport} :
    r.passed = true ↔ (∃ verdict ∈ r.verdicts, verdict.scope = .inside) ∧
      ∀ verdict ∈ r.verdicts, verdict.isConsistent = true := by
  have hfailure : ∀ verdict : Verdict, verdict.failure? = none ↔ verdict.isConsistent = true := by
    intro verdict
    unfold Verdict.failure?
    split
    · rename_i hconsistent
      simp [hconsistent]
    · rename_i hconsistent
      split <;> simp [hconsistent]
  simp only [passed, failures, List.isEmpty_iff, List.append_eq_nil_iff, List.filterMap_eq_nil_iff,
    hfailure]
  rw [and_comm]
  refine and_congr_left' ?_
  split
  · rename_i hany
    simpa using hany
  · rename_i hany
    simpa using hany

theorem Version.perm_sortBy {α : Type} (version : α → Version) (xs : List α) :
    (sortBy version xs).Perm xs := by
  have hperm := (List.mergeSort_perm (xs.map fun x => (version x, x))
    fun a b => (compare a.1 b.1).isLE).map Prod.snd
  rwa [List.map_map, Function.comp_def, List.map_id'] at hperm

namespace Verifier

variable {v : Verifier} {d : Declaration} {m : Manifest} {version : String} {scope : Scope}
  {artifacts : List FetchedArtifact} {verdict : Verdict}

/-- Artifacts that a version is verified with: the fetched ones of the version, then those of the
extra dependencies, without the excluded ones. -/
def HasClassPath (v : Verifier) (d : Declaration) (version : String)
    (artifacts : List FetchedArtifact) : Prop :=
  ∃ own extra, v.repository.fetch (d.coordinate version) = .ok own ∧
    d.extraDependencies.mapM v.repository.fetch = .ok extra ∧
    artifacts = (own ++ extra.flatten).filter fun artifact => !d.excludes artifact.coordinate

/-- The version bears the declaration out: its artifacts make a context, all references of the
manifest link there if the version is in the range of a declaration that it passes, and one of them
does not in the range of a declaration that it fails and outside of the range. -/
def Confirms (v : Verifier) (d : Declaration) (m : Manifest) (version : String) : Prop :=
  ∃ artifacts c, v.HasClassPath d version artifacts ∧
    v.context artifacts = .ok c ∧
    (d.InRange version → d.expectation = .pass →
      ∀ r ∈ m.references, c.check v.environment.platform r = .resolved) ∧
    (d.InRange version → d.expectation = .fail →
      ∃ r ∈ m.references, c.check v.environment.platform r ≠ .resolved) ∧
    (¬ d.InRange version →
      ∃ r ∈ m.references, c.check v.environment.platform r ≠ .resolved)

theorem classPath_eq_ok_iff :
    v.classPath d (d.coordinate version) = .ok artifacts ↔ v.HasClassPath d version artifacts := by
  simp only [classPath, HasClassPath, bind_eq_ok_iff, pure_eq_ok_iff, mapM_eq_ok_iff,
    mapError_eq_ok_iff]
  constructor
  · rintro ⟨own, hown, extra, hextra, rfl⟩
    exact ⟨own, extra, hown, hextra, rfl⟩
  · rintro ⟨own, extra, hown, hextra, rfl⟩
    exact ⟨own, hown, extra, hextra, rfl⟩

theorem verify_eq_ok_iff :
    v.verify d m (version, scope) = .ok verdict ↔
      ∃ artifacts resolution report, v.HasClassPath d version artifacts ∧
        v.resolve m (v.context artifacts) = .ok (resolution, report) ∧
        verdict = ⟨version, d.expectation, scope, resolution, report⟩ := by
  simp only [verify, bind_eq_ok_iff, pure_eq_ok_iff, classPath_eq_ok_iff, Prod.exists]
  constructor
  · rintro ⟨artifacts, hpath, resolution, report, hresolve, rfl⟩
    exact ⟨artifacts, resolution, report, hpath, hresolve, rfl⟩
  · rintro ⟨artifacts, resolution, report, hpath, hresolve, rfl⟩
    exact ⟨artifacts, hpath, resolution, report, hresolve, rfl⟩

/-- In a context it is told whether all references link. -/
theorem resolve_ok (v : Verifier) (m : Manifest) (c : Context) :
    (∀ r ∈ m.references, c.check v.environment.platform r = .resolved) ∧
        v.resolve m (.ok c) = .ok (.allResolved, c.checkAll v.environment.platform m) ∨
      (∃ r ∈ m.references, c.check v.environment.platform r ≠ .resolved) ∧
        v.resolve m (.ok c) = .ok (.hasMismatches, c.checkAll v.environment.platform m) := by
  have hall : (c.checkAll v.environment.platform m).allResolved = true ↔
      ∀ r ∈ m.references, c.check v.environment.platform r = .resolved := by
    simp [Context.allResolved_checkAll_iff, Context.Links, Manifest.references]
  by_cases hlinks : ∀ r ∈ m.references, c.check v.environment.platform r = .resolved
  · refine Or.inl ⟨hlinks, ?_⟩
    simp only [resolve, hall.2 hlinks, if_true]
  · have hnot : ¬ (c.checkAll v.environment.platform m).allResolved = true :=
      fun h => hlinks (hall.1 h)
    refine Or.inr ⟨by simpa using hlinks, ?_⟩
    simp only [resolve, hnot]
    rfl

/-- How a manifest fares with artifacts: one of them can be malformed, and otherwise it is told whether
all references link. There is no error that would end the verification. -/
theorem resolve_cases (v : Verifier) (m : Manifest) (artifacts : List FetchedArtifact) :
    (∃ e, v.context artifacts = .error (.malformedArtifact e) ∧
        v.resolve m (v.context artifacts) =
          .ok (.malformedArtifact (Error.malformedArtifact e).message, .empty)) ∨
      ∃ c, v.context artifacts = .ok c ∧
        ((∀ r ∈ m.references, c.check v.environment.platform r = .resolved) ∧
            v.resolve m (v.context artifacts) =
              .ok (.allResolved, c.checkAll v.environment.platform m) ∨
          (∃ r ∈ m.references, c.check v.environment.platform r ≠ .resolved) ∧
            v.resolve m (v.context artifacts) =
              .ok (.hasMismatches, c.checkAll v.environment.platform m)) := by
  cases hcontext : v.context artifacts with
  | error error =>
      obtain ⟨e, rfl⟩ := Context.exists_of_ofArtifacts_eq_error hcontext
      exact Or.inl ⟨e, rfl, rfl⟩
  | ok c => exact Or.inr ⟨c, rfl, resolve_ok v m c⟩

/-- A manifest fares somehow with any artifacts. -/
theorem exists_resolve_eq_ok (v : Verifier) (m : Manifest) (artifacts : List FetchedArtifact) :
    ∃ resolution report, v.resolve m (v.context artifacts) = .ok (resolution, report) := by
  rcases resolve_cases v m artifacts with ⟨e, -, hresolve⟩ | ⟨c, -, ⟨-, hresolve⟩ | ⟨-, hresolve⟩⟩
  · exact ⟨_, _, hresolve⟩
  · exact ⟨_, _, hresolve⟩
  · exact ⟨_, _, hresolve⟩

/-- There is a verdict on every version that has a class path. -/
theorem HasClassPath.exists_verify (hpath : v.HasClassPath d version artifacts) (m : Manifest)
    (scope : Scope) : ∃ verdict, v.verify d m (version, scope) = .ok verdict := by
  obtain ⟨resolution, report, hresolve⟩ := exists_resolve_eq_ok v m artifacts
  exact ⟨_, verify_eq_ok_iff.2 ⟨artifacts, resolution, report, hpath, hresolve, rfl⟩⟩

theorem HasClassPath.eq {artifacts' : List FetchedArtifact}
    (h : v.HasClassPath d version artifacts) (h' : v.HasClassPath d version artifacts') :
    artifacts = artifacts' :=
  Except.ok.inj ((classPath_eq_ok_iff.2 h).symm.trans (classPath_eq_ok_iff.2 h'))

/-- With its class path and context at hand, a version bears the declaration out if the references
fare as the declaration says. -/
theorem confirms_iff_of_context {c : Context} (hpath : v.HasClassPath d version artifacts)
    (hcontext : v.context artifacts = .ok c) :
    v.Confirms d m version ↔
      (d.InRange version → d.expectation = .pass →
        ∀ r ∈ m.references, c.check v.environment.platform r = .resolved) ∧
      (d.InRange version → d.expectation = .fail →
        ∃ r ∈ m.references, c.check v.environment.platform r ≠ .resolved) ∧
      (¬ d.InRange version →
        ∃ r ∈ m.references, c.check v.environment.platform r ≠ .resolved) := by
  constructor
  · rintro ⟨artifacts', c', hpath', hcontext', hfare⟩
    rw [hpath'.eq hpath, hcontext] at hcontext'
    cases hcontext'
    exact hfare
  · exact fun hfare => ⟨artifacts, c, hpath, hcontext, hfare⟩

/-- The verdict on a selected version is consistent exactly if the version bears the declaration
out. -/
theorem isConsistent_iff_confirms (hscope : d.scope? version = some scope)
    (h : v.verify d m (version, scope) = .ok verdict) :
    verdict.isConsistent = true ↔ v.Confirms d m version := by
  obtain ⟨artifacts, resolution, report, hpath, hresolve, rfl⟩ := verify_eq_ok_iff.1 h
  have hrange : d.InRange version ↔ scope = .inside := by
    rcases Declaration.scope?_eq_some_iff.1 hscope with ⟨rfl, hinside⟩ | ⟨rfl, houtside, -⟩
    · exact iff_of_true hinside rfl
    · exact iff_of_false houtside (by decide)
  rcases resolve_cases v m artifacts with ⟨e, hcontext, hmalformed⟩ |
    ⟨c, hcontext, ⟨hlinks, hresolved⟩ | ⟨hmismatch, hmismatches⟩⟩
  · -- unreadable artifacts are consistent with no declaration
    rw [hmalformed] at hresolve
    cases hresolve
    refine iff_of_false (by simp [Verdict.isConsistent]) ?_
    rintro ⟨artifacts', c, hpath', hcontext', -⟩
    rw [hpath'.eq hpath, hcontext] at hcontext'
    cases hcontext'
  · -- all references link
    rw [hresolved] at hresolve
    cases hresolve
    have hnone : ¬ ∃ r ∈ m.references, c.check v.environment.platform r ≠ .resolved := by
      simpa using hlinks
    simp only [confirms_iff_of_context hpath hcontext, hrange, iff_true_intro hlinks,
      iff_false_intro hnone]
    cases scope <;> cases d.expectation <;> simp [Verdict.isConsistent]
  · -- some reference does not link
    rw [hmismatches] at hresolve
    cases hresolve
    have hsome : ¬ ∀ r ∈ m.references, c.check v.environment.platform r = .resolved := by
      simpa using hmismatch
    simp only [confirms_iff_of_context hpath hcontext, hrange, iff_false_intro hsome,
      iff_true_intro hmismatch]
    cases scope <;> cases d.expectation <;> simp [Verdict.isConsistent]

/-! ## Reports -/

variable {report : DeclarationReport} {candidates : List String}

theorem evaluate_eq_ok_iff :
    v.evaluate d = .ok report ↔
      ∃ candidates verdicts, v.repository.candidates d.group d.artifact = .ok candidates ∧
        (d.select candidates).mapM (v.verify d (v.manifestFor d)) = .ok verdicts ∧
        report = ⟨d.title, Version.sortBy (fun verdict => .ofText verdict.version) verdicts⟩ := by
  simp only [evaluate, bind_eq_ok_iff, pure_eq_ok_iff, mapError_eq_ok_iff]
  constructor
  · rintro ⟨candidates, hcandidates, verdicts, hverdicts, rfl⟩
    exact ⟨candidates, verdicts, hcandidates, hverdicts, rfl⟩
  · rintro ⟨candidates, verdicts, hcandidates, hverdicts, rfl⟩
    exact ⟨candidates, hcandidates, verdicts, hverdicts, rfl⟩

/-- There is a report where all selected versions have class paths. -/
theorem exists_evaluate (hcandidates : v.repository.candidates d.group d.artifact = .ok candidates)
    (hpaths : ∀ selected ∈ d.select candidates, ∃ artifacts, v.HasClassPath d selected.1 artifacts) :
    ∃ report, v.evaluate d = .ok report := by
  have hverify : ∀ selected ∈ d.select candidates, ∃ verdict,
      v.verify d (v.manifestFor d) selected = .ok verdict := by
    intro selected hselected
    obtain ⟨artifacts, hpath⟩ := hpaths selected hselected
    exact hpath.exists_verify _ selected.2
  obtain ⟨verdicts, hverdicts⟩ := exists_mapM_eq_ok_iff.2 hverify
  exact ⟨_, evaluate_eq_ok_iff.2 ⟨candidates, verdicts, hcandidates, hverdicts, rfl⟩⟩

section Evaluated

variable (hcandidates : v.repository.candidates d.group d.artifact = .ok candidates)
  (h : v.evaluate d = .ok report)

include hcandidates h

/-- The verdicts of a report are those on the selected versions, in another order. -/
theorem exists_verdicts_of_evaluate :
    ∃ verdicts, (d.select candidates).mapM (v.verify d (v.manifestFor d)) = .ok verdicts ∧
      report.verdicts.Perm verdicts := by
  obtain ⟨candidates', verdicts, hcandidates', hverdicts, rfl⟩ := evaluate_eq_ok_iff.1 h
  rw [hcandidates] at hcandidates'
  cases hcandidates'
  exact ⟨verdicts, hverdicts, Version.perm_sortBy _ verdicts⟩

theorem mem_verdicts_iff :
    verdict ∈ report.verdicts ↔
      ∃ selected ∈ d.select candidates, v.verify d (v.manifestFor d) selected = .ok verdict := by
  obtain ⟨verdicts, hverdicts, hperm⟩ := exists_verdicts_of_evaluate hcandidates h
  rw [hperm.mem_iff, mem_iff_of_mapM hverdicts]

/-- Every selected version is verified once. -/
theorem versions_perm_select :
    (report.verdicts.map Verdict.version).Perm ((d.select candidates).map Prod.fst) := by
  obtain ⟨verdicts, hverdicts, hperm⟩ := exists_verdicts_of_evaluate hcandidates h
  have hversion : ∀ selected verdict, v.verify d (v.manifestFor d) selected = .ok verdict →
      verdict.version = selected.1 := by
    rintro ⟨version, scope⟩ verdict hverdict
    obtain ⟨_, _, _, -, -, rfl⟩ := verify_eq_ok_iff.1 hverdict
    rfl
  rw [← map_eq_of_mapM hverdicts hversion]
  exact hperm.map Verdict.version

theorem exists_verify_eq_ok {selected : String × Scope}
    (hselected : selected ∈ d.select candidates) :
    ∃ verdict, v.verify d (v.manifestFor d) selected = .ok verdict := by
  obtain ⟨verdicts, hverdicts, -⟩ := exists_verdicts_of_evaluate hcandidates h
  exact exists_mapM_eq_ok_iff.1 ⟨verdicts, hverdicts⟩ selected hselected

/-- A report is passed if some version is in the range and all versions bear the declaration out. -/
theorem passed_iff_confirms :
    report.passed = true ↔
      (∃ version ∈ candidates, d.LooksAt version ∧ d.InRange version) ∧
        ∀ version ∈ candidates, d.LooksAt version → v.Confirms d (v.manifestFor d) version := by
  rw [DeclarationReport.passed_iff]
  refine and_congr ⟨?_, ?_⟩ ⟨?_, ?_⟩
  · -- a verdict inside of the range is one on a version of the range
    rintro ⟨verdict, hverdict, hinside⟩
    obtain ⟨⟨version, scope⟩, hselected, hverify⟩ := (mem_verdicts_iff hcandidates h).1 hverdict
    obtain ⟨_, _, _, -, -, rfl⟩ := verify_eq_ok_iff.1 hverify
    obtain rfl : scope = .inside := hinside
    obtain ⟨hmem, hlooks⟩ := Declaration.exists_mem_select_iff.1 ⟨_, hselected⟩
    obtain ⟨-, -, hscope⟩ := Declaration.mem_select_iff.1 hselected
    rcases Declaration.scope?_eq_some_iff.1 hscope with ⟨-, hrange⟩ | ⟨hinverse, -⟩
    · exact ⟨version, hmem, hlooks, hrange⟩
    · cases hinverse
  · -- such a version is selected, and its verdict is inside of the range
    rintro ⟨version, hmem, ⟨haccepts, -⟩, hrange⟩
    have hselected : (version, Scope.inside) ∈ d.select candidates :=
      Declaration.mem_select_iff.2 ⟨hmem, haccepts,
        Declaration.scope?_eq_some_iff.2 (Or.inl ⟨rfl, hrange⟩)⟩
    obtain ⟨verdict, hverify⟩ := exists_verify_eq_ok hcandidates h hselected
    refine ⟨verdict, (mem_verdicts_iff hcandidates h).2 ⟨_, hselected, hverify⟩, ?_⟩
    obtain ⟨_, _, _, -, -, rfl⟩ := verify_eq_ok_iff.1 hverify
    rfl
  · -- every version that the declaration is about has a verdict
    intro hconsistent version hmem hlooks
    obtain ⟨scope, hselected⟩ := Declaration.exists_mem_select_iff.2 ⟨hmem, hlooks⟩
    obtain ⟨verdict, hverify⟩ := exists_verify_eq_ok hcandidates h hselected
    obtain ⟨-, -, hscope⟩ := Declaration.mem_select_iff.1 hselected
    refine (isConsistent_iff_confirms hscope hverify).1 (hconsistent verdict ?_)
    exact (mem_verdicts_iff hcandidates h).2 ⟨_, hselected, hverify⟩
  · -- and every verdict is one on such a version
    intro hconfirms verdict hverdict
    obtain ⟨⟨version, scope⟩, hselected, hverify⟩ := (mem_verdicts_iff hcandidates h).1 hverdict
    obtain ⟨hmem, hlooks⟩ := Declaration.exists_mem_select_iff.1 ⟨_, hselected⟩
    obtain ⟨-, -, hscope⟩ := Declaration.mem_select_iff.1 hselected
    exact (isConsistent_iff_confirms hscope hverify).2 (hconfirms version hmem hlooks)

/-! ## Other listings of the versions -/

/-- A repository that hands out the same artifacts and lists the same versions, in another order or
repeated, leads to a report with the same verdicts. -/
theorem exists_evaluate_of_same_candidates {repository : Repository} {candidates' : List String}
    (hfetch : repository.fetch = v.repository.fetch)
    (hcandidates' : repository.candidates d.group d.artifact = .ok candidates')
    (hsame : ∀ version, version ∈ candidates' ↔ version ∈ candidates) :
    ∃ report', { v with repository := repository }.evaluate d = .ok report' ∧
      ∀ verdict, verdict ∈ report'.verdicts ↔ verdict ∈ report.verdicts := by
  have hselected : ∀ selected, selected ∈ d.select candidates' ↔ selected ∈ d.select candidates := by
    rintro ⟨version, scope⟩
    rw [Declaration.mem_select_iff, Declaration.mem_select_iff, hsame]
  -- a verdict depends on the fetched artifacts alone
  have hverify : ∀ selected, { v with repository := repository }.verify d (v.manifestFor d) selected =
      v.verify d (v.manifestFor d) selected := by
    intro selected
    simp only [verify, classPath, hfetch]
    rfl
  obtain ⟨verdicts, hverdicts⟩ := exists_mapM_eq_ok_iff.2 fun selected hmem => by
    obtain ⟨verdict, hverdict⟩ :=
      exists_verify_eq_ok hcandidates h ((hselected selected).1 hmem)
    exact ⟨verdict, (hverify selected).trans hverdict⟩
  refine ⟨_, evaluate_eq_ok_iff.2 ⟨candidates', verdicts, hcandidates', hverdicts, rfl⟩, ?_⟩
  intro verdict
  rw [(Version.perm_sortBy _ verdicts).mem_iff, mem_iff_of_mapM hverdicts,
    mem_verdicts_iff hcandidates h]
  simp only [hselected, hverify]

end Evaluated

/-! ## Manifests of the modules -/

theorem manifestOf_eq_ok_iff {environment : Environment} {module : Instrumentation}
    {named : String × Manifest} :
    manifestOf environment module = .ok named ↔
      module.collect environment = .ok named.2 ∧ named.1 = module.name := by
  rw [manifestOf, bind_eq_ok_iff]
  simp only [pure_eq_ok_iff]
  constructor
  · rintro ⟨manifest, hmanifest, rfl⟩
    exact ⟨hmanifest, rfl⟩
  · rintro ⟨hmanifest, hname⟩
    exact ⟨named.2, hmanifest, Prod.ext hname.symm rfl⟩

/-- To choose modules by their names and then collect is to collect and then choose. -/
theorem mapM_collect_filter {environment : Environment} {includes : String → Bool}
    {modules : List Instrumentation} {named : List (String × Manifest)}
    (h : modules.mapM (manifestOf environment) = .ok named) :
    (modules.filter fun module => includes module.name).mapM (fun module =>
        module.collect environment) =
      .ok ((named.filter fun entry => includes entry.1).map Prod.snd) := by
  have hforall := mapM_eq_ok_iff.1 h
  clear h
  rw [mapM_eq_ok_iff]
  induction hforall with
  | nil => exact .nil
  | @cons module entry modules named hentry _ ih =>
      obtain ⟨hcollect, hname⟩ := manifestOf_eq_ok_iff.1 hentry
      rw [List.filter_cons, List.filter_cons, hname]
      split
      · exact .cons hcollect ih
      · exact ih

/-- The manifest of a declaration merges those of the modules that it includes. -/
theorem manifestFor_eq_mergeAll {reader : ArchiveReader} {repository : Repository}
    {environment : Environment} {modules : List Instrumentation}
    (h : ofModules reader repository environment modules = .ok v) :
    v.reader = reader ∧ v.repository = repository ∧ v.environment = environment ∧
      ∃ manifests, (modules.filter fun module => d.includesModule module.name).mapM
          (fun module => module.collect environment) = .ok manifests ∧
        v.manifestFor d = .mergeAll manifests := by
  rw [ofModules, bind_eq_ok_iff] at h
  obtain ⟨named, hnamed, hv⟩ := h
  obtain rfl := pure_eq_ok_iff.1 hv
  refine ⟨rfl, rfl, rfl, _, mapM_collect_filter (mapError_eq_ok_iff.1 hnamed), ?_⟩
  rw [Manifest.mergeAll, List.foldl_map]
  rfl

/-! ## The meaning of a report -/

/-- A report has one verdict on every version that the declaration is about and no other ones. It is
passed exactly if one of these versions is in the range and each of them bears the declaration out,
with the references of all modules that the declaration includes. The same verdicts come of any other
listing of the same versions. -/
theorem evaluate_spec {reader : ArchiveReader} {repository : Repository} {environment : Environment}
    {modules : List Instrumentation} (hv : ofModules reader repository environment modules = .ok v)
    (hcandidates : repository.candidates d.group d.artifact = .ok candidates)
    (h : v.evaluate d = .ok report) :
    (report.verdicts.map Verdict.version).Nodup ∧
    (∀ version, version ∈ report.verdicts.map Verdict.version ↔
      version ∈ candidates ∧ d.LooksAt version) ∧
    (∃ manifests, (modules.filter fun module => d.includesModule module.name).mapM
        (fun module => module.collect environment) = .ok manifests ∧
      (report.passed = true ↔
        (∃ version ∈ candidates, d.LooksAt version ∧ d.InRange version) ∧
          ∀ version ∈ candidates, d.LooksAt version →
            v.Confirms d (.mergeAll manifests) version)) ∧
    ∀ (repository' : Repository) (candidates' : List String),
      repository'.fetch = repository.fetch →
      repository'.candidates d.group d.artifact = .ok candidates' →
      (∀ version, version ∈ candidates' ↔ version ∈ candidates) →
      ∃ v' report', ofModules reader repository' environment modules = .ok v' ∧
        v'.evaluate d = .ok report' ∧
        (∀ verdict, verdict ∈ report'.verdicts ↔ verdict ∈ report.verdicts) ∧
        report'.passed = report.passed := by
  obtain ⟨rfl, rfl, rfl, manifests, hmanifests, hmanifest⟩ := manifestFor_eq_mergeAll (d := d) hv
  have hperm := versions_perm_select hcandidates h
  refine ⟨hperm.nodup_iff.2 Declaration.nodup_select, ?_, ⟨manifests, hmanifests, ?_⟩, ?_⟩
  · intro version
    rw [hperm.mem_iff, ← Declaration.exists_mem_select_iff, List.mem_map]
    constructor
    · rintro ⟨⟨version, scope⟩, hselected, rfl⟩
      exact ⟨scope, hselected⟩
    · rintro ⟨scope, hselected⟩
      exact ⟨(version, scope), hselected, rfl⟩
  · rw [← hmanifest]
    exact passed_iff_confirms hcandidates h
  · intro repository' candidates' hfetch hcandidates' hsame
    obtain ⟨report', h', hverdicts⟩ :=
      exists_evaluate_of_same_candidates hcandidates h hfetch hcandidates' hsame
    have hv' : ofModules v.reader repository' v.environment modules =
        .ok { v with repository := repository' } := by
      rw [ofModules, bind_eq_ok_iff] at hv ⊢
      obtain ⟨named, hnamed, hmake⟩ := hv
      exact ⟨named, hnamed, by rw [← pure_eq_ok_iff.1 hmake]; rfl⟩
    refine ⟨_, report', hv', h', hverdicts, ?_⟩
    rw [Bool.eq_iff_iff, DeclarationReport.passed_iff, DeclarationReport.passed_iff]
    simp only [hverdicts]

/-! ## A library that moves a class -/

/-- Coordinate of a version of the library. -/
def coreAt (version : String) : Coordinate := ⟨"lib", "core", some version⟩

/-- Another artifact that the library is verified with. -/
def extras : Coordinate := ⟨"lib", "extras", some "1"⟩

/-- Artifact that the library repackages from version 2.0 on. -/
def shaded : Coordinate := ⟨"lib", "shaded", some "1"⟩

/-- Listing of the library, with its first version twice. The class that the module asks for is in the
library itself at first and in the repackaged artifact later on. -/
def coreListing : RepositoryListing where
  rows :=
    [(coreAt "1.0", some [⟨coreAt "1.0", clientArchive⟩]),
      (coreAt "1.0", none),
      (coreAt "2.0", some [⟨coreAt "2.0", plainClass "lib/Core" 1⟩, ⟨shaded, clientArchive⟩]),
      (extras, some [⟨extras, plainClass "lib/Extra" 1⟩])]

/-- Verifier of the library for a module that asks for the class. -/
def coreVerifier : Verifier where
  reader := Archive.plainReader
  repository := coreListing.repository
  environment := .standard
  manifests := [("agent", .record Helping.demands)]

/-- The versions from 1.0 on that are below 2.0. -/
def belowTwo : VersionRange := ⟨[⟨.included (.ofText "1.0"), .excluded (.ofText "2.0")⟩]⟩

/-- The versions from 2.0 on. -/
def fromTwo : VersionRange := ⟨[⟨.included (.ofText "2.0"), .unbounded⟩]⟩

/-- Claim about the library, with the other artifact and without the repackaged one. -/
def claimOf (expectation : Expectation) (versions : VersionRange) : Declaration :=
  { Declaration.about expectation "lib" "core" with
    versions := versions
    assertsInverse := true
    extraDependencies := [extras]
    excludedDependencies := [⟨"lib", "shaded", none⟩] }

/-- Context of the first version. -/
def firstContext : Context :=
  .ofOutlines [plainOutline Helping.clientName .publicAccess,
    plainOutline ⟨"lib/Extra", rfl⟩ .publicAccess]

/-- Context of the second version. -/
def secondContext : Context :=
  .ofOutlines [plainOutline ⟨"lib/Core", rfl⟩ .publicAccess,
    plainOutline ⟨"lib/Extra", rfl⟩ .publicAccess]

theorem candidates_core : coreListing.candidates "lib" "core" = .ok ["1.0", "1.0", "2.0"] := rfl

theorem ofModules_core :
    ofModules Archive.plainReader coreListing.repository .standard [Helping.agent] =
      .ok coreVerifier := by
  have hmanifest : manifestOf .standard Helping.agent = .ok ("agent", .record Helping.demands) :=
    manifestOf_eq_ok_iff.2 ⟨Helping.collect_agent, rfl⟩
  have hmanifests := mapM_eq_ok_iff.2 (.cons hmanifest .nil)
  rw [ofModules, hmanifests]
  rfl

section Claims

variable (expectation : Expectation) (versions : VersionRange)

theorem hasClassPath_first : coreVerifier.HasClassPath (claimOf expectation versions) "1.0"
    [⟨coreAt "1.0", clientArchive⟩, ⟨extras, plainClass "lib/Extra" 1⟩] := by
  refine ⟨[⟨coreAt "1.0", clientArchive⟩], [[⟨extras, plainClass "lib/Extra" 1⟩]], ?_, ?_, ?_⟩
  · rfl
  · rfl
  · rfl

/-- The repackaged artifact is not on the class path. -/
theorem hasClassPath_second : coreVerifier.HasClassPath (claimOf expectation versions) "2.0"
    [⟨coreAt "2.0", plainClass "lib/Core" 1⟩, ⟨extras, plainClass "lib/Extra" 1⟩] := by
  refine ⟨[⟨coreAt "2.0", plainClass "lib/Core" 1⟩, ⟨shaded, clientArchive⟩],
    [[⟨extras, plainClass "lib/Extra" 1⟩]], ?_, ?_, ?_⟩
  · rfl
  · rfl
  · rfl

theorem exists_evaluate_core :
    ∃ report, coreVerifier.evaluate (claimOf expectation versions) = .ok report := by
  apply exists_evaluate candidates_core
  rintro ⟨version, scope⟩ hselected
  obtain ⟨hmem, -⟩ := Declaration.exists_mem_select_iff.1 ⟨scope, hselected⟩
  simp only [List.mem_cons, List.not_mem_nil, or_false, or_self_left] at hmem
  rcases hmem with rfl | rfl
  · exact ⟨_, hasClassPath_first expectation versions⟩
  · exact ⟨_, hasClassPath_second expectation versions⟩

theorem accepts_core : ∀ version ∈ ["1.0", "1.0", "2.0"],
    (claimOf expectation versions).versionFilter.accepts version = true := by
  have hstandard : ∀ version ∈ ["1.0", "1.0", "2.0"],
      (VersionFilter.ofMarkers .standard []).accepts version = true := by decide +kernel
  exact hstandard

/-- A claim that says the opposite outside of its range is about both versions. -/
theorem looksAt_core : ∀ version ∈ ["1.0", "1.0", "2.0"], (claimOf .pass versions).LooksAt version :=
  fun version hlisted => ⟨accepts_core .pass versions version hlisted, Or.inr ⟨rfl, rfl⟩⟩

end Claims

/-- The reference of the module. -/
def coreManifest : Manifest := .mergeAll [.record Helping.demands]

theorem inRange_belowTwo :
    (claimOf .pass belowTwo).InRange "1.0" ∧ ¬ (claimOf .pass belowTwo).InRange "2.0" := by
  simp only [Declaration.InRange]
  decide +kernel

theorem inRange_fromTwo :
    ¬ (claimOf .fail fromTwo).InRange "1.0" ∧ (claimOf .fail fromTwo).InRange "2.0" := by
  simp only [Declaration.InRange]
  decide +kernel

theorem exists_not_resolved_second :
    ∃ r ∈ coreManifest.references,
      secondContext.check coreVerifier.environment.platform r ≠ .resolved := by
  decide +kernel

theorem confirms_first : coreVerifier.Confirms (claimOf .pass belowTwo) coreManifest "1.0" := by
  have hcontext : coreVerifier.context
      [⟨coreAt "1.0", clientArchive⟩, ⟨extras, plainClass "lib/Extra" 1⟩] = .ok firstContext :=
    Context.ofArtifacts_eq_ok_iff.2
      ⟨_, .cons hasOutlines_clientArchive (.cons hasOutlines_extra .nil), rfl⟩
  have hlinks : ∀ r ∈ coreManifest.references,
      firstContext.check coreVerifier.environment.platform r = .resolved := by
    decide +kernel
  refine ⟨_, _, hasClassPath_first _ _, hcontext, fun _ _ => hlinks, ?_, ?_⟩
  · intro _ hfail
    cases hfail
  · intro houtside
    exact absurd inRange_belowTwo.1 houtside

theorem context_second : coreVerifier.context
    [⟨coreAt "2.0", plainClass "lib/Core" 1⟩, ⟨extras, plainClass "lib/Extra" 1⟩] =
      .ok secondContext := by
  decide +kernel

/-- The class is missing from the second version, which is outside of the one range and inside of the
other. -/
theorem confirms_second : coreVerifier.Confirms (claimOf .pass belowTwo) coreManifest "2.0" ∧
    coreVerifier.Confirms (claimOf .fail fromTwo) coreManifest "2.0" := by
  constructor
  · refine ⟨_, _, hasClassPath_second _ _, context_second, ?_, ?_, fun _ => exists_not_resolved_second⟩
    · intro hinside
      exact absurd hinside inRange_belowTwo.2
    · intro hinside
      exact absurd hinside inRange_belowTwo.2
  · refine ⟨_, _, hasClassPath_second _ _, context_second, ?_, fun _ _ => exists_not_resolved_second,
      fun _ => exists_not_resolved_second⟩
    intro _ hpass
    cases hpass

/-- All references link below 2.0 and not from there on: the first claim is borne out by both versions,
and the second one is about the second version only. -/
theorem evaluate_claims :
    ofModules Archive.plainReader coreListing.repository .standard [Helping.agent] =
      .ok coreVerifier ∧
    coreListing.candidates "lib" "core" = .ok ["1.0", "1.0", "2.0"] ∧
    (∃ report, coreVerifier.evaluate (claimOf .pass belowTwo) = .ok report ∧
      (report.verdicts.map Verdict.version).Nodup ∧
      (∀ version, version ∈ report.verdicts.map Verdict.version ↔ version = "1.0" ∨ version = "2.0") ∧
      report.passed = true) ∧
    ∃ report, coreVerifier.evaluate (claimOf .fail fromTwo) = .ok report ∧
      (∀ version, version ∈ report.verdicts.map Verdict.version ↔ version = "2.0") ∧
      report.passed = true := by
  have hlisted : ∀ version, version ∈ ["1.0", "1.0", "2.0"] ↔ version = "1.0" ∨ version = "2.0" := by
    simp
  have hcollected : ([Helping.agent].filter fun module =>
      (claimOf .pass belowTwo).includesModule module.name).mapM
        (fun module => module.collect .standard) = .ok [.record Helping.demands] :=
    mapM_eq_ok_iff.2 (.cons Helping.collect_agent .nil)
  refine ⟨ofModules_core, candidates_core, ?_, ?_⟩
  · obtain ⟨report, h⟩ := exists_evaluate_core .pass belowTwo
    obtain ⟨hnodup, hmem, ⟨manifests, hmanifests, hpassed⟩, -⟩ :=
      evaluate_spec (d := claimOf .pass belowTwo) ofModules_core candidates_core h
    obtain rfl := Except.ok.inj (hmanifests.symm.trans hcollected)
    have hlooks := looksAt_core belowTwo
    refine ⟨report, h, hnodup, ?_, ?_⟩
    · intro version
      rw [hmem, ← hlisted]
      exact and_iff_left_of_imp (hlooks version)
    · refine hpassed.2 ⟨⟨"1.0", by decide, hlooks "1.0" (by decide), inRange_belowTwo.1⟩, ?_⟩
      intro version hversion _
      rcases (hlisted version).1 hversion with rfl | rfl
      · exact confirms_first
      · exact confirms_second.1
  · obtain ⟨report, h⟩ := exists_evaluate_core .fail fromTwo
    obtain ⟨-, hmem, ⟨manifests, hmanifests, hpassed⟩, -⟩ :=
      evaluate_spec (d := claimOf .fail fromTwo) ofModules_core candidates_core h
    obtain rfl := Except.ok.inj (hmanifests.symm.trans hcollected)
    have hlooks : ∀ version, version ∈ ["1.0", "1.0", "2.0"] ∧ (claimOf .fail fromTwo).LooksAt version ↔
        version = "2.0" := by
      intro version
      constructor
      · rintro ⟨hversion, -, hinside | ⟨hpass, -⟩⟩
        · rcases (hlisted version).1 hversion with rfl | rfl
          · exact absurd hinside inRange_fromTwo.1
          · rfl
        · cases hpass
      · rintro rfl
        exact ⟨by decide, accepts_core _ _ "2.0" (by decide), Or.inl inRange_fromTwo.2⟩
    refine ⟨report, h, ?_, ?_⟩
    · intro version
      rw [hmem, hlooks]
    · obtain ⟨hversion, hsecond⟩ := (hlooks "2.0").2 rfl
      refine hpassed.2 ⟨⟨"2.0", hversion, hsecond, inRange_fromTwo.2⟩, ?_⟩
      intro version hversion hlooksAt
      obtain rfl := (hlooks version).1 ⟨hversion, hlooksAt⟩
      exact confirms_second.2

end Verifier

end Linkage
