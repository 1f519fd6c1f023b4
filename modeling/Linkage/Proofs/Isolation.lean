import Linkage.Proofs.Verification

/-!
# Versions in isolation

A verdict depends on what is fetched for its version and for the extra dependencies and on nothing else,
and artifacts that cannot be read are told by the verdict.

* `evaluate_eq_error`, `exists_evaluate_eq_error`: a verification ends without a report only where the
  repository fails at something that was needed of it (`Repository.FailsFor`).
* `Version.forall₂_sortBy`: verdicts that are alike are put into the same order.
* `resolve_eq_malformed_iff`: a verdict tells of malformed artifacts exactly if one on the class path
  cannot be read (`Artifact.IsReadable`).
* `verify_eq_of_ne`: the verdicts on other versions are the same.
* `evaluate_isolated`: all of this for any repository, and for two of them that differ in what they hand
  out for one version.
-/

set_option autoImplicit false

namespace Linkage

open Fallible

/-! ## Failures of the repository -/

/-- The repository fails at what is needed of it for the declaration: at listing the versions, or at
fetching what there is for a selected version or, if there is one, for an extra dependency. -/
inductive Repository.FailsFor (r : Repository) (d : Declaration) (failure : RepositoryFailure) : Prop
  | candidates : r.candidates d.group d.artifact = .error failure → FailsFor r d failure
  | version {candidates : List String} {selected : String × Scope} :
      r.candidates d.group d.artifact = .ok candidates → selected ∈ d.select candidates →
        r.fetch (d.coordinate selected.1) = .error failure → FailsFor r d failure
  | dependency {candidates : List String} {selected : String × Scope} {extra : Coordinate} :
      r.candidates d.group d.artifact = .ok candidates → selected ∈ d.select candidates →
        extra ∈ d.extraDependencies → r.fetch extra = .error failure → FailsFor r d failure

namespace Verifier

variable {v : Verifier} {d : Declaration} {m : Manifest} {failure : RepositoryFailure} {error : Error}

theorem classPath_eq_error {c : Coordinate} (h : v.classPath d c = .error error) :
    ∃ failure, error = .repository failure ∧ (v.repository.fetch c = .error failure ∨
      ∃ extra ∈ d.extraDependencies, v.repository.fetch extra = .error failure) := by
  rcases bind_eq_error_iff.1 h with hown | ⟨own, -, hrest⟩
  · obtain ⟨failure, hfetch, rfl⟩ := mapError_eq_error_iff.1 hown
    exact ⟨failure, rfl, Or.inl hfetch⟩
  · rcases bind_eq_error_iff.1 hrest with hextra | ⟨extra, -, hreturn⟩
    · obtain ⟨extra, hmem, hfetch⟩ := exists_mem_of_mapM_eq_error hextra
      obtain ⟨failure, hfails, rfl⟩ := mapError_eq_error_iff.1 hfetch
      exact ⟨failure, rfl, Or.inr ⟨extra, hmem, hfails⟩⟩
    · cases hreturn

/-- Once there are artifacts, there is a verdict. -/
theorem verify_eq_error {selected : String × Scope} (h : v.verify d m selected = .error error) :
    v.classPath d (d.coordinate selected.1) = .error error := by
  rcases bind_eq_error_iff.1 h with hpath | ⟨artifacts, -, hrest⟩
  · exact hpath
  · obtain ⟨resolution, report, hresolve⟩ := exists_resolve_eq_ok v m artifacts
    rw [hresolve] at hrest
    cases hrest

/-- A verification that ends without a report ends with a failure of the repository. -/
theorem evaluate_eq_error (h : v.evaluate d = .error error) :
    ∃ failure, error = .repository failure ∧ v.repository.FailsFor d failure := by
  rcases bind_eq_error_iff.1 h with hlisting | ⟨candidates, hcandidates, hrest⟩
  · obtain ⟨failure, hfails, rfl⟩ := mapError_eq_error_iff.1 hlisting
    exact ⟨failure, rfl, .candidates hfails⟩
  · rw [mapError_eq_ok_iff] at hcandidates
    rcases bind_eq_error_iff.1 hrest with hverdicts | ⟨verdicts, -, hreturn⟩
    · obtain ⟨selected, hselected, hverify⟩ := exists_mem_of_mapM_eq_error hverdicts
      obtain ⟨failure, rfl, hown | ⟨extra, hmem, hextra⟩⟩ :=
        classPath_eq_error (verify_eq_error hverify)
      · exact ⟨failure, rfl, .version hcandidates hselected hown⟩
      · exact ⟨failure, rfl, .dependency hcandidates hselected hmem hextra⟩
    · cases hreturn

/-- A repository that fails at what is needed of it ends the verification. -/
theorem exists_evaluate_eq_error (hfails : v.repository.FailsFor d failure) :
    ∃ error, v.evaluate d = .error error := by
  cases h : v.evaluate d with
  | error error => exact ⟨error, rfl⟩
  | ok report =>
      exfalso
      obtain ⟨candidates', -, hcandidates', -, -⟩ := evaluate_eq_ok_iff.1 h
      have hpath : ∀ selected ∈ d.select candidates', ∃ artifacts,
          v.HasClassPath d selected.1 artifacts := by
        intro selected hselected
        obtain ⟨verdict, hverify⟩ := exists_verify_eq_ok hcandidates' h hselected
        obtain ⟨artifacts, -, -, hartifacts, -⟩ := verify_eq_ok_iff.1 hverify
        exact ⟨artifacts, hartifacts⟩
      cases hfails with
      | candidates hlisting =>
          rw [hcandidates'] at hlisting
          cases hlisting
      | version hcandidates hselected hfetch =>
          rw [hcandidates'] at hcandidates
          cases hcandidates
          obtain ⟨artifacts, own, extra, hown, -, -⟩ := hpath _ hselected
          rw [hown] at hfetch
          cases hfetch
      | dependency hcandidates hselected hmem hfetch =>
          rw [hcandidates'] at hcandidates
          cases hcandidates
          obtain ⟨artifacts, own, extra, -, hextra, -⟩ := hpath _ hselected
          obtain ⟨fetched, hfetched⟩ := exists_mapM_eq_ok_iff.1 ⟨extra, hextra⟩ _ hmem
          rw [hfetched] at hfetch
          cases hfetch

end Verifier

/-! ## Verdicts that are alike -/

namespace Version

variable {α β : Type} {version : α → Version}

theorem sortBy_map {versionB : β → Version} {g : α → β} (xs : List α) :
    sortBy versionB (xs.map g) = (sortBy (fun x => versionB (g x)) xs).map g := by
  let keep : Version × α → Version × β := fun entry => (entry.1, g entry.2)
  have hkeys : ((xs.map g).map fun y => (versionB y, y)) =
      (xs.map fun x => (versionB (g x), x)).map keep := by
    rw [List.map_map, List.map_map]
    rfl
  rw [sortBy, sortBy, hkeys, ← List.map_mergeSort (f := keep) fun _ _ _ _ => rfl, List.map_map,
    List.map_map]
  rfl

theorem sortBy_congr {version' : α → Version} {xs : List α} (h : ∀ x ∈ xs, version x = version' x) :
    sortBy version xs = sortBy version' xs := by
  have hkeys : (xs.map fun x => (version x, x)) = xs.map fun x => (version' x, x) := by
    apply List.map_congr_left
    intro x hx
    rw [h x hx]
  rw [sortBy, sortBy, hkeys]

/-- What is alike is put into the same order if the versions are the same. -/
theorem forall₂_sortBy {r : α → β → Prop} {versionB : β → Version} {xs : List α} {ys : List β}
    (h : List.Forall₂ r xs ys) (hversion : ∀ a b, r a b → version a = versionB b) :
    List.Forall₂ r (sortBy version xs) (sortBy versionB ys) := by
  obtain ⟨hlength, hpairs⟩ := List.forall₂_iff_zip.1 h
  -- the pairs are sorted by the versions of their first parts, which are those of their second ones
  have hfirst : sortBy version xs = (sortBy (fun pair => version pair.1) (xs.zip ys)).map Prod.fst := by
    rw [← sortBy_map, List.map_fst_zip (Nat.le_of_eq hlength)]
  have hsecond : sortBy versionB ys =
      (sortBy (fun pair => version pair.1) (xs.zip ys)).map Prod.snd := by
    have hsame : ∀ pair ∈ xs.zip ys, version pair.1 = versionB pair.2 := by
      intro pair hpair
      exact hversion pair.1 pair.2 (hpairs hpair)
    rw [sortBy_congr hsame, ← sortBy_map, List.map_snd_zip (Nat.le_of_eq hlength.symm)]
  rw [hfirst, hsecond, List.forall₂_map_left_iff, List.forall₂_map_right_iff, List.forall₂_same]
  intro pair hpair
  exact hpairs ((perm_sortBy _ _).mem_iff.1 hpair)

end Version

/-- The verdicts are on one version that is looked at in one way, and they are the same unless that
version is the given one. -/
structure Verdict.AlikeBut (version : String) (a b : Verdict) : Prop where
  version_eq : a.version = b.version
  scope_eq : a.scope = b.scope
  eq_of_ne : a.version ≠ version → a = b

/-- Failure that is not about the version. -/
def Failure.IsElsewhere (version : String) (failure : Failure) : Prop :=
  failure.version? ≠ some version

instance (version : String) (failure : Failure) : Decidable (failure.IsElsewhere version) :=
  inferInstanceAs (Decidable (failure.version? ≠ some version))

theorem Verdict.version?_of_failure? {verdict : Verdict} {failure : Failure}
    (h : verdict.failure? = some failure) : failure.version? = some verdict.version := by
  unfold failure? at h
  split at h
  · cases h
  · split at h <;> cases h <;> rfl

namespace Verdict.AlikeBut

variable {version : String} {a b : Verdict} {as bs : List Verdict}

/-- The failures that are not about the version are the same. -/
theorem failure?_filter (h : a.AlikeBut version b) :
    a.failure?.filter (·.IsElsewhere version) = b.failure?.filter (·.IsElsewhere version) := by
  by_cases hversion : a.version = version
  · -- both failures are about the version, if there are any
    have hnone : ∀ verdict : Verdict, verdict.version = version →
        verdict.failure?.filter (·.IsElsewhere version) = none := by
      intro verdict heq
      rw [Option.filter_eq_none_iff]
      intro failure hfailure helsewhere
      rw [decide_eq_true_eq] at helsewhere
      apply helsewhere
      rw [version?_of_failure? hfailure, heq]
    rw [hnone a hversion, hnone b (h.version_eq ▸ hversion)]
  · rw [h.eq_of_ne hversion]

theorem failures_filter (h : List.Forall₂ (AlikeBut version) as bs) :
    (as.filterMap failure?).filter (·.IsElsewhere version) =
      (bs.filterMap failure?).filter (·.IsElsewhere version) := by
  rw [List.filter_filterMap, List.filter_filterMap]
  induction h with
  | nil => rfl
  | cons hab _ ih => rw [List.filterMap_cons, List.filterMap_cons, hab.failure?_filter, ih]

theorem any_inside (h : List.Forall₂ (AlikeBut version) as bs) :
    (as.any fun verdict => verdict.scope == .inside) =
      bs.any fun verdict => verdict.scope == .inside := by
  induction h with
  | nil => rfl
  | cons hab _ ih => rw [List.any_cons, List.any_cons, hab.scope_eq, ih]

end Verdict.AlikeBut

/-- Reports whose verdicts are alike list the same failures, apart from those about the version. -/
theorem DeclarationReport.failures_filter_of_alike {version : String} {report report' : DeclarationReport}
    (h : List.Forall₂ (Verdict.AlikeBut version) report.verdicts report'.verdicts) :
    report.failures.filter (·.IsElsewhere version) =
      report'.failures.filter (·.IsElsewhere version) := by
  rw [failures, failures, List.filter_append, List.filter_append,
    Verdict.AlikeBut.failures_filter h, Verdict.AlikeBut.any_inside h]

namespace Verifier

variable {v : Verifier} {d : Declaration} {m : Manifest} {version : String}
  {artifacts : List FetchedArtifact} {verdict : Verdict} {report : DeclarationReport}
  {repository : Repository}

/-! ## One version -/

/-- Artifacts make a context if each of them can be read. -/
theorem exists_context_iff : (∃ c, v.context artifacts = .ok c) ↔
    ∀ artifact ∈ artifacts, Artifact.IsReadable v.reader artifact.bytes := by
  rw [← List.forall_mem_map (P := Artifact.IsReadable v.reader)]
  exact Context.exists_ofArtifacts_iff

/-- How a manifest fares with artifacts is told by no mismatch but by a message exactly if one of them
cannot be read. There is nothing else to report then. -/
theorem resolve_eq_malformed_iff {resolution : Resolution} {mismatches : MatchReport}
    (h : v.resolve m (v.context artifacts) = .ok (resolution, mismatches)) :
    ((∃ message, resolution = .malformedArtifact message) ↔
      ∃ artifact ∈ artifacts, ¬ Artifact.IsReadable v.reader artifact.bytes) ∧
    ∀ message, resolution = .malformedArtifact message → mismatches = .empty := by
  rcases resolve_cases v m artifacts with ⟨e, hcontext, hmalformed⟩ | ⟨c, hcontext, hfare⟩
  · rw [hmalformed] at h
    cases h
    refine ⟨iff_of_true ⟨_, rfl⟩ ?_, fun _ _ => rfl⟩
    by_contra hall
    push Not at hall
    obtain ⟨c, hc⟩ := exists_context_iff.2 hall
    rw [hcontext] at hc
    cases hc
  · have hno : ∀ message, resolution ≠ .malformedArtifact message := by
      rintro message rfl
      rcases hfare with ⟨-, hfare⟩ | ⟨-, hfare⟩ <;>
      · rw [hfare] at h
        cases h
    refine ⟨iff_of_false ?_ ?_, fun message hmessage => absurd hmessage (hno message)⟩
    · rintro ⟨message, hmessage⟩
      exact hno message hmessage
    · rintro ⟨artifact, hmem, hunreadable⟩
      exact hunreadable (exists_context_iff.1 ⟨c, hcontext⟩ artifact hmem)

/-- The verdict on a version tells of a malformed artifact exactly if one on the class path cannot be
read. It agrees with no declaration then. -/
theorem verdict_of_verify {selected : String × Scope} (h : v.verify d m selected = .ok verdict) :
    ∃ artifacts, v.HasClassPath d verdict.version artifacts ∧
      ((∃ message, verdict.resolution = .malformedArtifact message) ↔
        ∃ artifact ∈ artifacts, ¬ Artifact.IsReadable v.reader artifact.bytes) ∧
      ∀ message, verdict.resolution = .malformedArtifact message →
        verdict.isConsistent = false ∧ verdict.report = .empty := by
  obtain ⟨artifacts, resolution, mismatches, hpath, hresolve, rfl⟩ := verify_eq_ok_iff.1 h
  obtain ⟨hiff, hempty⟩ := resolve_eq_malformed_iff hresolve
  refine ⟨artifacts, hpath, hiff, ?_⟩
  intro message hmalformed
  refine ⟨?_, hempty message hmalformed⟩
  dsimp only at hmalformed
  simp only [Verdict.isConsistent, hmalformed]

/-- A version has the same class path wherever the same artifacts are fetched for it and for the extra
dependencies. -/
theorem classPath_congr {c : Coordinate} (hown : repository.fetch c = v.repository.fetch c)
    (hextra : ∀ extra ∈ d.extraDependencies, repository.fetch extra = v.repository.fetch extra) :
    { v with repository := repository }.classPath d c = v.classPath d c := by
  have hall : (d.extraDependencies.mapM fun extra =>
      (repository.fetch extra).mapError Error.repository) =
        d.extraDependencies.mapM fun extra =>
          (v.repository.fetch extra).mapError Error.repository := by
    have hsame := congrArg (List.mapM fun fetched => Except.mapError Error.repository fetched)
      (List.map_congr_left hextra)
    rwa [List.mapM_map, List.mapM_map] at hsame
  simp only [classPath, hown, hall]

/-! ## Two repositories -/

/-- The repositories list the same versions, and they hand out the same artifacts for all coordinates
but that of the version. Both have artifacts for the version. -/
structure DifferOnlyAt (d : Declaration) (version : String) (r r' : Repository) : Prop where
  candidates_eq : r'.candidates d.group d.artifact = r.candidates d.group d.artifact
  fetch_eq : ∀ c, c ≠ d.coordinate version → r'.fetch c = r.fetch c
  fetches : ∃ own, r.fetch (d.coordinate version) = .ok own
  fetches' : ∃ own, r'.fetch (d.coordinate version) = .ok own

variable (hdiffer : DifferOnlyAt d version v.repository repository)
  (hextra : d.coordinate version ∉ d.extraDependencies)

include hdiffer hextra

theorem fetch_extra_eq {extra : Coordinate} (hmem : extra ∈ d.extraDependencies) :
    repository.fetch extra = v.repository.fetch extra := by
  apply hdiffer.fetch_eq
  rintro rfl
  exact hextra hmem

/-- Verdicts on other versions are the same. -/
theorem verify_eq_of_ne {selected : String × Scope} (hne : selected.1 ≠ version) :
    { v with repository := repository }.verify d m selected = v.verify d m selected := by
  have hcoordinate : d.coordinate selected.1 ≠ d.coordinate version := by
    intro heq
    exact hne (Option.some.inj (congrArg Coordinate.version heq))
  have hpath := classPath_congr (hdiffer.fetch_eq _ hcoordinate) fun extra hmem =>
    fetch_extra_eq hdiffer hextra hmem
  simp only [verify, hpath]
  rfl

/-- Where there is a verdict with one repository, there is one with the other. -/
theorem exists_verify_of_differOnlyAt {selected : String × Scope}
    (h : v.verify d m selected = .ok verdict) :
    ∃ verdict', { v with repository := repository }.verify d m selected = .ok verdict' := by
  by_cases hversion : selected.1 = version
  · obtain ⟨artifacts, -, -, ⟨own, extra, -, hfetched, -⟩, -⟩ := verify_eq_ok_iff.1 h
    obtain ⟨own', hown'⟩ := hdiffer.fetches'
    have hall : ∀ c ∈ d.extraDependencies, ∃ fetched, repository.fetch c = .ok fetched := by
      intro c hmem
      rw [fetch_extra_eq hdiffer hextra hmem]
      exact exists_mapM_eq_ok_iff.1 ⟨extra, hfetched⟩ c hmem
    obtain ⟨extra', hextra'⟩ := exists_mapM_eq_ok_iff.2 hall
    rw [← hversion] at hown'
    have hpath : { v with repository := repository }.HasClassPath d selected.1 _ :=
      ⟨own', extra', hown', hextra', rfl⟩
    exact hpath.exists_verify m selected.2
  · exact ⟨verdict, (verify_eq_of_ne hdiffer hextra hversion).trans h⟩

/-- With the other repository there is a report, too, with verdicts that are alike but for the one on the
version. -/
theorem exists_evaluate_of_differOnlyAt (h : v.evaluate d = .ok report) :
    ∃ report', { v with repository := repository }.evaluate d = .ok report' ∧
      report'.declaration = report.declaration ∧
      List.Forall₂ (Verdict.AlikeBut version) report.verdicts report'.verdicts := by
  obtain ⟨candidates, verdicts, hcandidates, hverdicts, rfl⟩ := evaluate_eq_ok_iff.1 h
  have hall : ∀ selected ∈ d.select candidates, ∃ verdict',
      { v with repository := repository }.verify d (v.manifestFor d) selected = .ok verdict' := by
    intro selected hselected
    obtain ⟨verdict, hverdict⟩ := exists_verify_eq_ok hcandidates h hselected
    exact exists_verify_of_differOnlyAt hdiffer hextra hverdict
  obtain ⟨verdicts', hverdicts'⟩ := exists_mapM_eq_ok_iff.2 hall
  have hcandidates' : repository.candidates d.group d.artifact = .ok candidates :=
    hdiffer.candidates_eq.trans hcandidates
  refine ⟨_, evaluate_eq_ok_iff.2 ⟨candidates, verdicts', hcandidates', hverdicts', rfl⟩, rfl, ?_⟩
  -- the verdicts are alike one by one, and sorting looks at their versions alone
  apply Version.forall₂_sortBy
  · apply forall₂_of_mapM hverdicts hverdicts'
    intro selected _ a b ha hb
    obtain ⟨_, _, _, -, -, rfl⟩ := verify_eq_ok_iff.1 ha
    obtain ⟨_, _, _, -, -, rfl⟩ := verify_eq_ok_iff.1 hb
    refine ⟨rfl, rfl, fun hne => ?_⟩
    rw [verify_eq_of_ne hdiffer hextra hne, ha] at hb
    exact Except.ok.inj hb
  · intro a b halike
    rw [halike.version_eq]

omit hdiffer hextra

/-- Versions are verified in isolation, and malformed artifacts are contained. A verification ends without
a report exactly if the repository fails at something that is needed of it, whatever the bytes of the
artifacts are. What the repository has for one version makes no difference to the other versions: their
verdicts and failures are the same and stand in the same order. A version with an artifact on its class
path that cannot be read is told by its verdict, which agrees with no declaration and has no mismatches. -/
theorem evaluate_isolated (v : Verifier) (d : Declaration) :
    (∀ error, v.evaluate d = .error error →
      ∃ failure, error = .repository failure ∧ v.repository.FailsFor d failure) ∧
    ((∃ failure, v.repository.FailsFor d failure) → ∃ error, v.evaluate d = .error error) ∧
    (∀ version repository report, DifferOnlyAt d version v.repository repository →
      d.coordinate version ∉ d.extraDependencies → v.evaluate d = .ok report →
      ∃ report', { v with repository := repository }.evaluate d = .ok report' ∧
        report'.declaration = report.declaration ∧
        report'.verdicts.map Verdict.version = report.verdicts.map Verdict.version ∧
        List.Forall₂ (Verdict.AlikeBut version) report.verdicts report'.verdicts ∧
        report'.failures.filter (·.IsElsewhere version) =
          report.failures.filter (·.IsElsewhere version)) ∧
    ∀ report, v.evaluate d = .ok report → ∀ verdict ∈ report.verdicts,
      ∃ artifacts, v.HasClassPath d verdict.version artifacts ∧
        ((∃ message, verdict.resolution = .malformedArtifact message) ↔
          ∃ artifact ∈ artifacts, ¬ Artifact.IsReadable v.reader artifact.bytes) ∧
        ∀ message, verdict.resolution = .malformedArtifact message →
          verdict.isConsistent = false ∧ verdict.report = .empty := by
  refine ⟨fun _ => evaluate_eq_error, ?_, ?_, ?_⟩
  · rintro ⟨failure, hfails⟩
    exact exists_evaluate_eq_error hfails
  · intro version repository report hdiffer hextra h
    obtain ⟨report', h', hdeclaration, halike⟩ := exists_evaluate_of_differOnlyAt hdiffer hextra h
    refine ⟨report', h', hdeclaration, ?_, halike,
      (DeclarationReport.failures_filter_of_alike halike).symm⟩
    rw [eq_comm, ← List.forall₂_eq_eq_eq, List.forall₂_map_left_iff, List.forall₂_map_right_iff]
    exact halike.imp fun _ _ hab => hab.version_eq
  · intro report h verdict hverdict
    obtain ⟨candidates, -, hcandidates, -, -⟩ := evaluate_eq_ok_iff.1 h
    obtain ⟨selected, -, hverify⟩ := (mem_verdicts_iff hcandidates h).1 hverdict
    exact verdict_of_verify hverify

/-- Archive with an entry that is named like a class file and is none. -/
def brokenArchive : List UInt8 := Archive.ofStored [⟨"lib/Client.class", 0xd202ef8d, [0]⟩]

theorem not_isReadable_brokenArchive : ¬ Artifact.IsReadable Archive.plainReader brokenArchive := by
  intro hreadable
  have herror : Context.ofArtifacts Archive.plainReader [brokenArchive] =
      .error (.malformedArtifact (.entryClass "lib/Client.class" .endOfInput)) := by
    decide +kernel
  obtain ⟨c, hc⟩ := Context.exists_ofArtifacts_iff.2
    (List.forall_mem_singleton.2 hreadable)
  rw [herror] at hc
  cases hc

/-- This archive as the first version of the library. -/
def brokenArtifact : FetchedArtifact := ⟨coreAt "1.0", brokenArchive⟩

/-- The library with this artifact for its first version. -/
def brokenCore : Repository :=
  { coreListing.repository with
    fetch := fun c =>
      if c = coreAt "1.0" then .ok [brokenArtifact] else coreListing.fetch c }

/-- Repository that cannot be reached. -/
def offline : Repository := ⟨fun _ _ => .error ⟨"offline"⟩, fun _ => .error ⟨"offline"⟩⟩

/-- Once the first version has a broken archive, its verdict tells so, and the verdict on the second one
stays as it is. Without a repository there is no report. -/
theorem evaluate_brokenCore :
    offline.FailsFor (claimOf .pass belowTwo) ⟨"offline"⟩ ∧
    DifferOnlyAt (claimOf .pass belowTwo) "1.0" coreVerifier.repository brokenCore ∧
    ∃ report report',
      coreVerifier.evaluate (claimOf .pass belowTwo) = .ok report ∧
      { coreVerifier with repository := brokenCore }.evaluate (claimOf .pass belowTwo) =
        .ok report' ∧
      List.Forall₂ (Verdict.AlikeBut "1.0") report.verdicts report'.verdicts ∧
      (∃ verdict ∈ report.verdicts, verdict.version = "2.0") ∧
      ∃ verdict ∈ report'.verdicts, verdict.version = "1.0" ∧
        (∃ message, verdict.resolution = .malformedArtifact message) ∧
        verdict.isConsistent = false ∧ verdict.report = .empty := by
  have hoffline : { coreVerifier with repository := offline }.evaluate (claimOf .pass belowTwo) =
      .error (.repository ⟨"offline"⟩) := rfl
  have hbroken : brokenCore.fetch (coreAt "1.0") = .ok [brokenArtifact] := rfl
  have hdiffer : DifferOnlyAt (claimOf .pass belowTwo) "1.0" coreVerifier.repository brokenCore :=
    ⟨rfl, fun c hc => if_neg hc, ⟨_, rfl⟩, ⟨_, hbroken⟩⟩
  obtain ⟨failure, hfailure, hfails⟩ :=
    (evaluate_isolated { coreVerifier with repository := offline } _).1 _ hoffline
  cases hfailure
  obtain ⟨-, -, hisolated, -⟩ := evaluate_isolated coreVerifier (claimOf .pass belowTwo)
  obtain ⟨-, -, -, hverdicts'⟩ :=
    evaluate_isolated { coreVerifier with repository := brokenCore } (claimOf .pass belowTwo)
  obtain ⟨report, h⟩ := exists_evaluate_core .pass belowTwo
  obtain ⟨report', h', -, hversions, halike, -⟩ :=
    hisolated "1.0" brokenCore report hdiffer (by decide) h
  have hmem : ∀ version ∈ ["1.0", "1.0", "2.0"], version ∈ report.verdicts.map Verdict.version := by
    intro version hlisted
    obtain ⟨scope, hselected⟩ :=
      Declaration.exists_mem_select_iff.2 ⟨hlisted, looksAt_core belowTwo version hlisted⟩
    rw [(versions_perm_select candidates_core h).mem_iff]
    exact List.mem_map_of_mem hselected
  have hfirst := hmem "1.0" (by decide)
  rw [← hversions, List.mem_map] at hfirst
  obtain ⟨verdict, hverdict, hversion⟩ := hfirst
  refine ⟨hfails, hdiffer, report, report', h, h', halike, List.mem_map.1 (hmem "2.0" (by decide)),
    verdict, hverdict, hversion, ?_⟩
  obtain ⟨artifacts, ⟨own, extra, hown, hextra, rfl⟩, hiff, hmalformed⟩ :=
    hverdicts' report' h' verdict hverdict
  rw [hversion] at hown
  obtain rfl := Except.ok.inj (hown.symm.trans hbroken)
  -- the archive is not excluded
  have hthere : brokenArtifact ∈ ([brokenArtifact] ++ extra.flatten).filter fun artifact =>
        !(claimOf .pass belowTwo).excludes artifact.coordinate :=
    List.mem_filter.2 ⟨List.mem_append_left _ List.mem_cons_self, rfl⟩
  obtain ⟨message, hresolution⟩ := hiff.2 ⟨_, hthere, not_isReadable_brokenArchive⟩
  exact ⟨⟨message, hresolution⟩, hmalformed message hresolution⟩

end Verifier

end Linkage
