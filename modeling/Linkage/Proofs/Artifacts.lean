import Linkage.Archive.PlainReader
import Linkage.Bytes
import Linkage.Context
import Linkage.Proofs.Fallible

/-!
# What artifacts hold

An artifact holds one class file, or it is an archive and holds those of its entries that count as class
files, in the order in which the reader of archives hands them out (`Artifact.Holds`). Nothing is assumed
of the reader.

* `Artifact.readClasses_eq_ok_iff`: the class files that are read are those that the artifact holds.
* `Artifact.readClasses_eq_error_iff`: reading ends at the first entry that cannot be opened or read, and
  the error names it (`Artifact.FailsWith`).
* `Context.ofArtifacts_eq_ok_iff`: the context of artifacts has the outlines of all of their class files.
* `Context.exists_of_ofArtifacts_eq_error`: where there is none, an artifact is malformed.
-/

set_option autoImplicit false

namespace Linkage

open Fallible

/-! ## Entries of archives -/

namespace ArchiveEntry

/-- The entry counts as a class file: it has the name of one, which neither stands in for another one on
newer platforms nor describes a module. -/
structure IsClassFile (e : ArchiveEntry) : Prop where
  not_directory : e.isDirectory = false
  ends : ∃ stem, e.name = stem ++ ".class"
  not_versioned : ∀ rest, e.name ≠ "META-INF/versions/" ++ rest
  not_module : ∀ stem, e.name ≠ stem ++ "module-info.class"

/-- What an opened entry adds to the class files of its archive. -/
inductive Adds : Except String ArchiveEntry → List ClassFile → Prop
  | nothing {e : ArchiveEntry} : ¬ e.IsClassFile → Adds (.ok e) []
  | classFile {e : ArchiveEntry} {contents : List UInt8} {f : ClassFile} : e.IsClassFile →
      e.contents = .ok contents → ClassFile.parse contents = .ok f → Adds (.ok e) [f]

/-- What is wrong with an entry. Only those that count as class files have to have contents. -/
inductive FailsWith : Except String ArchiveEntry → ArtifactError → Prop
  | opening {message : String} : FailsWith (.error message) (.archive message)
  | contents {e : ArchiveEntry} {message : String} : e.IsClassFile → e.contents = .error message →
      FailsWith (.ok e) (.entryContents e.name message)
  | classFile {e : ArchiveEntry} {contents : List UInt8} {error : ClassError} : e.IsClassFile →
      e.contents = .ok contents → ClassFile.parse contents = .error error →
      FailsWith (.ok e) (.entryClass e.name error)

variable {e : ArchiveEntry} {opened : Except String ArchiveEntry} {f : ClassFile}
  {classFiles classFiles' : List ClassFile} {error : ArtifactError}

theorem isSuffixOf_toList_iff {s t : String} :
    t.toList.isSuffixOf s.toList = true ↔ ∃ stem, s = stem ++ t := by
  rw [List.isSuffixOf_iff_suffix]
  constructor
  · rintro ⟨cs, hcs⟩
    exact ⟨String.ofList cs, String.toList_inj.1 (by simp [hcs])⟩
  · rintro ⟨stem, rfl⟩
    exact ⟨stem.toList, String.toList_append.symm⟩

theorem isPrefixOf_toList_iff {s t : String} :
    t.toList.isPrefixOf s.toList = true ↔ ∃ rest, s = t ++ rest := by
  rw [List.isPrefixOf_iff_prefix]
  constructor
  · rintro ⟨cs, hcs⟩
    exact ⟨String.ofList cs, String.toList_inj.1 (by simp [hcs])⟩
  · rintro ⟨rest, rfl⟩
    exact ⟨rest.toList, String.toList_append.symm⟩

theorem isClass_iff : e.isClass = true ↔ e.IsClassFile := by
  simp only [isClass, versionedStart, Bool.and_eq_true, Bool.not_eq_true', ← Bool.not_eq_true,
    isSuffixOf_toList_iff, isPrefixOf_toList_iff, not_exists]
  constructor
  · rintro ⟨⟨⟨hfile, hends⟩, hversioned⟩, hmodule⟩
    exact ⟨Bool.not_eq_true _ ▸ hfile, hends, hversioned, hmodule⟩
  · rintro ⟨hfile, hends, hversioned, hmodule⟩
    exact ⟨⟨⟨by simp [hfile], hends⟩, hversioned⟩, hmodule⟩

theorem readClass_eq_ok_iff : e.readClass = .ok f ↔
    ∃ contents, e.contents = .ok contents ∧ ClassFile.parse contents = .ok f := by
  simp only [readClass, bind_eq_ok_iff, mapError_eq_ok_iff]

/-- One more entry puts behind the class files so far what it adds to them. -/
theorem gather_eq_ok_iff : gather classFiles opened = .ok classFiles' ↔
    ∃ more, Adds opened more ∧ classFiles' = classFiles ++ more := by
  rw [gather, bind_eq_ok_iff]
  simp only [mapError_eq_ok_iff]
  constructor
  · rintro ⟨e, rfl, h⟩
    by_cases hclass : e.isClass = true
    · rw [if_pos hclass] at h
      obtain ⟨f, hread, hreturn⟩ := bind_eq_ok_iff.1 h
      obtain ⟨contents, hcontents, hparse⟩ := readClass_eq_ok_iff.1 hread
      exact ⟨[f], .classFile (isClass_iff.1 hclass) hcontents hparse,
        (pure_eq_ok_iff.1 hreturn).symm⟩
    · rw [if_neg hclass] at h
      obtain rfl := pure_eq_ok_iff.1 h
      exact ⟨[], .nothing (mt isClass_iff.2 hclass), (List.append_nil _).symm⟩
  · rintro ⟨more, hadds, rfl⟩
    cases hadds with
    | @nothing e hclass =>
        refine ⟨e, rfl, ?_⟩
        rw [if_neg (mt isClass_iff.1 hclass), List.append_nil]
        rfl
    | @classFile e contents f hclass hcontents hparse =>
        refine ⟨e, rfl, ?_⟩
        rw [if_pos (isClass_iff.2 hclass), bind_eq_ok_iff]
        exact ⟨f, readClass_eq_ok_iff.2 ⟨contents, hcontents, hparse⟩, rfl⟩

theorem gather_eq_error_iff : gather classFiles opened = .error error ↔ FailsWith opened error := by
  rw [gather, bind_eq_error_iff]
  simp only [mapError_eq_ok_iff, mapError_eq_error_iff]
  constructor
  -- whether an entry can be opened counts before its name does
  · rintro (⟨message, rfl, rfl⟩ | ⟨e, rfl, h⟩)
    · exact .opening
    · by_cases hclass : e.isClass = true
      · rw [if_pos hclass] at h
        rcases bind_eq_error_iff.1 h with hread | ⟨f, -, hreturn⟩
        · rcases bind_eq_error_iff.1 hread with hnone | ⟨contents, hsome, hnot⟩
          · obtain ⟨message, hcontents, rfl⟩ := mapError_eq_error_iff.1 hnone
            exact .contents (isClass_iff.1 hclass) hcontents
          · obtain ⟨error, hparse, rfl⟩ := mapError_eq_error_iff.1 hnot
            exact .classFile (isClass_iff.1 hclass) (mapError_eq_ok_iff.1 hsome) hparse
        · cases hreturn
      · rw [if_neg hclass] at h
        cases h
  · intro hfails
    cases hfails with
    | @opening message => exact Or.inl ⟨message, rfl, rfl⟩
    | @contents e message hclass hcontents =>
        refine Or.inr ⟨e, rfl, ?_⟩
        rw [if_pos (isClass_iff.2 hclass), bind_eq_error_iff]
        apply Or.inl
        rw [readClass, hcontents]
        rfl
    | @classFile e contents error hclass hcontents hparse =>
        refine Or.inr ⟨e, rfl, ?_⟩
        rw [if_pos (isClass_iff.2 hclass), bind_eq_error_iff]
        apply Or.inl
        rw [readClass, bind_eq_error_iff]
        exact Or.inr ⟨contents, mapError_eq_ok_iff.2 hcontents,
          mapError_eq_error_iff.2 ⟨error, hparse, rfl⟩⟩

end ArchiveEntry

/-! ## Artifacts -/

namespace Artifact

/-- The artifact holds these class files: it is one, or it is an archive whose entries add them up. -/
inductive Holds (reader : ArchiveReader) (bytes : List UInt8) : List ClassFile → Prop
  | classFile {f : ClassFile} : [0xca, 0xfe, 0xba, 0xbe] <+: bytes → ClassFile.parse bytes = .ok f →
      Holds reader bytes [f]
  | archive {entries : List (Except String ArchiveEntry)} {groups : List (List ClassFile)} :
      [0x50, 0x4b] <+: bytes → reader.entries bytes = .ok entries →
      List.Forall₂ ArchiveEntry.Adds entries groups → Holds reader bytes groups.flatten

/-- What is wrong with an artifact. Of several entries that something is wrong with it is the first one
that counts. -/
inductive FailsWith (reader : ArchiveReader) (bytes : List UInt8) : ArtifactError → Prop
  | unrecognised : ¬ [0x50, 0x4b] <+: bytes → ¬ [0xca, 0xfe, 0xba, 0xbe] <+: bytes →
      FailsWith reader bytes .unrecognised
  | classFile {error : ClassError} : [0xca, 0xfe, 0xba, 0xbe] <+: bytes →
      ClassFile.parse bytes = .error error → FailsWith reader bytes (.classFile error)
  | archive {message : String} : [0x50, 0x4b] <+: bytes → reader.entries bytes = .error message →
      FailsWith reader bytes (.archive message)
  | entry {front back : List (Except String ArchiveEntry)} {opened : Except String ArchiveEntry}
      {groups : List (List ClassFile)} {error : ArtifactError} : [0x50, 0x4b] <+: bytes →
      reader.entries bytes = .ok (front ++ opened :: back) →
      List.Forall₂ ArchiveEntry.Adds front groups → ArchiveEntry.FailsWith opened error →
      FailsWith reader bytes error

variable {reader : ArchiveReader} {bytes : List UInt8} {classFiles : List ClassFile} {error : Error}

theorem not_classFile_of_archive (h : [0x50, 0x4b] <+: bytes) : ¬ [0xca, 0xfe, 0xba, 0xbe] <+: bytes := by
  rintro ⟨rest, rfl⟩
  obtain ⟨rest', h⟩ := h
  cases h

/-- Entries go through one after the other, and what they add is put together. -/
theorem foldlM_gather_eq_ok_iff {entries : List (Except String ArchiveEntry)} :
    entries.foldlM ArchiveEntry.gather [] = .ok classFiles ↔
      ∃ groups, List.Forall₂ ArchiveEntry.Adds entries groups ∧ classFiles = groups.flatten := by
  have hstep : ∀ before opened after, ArchiveEntry.gather before opened = .ok after ↔
      ∃ more, ArchiveEntry.Adds opened more ∧ after = before ++ more :=
    fun _ _ _ => ArchiveEntry.gather_eq_ok_iff
  have hflatten : ∀ groups : List (List ClassFile), groups.foldl (· ++ ·) [] = groups.flatten := by
    intro groups
    have happend : groups.foldl (fun front group => front ++ id group) [] =
      [] ++ (groups.map id).flatten := List.foldl_append_eq_append
    rwa [List.nil_append, List.map_id] at happend
  rw [foldlM_eq_ok_iff hstep]
  simp only [hflatten]

/-- The first entry that something is wrong with ends the reading. -/
theorem foldlM_gather_eq_error_iff {entries : List (Except String ArchiveEntry)}
    {error : ArtifactError} :
    entries.foldlM ArchiveEntry.gather [] = .error error ↔
      ∃ front opened back, entries = front ++ opened :: back ∧
        (∃ groups, List.Forall₂ ArchiveEntry.Adds front groups) ∧
        ArchiveEntry.FailsWith opened error := by
  have hfails : ∀ before opened error, ArchiveEntry.gather before opened = .error error ↔
      ArchiveEntry.FailsWith opened error := fun _ _ _ => ArchiveEntry.gather_eq_error_iff
  rw [foldlM_eq_error_iff hfails]
  simp only [foldlM_gather_eq_ok_iff]
  constructor
  · rintro ⟨front, opened, back, -, hentries, ⟨groups, hgroups, rfl⟩, hopened⟩
    exact ⟨front, opened, back, hentries, ⟨groups, hgroups⟩, hopened⟩
  · rintro ⟨front, opened, back, hentries, ⟨groups, hgroups⟩, hopened⟩
    exact ⟨front, opened, back, _, hentries, ⟨groups, hgroups, rfl⟩, hopened⟩

theorem readArchive_eq_ok_iff : readArchive reader bytes = .ok classFiles ↔
    ∃ entries groups, reader.entries bytes = .ok entries ∧
      List.Forall₂ ArchiveEntry.Adds entries groups ∧ classFiles = groups.flatten := by
  simp only [readArchive, bind_eq_ok_iff, mapError_eq_ok_iff, foldlM_gather_eq_ok_iff]
  constructor
  · rintro ⟨entries, hentries, groups, hgroups, rfl⟩
    exact ⟨entries, groups, hentries, hgroups, rfl⟩
  · rintro ⟨entries, groups, hentries, hgroups, rfl⟩
    exact ⟨entries, hentries, groups, hgroups, rfl⟩

theorem readArchive_eq_error_iff {error : ArtifactError} : readArchive reader bytes = .error error ↔
    (∃ message, reader.entries bytes = .error message ∧ error = .archive message) ∨
      ∃ front opened back groups, reader.entries bytes = .ok (front ++ opened :: back) ∧
        List.Forall₂ ArchiveEntry.Adds front groups ∧ ArchiveEntry.FailsWith opened error := by
  simp only [readArchive, bind_eq_error_iff, mapError_eq_error_iff, mapError_eq_ok_iff,
    foldlM_gather_eq_error_iff]
  constructor
  · rintro (⟨message, hentries, rfl⟩ | ⟨_, hentries, front, opened, back, rfl, ⟨groups, hgroups⟩, h⟩)
    · exact Or.inl ⟨message, hentries, rfl⟩
    · exact Or.inr ⟨front, opened, back, groups, hentries, hgroups, h⟩
  · rintro (⟨message, hentries, rfl⟩ | ⟨front, opened, back, groups, hentries, hgroups, h⟩)
    · exact Or.inl ⟨message, hentries, rfl⟩
    · exact Or.inr ⟨_, hentries, front, opened, back, rfl, ⟨groups, hgroups⟩, h⟩

/-! ### The kinds of artifacts -/

theorem readClasses_of_archive (h : [0x50, 0x4b] <+: bytes) :
    readClasses reader bytes = (readArchive reader bytes).mapError .malformedArtifact :=
  if_pos (List.isPrefixOf_iff_prefix.2 h)

theorem readClasses_of_classFile (h : [0xca, 0xfe, 0xba, 0xbe] <+: bytes) :
    readClasses reader bytes = ((fun f => [f]) <$> ClassFile.parse bytes).mapError
      fun e => .malformedArtifact (.classFile e) := by
  have hno : ¬ archiveMagic.isPrefixOf bytes = true := by
    intro harchive
    exact not_classFile_of_archive (List.isPrefixOf_iff_prefix.1 harchive) h
  have hmagic : ClassFile.magic.isPrefixOf bytes = true := List.isPrefixOf_iff_prefix.2 h
  rw [readClasses, if_neg hno, if_pos hmagic]
  cases ClassFile.parse bytes <;> rfl

theorem readClasses_of_unrecognised (harchive : ¬ [0x50, 0x4b] <+: bytes)
    (hmagic : ¬ [0xca, 0xfe, 0xba, 0xbe] <+: bytes) :
    readClasses reader bytes = .error (.malformedArtifact .unrecognised) := by
  have hno : ¬ archiveMagic.isPrefixOf bytes = true := mt List.isPrefixOf_iff_prefix.1 harchive
  have hnot : ¬ ClassFile.magic.isPrefixOf bytes = true := mt List.isPrefixOf_iff_prefix.1 hmagic
  rw [readClasses, if_neg hno, if_neg hnot]

/-- The class files that are read are those that the artifact holds. -/
theorem readClasses_eq_ok_iff :
    readClasses reader bytes = .ok classFiles ↔ Holds reader bytes classFiles := by
  constructor
  · intro h
    by_cases harchive : [0x50, 0x4b] <+: bytes
    · rw [readClasses_of_archive harchive, mapError_eq_ok_iff, readArchive_eq_ok_iff] at h
      obtain ⟨entries, groups, hentries, hgroups, rfl⟩ := h
      exact .archive harchive hentries hgroups
    · by_cases hmagic : [0xca, 0xfe, 0xba, 0xbe] <+: bytes
      · rw [readClasses_of_classFile hmagic, mapError_eq_ok_iff, map_eq_ok_iff] at h
        obtain ⟨f, hparse, rfl⟩ := h
        exact .classFile hmagic hparse
      · rw [readClasses_of_unrecognised harchive hmagic] at h
        cases h
  · intro h
    cases h with
    | classFile hmagic hparse => rw [readClasses_of_classFile hmagic, hparse]; rfl
    | archive harchive hentries hgroups =>
        rw [readClasses_of_archive harchive, mapError_eq_ok_iff, readArchive_eq_ok_iff]
        exact ⟨_, _, hentries, hgroups, rfl⟩

/-- Nothing but what is wrong with the artifact keeps its class files from being read, and the error
says what it is. -/
theorem readClasses_eq_error_iff : readClasses reader bytes = .error error ↔
    ∃ artifactError, error = .malformedArtifact artifactError ∧
      FailsWith reader bytes artifactError := by
  constructor
  · intro h
    by_cases harchive : [0x50, 0x4b] <+: bytes
    · rw [readClasses_of_archive harchive, mapError_eq_error_iff] at h
      obtain ⟨artifactError, hread, rfl⟩ := h
      refine ⟨artifactError, rfl, ?_⟩
      rcases readArchive_eq_error_iff.1 hread with ⟨message, hentries, rfl⟩ |
        ⟨front, opened, back, groups, hentries, hgroups, hopened⟩
      · exact .archive harchive hentries
      · exact .entry harchive hentries hgroups hopened
    · by_cases hmagic : [0xca, 0xfe, 0xba, 0xbe] <+: bytes
      · rw [readClasses_of_classFile hmagic, mapError_eq_error_iff] at h
        obtain ⟨classError, hmap, rfl⟩ := h
        exact ⟨_, rfl, .classFile hmagic (map_eq_error_iff.1 hmap)⟩
      · rw [readClasses_of_unrecognised harchive hmagic] at h
        cases h
        exact ⟨_, rfl, .unrecognised harchive hmagic⟩
  · rintro ⟨artifactError, rfl, hfails⟩
    cases hfails with
    | unrecognised harchive hmagic => exact readClasses_of_unrecognised harchive hmagic
    | classFile hmagic hparse => rw [readClasses_of_classFile hmagic, hparse]; rfl
    | archive harchive hentries =>
        rw [readClasses_of_archive harchive, mapError_eq_error_iff]
        exact ⟨_, readArchive_eq_error_iff.2 (Or.inl ⟨_, hentries, rfl⟩), rfl⟩
    | entry harchive hentries hgroups hopened =>
        rw [readClasses_of_archive harchive, mapError_eq_error_iff]
        exact ⟨_, readArchive_eq_error_iff.2 (Or.inr ⟨_, _, _, _, hentries, hgroups, hopened⟩), rfl⟩

/-- An artifact holds only one list of class files. -/
theorem Holds.eq {classFiles' : List ClassFile} (h : Holds reader bytes classFiles)
    (h' : Holds reader bytes classFiles') : classFiles = classFiles' :=
  Except.ok.inj ((readClasses_eq_ok_iff.2 h).symm.trans (readClasses_eq_ok_iff.2 h'))

/-- The artifact holds class files that each have an outline. -/
def IsReadable (reader : ArchiveReader) (bytes : List UInt8) : Prop :=
  ∃ classFiles, Holds reader bytes classFiles ∧
    ∀ f ∈ classFiles, ∃ outline, ClassOutline.ofClassFile f = .ok outline

/-- The artifact holds class files with these outlines. -/
def HasOutlines (reader : ArchiveReader) (bytes : List UInt8) (outlines : List ClassOutline) : Prop :=
  ∃ classFiles, Holds reader bytes classFiles ∧
    List.Forall₂ (fun f outline => ClassOutline.ofClassFile f = .ok outline) classFiles outlines

theorem hasOutlines_iff {outlines : List ClassOutline} : HasOutlines reader bytes outlines ↔
    (readClasses reader bytes >>= fun classFiles =>
      (classFiles.mapM ClassOutline.ofClassFile).mapError .malformedClass) = .ok outlines := by
  simp only [HasOutlines, bind_eq_ok_iff, mapError_eq_ok_iff, readClasses_eq_ok_iff, mapM_eq_ok_iff]

theorem exists_hasOutlines_iff :
    (∃ outlines, HasOutlines reader bytes outlines) ↔ IsReadable reader bytes := by
  simp only [HasOutlines, IsReadable, ← exists_mapM_eq_ok_iff, mapM_eq_ok_iff]
  constructor
  · rintro ⟨outlines, classFiles, hholds, houtlines⟩
    exact ⟨classFiles, hholds, outlines, houtlines⟩
  · rintro ⟨classFiles, hholds, outlines, houtlines⟩
    exact ⟨outlines, classFiles, hholds, houtlines⟩

end Artifact

/-! ## Contexts of artifacts -/

namespace Context

variable {reader : ArchiveReader} {artifacts : List (List UInt8)} {c c' : Context}
  {classFiles : List ClassFile}

theorem foldlM_addClass_eq_ok_iff : classFiles.foldlM addClass c = .ok c' ↔
    ∃ outlines, List.Forall₂ (fun f outline => ClassOutline.ofClassFile f = .ok outline)
      classFiles outlines ∧ c' = outlines.foldl insert c := by
  have hstep : ∀ before f after, addClass before f = .ok after ↔
      ∃ outline, ClassOutline.ofClassFile f = .ok outline ∧ after = before.insert outline := by
    intro before f after
    rw [addClass, map_eq_ok_iff]
    exact exists_congr fun outline => and_congr_right' eq_comm
  exact foldlM_eq_ok_iff hstep

/-- One more artifact puts the outlines of its class files into the context, one after the other. -/
theorem addArtifact_eq_ok_iff {artifact : List UInt8 × Nat} : addArtifact reader c artifact = .ok c' ↔
    ∃ outlines, Artifact.HasOutlines reader artifact.1 outlines ∧ c' = outlines.foldl insert c := by
  simp only [addArtifact, bind_eq_ok_iff, mapError_eq_ok_iff, Artifact.readClasses_eq_ok_iff,
    foldlM_addClass_eq_ok_iff, Artifact.HasOutlines]
  constructor
  · rintro ⟨classFiles, hholds, outlines, houtlines, rfl⟩
    exact ⟨outlines, ⟨classFiles, hholds, houtlines⟩, rfl⟩
  · rintro ⟨outlines, ⟨classFiles, hholds, houtlines⟩, rfl⟩
    exact ⟨classFiles, hholds, outlines, houtlines, rfl⟩

/-- A context has the outlines of all class files that its artifacts hold. -/
theorem ofArtifacts_eq_ok_iff : ofArtifacts reader artifacts = .ok c ↔
    ∃ groups, List.Forall₂ (Artifact.HasOutlines reader) artifacts groups ∧
      c = ofOutlines groups.flatten := by
  have hstep : ∀ before artifact after, addArtifact reader before artifact = .ok after ↔
      ∃ outlines, Artifact.HasOutlines reader artifact.1 outlines ∧
        after = outlines.foldl insert before := fun _ _ _ => addArtifact_eq_ok_iff
  -- the numbers of the artifacts are for messages alone
  have hnumbers : ∀ groups, List.Forall₂ (fun artifact outlines =>
      Artifact.HasOutlines reader artifact.1 outlines) artifacts.zipIdx groups ↔
      List.Forall₂ (Artifact.HasOutlines reader) artifacts groups := by
    intro groups
    rw [← List.forall₂_map_left_iff (f := Prod.fst), List.zipIdx_map_fst]
  simp only [ofArtifacts, bind_eq_ok_iff, pure_eq_ok_iff, foldlM_eq_ok_iff hstep, hnumbers]
  constructor
  · rintro ⟨_, ⟨groups, hgroups, rfl⟩, rfl⟩
    exact ⟨groups, hgroups, by rw [ofOutlines, List.foldl_flatten]⟩
  · rintro ⟨groups, hgroups, rfl⟩
    exact ⟨_, ⟨groups, hgroups, rfl⟩, by rw [ofOutlines, List.foldl_flatten]⟩

/-- Artifacts make a context if each of them can be read. -/
theorem exists_ofArtifacts_iff : (∃ c, ofArtifacts reader artifacts = .ok c) ↔
    ∀ bytes ∈ artifacts, Artifact.IsReadable reader bytes := by
  simp only [ofArtifacts_eq_ok_iff, ← Artifact.exists_hasOutlines_iff]
  constructor
  · rintro ⟨c, groups, hgroups, -⟩
    exact exists_forall₂_iff.1 ⟨groups, hgroups⟩
  · intro h
    obtain ⟨groups, hgroups⟩ := exists_forall₂_iff.2 h
    exact ⟨_, groups, hgroups, rfl⟩

/-- An artifact that cannot be added is malformed. -/
theorem exists_of_addArtifact_eq_error {artifact : List UInt8 × Nat} {error : Error}
    (h : addArtifact reader c artifact = .error error) :
    ∃ artifactError, error = .malformedArtifact artifactError := by
  rcases bind_eq_error_iff.1 h with hread | ⟨classFiles, -, hclasses⟩
  · obtain ⟨artifactError, rfl, -⟩ := Artifact.readClasses_eq_error_iff.1 hread
    exact ⟨artifactError, rfl⟩
  · obtain ⟨classError, -, rfl⟩ := mapError_eq_error_iff.1 hclasses
    exact ⟨_, rfl⟩

/-- Where artifacts make no context, one of them is malformed. -/
theorem exists_of_ofArtifacts_eq_error {error : Error} (h : ofArtifacts reader artifacts = .error error) :
    ∃ artifactError, error = .malformedArtifact artifactError := by
  rcases bind_eq_error_iff.1 h with hfold | ⟨c, -, hfinish⟩
  · obtain ⟨before, artifact, hadd⟩ := exists_of_foldlM_eq_error hfold
    exact exists_of_addArtifact_eq_error hadd
  · cases hfinish

end Context

/-! ## An archive -/

/-- Class file of a class with neither a superclass nor members. -/
def plainClass (name : String) (flags : UInt8) : List UInt8 :=
  [0xca, 0xfe, 0xba, 0xbe, 0, 0, 0, 52, 0, 3, 1] ++ bigEndian 2 name.length ++
    name.toList.map (fun c => UInt8.ofNat c.toNat) ++
    [7, 0, 1, 0, flags, 0, 2, 0, 0, 0, 0, 0, 0, 0, 0, 0, 0]

/-- Outline of such a class. -/
def plainOutline (name : BinaryName) (visibility : Visibility) : ClassOutline where
  name := name
  superClass := none
  interfaces := []
  isInterface := false
  visibility := visibility
  methods := []
  fields := []

namespace Archive

/-- Bytes of a number with the lowest one first. -/
def littleEndian (count n : Nat) : List UInt8 := (bigEndian count n).reverse

/-- Entry that is stored as it is, with a checksum. -/
structure StoredEntry where
  name : String
  checksum : UInt32
  contents : List UInt8

namespace StoredEntry

/-- Bytes of the name. -/
def nameBytes (e : StoredEntry) : List UInt8 := e.name.toList.map fun c => UInt8.ofNat c.toNat

/-- What both headers of the entry say: version, flags, method, time and date, checksum, sizes, and
lengths of the name and of the extra data. -/
def fields (e : StoredEntry) : List UInt8 :=
  [20, 0, 0, 0, 0, 0, 0, 0, 33, 0] ++ littleEndian 4 e.checksum.toNat ++
    littleEndian 4 e.contents.length ++ littleEndian 4 e.contents.length ++
    littleEndian 2 e.nameBytes.length ++ [0, 0]

/-- The entry behind its local header. -/
def stored (e : StoredEntry) : List UInt8 := localMagic ++ e.fields ++ e.nameBytes ++ e.contents

/-- Header of the entry in the directory. -/
def header (e : StoredEntry) (position : Nat) : List UInt8 :=
  headerMagic ++ [20, 0] ++ e.fields ++ List.replicate 10 0 ++ littleEndian 4 position ++ e.nameBytes

end StoredEntry

/-- Headers of entries that stand one behind the other from a position on. -/
def headersFrom : Nat → List StoredEntry → List UInt8
  | _, [] => []
  | position, e :: es => e.header position ++ headersFrom (position + e.stored.length) es

/-- Archive of entries that are stored as they are. -/
def ofStored (entries : List StoredEntry) : List UInt8 :=
  let contents := entries.flatMap StoredEntry.stored
  let directory := headersFrom 0 entries
  contents ++ directory ++ endMagic ++ [0, 0, 0, 0] ++ littleEndian 2 entries.length ++
    littleEndian 2 entries.length ++ littleEndian 4 directory.length ++
    littleEndian 4 contents.length ++ [0, 0]

end Archive

/-- Archive with a class and another class file of the same name behind it. The entries in front of them
do not count as class files. -/
def clientArchive : List UInt8 :=
  Archive.ofStored
    [⟨"notes", 0, []⟩, ⟨"module-info.class", 0xd202ef8d, [0]⟩,
      ⟨"META-INF/versions/9/A.class", 0xd202ef8d, [0]⟩,
      ⟨"Client.class", 0x17b4fec0, plainClass "lib/Client" 1⟩,
      ⟨"Old.class", 0xca222745, plainClass "lib/Client" 0⟩]

/-- Of the five entries the two class files are read. -/
theorem hasOutlines_clientArchive : Artifact.HasOutlines Archive.plainReader clientArchive
    [plainOutline ⟨"lib/Client", rfl⟩ .publicAccess, plainOutline ⟨"lib/Client", rfl⟩ .packageAccess] :=
  Artifact.hasOutlines_iff.2 (by decide +kernel)

theorem hasOutlines_extra : Artifact.HasOutlines Archive.plainReader (plainClass "lib/Extra" 1)
    [plainOutline ⟨"lib/Extra", rfl⟩ .publicAccess] :=
  Artifact.hasOutlines_iff.2 (by decide +kernel)

end Linkage
