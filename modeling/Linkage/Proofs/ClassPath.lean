import Linkage.Proofs.Artifacts
import Linkage.Proofs.OwnWalks

/-!
# Contexts as class paths

A context is made of artifacts if each of them holds class files that all have outlines, also those that
are never found. A name is then looked up in the class files that the artifacts hold, one after the other
and, inside of an archive, in the order of its entries: the first class file of the name counts, and the
root of the hierarchy is there in any case (`Finds`).

Two contexts are put together by putting their artifacts together (`exists_ofArtifacts_append`), and
artifacts that define no name in common can change places (`Reordered`).
-/

set_option autoImplicit false

namespace Linkage

open Fallible

/-! ## Names that artifacts define -/

namespace Artifact

variable {reader : ArchiveReader}

/-- The artifact holds a class file of the name. -/
def Defines (reader : ArchiveReader) (bytes : List UInt8) (name : String) : Prop :=
  ∃ classFiles, Holds reader bytes classFiles ∧ ∃ f ∈ classFiles, f.thisName = .ok name

/-- No name is defined by both artifacts. -/
def Disjoint (reader : ArchiveReader) (a b : List UInt8) : Prop :=
  ∀ name, ¬ (Defines reader a name ∧ Defines reader b name)

theorem Disjoint.symm {a b : List UInt8} (h : Disjoint reader a b) : Disjoint reader b a :=
  fun name hdefines => h name hdefines.symm

/-- The same artifacts in another order, in which any two that define a name in common are still one
after the other as before. -/
inductive Reordered (reader : ArchiveReader) : List (List UInt8) → List (List UInt8) → Prop
  | nil : Reordered reader [] []
  | cons {as bs : List (List UInt8)} (a : List UInt8) : Reordered reader as bs →
      Reordered reader (a :: as) (a :: bs)
  | swap {a b : List UInt8} (rest : List (List UInt8)) : Disjoint reader a b →
      Reordered reader (a :: b :: rest) (b :: a :: rest)
  | trans {as bs cs : List (List UInt8)} : Reordered reader as bs → Reordered reader bs cs →
      Reordered reader as cs

/-- Artifacts that define no names in common can be put into any order. -/
theorem reordered_of_perm {as bs : List (List UInt8)} (h : as.Perm bs)
    (hdisjoint : as.Pairwise (Disjoint reader)) : Reordered reader as bs := by
  induction h with
  | nil => exact .nil
  | cons a _ ih => exact (ih hdisjoint.of_cons).cons a
  | swap a b rest =>
      obtain ⟨hb, -⟩ := List.pairwise_cons.1 hdisjoint
      exact .swap rest (hb a List.mem_cons_self)
  | trans hfirst _ ih ih' =>
      exact (ih hdisjoint).trans (ih' ((hfirst.pairwise_iff Disjoint.symm).1 hdisjoint))

end Artifact

/-! ## Looking up in class files -/

/-- The class file is the first one of the name. -/
def ClassFile.IsFirstOf (f : ClassFile) (classFiles : List ClassFile) (name : String) : Prop :=
  ∃ front back, classFiles = front ++ f :: back ∧ f.thisName = .ok name ∧
    ∀ g ∈ front, g.thisName ≠ .ok name

namespace Context

/-- What a name comes to on a class path with these class files: the outline of the first one of the
name, else the built-in one for the root of the hierarchy, and nothing for all other names. -/
inductive Finds (classFiles : List ClassFile) (name : String) : Option ClassOutline → Prop
  | defined {f : ClassFile} {outline : ClassOutline} : f.IsFirstOf classFiles name →
      ClassOutline.ofClassFile f = .ok outline → Finds classFiles name (some outline)
  | builtIn : (∀ f ∈ classFiles, f.thisName ≠ .ok name) → name = BinaryName.object.text →
      Finds classFiles name (some .object)
  | absent : (∀ f ∈ classFiles, f.thisName ≠ .ok name) → name ≠ BinaryName.object.text →
      Finds classFiles name none

variable {name : String} {f : ClassFile} {outline : ClassOutline} {classFiles : List ClassFile}
  {outlines : List ClassOutline}

/-- An outline has the name of its class file. -/
theorem thisName_of_ofClassFile (h : ClassOutline.ofClassFile f = .ok outline) :
    f.thisName = .ok outline.name.text := by
  obtain ⟨text, htext, hname⟩ := (ClassOutline.parts_of_ofClassFile h).1
  rw [htext, BinaryName.ofText_eq_ok_iff.1 (mapError_eq_ok_iff.1 hname)]

/-- A class file in front of the others has its name for itself. -/
theorem Finds.cons {found : Option ClassOutline} (h : Finds classFiles name found)
    (hother : f.thisName ≠ .ok name) : Finds (f :: classFiles) name found := by
  cases h with
  | defined hfirst houtline =>
      obtain ⟨front, back, rfl, hname, hfront⟩ := hfirst
      exact .defined ⟨f :: front, back, rfl, hname, List.forall_mem_cons.2 ⟨hother, hfront⟩⟩ houtline
  | builtIn hnone hobject => exact .builtIn (List.forall_mem_cons.2 ⟨hother, hnone⟩) hobject
  | absent hnone hobject => exact .absent (List.forall_mem_cons.2 ⟨hother, hnone⟩) hobject

/-- The look-up goes by the class files, whose outlines are asked in their order. -/
theorem finds_ofOutlines
    (h : List.Forall₂ (fun f outline => ClassOutline.ofClassFile f = .ok outline) classFiles outlines)
    (name : String) : Finds classFiles name ((ofOutlines outlines).find? name) := by
  induction h with
  | nil =>
      -- only the built-in class is left
      rw [find?_ofOutlines, List.nil_append, List.find?_singleton]
      split
      · rename_i htext
        exact .builtIn nofun (eq_of_beq htext).symm
      · rename_i htext
        exact .absent nofun fun hobject => htext (beq_iff_eq.2 hobject.symm)
  | @cons f outline classFiles outlines hf _ ih =>
      have hthis := thisName_of_ofClassFile hf
      rw [find?_ofOutlines] at ih ⊢
      rw [List.cons_append, List.find?_cons]
      split
      · rename_i htext
        exact .defined ⟨[], classFiles, rfl, hthis.trans (by rw [eq_of_beq htext]), nofun⟩ hf
      · rename_i htext
        refine ih.cons fun hname => ?_
        rw [hthis, Except.ok.injEq] at hname
        rw [hname, beq_self_eq_true] at htext
        cases htext

/-! ## Contexts of artifacts -/

variable {reader : ArchiveReader} {artifacts more others : List (List UInt8)}
  {groups : List (List ClassOutline)} {c c' : Context} {bytes : List UInt8}

/-- The outlines are found by the class files of the artifacts. -/
theorem finds_of_hasOutlines (h : List.Forall₂ (Artifact.HasOutlines reader) artifacts groups) :
    ∃ held, List.Forall₂ (Artifact.Holds reader) artifacts held ∧
      ∀ name, Finds held.flatten name ((ofOutlines groups.flatten).find? name) := by
  have hsplit : ∃ held, List.Forall₂ (Artifact.Holds reader) artifacts held ∧
      List.Forall₂ (List.Forall₂ fun f outline => ClassOutline.ofClassFile f = .ok outline)
        held groups := by
    induction h with
    | nil => exact ⟨[], .nil, .nil⟩
    | cons houtlines _ ih =>
        obtain ⟨classFiles, hholds, hforall⟩ := houtlines
        obtain ⟨rest, hrest, hgroups⟩ := ih
        exact ⟨classFiles :: rest, .cons hholds hrest, .cons hforall hgroups⟩
  obtain ⟨held, hholds, hforall⟩ := hsplit
  exact ⟨held, hholds, finds_ofOutlines (List.rel_flatten hforall)⟩

/-- An artifact defines the names of its outlines. -/
theorem defines_iff (h : Artifact.HasOutlines reader bytes outlines) :
    Artifact.Defines reader bytes name ↔
      (outlines.find? fun outline => outline.name.text == name).isSome = true := by
  obtain ⟨classFiles, hholds, hforall⟩ := h
  have houtlines := mapM_eq_ok_iff.2 hforall
  rw [Artifact.Defines, List.find?_isSome]
  constructor
  · rintro ⟨_, hfiles, f, hf, hname⟩
    rw [hfiles.eq hholds] at hf
    obtain ⟨outline, houtline⟩ := exists_mapM_eq_ok_iff.1 ⟨outlines, houtlines⟩ f hf
    refine ⟨outline, (mem_iff_of_mapM houtlines).2 ⟨f, hf, houtline⟩, ?_⟩
    rw [thisName_of_ofClassFile houtline, Except.ok.injEq] at hname
    rw [hname, beq_self_eq_true]
  · rintro ⟨outline, hmem, hname⟩
    obtain ⟨f, hf, houtline⟩ := (mem_iff_of_mapM houtlines).1 hmem
    exact ⟨classFiles, hholds, f, hf, by rw [thisName_of_ofClassFile houtline, eq_of_beq hname]⟩

/-- Among artifacts, the names that one of them defines are those that are found. -/
theorem exists_defines_iff (h : List.Forall₂ (Artifact.HasOutlines reader) artifacts groups) :
    (∃ bytes ∈ artifacts, Artifact.Defines reader bytes name) ↔
      (groups.flatten.find? fun outline => outline.name.text == name).isSome = true := by
  induction h with
  | nil => simp
  | cons houtlines _ ih =>
      rw [List.exists_mem_cons_iff, defines_iff houtlines, ih, List.flatten_cons, List.find?_append,
        Option.isSome_or, Bool.or_eq_true]

/-- Artifacts behind others are asked for the names that those do not define. -/
theorem exists_ofArtifacts_append (h : ofArtifacts reader artifacts = .ok c)
    (hmore : ofArtifacts reader more = .ok c') :
    ∃ both, ofArtifacts reader (artifacts ++ more) = .ok both ∧ ∀ name,
      ((∃ bytes ∈ artifacts, Artifact.Defines reader bytes name) → both.find? name = c.find? name) ∧
      (¬ (∃ bytes ∈ artifacts, Artifact.Defines reader bytes name) →
        both.find? name = c'.find? name) := by
  obtain ⟨groups, hgroups, rfl⟩ := ofArtifacts_eq_ok_iff.1 h
  obtain ⟨groups', hgroups', rfl⟩ := ofArtifacts_eq_ok_iff.1 hmore
  refine ⟨_, ofArtifacts_eq_ok_iff.2 ⟨groups ++ groups', List.rel_append hgroups hgroups', rfl⟩, ?_⟩
  intro name
  rw [exists_defines_iff hgroups]
  simp only [find?_ofOutlines, List.flatten_append, List.find?_append, Option.or_assoc]
  cases groups.flatten.find? fun outline => outline.name.text == name with
  | none => simp
  | some outline => simp

/-- Artifacts in an order that keeps those that define names in common have outlines among which the
same ones are found. -/
theorem exists_hasOutlines_of_reordered (h : Artifact.Reordered reader artifacts others)
    (hgroups : List.Forall₂ (Artifact.HasOutlines reader) artifacts groups) :
    ∃ groups', List.Forall₂ (Artifact.HasOutlines reader) others groups' ∧ ∀ name : String,
      groups'.flatten.find? (fun outline => outline.name.text == name) =
        groups.flatten.find? fun outline => outline.name.text == name := by
  induction h generalizing groups with
  | nil => exact ⟨groups, hgroups, fun _ => rfl⟩
  | cons a _ ih =>
      cases hgroups with
      | @cons _ outlines _ groups ha hrest =>
          obtain ⟨groups', hgroups', hsame⟩ := ih hrest
          refine ⟨outlines :: groups', .cons ha hgroups', fun name => ?_⟩
          rw [List.flatten_cons, List.flatten_cons, List.find?_append, List.find?_append, hsame]
  | swap rest hdisjoint =>
      cases hgroups with
      | @cons _ as _ groups ha hrest =>
          cases hrest with
          | @cons _ bs _ groups hb hrest =>
              refine ⟨bs :: as :: groups, .cons hb (.cons ha hrest), fun name => ?_⟩
              have hnone := hdisjoint name
              rw [defines_iff ha, defines_iff hb] at hnone
              simp only [List.flatten_cons, List.find?_append]
              -- one of the two has no class of the name
              cases hfoundA : as.find? fun outline => outline.name.text == name with
              | none => simp
              | some a =>
                  cases hfoundB : bs.find? fun outline => outline.name.text == name with
                  | none => simp
                  | some b => simp [hfoundA, hfoundB] at hnone
  | trans _ _ ih ih' =>
      obtain ⟨groups', hgroups', hsame⟩ := ih hgroups
      obtain ⟨groups'', hgroups'', hsame'⟩ := ih' hgroups'
      exact ⟨groups'', hgroups'', fun name => (hsame' name).trans (hsame name)⟩

theorem exists_ofArtifacts_of_reordered (h : Artifact.Reordered reader artifacts others)
    (hc : ofArtifacts reader artifacts = .ok c) :
    ∃ c', ofArtifacts reader others = .ok c' ∧ ∀ name, c'.find? name = c.find? name := by
  obtain ⟨groups, hgroups, rfl⟩ := ofArtifacts_eq_ok_iff.1 hc
  obtain ⟨groups', hgroups', hsame⟩ := exists_hasOutlines_of_reordered h hgroups
  refine ⟨_, ofArtifacts_eq_ok_iff.2 ⟨groups', hgroups', rfl⟩, fun name => ?_⟩
  simp only [find?_ofOutlines, List.find?_append, hsame]

/-- Artifacts make a context exactly if each of them holds class files that all have outlines. Names are
looked up in the class files in order, the first one of a name counts, and the root of the hierarchy is
built in. More artifacts behind the others add what these do not define, and another order that keeps
artifacts with names in common makes no difference. -/
theorem ofArtifacts_isClassPath (reader : ArchiveReader) (artifacts : List (List UInt8)) :
    ((∃ c, ofArtifacts reader artifacts = .ok c) ↔
      ∀ bytes ∈ artifacts, Artifact.IsReadable reader bytes) ∧
    ∀ c, ofArtifacts reader artifacts = .ok c →
      (∃ held, List.Forall₂ (Artifact.Holds reader) artifacts held ∧
        ∀ name, Finds held.flatten name (c.find? name)) ∧
      (∀ more c', ofArtifacts reader more = .ok c' →
        ∃ both, ofArtifacts reader (artifacts ++ more) = .ok both ∧ ∀ name,
          ((∃ bytes ∈ artifacts, Artifact.Defines reader bytes name) →
            both.find? name = c.find? name) ∧
          (¬ (∃ bytes ∈ artifacts, Artifact.Defines reader bytes name) →
            both.find? name = c'.find? name)) ∧
      ∀ others, Artifact.Reordered reader artifacts others →
        ∃ c', ofArtifacts reader others = .ok c' ∧ ∀ name, c'.find? name = c.find? name := by
  refine ⟨exists_ofArtifacts_iff, fun c hc => ⟨?_, fun more c' hmore => ?_, fun others h => ?_⟩⟩
  · obtain ⟨groups, hgroups, rfl⟩ := ofArtifacts_eq_ok_iff.1 hc
    exact finds_of_hasOutlines hgroups
  · exact exists_ofArtifacts_append hc hmore
  · exact exists_ofArtifacts_of_reordered h hc

/-- Of the two class files in the archive and the one behind it the first one is found, and an artifact
with another class can change places with the archive. -/
theorem find?_client :
    let artifacts := [clientArchive, plainClass "lib/Extra" 1]
    Artifact.Reordered Archive.plainReader artifacts artifacts.reverse ∧ ∃ c both swapped,
      ofArtifacts Archive.plainReader artifacts = .ok c ∧
      ofArtifacts Archive.plainReader (artifacts ++ [plainClass "lib/Client" 0]) = .ok both ∧
      ofArtifacts Archive.plainReader artifacts.reverse = .ok swapped ∧
      c.find? "lib/Client" = some (plainOutline ⟨"lib/Client", rfl⟩ .publicAccess) ∧
      both.find? "lib/Client" = c.find? "lib/Client" ∧
      swapped.find? "lib/Client" = c.find? "lib/Client" := by
  have hhidden : Artifact.HasOutlines Archive.plainReader (plainClass "lib/Client" 0)
      [plainOutline ⟨"lib/Client", rfl⟩ .packageAccess] :=
    Artifact.hasOutlines_iff.2 (by decide +kernel)
  have hdisjoint : Artifact.Disjoint Archive.plainReader clientArchive (plainClass "lib/Extra" 1) := by
    rintro name ⟨hclient, hother⟩
    rw [defines_iff hasOutlines_clientArchive, List.find?_isSome] at hclient
    rw [defines_iff hasOutlines_extra, List.find?_isSome] at hother
    obtain ⟨outline, hmem, hname⟩ := hclient
    obtain ⟨other, hmem', hname'⟩ := hother
    rw [List.mem_singleton.1 hmem'] at hname'
    have hsame : ∀ outline ∈ [plainOutline ⟨"lib/Client", rfl⟩ .publicAccess,
        plainOutline ⟨"lib/Client", rfl⟩ .packageAccess], outline.name.text = "lib/Client" := by decide
    rw [hsame outline hmem] at hname
    exact absurd ((eq_of_beq hname).trans (eq_of_beq hname').symm) (by decide)
  have hreversed : Artifact.Reordered Archive.plainReader
      [clientArchive, plainClass "lib/Extra" 1] [plainClass "lib/Extra" 1, clientArchive] :=
    Artifact.reordered_of_perm (List.Perm.swap _ _ []) (List.pairwise_pair.2 hdisjoint)
  have hc := ofArtifacts_eq_ok_iff.2
    ⟨_, .cons hasOutlines_clientArchive (.cons hasOutlines_extra .nil), rfl⟩
  have hmore := ofArtifacts_eq_ok_iff.2 ⟨_, .cons hhidden .nil, rfl⟩
  obtain ⟨-, happend, hreordered⟩ := (ofArtifacts_isClassPath Archive.plainReader _).2 _ hc
  obtain ⟨both, hboth, hfind⟩ := happend _ _ hmore
  obtain ⟨swapped, hswapped, hsame⟩ := hreordered _ hreversed
  have hdefines : Artifact.Defines Archive.plainReader clientArchive "lib/Client" :=
    (defines_iff hasOutlines_clientArchive).2 rfl
  exact ⟨hreversed, _, both, swapped, hc, hboth, hswapped, by rw [find?_ofOutlines]; rfl,
    (hfind "lib/Client").1 ⟨_, List.mem_cons_self, hdefines⟩, hsame "lib/Client"⟩

end Context

end Linkage
