import Linkage.Proofs.Casing
import Linkage.Proofs.Pieces
import Linkage.Version.Draft
import Mathlib.Data.List.Forall2
import Mathlib.Data.List.TakeWhile

/-!
# The filter of drafts

A filter of versions is made of markers, the least length of a commit hash and versions to skip. What it
lets pass is said here without its search (`VersionFilter.Passes`): by the characters of the version, and
by what stands in its lowercase form and at its end. So markers and skipped versions act as sets, more of
them let no more versions pass, longer hashes are harder to come by, and case in ASCII makes no difference
(`VersionFilter.accepts_ofRules_spec`).

- `endsInHash_iff`: the search from the end finds a hash wherever the text ends in one;
- `DraftMarkers.isDraft_eq_false_iff`: what makes a version a draft;
- `VersionFilter.Passes.mono` and `VersionFilter.Passes.raise`: other rules.
-/

set_option autoImplicit false

namespace Linkage

/-! ## Commit hashes -/

/-- The text ends in a separator and at least so many hexadecimal digits, up to the end. -/
def EndsInHash (length : Nat) (text : List Char) : Prop :=
  ∃ front separator hash, text = front ++ separator :: hash ∧ separator ∈ ['-', '+', '_'] ∧
    length ≤ hash.length ∧ ∀ c ∈ hash, c ∈ "0123456789abcdef".toList

theorem isHashSeparator_iff {c : Char} : isHashSeparator c = true ↔ c ∈ ['-', '+', '_'] := by
  simp [isHashSeparator, or_assoc]

theorem isHexDigit_iff {c : Char} : isHexDigit c = true ↔ c ∈ "0123456789abcdef".toList := by
  constructor
  · intro h
    have hascii : c.toNat < 128 := by
      rcases Bool.or_eq_true_iff.1 h with hdigit | hletter
      · exact Nat.lt_of_le_of_lt (Char.isDigit_iff_toNat.1 hdigit).2 (by decide)
      · have hlast : c ≤ 'f' := of_decide_eq_true (Bool.and_eq_true_iff.1 hletter).2
        exact Nat.lt_of_le_of_lt (UInt32.le_iff_toNat_le.1 (Char.le_def.1 hlast)) (by decide)
    exact Text.of_ascii (p := fun c => isHexDigit c = true → c ∈ "0123456789abcdef".toList)
      (by decide +kernel) hascii h
  · have hall : ∀ c ∈ "0123456789abcdef".toList, isHexDigit c = true := by
      simp [isHexDigit]
    exact hall c

theorem isHexDigit_of_isHashSeparator {c : Char} (h : isHashSeparator c = true) :
    isHexDigit c = false := by
  have hall : ∀ c ∈ ['-', '+', '_'], isHexDigit c = false := by simp [isHexDigit]
  exact hall c (isHashSeparator_iff.1 h)

theorem endsInHash_append {front hash : List Char} {separator : Char} (length : Nat)
    (hseparator : isHashSeparator separator = true) (hhash : ∀ c ∈ hash, isHexDigit c = true) :
    endsInHash length (front ++ separator :: hash) = decide (length ≤ hash.length) := by
  have hreverse :
      (front ++ separator :: hash).reverse = hash.reverse ++ separator :: front.reverse := by
    simp
  have hstop := isHexDigit_of_isHashSeparator hseparator
  have hall : ∀ c ∈ hash.reverse, isHexDigit c = true := fun c hc => hhash c (List.mem_reverse.1 hc)
  rw [endsInHash, hreverse, List.dropWhile_append_of_pos hall, List.takeWhile_append_of_pos hall,
    List.dropWhile_cons_of_neg (Bool.eq_false_iff.1 hstop),
    List.takeWhile_cons_of_neg (Bool.eq_false_iff.1 hstop)]
  simp [hseparator]

theorem endsInHash_iff (length : Nat) (text : List Char) :
    endsInHash length text = true ↔ EndsInHash length text := by
  constructor
  · intro h
    have hsplit := List.takeWhile_append_dropWhile (p := isHexDigit) (l := text.reverse)
    rw [endsInHash] at h
    split at h
    · cases h
    · rename_i separator front hdrop
      rw [Bool.and_eq_true, decide_eq_true_eq] at h
      rw [hdrop] at hsplit
      have htext := congrArg List.reverse hsplit
      refine ⟨front.reverse, separator, (text.reverse.takeWhile isHexDigit).reverse, ?_,
        isHashSeparator_iff.1 h.1, ?_, ?_⟩
      · simpa using htext.symm
      · rw [List.length_reverse]
        exact h.2
      · exact fun c hc => isHexDigit_iff.1 (List.mem_takeWhile_imp (List.mem_reverse.1 hc))
  · rintro ⟨front, separator, hash, rfl, hseparator, hlength, hhash⟩
    have hdigits : ∀ c ∈ hash, isHexDigit c = true := fun c hc => isHexDigit_iff.2 (hhash c hc)
    rw [endsInHash_append length (isHashSeparator_iff.2 hseparator) hdigits]
    exact decide_eq_true hlength

theorem EndsInHash.mono {length length' : Nat} {text : List Char} (hlength : length ≤ length')
    (h : EndsInHash length' text) : EndsInHash length text := by
  obtain ⟨front, separator, hash, htext, hseparator, hlong, hhash⟩ := h
  exact ⟨front, separator, hash, htext, hseparator, hlength.trans hlong, hhash⟩

/-! ## Signs of drafts -/

namespace DraftMarkers

/-- Markers are kept in lowercase, in the order in which they are added. -/
theorem foldl_addMarker (d : DraftMarkers) (markers : List String) :
    markers.foldl addMarker d = { d with markers := d.markers ++ markers.map Text.lowercase } := by
  induction markers generalizing d with
  | nil => rw [List.foldl_nil, List.map_nil, List.append_nil]
  | cons m markers ih =>
      rw [List.foldl_cons, ih, addMarker, List.append_assoc, List.singleton_append, List.map_cons]

/-- A version is no draft exactly if no marker stands in it and it does not end in a hash. -/
theorem isDraft_eq_false_iff (d : DraftMarkers) (version : String) :
    d.isDraft version = false ↔
      (∀ m ∈ d.markers, ¬ m.toList <:+: (Text.lowercase version).toList) ∧
        ¬ (1 ≤ d.commitHashLength ∧ EndsInHash d.commitHashLength (Text.lowercase version).toList) := by
  have hmarker : ∀ m : String, Text.isInside m.toList (Text.lowercaseChars version.toList) = true ↔
      m.toList <:+: (Text.lowercase version).toList := by
    intro m
    rw [Text.isInside_iff_infix, Text.lowercase, String.toList_ofList]
  rw [isDraft, sign?]
  cases hfind : d.markers.find? fun m => Text.isInside m.toList (Text.lowercaseChars version.toList) with
  | some m =>
      have hinside := List.find?_some hfind
      refine iff_of_false nofun fun hnone => ?_
      exact hnone.1 m (List.mem_of_find?_eq_some hfind) ((hmarker m).1 hinside)
  | none =>
      have hnone : ∀ m ∈ d.markers, ¬ m.toList <:+: (Text.lowercase version).toList :=
        fun m hm => (hmarker m).not.1 (List.find?_eq_none.1 hfind m hm)
      have hhash : (d.commitHashLength ≠ 0 && endsInHash d.commitHashLength
          (Text.lowercaseChars version.toList)) = true ↔
            1 ≤ d.commitHashLength ∧ EndsInHash d.commitHashLength (Text.lowercase version).toList := by
        rw [Bool.and_eq_true, decide_eq_true_eq, endsInHash_iff, Text.lowercase, String.toList_ofList,
          Nat.one_le_iff_ne_zero]
      rw [and_iff_right hnone, ← hhash]
      dsimp only
      split
      · rename_i hends
        exact iff_of_false (by decide) (not_not_intro hends)
      · rename_i hends
        exact iff_of_true rfl hends

end DraftMarkers

/-! ## The filter -/

namespace VersionFilter

/-- Filter with the given markers, least length of a commit hash and skipped versions. -/
def ofRules (markers : List String) (hashLength : Nat) (skip : List String) : VersionFilter :=
  ofMarkers ((markers.foldl DraftMarkers.addMarker .empty).withCommitHashLength hashLength) skip

/-- What a version is like that passes a filter with the given rules. -/
structure Passes (markers : List String) (hashLength : Nat) (skip : List String) (version : String) :
    Prop where
  ne_empty : version ≠ ""
  clean : ∀ c ∈ version.toList, Text.isBlank c = false ∧ Text.isControl c = false
  digit : ∃ c ∈ version.toList, c.isDigit = true
  not_skipped : ∀ s ∈ skip, Text.lowercase s ≠ Text.lowercase version
  no_marker : ∀ m ∈ markers, ¬ (Text.lowercase m).toList <:+: (Text.lowercase version).toList
  no_hash : ¬ (1 ≤ hashLength ∧ EndsInHash hashLength (Text.lowercase version).toList)

theorem ofRules_eq (markers : List String) (hashLength : Nat) (skip : List String) :
    ofRules markers hashLength skip =
      ⟨⟨markers.map Text.lowercase, hashLength⟩, skip.map Text.lowercase⟩ := by
  rw [ofRules, ofMarkers, DraftMarkers.foldl_addMarker]
  rfl

theorem looksLikeVersion_iff (version : String) :
    looksLikeVersion version = true ↔
      (∀ c ∈ version.toList, Text.isBlank c = false ∧ Text.isControl c = false) ∧
        ∃ c ∈ version.toList, c.isDigit = true := by
  simp [looksLikeVersion]

theorem accepts_ofRules_iff (markers : List String) (hashLength : Nat) (skip : List String)
    (version : String) :
    (ofRules markers hashLength skip).accepts version = true ↔
      Passes markers hashLength skip version := by
  have hskip : (!(skip.map Text.lowercase).contains (Text.lowercase version)) = true ↔
      ∀ s ∈ skip, Text.lowercase s ≠ Text.lowercase version := by
    simp
  have hdraft : (!DraftMarkers.isDraft ⟨markers.map Text.lowercase, hashLength⟩ version) = true ↔
      (∀ m ∈ markers, ¬ (Text.lowercase m).toList <:+: (Text.lowercase version).toList) ∧
        ¬ (1 ≤ hashLength ∧ EndsInHash hashLength (Text.lowercase version).toList) := by
    rw [Bool.not_eq_true', DraftMarkers.isDraft_eq_false_iff, List.forall_mem_map]
  rw [ofRules_eq, accepts, Bool.and_eq_true, Bool.and_eq_true, looksLikeVersion_iff]
  constructor
  · rintro ⟨⟨⟨hclean, hdigit⟩, hskipped⟩, hnone⟩
    obtain ⟨c, hc, -⟩ := id hdigit
    have hne : version ≠ "" := by
      rintro rfl
      cases hc
    exact ⟨hne, hclean, hdigit, hskip.1 hskipped, (hdraft.1 hnone).1, (hdraft.1 hnone).2⟩
  · intro h
    exact ⟨⟨⟨h.clean, h.digit⟩, hskip.2 h.not_skipped⟩, hdraft.2 ⟨h.no_marker, h.no_hash⟩⟩

/-! ## Other rules -/

section Rules

variable {markers markers' skip skip' : List String} {length length' : Nat} {version version' : String}

/-- What passes passes with fewer markers and skipped versions. -/
theorem Passes.mono (hmarkers : markers ⊆ markers') (hskip : skip ⊆ skip')
    (h : Passes markers' length skip' version) : Passes markers length skip version :=
  ⟨h.ne_empty, h.clean, h.digit, fun s hs => h.not_skipped s (hskip hs),
    fun m hm => h.no_marker m (hmarkers hm), h.no_hash⟩

/-- What passes passes if more digits are needed for a hash. -/
theorem Passes.raise (hpositive : 1 ≤ length) (hlength : length ≤ length')
    (h : Passes markers length skip version) : Passes markers length' skip version :=
  ⟨h.ne_empty, h.clean, h.digit, h.not_skipped, h.no_marker,
    fun hhash => h.no_hash ⟨hpositive, hhash.2.mono hlength⟩⟩

/-- Case in ASCII makes no difference to whether a text looks like a version. -/
theorem looksLikeVersion_congr (h : Text.SameButCase version version') :
    looksLikeVersion version = looksLikeVersion version' := by
  have hblank : ∀ cs : List Char,
      ((cs.map Char.toLower).any fun c => Text.isBlank c || Text.isControl c) =
        cs.any fun c => Text.isBlank c || Text.isControl c := Text.any_map_toLower (by decide +kernel)
  have hdigit : ∀ cs : List Char, (cs.map Char.toLower).any Char.isDigit = cs.any Char.isDigit :=
    Text.any_map_toLower (by decide +kernel)
  rw [looksLikeVersion, looksLikeVersion, ← hblank, ← hdigit, h, hblank, hdigit]

/-- Rules that differ in the case of ASCII letters make one filter. -/
theorem ofRules_congr (hmarkers : List.Forall₂ Text.SameButCase markers markers')
    (hskip : List.Forall₂ Text.SameButCase skip skip') :
    ofRules markers length skip = ofRules markers' length skip' := by
  have hmap : ∀ {ss ts : List String}, List.Forall₂ Text.SameButCase ss ts →
      ss.map Text.lowercase = ts.map Text.lowercase := by
    intro ss ts h
    induction h with
    | nil => rfl
    | cons hst _ ih => rw [List.map_cons, List.map_cons, Text.lowercase_congr hst, ih]
  rw [ofRules_eq, ofRules_eq, hmap hmarkers, hmap hskip]

theorem accepts_congr (f : VersionFilter) (h : Text.SameButCase version version') :
    f.accepts version = f.accepts version' := by
  rw [accepts, accepts, looksLikeVersion_congr h, Text.lowercase_congr h, DraftMarkers.isDraft,
    DraftMarkers.isDraft, DraftMarkers.sign?, DraftMarkers.sign?, Text.lowercaseChars_congr h]

end Rules

/-- A filter lets exactly the versions pass that its rules are meant for. Order and repetitions make no
difference to the markers and the skipped versions; with more of them no more versions pass; with a
greater least length of a hash no fewer do, if there was one before; and the case of ASCII letters makes
no difference anywhere. -/
theorem accepts_ofRules_spec (markers : List String) (hashLength : Nat) (skip : List String)
    (version : String) :
    ((ofRules markers hashLength skip).accepts version = true ↔
        Passes markers hashLength skip version) ∧
      (∀ markers' skip', (∀ m, m ∈ markers' ↔ m ∈ markers) → (∀ s, s ∈ skip' ↔ s ∈ skip) →
        (ofRules markers' hashLength skip').accepts version =
          (ofRules markers hashLength skip).accepts version) ∧
      (∀ markers' skip', markers ⊆ markers' → skip ⊆ skip' →
        (ofRules markers' hashLength skip').accepts version = true →
          (ofRules markers hashLength skip).accepts version = true) ∧
      (∀ hashLength', 1 ≤ hashLength → hashLength ≤ hashLength' →
        (ofRules markers hashLength skip).accepts version = true →
          (ofRules markers hashLength' skip).accepts version = true) ∧
      ∀ markers' skip' version', List.Forall₂ Text.SameButCase markers markers' →
        List.Forall₂ Text.SameButCase skip skip' → Text.SameButCase version version' →
          (ofRules markers' hashLength skip').accepts version' =
            (ofRules markers hashLength skip).accepts version := by
  refine ⟨accepts_ofRules_iff markers hashLength skip version, ?_, ?_, ?_, ?_⟩
  · intro markers' skip' hmarkers hskip
    rw [Bool.eq_iff_iff, accepts_ofRules_iff, accepts_ofRules_iff]
    exact ⟨Passes.mono (fun m => (hmarkers m).2) fun s => (hskip s).2,
      Passes.mono (fun m => (hmarkers m).1) fun s => (hskip s).1⟩
  · intro markers' skip' hmarkers hskip
    rw [accepts_ofRules_iff, accepts_ofRules_iff]
    exact Passes.mono hmarkers hskip
  · intro hashLength' hpositive hlength
    rw [accepts_ofRules_iff, accepts_ofRules_iff]
    exact Passes.raise hpositive hlength
  · intro markers' skip' version' hmarkers hskip hversion
    rw [ofRules_congr hmarkers hskip, accepts_congr _ hversion]

/-- A version whose ending is too short for a hash of six digits, under rules that say the same, less, or
the same in another case. -/
theorem accepts_ofRules_shortHash :
    (ofRules ["-Nightly", "rc"] 6 ["1.3.0"]).accepts "2.0-ABC12" = true ∧
      (ofRules ["rc", "-Nightly", "rc"] 6 ["1.3.0", "1.3.0"]).accepts "2.0-ABC12" = true ∧
        (ofRules ["rc"] 6 []).accepts "2.0-ABC12" = true ∧
          (ofRules ["-Nightly", "rc"] 8 ["1.3.0"]).accepts "2.0-ABC12" = true ∧
            (ofRules ["-NIGHTLY", "Rc"] 6 ["1.3.0"]).accepts "2.0-abC12" = true := by
  obtain ⟨-, horder, -, hraise, hcase⟩ :=
    accepts_ofRules_spec ["-Nightly", "rc"] 6 ["1.3.0"] "2.0-ABC12"
  obtain ⟨-, -, hfewer, -, -⟩ := accepts_ofRules_spec ["rc"] 6 [] "2.0-ABC12"
  have haccepts : (ofRules ["-Nightly", "rc"] 6 ["1.3.0"]).accepts "2.0-ABC12" = true := by
    decide +kernel
  have hmarkers : List.Forall₂ Text.SameButCase ["-Nightly", "rc"] ["-NIGHTLY", "Rc"] := by decide
  have hskip : List.Forall₂ Text.SameButCase ["1.3.0"] ["1.3.0"] := by decide
  refine ⟨haccepts, ?_, hfewer _ _ (by simp) (by simp) haccepts,
    hraise 8 (by decide) (by decide) haccepts, ?_⟩
  · exact (horder _ _ (by simp [or_comm]) (by simp)).trans haccepts
  · exact (hcase _ _ _ hmarkers hskip (by decide)).trans haccepts

/-- The standard markers are in lowercase, so they are those of a filter with the same rules. -/
example (skip : List String) : ofMarkers .standard skip = ofRules DraftMarkers.standard.markers 6 skip := by
  have hlower : DraftMarkers.standard.markers.map Text.lowercase = DraftMarkers.standard.markers := by
    decide +kernel
  rw [ofRules_eq, hlower]
  rfl

end VersionFilter

end Linkage
