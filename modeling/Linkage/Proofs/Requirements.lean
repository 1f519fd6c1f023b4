import Linkage.Proofs.Linking

/-!
# Outcomes under other requirements

What becomes of an outcome when less visibility is required or more classes belong to the platform.

The two runs of a search look at the same classes, since the walk goes by names alone. What differs is
how the evidence counts: the required visibility decides only between members that agree
(`linkOutcome_visibility_cases`), and the platform decides only without a member of the name
(`linkOutcome_of_imp`). So for each target there is one outcome for all visibilities, or a threshold up
to which it links (`check_visibility_cases`), and `check_of_requirements` compares any two runs.
-/

set_option autoImplicit false

namespace Linkage

/-! ## Thresholds -/

/-- What holds of the least visibility, and of every visibility below one of which it holds, holds up to
a threshold. -/
theorem Visibility.exists_threshold {p : Visibility → Prop} (hleast : p .privateAccess)
    (hbelow : ∀ a b : Visibility, a.rank ≤ b.rank → p b → p a) :
    ∃ best : Visibility, ∀ v, p v ↔ best.satisfies v = true := by
  -- the threshold is the first visibility from above of which it holds
  have habove : ∀ best, p best → (∀ v, p v → v.rank ≤ best.rank) →
      ∃ best : Visibility, ∀ v, p v ↔ best.satisfies v = true := fun best hbest hmost =>
    ⟨best, fun v => ⟨fun hv => satisfies_iff.2 (hmost v hv), fun hv =>
      hbelow v best (satisfies_iff.1 hv) hbest⟩⟩
  by_cases hpublic : p .publicAccess
  · exact habove .publicAccess hpublic fun v _ => v.rank_le_publicAccess
  by_cases hprotected : p .protectedAccess
  · refine habove .protectedAccess hprotected fun v hv => ?_
    cases v with
    | publicAccess => exact absurd hv hpublic
    | _ => decide
  by_cases hpackage : p .packageAccess
  · refine habove .packageAccess hpackage fun v hv => ?_
    cases v with
    | publicAccess => exact absurd hv hpublic
    | protectedAccess => exact absurd hv hprotected
    | _ => decide
  · refine habove .privateAccess hleast fun v hv => ?_
    cases v with
    | publicAccess => exact absurd hv hpublic
    | protectedAccess => exact absurd hv hprotected
    | packageAccess => exact absurd hv hpackage
    | privateAccess => exact Nat.le_refl _

/-- Outcome where nothing but the visibility is in question. -/
def Outcome.ofVisibility (declared required : Visibility) : Outcome :=
  if declared.satisfies required then .resolved else .visibilityViolation

theorem Outcome.ofVisibility_cases (declared required : Visibility) :
    ofVisibility declared required = .resolved ∨
      ofVisibility declared required = .visibilityViolation := by
  rw [ofVisibility]
  split
  · exact Or.inl rfl
  · exact Or.inr rfl

namespace Context

/-! ## Outcomes of looking for a member -/

section Members

variable {c : Context} {follow : Bool} {type : Type}
  {members : ClassOutline → List (DeclaredMember type)} {owner : BinaryName}
  {name : UnqualifiedName} {descriptor : type} {isStatic : Bool}

/-- The required visibility decides nothing unless a member agrees, and then it alone decides. -/
theorem linkOutcome_visibility_cases (inherited : Prop) :
    (∃ outcome, ∀ v,
      c.linkOutcome follow members owner name descriptor isStatic v inherited = outcome) ∨
    ∃ best, ∀ v, c.linkOutcome follow members owner name descriptor isStatic v inherited =
      .ofVisibility best v := by
  by_cases hagreeing : c.Declares follow members owner fun m => m.name = name ∧
      m.descriptor = descriptor ∧ m.isStatic = isStatic
  · right
    -- the most permissive one of the agreeing members is the one that counts
    obtain ⟨best, hbest⟩ := Visibility.exists_threshold
      (p := fun v => c.Declares follow members owner fun m => m.name = name ∧
        m.descriptor = descriptor ∧ m.isStatic = isStatic ∧ m.visibility.satisfies v = true)
      (hagreeing.mono fun m ⟨hname, hdescriptor, hstatic⟩ =>
        ⟨hname, hdescriptor, hstatic, Visibility.satisfies_iff.2 (Nat.zero_le _)⟩)
      (fun a b hle hb => hb.mono fun m ⟨hname, hdescriptor, hstatic, hvisible⟩ =>
        ⟨hname, hdescriptor, hstatic, Visibility.satisfies_mono hvisible hle⟩)
    refine ⟨best, fun v => ?_⟩
    simp only [linkOutcome, hbest v, if_pos hagreeing, Outcome.ofVisibility]
  · left
    have hnone : ∀ v, ¬ c.Declares follow members owner fun m => m.name = name ∧
        m.descriptor = descriptor ∧ m.isStatic = isStatic ∧ m.visibility.satisfies v = true :=
      fun v hdeclares => hagreeing (hdeclares.mono fun m ⟨hname, hdescriptor, hstatic, _⟩ =>
        ⟨hname, hdescriptor, hstatic⟩)
    exact ⟨_, fun v => by rw [linkOutcome, if_neg (hnone v), if_neg hagreeing]⟩

/-- Where the platform can have more, the outcome stays or a missing member is there. -/
theorem linkOutcome_of_imp {required : Visibility} {p q : Prop} (h : p → q) :
    c.linkOutcome follow members owner name descriptor isStatic required q =
        c.linkOutcome follow members owner name descriptor isStatic required p ∨
      c.linkOutcome follow members owner name descriptor isStatic required p = .missingMember ∧
        c.linkOutcome follow members owner name descriptor isStatic required q = .resolved := by
  by_cases hnamesake : c.Declares follow members owner fun m => m.name = name
  · exact Or.inl (linkOutcome_inherited_congr.2 (Or.inl hnamesake))
  by_cases hp : p
  · exact Or.inl (linkOutcome_inherited_congr.2 (Or.inr (iff_of_true (h hp) hp)))
  by_cases hq : q
  · -- this is the only case in which it matters what the platform can have
    have hnone : ∀ {r : DeclaredMember type → Prop},
        ¬ c.Declares follow members owner fun m => m.name = name ∧ r m :=
      fun hdeclares => hnamesake (hdeclares.mono fun m hm => hm.1)
    refine Or.inr ⟨?_, linkOutcome_eq_resolved_iff.2 (Or.inr ⟨hnamesake, hq⟩)⟩
    rw [linkOutcome, if_neg hnone, if_neg hnone, if_neg hnamesake, if_neg hp]
  · exact Or.inl (linkOutcome_inherited_congr.2 (Or.inr (iff_of_false hq hp)))

end Members

/-! ## Outcomes of references -/

variable {c : Context} {platform platform' : Platform} {t : Target} {v w : Visibility}

/-- A reference to a member fails at its owner, whatever is required, or the member is looked for. -/
theorem check_cases (c : Context) (t : Target) :
    (∃ outcome, ∀ platform v, c.check platform ⟨t, v⟩ = outcome) ∨
    (∃ declared, ∀ platform v, c.check platform ⟨t, v⟩ = .ofVisibility declared v) ∨
    ∃ (type : Type) (members : ClassOutline → List (DeclaredMember type)) (follow : Bool)
      (owner : BinaryName) (name : UnqualifiedName) (descriptor : type) (isStatic : Bool),
      ∀ platform v, c.check platform ⟨t, v⟩ =
        c.linkOutcome follow members owner name descriptor isStatic v
          (c.EndsFirstOnPlatform platform follow owner) := by
  cases hfound : c.find? t.owner.text with
  | none =>
      refine Or.inl ⟨.missingClass, fun platform v => ?_⟩
      simp [check, Reference.owner, hfound]
  | some outline =>
      cases t with
      | classOf name =>
          refine Or.inr (Or.inl ⟨outline.visibility, fun platform v => ?_⟩)
          simp [check, Reference.owner, hfound, Outcome.ofVisibility]
      | methodOf owner name descriptor isStatic isInterface =>
          by_cases hkind : outline.isInterface = isInterface
          · subst hkind
            exact Or.inr (Or.inr ⟨_, _, _, _, _, _, _, fun platform v =>
              check_methodOf hfound descriptor⟩)
          · refine Or.inl ⟨.signatureMismatch, fun platform v => ?_⟩
            simp [check, Reference.owner, hfound, hkind]
      | fieldOf owner name fieldType isStatic =>
          exact Or.inr (Or.inr ⟨_, _, _, _, _, _, _, fun platform v =>
            check_fieldOf hfound fieldType⟩)

/-- A target has one outcome for all visibilities, or it links up to a threshold. -/
theorem check_visibility_cases (c : Context) (platform : Platform) (t : Target) :
    (∃ outcome, ∀ v, c.check platform ⟨t, v⟩ = outcome) ∨
      ∃ best, ∀ v, c.check platform ⟨t, v⟩ = .ofVisibility best v := by
  rcases c.check_cases t with ⟨outcome, houtcome⟩ | ⟨declared, hdeclared⟩ |
    ⟨_, _, _, _, _, _, _, hsearch⟩
  · exact Or.inl ⟨outcome, houtcome platform⟩
  · exact Or.inr ⟨declared, hdeclared platform⟩
  · simp only [hsearch]
    exact linkOutcome_visibility_cases _

theorem EndsFirstOnPlatform.mono {follow : Bool} {owner : BinaryName}
    (h : c.EndsFirstOnPlatform platform follow owner) (hstarts : platform.starts ⊆ platform'.starts) :
    c.EndsFirstOnPlatform platform' follow owner := by
  obtain ⟨name, hends, hprovides⟩ := h
  obtain ⟨start, hstart, hbegins⟩ := List.any_eq_true.1 hprovides
  exact ⟨name, hends, List.any_eq_true.2 ⟨start, hstarts hstart, hbegins⟩⟩

/-- A platform with more classes leaves an outcome as it is, or a member that was missing links. -/
theorem check_of_starts_subset (hstarts : platform.starts ⊆ platform'.starts) :
    c.check platform' ⟨t, v⟩ = c.check platform ⟨t, v⟩ ∨
      c.check platform ⟨t, v⟩ = .missingMember ∧ c.check platform' ⟨t, v⟩ = .resolved := by
  rcases c.check_cases t with ⟨outcome, houtcome⟩ | ⟨declared, hdeclared⟩ |
    ⟨_, _, _, _, _, _, _, hsearch⟩
  · exact Or.inl (by rw [houtcome, houtcome])
  · exact Or.inl (by rw [hdeclared, hdeclared])
  · rw [hsearch, hsearch]
    exact linkOutcome_of_imp fun hends => hends.mono hstarts

/-- Other visibilities can only switch between a link and a violation, a lower one keeps every link, and
a platform with more classes can only make a missing member link. -/
theorem check_of_requirements (c : Context) (t : Target) :
    (∀ (platform : Platform) (v w : Visibility),
      c.check platform ⟨t, w⟩ = c.check platform ⟨t, v⟩ ∨
      c.check platform ⟨t, v⟩ = .resolved ∧ c.check platform ⟨t, w⟩ = .visibilityViolation ∨
      c.check platform ⟨t, v⟩ = .visibilityViolation ∧ c.check platform ⟨t, w⟩ = .resolved) ∧
    (∀ (platform : Platform) (v w : Visibility), w.rank ≤ v.rank →
      c.check platform ⟨t, v⟩ = .resolved → c.check platform ⟨t, w⟩ = .resolved) ∧
    ∀ (platform platform' : Platform) (v : Visibility), platform.starts ⊆ platform'.starts →
      c.check platform' ⟨t, v⟩ = c.check platform ⟨t, v⟩ ∨
      c.check platform ⟨t, v⟩ = .missingMember ∧ c.check platform' ⟨t, v⟩ = .resolved := by
  refine ⟨fun platform v w => ?_, fun platform v w hle h => check_eq_resolved_mono h hle,
    fun platform platform' v hstarts => check_of_starts_subset hstarts⟩
  rcases c.check_visibility_cases platform t with ⟨outcome, houtcome⟩ | ⟨best, hbest⟩
  · exact Or.inl (by rw [houtcome, houtcome])
  · rw [hbest, hbest]
    rcases Outcome.ofVisibility_cases best v with hv | hv <;>
      rcases Outcome.ofVisibility_cases best w with hw | hw <;> simp [hv, hw]

/-- Call of a method at a class below a class of the platform. -/
def sizeCallAt (required : Visibility) : Reference :=
  ⟨.methodOf middleClass.name sizeName ⟨[], some (.base .int)⟩ false false, required⟩

theorem hierarchy_middleClass :
    shortcutContext.hierarchy true middleClass.name = ⟨[middleClass], [⟨listName, true⟩]⟩ :=
  walk_eq_of_walkWithin 3 (by decide +kernel)

/-- The method is missing without a platform, and it links with the usual one, also if less visibility
is required. -/
theorem check_sizeCallAt :
    Visibility.packageAccess.rank ≤ Visibility.publicAccess.rank ∧
    Platform.empty.starts ⊆ Platform.standard.starts ∧
    shortcutContext.check .empty (sizeCallAt .publicAccess) = .missingMember ∧
    shortcutContext.check .standard (sizeCallAt .publicAccess) = .resolved ∧
    shortcutContext.check .standard (sizeCallAt .packageAccess) = .resolved := by
  have hle : Visibility.packageAccess.rank ≤ Visibility.publicAccess.rank := by decide
  have hstarts : Platform.empty.starts ⊆ Platform.standard.starts := List.nil_subset _
  have hsearch : ∀ platform, shortcutContext.check platform (sizeCallAt .publicAccess) =
      .ofNamesakes ((⟨[middleClass], [⟨listName, true⟩]⟩ : Hierarchy).namesakes ClassOutline.methods
        sizeName) ⟨[], some (.base .int)⟩ false .publicAccess
        ((⟨[middleClass], [⟨listName, true⟩]⟩ : Hierarchy).leadsTo platform) := by
    intro platform
    rw [← hierarchy_middleClass]
    rfl
  have hmissing : shortcutContext.check .empty (sizeCallAt .publicAccess) = .missingMember := by
    rw [hsearch]
    decide +kernel
  have hthere : shortcutContext.check .standard (sizeCallAt .publicAccess) ≠ .missingMember := by
    rw [hsearch]
    decide +kernel
  obtain ⟨-, hlower, hwider⟩ := check_of_requirements shortcutContext (sizeCallAt .publicAccess).target
  -- the outcome differs from the one without a platform, so it is a link
  have hlinks : shortcutContext.check .standard (sizeCallAt .publicAccess) = .resolved := by
    rcases hwider .empty .standard .publicAccess hstarts with hsame | ⟨-, hresolved⟩
    · exact absurd (hsame.trans hmissing) hthere
    · exact hresolved
  exact ⟨hle, hstarts, hmissing, hlinks,
    hlower .standard .publicAccess .packageAccess hle hlinks⟩

end Context

end Linkage
