import Linkage.Proofs.Linking
import Mathlib.Tactic.Tauto

/-!
# Recording demands in manifests

A manifest is made by inserting one entry after the other (`record`), and manifests are merged the
same way. An entry of a key that is there already joins the entry there, so what a manifest asks for
can be less or more than what was put into it: the join keeps the target that came first and only
marks it as one of an interface.

This module proves:

- `links_insert_iff`: one entry more asks for itself and for what was there, if the entry of its key
  has the same target;
- `links_foldl_insert_iff`: so it is for any number of entries;
- `keepsRecorded_and_keepsMerged_iff`: recording and merging lose nothing and add nothing in any
  context exactly if all demands of a key have one target;
- `record_static_and_instance`: two demands of a key of which the second one is lost.
-/

set_option autoImplicit false

namespace Linkage

namespace Manifest

/-! ## One more entry -/

/-- Every row is under the key of its reference. -/
def Keyed (m : Manifest) : Prop := ∀ row ∈ m.rows, row.1 = row.2.reference.key

theorem keyed_empty : Keyed empty := by
  rintro row hrow
  simp [empty] at hrow

/-- A new row gets into its place, or the row of the key is joined. -/
theorem place_cases (key : String) (e : Entry) (rows : List (String × Entry)) :
    (∃ front back, rows = front ++ back ∧ place key e rows = front ++ (key, e) :: back) ∨
      ∃ front old back, rows = front ++ (key, old) :: back ∧
        place key e rows = front ++ (key, old.join e) :: back := by
  induction rows with
  | nil => exact Or.inl ⟨[], [], rfl, rfl⟩
  | cons row rows ih =>
      rw [place]
      split
      · -- the place is in front of a greater key
        exact Or.inl ⟨[], row :: rows, rfl, rfl⟩
      · -- the key is there
        rename_i hkey
        obtain rfl : key = row.1 := Std.compare_eq_iff_eq.1 hkey
        exact Or.inr ⟨[], row.2, rows, rfl, rfl⟩
      · -- the place is further behind
        rcases ih with ⟨front, back, hrows, hplace⟩ | ⟨front, old, back, hrows, hplace⟩
        · exact Or.inl ⟨row :: front, back, by rw [hrows, List.cons_append],
            by rw [hplace, List.cons_append]⟩
        · exact Or.inr ⟨row :: front, old, back, by rw [hrows, List.cons_append],
            by rw [hplace, List.cons_append]⟩

theorem Keyed.insert {m : Manifest} (hm : m.Keyed) (e : Entry) : (m.insert e).Keyed := by
  rw [Keyed, Manifest.insert]
  rw [Keyed] at hm
  rcases place_cases e.reference.key e m.rows with ⟨front, back, hrows, hplace⟩ |
    ⟨front, old, back, hrows, hplace⟩
  · rw [hrows, List.forall_mem_append] at hm
    rw [hplace, List.forall_mem_append, List.forall_mem_cons]
    exact ⟨hm.1, rfl, hm.2⟩
  · rw [hrows, List.forall_mem_append, List.forall_mem_cons] at hm
    obtain ⟨hfront, hold, hback⟩ := hm
    rw [hplace, List.forall_mem_append, List.forall_mem_cons]
    exact ⟨hfront, hold.trans (Reference.key_join old.reference e.reference).symm, hback⟩

/-- What one more entry does to the entries: it is put among them, or it joins the one of its
key. -/
theorem Keyed.insert_cases {m : Manifest} (hm : m.Keyed) (e : Entry) :
    (∃ front back, m.entries = front ++ back ∧ (m.insert e).entries = front ++ e :: back) ∨
      ∃ front old back, old.reference.key = e.reference.key ∧
        m.entries = front ++ old :: back ∧ (m.insert e).entries = front ++ old.join e :: back := by
  rcases place_cases e.reference.key e m.rows with ⟨front, back, hrows, hplace⟩ |
    ⟨front, old, back, hrows, hplace⟩
  · refine Or.inl ⟨front.map Prod.snd, back.map Prod.snd, ?_, ?_⟩
    · rw [entries, hrows, List.map_append]
    · rw [entries, Manifest.insert, hplace, List.map_append, List.map_cons]
  · have hold : e.reference.key = old.reference.key :=
      hm (e.reference.key, old) (by rw [hrows]; simp)
    refine Or.inr ⟨front.map Prod.snd, old, back.map Prod.snd, hold.symm, ?_, ?_⟩
    · rw [entries, hrows, List.map_append, List.map_cons]
    · rw [entries, Manifest.insert, hplace, List.map_append, List.map_cons]

/-! ## What manifests ask for -/

/-- The manifest asks for nothing but these targets. -/
def Within (m : Manifest) (asked : Target → Prop) : Prop := ∀ e ∈ m.entries, asked e.reference.target

/-- Joining two of the targets that have one key leads to one of them again. -/
def JoinClosed (asked : Target → Prop) : Prop :=
  ∀ s t, asked s → asked t → s.key = t.key → asked (s.join t)

/-- Targets of which no two have the same key. -/
def OneTargetPerKey (asked : Target → Prop) : Prop :=
  ∀ s t, asked s → asked t → s.key = t.key → s = t

theorem OneTargetPerKey.joinClosed {asked : Target → Prop} (h : OneTargetPerKey asked) :
    JoinClosed asked := by
  intro s t hs ht hkey
  rw [← h s t hs ht hkey, Target.join_self]
  exact hs

theorem within_empty (asked : Target → Prop) : Within empty asked := by
  rintro e he
  simp [entries, empty] at he

theorem Within.insert {m : Manifest} {asked : Target → Prop} (hasked : JoinClosed asked)
    (hm : m.Keyed) (hwithin : m.Within asked) {e : Entry} (he : asked e.reference.target) :
    (m.insert e).Within asked := by
  rw [Within] at hwithin ⊢
  rcases hm.insert_cases e with ⟨front, back, hentries, hinsert⟩ |
    ⟨front, old, back, hkey, hentries, hinsert⟩
  · rw [hentries, List.forall_mem_append] at hwithin
    rw [hinsert, List.forall_mem_append, List.forall_mem_cons]
    exact ⟨hwithin.1, he, hwithin.2⟩
  · rw [hentries, List.forall_mem_append, List.forall_mem_cons] at hwithin
    obtain ⟨hfront, hold, hback⟩ := hwithin
    rw [hinsert, List.forall_mem_append, List.forall_mem_cons]
    exact ⟨hfront, hasked _ _ hold he hkey, hback⟩

theorem within_foldl_insert {m : Manifest} {asked : Target → Prop} (hasked : JoinClosed asked)
    (hm : m.Keyed) (hwithin : m.Within asked) {es : List Entry}
    (hes : ∀ e ∈ es, asked e.reference.target) : (es.foldl Manifest.insert m).Within asked := by
  induction es generalizing m with
  | nil => exact hwithin
  | cons e es ih =>
      obtain ⟨he, hes⟩ := List.forall_mem_cons.1 hes
      exact ih (hm.insert e) (hwithin.insert hasked hm he) hes

/-! ## Recording and merging -/

/-- Manifest of demands, each with the class that makes it. -/
def record (uses : List (Reference × BinaryName)) : Manifest :=
  uses.foldl (fun m use => m.add use.1 use.2) .empty

/-- All the manifests merged in order. -/
def mergeAll (ms : List Manifest) : Manifest := ms.foldl merge .empty

/-- Recording inserts an entry for each demand. -/
theorem record_eq_foldl_insert (uses : List (Reference × BinaryName)) :
    record uses = (uses.map fun use => (⟨use.1, [use.2]⟩ : Entry)).foldl Manifest.insert .empty := by
  rw [record, List.foldl_map]
  rfl

/-- Merging inserts the entries of all the manifests. -/
theorem mergeAll_eq_foldl_insert (ms : List Manifest) :
    mergeAll ms = (ms.flatMap entries).foldl Manifest.insert .empty := by
  rw [mergeAll, List.foldl_flatMap]
  rfl

/-- A manifest asks for the targets that were recorded and for joins of them. -/
theorem within_record {asked : Target → Prop} (hasked : JoinClosed asked)
    {uses : List (Reference × BinaryName)} (huses : ∀ use ∈ uses, asked use.1.target) :
    (record uses).Within asked := by
  rw [record_eq_foldl_insert]
  refine within_foldl_insert hasked keyed_empty (within_empty asked) ?_
  rw [List.forall_mem_map]
  exact huses

end Manifest

/-! ## Whether manifests link -/

namespace Context

variable {c : Context} {platform : Platform}

theorem links_empty : c.Links platform .empty := by
  rintro e he
  simp [Manifest.entries, Manifest.empty] at he

/-- One entry more asks for itself and for what was there, if the entry of its key has the same
target. -/
theorem links_insert_iff {m : Manifest} (hm : m.Keyed) {e : Manifest.Entry}
    (hsame : ∀ old ∈ m.entries, old.reference.key = e.reference.key →
      old.reference.target = e.reference.target) :
    c.Links platform (m.insert e) ↔
      c.Links platform m ∧ c.check platform e.reference = .resolved := by
  rw [Links, Links]
  rcases hm.insert_cases e with ⟨front, back, hentries, hinsert⟩ |
    ⟨front, old, back, hkey, hentries, hinsert⟩
  · rw [hinsert, hentries, List.forall_mem_append, List.forall_mem_append, List.forall_mem_cons]
    tauto
  · have htarget : old.reference.target = e.reference.target :=
      hsame old (by rw [hentries]; simp) hkey
    rw [hinsert, hentries, List.forall_mem_append, List.forall_mem_append, List.forall_mem_cons,
      List.forall_mem_cons, Manifest.Entry.join, check_join_eq_resolved_iff htarget]
    tauto

/-- Entries whose targets are told apart by their keys ask for themselves and for what was there. -/
theorem links_foldl_insert_iff {asked : Target → Prop} (hasked : Manifest.OneTargetPerKey asked)
    {m : Manifest} (hm : m.Keyed) (hwithin : m.Within asked) {es : List Manifest.Entry}
    (hes : ∀ e ∈ es, asked e.reference.target) :
    c.Links platform (es.foldl Manifest.insert m) ↔
      c.Links platform m ∧ ∀ e ∈ es, c.check platform e.reference = .resolved := by
  induction es generalizing m with
  | nil => simp
  | cons e es ih =>
      obtain ⟨he, hes⟩ := List.forall_mem_cons.1 hes
      -- what the manifest holds by now is among the targets, so the key tells it apart
      have hsame : ∀ old ∈ m.entries, old.reference.key = e.reference.key →
          old.reference.target = e.reference.target := fun old hold hkey =>
        hasked _ _ (hwithin old hold) he hkey
      rw [List.foldl_cons, ih (hm.insert e) (hwithin.insert hasked.joinClosed hm he) hes,
        links_insert_iff hm hsame, List.forall_mem_cons, and_assoc]

theorem links_record_iff {asked : Target → Prop} (hasked : Manifest.OneTargetPerKey asked)
    {uses : List (Reference × BinaryName)} (huses : ∀ use ∈ uses, asked use.1.target) :
    c.Links platform (.record uses) ↔ ∀ use ∈ uses, c.check platform use.1 = .resolved := by
  have hes : ∀ e ∈ uses.map fun use => (⟨use.1, [use.2]⟩ : Manifest.Entry),
      asked e.reference.target := by
    rw [List.forall_mem_map]
    exact huses
  rw [Manifest.record_eq_foldl_insert,
    links_foldl_insert_iff hasked Manifest.keyed_empty (Manifest.within_empty asked) hes,
    List.forall_mem_map]
  exact and_iff_right links_empty

theorem links_mergeAll_iff {asked : Target → Prop} (hasked : Manifest.OneTargetPerKey asked)
    {ms : List Manifest} (hms : ∀ m ∈ ms, m.Within asked) :
    c.Links platform (.mergeAll ms) ↔ ∀ m ∈ ms, c.Links platform m := by
  have hes : ∀ e ∈ ms.flatMap Manifest.entries, asked e.reference.target := by
    rw [List.forall_mem_flatMap]
    exact hms
  rw [Manifest.mergeAll_eq_foldl_insert,
    links_foldl_insert_iff hasked Manifest.keyed_empty (Manifest.within_empty asked) hes,
    List.forall_mem_flatMap]
  exact and_iff_right links_empty

end Context

/-! ## A context with one target -/

/-- Public class without supertypes and members. -/
def ClassOutline.bare (name : BinaryName) : ClassOutline where
  name := name
  superClass := none
  interfaces := []
  isInterface := false
  visibility := .publicAccess
  methods := []
  fields := []

namespace Target

/-- Class that declares the target and nothing else. -/
def declaration : Target → ClassOutline
  | .classOf name => .bare name
  | .methodOf owner name descriptor isStatic isInterface =>
      { ClassOutline.bare owner with
        isInterface := isInterface
        methods := [⟨name, descriptor, .publicAccess, isStatic⟩] }
  | .fieldOf owner name type isStatic =>
      { ClassOutline.bare owner with fields := [⟨name, type, .publicAccess, isStatic⟩] }

/-- Context of that class, where the root of the hierarchy has no members either. -/
def soleContext (t : Target) : Context := .ofOutlines [t.declaration, .bare .object]

variable {t x : Target} {platform : Platform} {v : Visibility}

theorem find?_soleContext_owner : t.soleContext.find? t.owner.text = some t.declaration := by
  cases t <;> simp [soleContext, Context.find?_ofOutlines, declaration, owner,
    ClassOutline.bare]

/-- Only the owner of the target and the root of the hierarchy are found. -/
theorem find?_soleContext {name : BinaryName} {outline : ClassOutline}
    (h : t.soleContext.find? name.text = some outline) :
    outline = t.declaration ∧ name = t.owner ∨
      outline = .bare .object ∧ name = .object := by
  have hname : t.declaration.name = t.owner := by cases t <;> rfl
  by_cases howner : t.owner.text = name.text
  · rw [← howner, find?_soleContext_owner] at h
    cases h
    exact Or.inl ⟨rfl, BinaryName.eq_of_text_eq howner.symm⟩
  · by_cases hobject : BinaryName.object.text = name.text
    · simp [soleContext, Context.find?_ofOutlines, hname, howner, ClassOutline.bare,
        hobject] at h
      exact Or.inr ⟨h.symm, BinaryName.eq_of_text_eq hobject.symm⟩
    · simp [soleContext, Context.find?_ofOutlines, hname, howner, ClassOutline.bare,
        hobject, ClassOutline.object] at h

/-- The target links in its context, whatever visibility is asked for. -/
theorem check_soleContext_self : t.soleContext.check platform ⟨t, v⟩ = .resolved := by
  have hfound : t.soleContext.find? t.owner.text = some t.declaration := find?_soleContext_owner
  have hvisible : Visibility.publicAccess.satisfies v = true :=
    Visibility.satisfies_iff.2 v.rank_le_publicAccess
  cases t with
  | classOf name => exact Context.check_classOf_eq_resolved_iff.2 ⟨_, hfound, hvisible⟩
  | methodOf owner name descriptor isStatic isInterface =>
      refine Context.check_methodOf_eq_resolved_iff.2 ⟨⟨_, hfound, rfl⟩, ?_⟩
      refine (Context.offers_iff_of_no_supertypes hfound rfl rfl).2 ?_
      exact ⟨_, List.mem_cons_self, rfl, rfl, rfl, hvisible⟩
  | fieldOf owner name type isStatic =>
      refine Context.check_fieldOf_eq_resolved_iff.2 ⟨⟨_, hfound⟩, ?_⟩
      refine (Context.offers_iff_of_no_supertypes hfound rfl rfl).2 ?_
      exact ⟨_, List.mem_cons_self, rfl, rfl, rfl, hvisible⟩

/-- A member that is offered in the context of a target is declared by the class of the target. -/
theorem exists_declared_of_offers {type : Type} {members : ClassOutline → List (DeclaredMember type)}
    (hbare : members (.bare .object) = []) {follow isStatic : Bool} {x : BinaryName}
    {outline : ClassOutline} {name : UnqualifiedName} {descriptor : type}
    (hfound : t.soleContext.find? x.text = some outline)
    (h : t.soleContext.Offers platform follow members x name descriptor isStatic v) :
    outline = t.declaration ∧ x = t.owner ∧ ∃ m ∈ members t.declaration,
      m.name = name ∧ m.descriptor = descriptor ∧ m.isStatic = isStatic := by
  rcases find?_soleContext hfound with ⟨rfl, rfl⟩ | ⟨rfl, rfl⟩
  · have hnone : t.declaration.superClass = none ∧ t.declaration.interfaces = [] := by
      cases t <;> exact ⟨rfl, rfl⟩
    obtain ⟨m, hm, hname, hdescriptor, hstatic, -⟩ :=
      (Context.offers_iff_of_no_supertypes hfound hnone.1 hnone.2).1 h
    exact ⟨rfl, rfl, m, hm, hname, hdescriptor, hstatic⟩
  · obtain ⟨m, hm, -⟩ := (Context.offers_iff_of_no_supertypes hfound rfl rfl).1 h
    rw [hbare] at hm
    cases hm

/-- The key of a member is the name of no class that the context of the member has. -/
theorem key_ne_of_member (hmember : ∀ name, t ≠ .classOf name) :
    t.key ≠ t.owner.text ∧ t.key ≠ BinaryName.object.text := by
  have hkey : ∃ s, t.key = t.owner.text ++ "#" ++ s := by
    cases t with
    | classOf name => exact absurd rfl (hmember name)
    | methodOf x name descriptor isStatic isInterface =>
        exact ⟨name.text ++ descriptor.render, by simp [key, owner, String.append_assoc]⟩
    | fieldOf x name type isStatic =>
        exact ⟨name.text ++ ":" ++ type.render, by simp [key, owner, String.append_assoc]⟩
  obtain ⟨s, hkey⟩ := hkey
  rw [hkey]
  constructor
  · -- the key of a member is longer than the name of its owner
    intro h
    have hlength := congrArg String.length h
    rw [String.length_append, String.length_append] at hlength
    have hone : "#".length = 1 := rfl
    omega
  · -- and it has a character that the name of the root has not
    intro h
    have hmem : '#' ∈ (t.owner.text ++ "#" ++ s).toList := by simp
    rw [h] at hmem
    revert hmem
    decide

/-- Of the references with one key, only those that ask for the target link in its context. -/
theorem eq_of_check_soleContext (h : t.soleContext.check platform ⟨x, v⟩ = .resolved)
    (hkey : x.key = t.key) : x = t := by
  cases x with
  | methodOf x name descriptor isStatic isInterface =>
      obtain ⟨⟨outline, hfound, hkind⟩, hoffers⟩ := Context.check_methodOf_eq_resolved_iff.1 h
      obtain ⟨rfl, rfl, m, hm, rfl, rfl, rfl⟩ := exists_declared_of_offers rfl hfound hoffers
      cases t with
      | classOf _ => cases hm
      | fieldOf _ _ _ _ => cases hm
      | methodOf _ _ _ _ _ =>
          obtain rfl := List.mem_singleton.1 hm
          obtain rfl := hkind
          rfl
  | fieldOf x name type isStatic =>
      obtain ⟨⟨outline, hfound⟩, hoffers⟩ := Context.check_fieldOf_eq_resolved_iff.1 h
      obtain ⟨rfl, rfl, m, hm, rfl, rfl, rfl⟩ := exists_declared_of_offers rfl hfound hoffers
      cases t with
      | classOf _ => cases hm
      | methodOf _ _ _ _ _ => cases hm
      | fieldOf _ _ _ _ =>
          obtain rfl := List.mem_singleton.1 hm
          rfl
  | classOf name =>
      obtain ⟨outline, hfound, -⟩ := Context.check_classOf_eq_resolved_iff.1 h
      -- no class of the context has the key of a member as its name
      by_cases hmember : ∀ name, t ≠ .classOf name
      · obtain ⟨howner, hobject⟩ := key_ne_of_member hmember
        rcases find?_soleContext hfound with ⟨-, rfl⟩ | ⟨-, rfl⟩
        · exact absurd hkey.symm howner
        · exact absurd hkey.symm hobject
      · simp only [ne_eq, not_forall, not_not] at hmember
        obtain ⟨name', rfl⟩ := hmember
        rw [BinaryName.eq_of_text_eq hkey]

end Target

/-! ## What recording and merging keep -/

namespace Manifest

/-- A manifest of such demands links in a context exactly if every single demand does. -/
def KeepsRecorded (demanded : Reference → Prop) : Prop :=
  ∀ (outlines : List ClassOutline) (platform : Platform) (uses : List (Reference × BinaryName)),
    (∀ use ∈ uses, demanded use.1) →
      (((Context.ofOutlines outlines).checkAll platform (record uses)).allResolved = true ↔
        ∀ use ∈ uses, (Context.ofOutlines outlines).check platform use.1 = .resolved)

/-- Merged manifests of such demands link in a context exactly if every single manifest does. -/
def KeepsMerged (demanded : Reference → Prop) : Prop :=
  ∀ (outlines : List ClassOutline) (platform : Platform)
    (modules : List (List (Reference × BinaryName))),
    (∀ uses ∈ modules, ∀ use ∈ uses, demanded use.1) →
      (((Context.ofOutlines outlines).checkAll platform (mergeAll (modules.map record))).allResolved =
          true ↔
        ∀ uses ∈ modules,
          ((Context.ofOutlines outlines).checkAll platform (record uses)).allResolved = true)

variable {demanded : Reference → Prop}

/-- Targets of demands. -/
def targetsOf (demanded : Reference → Prop) (t : Target) : Prop :=
  ∃ r, demanded r ∧ r.target = t

theorem oneTargetPerKey_targetsOf_iff :
    OneTargetPerKey (targetsOf demanded) ↔
      ∀ r s, demanded r → demanded s → r.key = s.key → r.target = s.target := by
  constructor
  · intro h r s hr hs hkey
    exact h r.target s.target ⟨r, hr, rfl⟩ ⟨s, hs, rfl⟩ hkey
  · rintro h s t ⟨r, hr, rfl⟩ ⟨r', hr', rfl⟩ hkey
    exact h r r' hr hr' hkey

theorem keepsRecorded_of_oneTargetPerKey (h : OneTargetPerKey (targetsOf demanded)) :
    KeepsRecorded demanded := by
  intro outlines platform uses huses
  have htargets : ∀ use ∈ uses, targetsOf demanded use.1.target := fun use huse =>
    ⟨use.1, huses use huse, rfl⟩
  rw [Context.allResolved_checkAll_iff, Context.links_record_iff h htargets]

theorem keepsMerged_of_oneTargetPerKey (h : OneTargetPerKey (targetsOf demanded)) :
    KeepsMerged demanded := by
  intro outlines platform modules hmodules
  have hwithin : ∀ m ∈ modules.map record, m.Within (targetsOf demanded) := by
    rw [List.forall_mem_map]
    intro uses huses
    exact within_record h.joinClosed fun use huse => ⟨use.1, hmodules uses huses use huse, rfl⟩
  rw [Context.allResolved_checkAll_iff, Context.links_mergeAll_iff h hwithin, List.forall_mem_map]
  simp only [Context.allResolved_checkAll_iff]

/-- Two entries of one key become one. -/
theorem entries_insert_insert {e f : Entry} (h : e.reference.key = f.reference.key) :
    ((empty.insert e).insert f).entries = [e.join f] := by
  simp [empty, Manifest.insert, place, entries, h, Std.compare_self]

/-- Two demands of one key link as one in the context of their joined target, but each of them only
if it asks for that target. -/
theorem target_eq_of_links {r s : Reference} (hkey : r.key = s.key)
    (h : ∀ t ∈ [r, s], (r.join s).target.soleContext.check .standard t = .resolved) :
    r.target = s.target := by
  have hr : r.target = (r.join s).target :=
    Target.eq_of_check_soleContext (h r (by simp)) (Reference.key_join r s).symm
  have hs : s.target = (r.join s).target :=
    Target.eq_of_check_soleContext (h s (by simp)) (hkey.symm.trans (Reference.key_join r s).symm)
  exact hr.trans hs.symm

theorem links_soleContext_join {e f : Entry} (h : e.reference.key = f.reference.key) :
    (e.reference.join f.reference).target.soleContext.Links .standard
      ((empty.insert e).insert f) := by
  rw [Context.Links, entries_insert_insert h, List.forall_mem_singleton]
  exact Target.check_soleContext_self

/-- Recording keeps demands, and so does merging, exactly if no two of the demands have one key and
ask for different things: there are two of them otherwise and a context in which they link as one
although they do not both link. -/
theorem keepsRecorded_and_keepsMerged_iff (demanded : Reference → Prop) :
    (KeepsRecorded demanded ↔
      ∀ r s, demanded r → demanded s → r.key = s.key → r.target = s.target) ∧
    (KeepsMerged demanded ↔
      ∀ r s, demanded r → demanded s → r.key = s.key → r.target = s.target) := by
  rw [← oneTargetPerKey_targetsOf_iff]
  refine ⟨⟨fun h => ?_, keepsRecorded_of_oneTargetPerKey⟩,
    ⟨fun h => ?_, keepsMerged_of_oneTargetPerKey⟩⟩
  · -- two demands of one key, one after the other
    rw [oneTargetPerKey_targetsOf_iff]
    intro r s hr hs hkey
    have hlaw := h [(r.join s).target.declaration, .bare .object] .standard
      [(r, r.owner), (s, s.owner)] (by simp [hr, hs])
    rw [Context.allResolved_checkAll_iff] at hlaw
    have hboth := hlaw.1 (links_soleContext_join (e := ⟨r, [r.owner]⟩) (f := ⟨s, [s.owner]⟩) hkey)
    refine target_eq_of_links hkey ?_
    simpa [Target.soleContext] using hboth
  · -- the same two demands, each from a module of its own
    rw [oneTargetPerKey_targetsOf_iff]
    intro r s hr hs hkey
    have hlaw := h [(r.join s).target.declaration, .bare .object] .standard
      [[(r, r.owner)], [(s, s.owner)]] (by simp [hr, hs])
    simp only [Context.allResolved_checkAll_iff] at hlaw
    have hboth := hlaw.1 (links_soleContext_join (e := ⟨r, [r.owner]⟩) (f := ⟨s, [s.owner]⟩) hkey)
    refine target_eq_of_links hkey ?_
    simpa [Target.soleContext, Context.Links, record, add, Manifest.insert, place, empty, entries]
      using hboth

/-! ## A lost demand -/

/-- Public field `count` of a class, as a static one or as one of its objects. -/
def counterField (isStatic : Bool) : Reference :=
  ⟨.fieldOf ⟨"lib/Counter", rfl⟩ ⟨"count", rfl⟩ (.base .int) isStatic, .publicAccess⟩

/-- A class with the static field alone does for the recorded demands, but not for the second one of
them. -/
theorem record_static_and_instance :
    ((counterField true).target.soleContext.checkAll .standard
      (record [(counterField true, .object), (counterField false, .object)])).allResolved = true ∧
    (counterField true).target.soleContext.check .standard (counterField false) ≠ .resolved := by
  constructor
  · rw [Context.allResolved_checkAll_iff]
    exact links_soleContext_join (e := ⟨counterField true, [.object]⟩)
      (f := ⟨counterField false, [.object]⟩) (by decide +kernel)
  · intro h
    have htarget : (counterField false).target = (counterField true).target :=
      Target.eq_of_check_soleContext h (by decide +kernel)
    revert htarget
    decide +kernel

end Manifest

end Linkage
