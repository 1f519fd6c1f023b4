import Linkage.Proofs.Entries
import Linkage.Proofs.ReferenceKeys

/-!
# Leaving out a framework

One more start of names of the framework takes the entries of these classes out of the manifest of a
module, and makes no other difference (`Instrumentation.collect_addFrameworkStart`).

The environment decides on each demand by its owner, after all of them have been found
(`demands_addFrameworkStart`). Recording does not mix entries of different owners if the names of the
owners have no `#`, since keys tell the owners apart then (`Target.owner_eq_of_key_eq`). So it makes no
difference whether demands or entries are left out (`Manifest.record_filter_owner`).
-/

set_option autoImplicit false

namespace Linkage

open Fallible

/-! ## Entries of some owners -/

/-- Whether the name does not begin with the text. -/
def BinaryName.isOutside (name : BinaryName) (start : String) : Bool :=
  !start.toList.isPrefixOf name.text.toList

/-- The name of the owner has no `#`, so it can be told from the key. -/
def Target.HasPlainOwner (t : Target) : Prop := '#' ∉ t.owner.text.toList

namespace Manifest

/-- The entries with owners that are kept. -/
def filterOwners (keep : BinaryName → Bool) (m : Manifest) : Manifest :=
  ⟨m.rows.filter fun row => keep row.2.reference.owner⟩

variable {keep : BinaryName → Bool} {m : Manifest} {e : Entry} {rows : List (String × Entry)}
  {key : String}

theorem joinClosed_hasPlainOwner : JoinClosed Target.HasPlainOwner := by
  intro s t hs _ _
  rw [Target.HasPlainOwner, Target.owner_join]
  exact hs

theorem owner_join (old e : Entry) : (old.join e).reference.owner = old.reference.owner :=
  Reference.owner_join old.reference e.reference

/-- In front of greater keys an entry comes first. -/
theorem place_eq_cons (h : ∀ row ∈ rows, compare key row.1 = .lt) :
    place key e rows = (key, e) :: rows := by
  cases rows with
  | nil => rfl
  | cons row rows => rw [place, h row List.mem_cons_self]

/-- An entry that is left out changes only what is left out. -/
theorem filter_place_of_drop (hdrop : keep e.reference.owner = false)
    (hsame : ∀ row ∈ rows, row.1 = key → row.2.reference.owner = e.reference.owner) :
    (place key e rows).filter (fun row => keep row.2.reference.owner) =
      rows.filter fun row => keep row.2.reference.owner := by
  rcases place_cases key e rows with ⟨front, back, hrows, hplace⟩ | ⟨front, old, back, hrows, hplace⟩
  · rw [hplace, hrows, List.filter_append, List.filter_append, List.filter_cons, if_neg (by simp [hdrop])]
  · have hold : old.reference.owner = e.reference.owner := hsame (key, old) (by simp [hrows]) rfl
    rw [hplace, hrows, List.filter_append, List.filter_append, List.filter_cons, List.filter_cons,
      if_neg (by simp [owner_join, hold, hdrop]), if_neg (by simp [hold, hdrop])]

/-- An entry that is kept gets into its place among those that are kept. -/
theorem filter_place_of_keep (hkeep : keep e.reference.owner = true)
    (hordered : rows.Pairwise fun a b => compare a.1 b.1 = .lt)
    (hsame : ∀ row ∈ rows, row.1 = key → row.2.reference.owner = e.reference.owner) :
    (place key e rows).filter (fun row => keep row.2.reference.owner) =
      place key e (rows.filter fun row => keep row.2.reference.owner) := by
  induction rows with
  | nil => simp [place, hkeep]
  | cons row rows ih =>
      obtain ⟨hrow, hrows⟩ := List.pairwise_cons.1 hordered
      obtain ⟨hsameRow, hsameRows⟩ := List.forall_mem_cons.1 hsame
      rw [place]
      split
      · -- what is kept of the rows behind the key is behind it, too
        rename_i hlt
        have hbehind : ∀ other ∈ row :: rows, compare key other.1 = .lt :=
          List.forall_mem_cons.2 ⟨hlt, fun other hother => Std.TransCmp.lt_trans hlt (hrow other hother)⟩
        rw [List.filter_cons, if_pos hkeep,
          place_eq_cons fun other hother => hbehind other (List.mem_of_mem_filter hother)]
      · rename_i heq
        have hold := hsameRow (Std.compare_eq_iff_eq.1 heq).symm
        rw [List.filter_cons, List.filter_cons, if_pos (by simp [owner_join, hold, hkeep]),
          if_pos (by simp [hold, hkeep]), place, heq]
      · rename_i hgt
        rw [List.filter_cons, List.filter_cons, ih hrows hsameRows]
        by_cases hfirst : keep row.2.reference.owner = true
        · rw [if_pos hfirst, if_pos hfirst, place, hgt]
        · rw [if_neg hfirst, if_neg hfirst]

/-- A key has one owner. -/
theorem owner_eq_of_mem_rows (hkeyed : m.Keyed) (hplain : m.Within Target.HasPlainOwner)
    (he : e.reference.target.HasPlainOwner) {row : String × Entry} (hrow : row ∈ m.rows)
    (hkey : row.1 = e.reference.key) : row.2.reference.owner = e.reference.owner :=
  (Target.owner_eq_of_key_eq (hplain row.2 (List.mem_map_of_mem hrow)) he
    ((hkeyed row hrow).symm.trans hkey)).1

/-- Inserting the entries that are kept into what is kept of a manifest. -/
theorem foldl_insert_filterOwners (keep : BinaryName → Bool) {es : List Entry}
    (hordered : m.Ordered) (hkeyed : m.Keyed) (hplain : m.Within Target.HasPlainOwner)
    (hes : ∀ e ∈ es, e.reference.target.HasPlainOwner) :
    (es.filter fun e => keep e.reference.owner).foldl Manifest.insert (m.filterOwners keep) =
      (es.foldl Manifest.insert m).filterOwners keep := by
  induction es generalizing m with
  | nil => rfl
  | cons e es ih =>
      obtain ⟨he, hes⟩ := List.forall_mem_cons.1 hes
      have hrest := ih (hordered.insert e) (hkeyed.insert e)
        (hplain.insert joinClosed_hasPlainOwner hkeyed he) hes
      have hsame := fun row (hrow : row ∈ m.rows) => owner_eq_of_mem_rows hkeyed hplain he hrow
      rw [List.foldl_cons, ← hrest, List.filter_cons]
      by_cases hkeep : keep e.reference.owner = true
      · rw [if_pos hkeep, List.foldl_cons, filterOwners, Manifest.insert, filterOwners, Manifest.insert,
          filter_place_of_keep hkeep hordered hsame]
      · rw [if_neg hkeep, filterOwners, filterOwners, Manifest.insert,
          filter_place_of_drop (eq_false_of_ne_true hkeep) hsame]

/-- Recording some owners only leaves out the entries of the others. -/
theorem record_filter_owner (keep : BinaryName → Bool) {uses : List (Reference × BinaryName)}
    (h : ∀ use ∈ uses, use.1.target.HasPlainOwner) :
    record (uses.filter fun use => keep use.1.owner) = (record uses).filterOwners keep := by
  have hes : ∀ e ∈ uses.map fun use => (⟨use.1, [use.2]⟩ : Entry),
      e.reference.target.HasPlainOwner := by
    rw [List.forall_mem_map]
    exact h
  have hfoldl := foldl_insert_filterOwners keep ordered_empty keyed_empty (within_empty _) hes
  rw [record_eq_foldl_insert, record_eq_foldl_insert, ← hfoldl, List.filter_map]
  rfl

end Manifest

/-! ## Names in a module -/

/-- The name of a class stands in the module: it is that of one of its classes, or the one of a class
constant, of the owner of a member, or of a class in a descriptor. -/
inductive Instrumentation.Names (m : Instrumentation) : BinaryName → Prop
  | ownClass {c : ClassFile} {name : BinaryName} : c ∈ m.classes → c.HasName name → Names m name
  | constant {c : ClassFile} {text : String} {name : BinaryName} : c ∈ m.classes → c.NamesClass text →
      Referrer.namedClass? text = .ok (some name) → Names m name
  | owner {c : ClassFile} {s : MemberSite} {name : BinaryName} : c ∈ m.classes → c.Asks s →
      s.namedOwner = .ok name → Names m name
  | descriptor {c : ClassFile} {name : BinaryName} : c ∈ m.classes → c.Mentions (fun _ => True) name →
      Names m name

/-- No name of an array is that of a class. -/
theorem Referrer.namedClass?_of_binaryName {text : String} {name : BinaryName}
    (h : ClassError.binaryName text = .ok name) : namedClass? text = .ok (some name) := by
  have htext : name.text = text := BinaryName.ofText_eq_ok_iff.1 (mapError_eq_ok_iff.1 h)
  have hclass : text.toList.head? ≠ some '[' := by
    intro hhead
    rw [← htext] at hhead
    have hplain := name.isNameDelimiter_of_mem (List.mem_of_mem_head? hhead) (by decide)
    exact absurd hplain (by decide)
  rw [namedClass?, if_neg hclass, h]
  rfl

theorem ClassFile.Mentions.imp {c : ClassFile} {p q : MemberSite → Prop} {name : BinaryName}
    (h : c.Mentions p name) (hpq : ∀ s, p s → q s) : c.Mentions q name := by
  cases h with
  | field hfield htext htype hname => exact .field hfield htext htype hname
  | method hmethod htext hdescriptor hname => exact .method hmethod htext hdescriptor hname
  | member hasks hcounted hname => exact .member hasks (hpq _ hcounted) hname

namespace Instrumentation

variable {m : Instrumentation} {e : Environment} {own : OwnClasses} {start : String}
  {demands : List (Reference × BinaryName)} {name : BinaryName}

/-- The superclass of an own class stands in the module. -/
theorem names_of_extends (hown : OwnClasses.ofClassFiles m.classes = .ok own) {p : OwnClass → Prop}
    {below : BinaryName} (h : own.Extends p below name) : m.Names name := by
  obtain ⟨k, hfound, -, hsuper⟩ := h
  obtain ⟨c, hc, -, hclass⟩ := OwnClasses.exists_classFile_of_find? hown hfound
  obtain ⟨hsuperclass, -⟩ := OwnClass.parts_of_ofClassFile hclass
  rw [hsuper] at hsuperclass
  rcases hsuperclass with ⟨-, hnone⟩ | ⟨text, name', htext, hname, hsame⟩
  · cases hnone
  · cases hsame
    exact .constant hc (.superclass htext) (Referrer.namedClass?_of_binaryName hname)

/-- The owner of a demand stands in the module. -/
theorem names_of_mem_demands (h : m.demands e = .ok demands) {demand : Reference × BinaryName}
    (hdemand : demand ∈ demands) : m.Names demand.1.owner := by
  obtain ⟨own, hown, -⟩ := bind_eq_ok_iff.1 h
  obtain ⟨-, c, hc, -, hsite⟩ := (mem_demands_iff hown h).1 hdemand
  generalize demand.1 = r at hsite
  cases hsite with
  | named hnames hname _ => exact .constant hc hnames hname
  | mentioned hmentions => exact .descriptor hc (hmentions.imp fun _ _ => trivial)
  | @member s owner t v hasks hlinks htarget _ =>
      obtain ⟨-, named, hnamed, hway, -⟩ := hlinks
      change m.Names t.owner
      rw [MemberSite.owner_of_targetAt htarget]
      -- linking begins where the member is named, or at a superclass of an own class
      rcases hway.cases_tail with rfl | ⟨below, -, hstep⟩
      · exact .owner hc hasks hnamed
      · exact names_of_extends hown hstep

/-! ## More starts of names -/

theorem isExternal_addFrameworkStart :
    (e.addFrameworkStart start).isExternal own name =
      (name.isOutside start && e.isExternal own name) := by
  simp only [Environment.isExternal, Environment.provides, Environment.addFrameworkStart,
    BinaryName.startsWithAny, BinaryName.isOutside, List.any_append, List.any_cons, List.any_nil,
    Bool.or_false, Bool.not_or]
  ac_rfl

/-- The demands are those on other classes, and they have the same faults. -/
theorem demandsOf_addFrameworkStart (own : OwnClasses) (c : ClassFile) :
    demandsOf (e.addFrameworkStart start) own c =
      List.filter (fun demand => demand.1.owner.isOutside start) <$> demandsOf e own c := by
  simp only [demandsOf, map_bind, map_pure, isExternal_addFrameworkStart, List.filter_map,
    List.filter_filter]
  rfl

theorem demands_addFrameworkStart (m : Instrumentation) :
    m.demands (e.addFrameworkStart start) =
      List.filter (fun demand => demand.1.owner.isOutside start) <$> m.demands e := by
  have heach : ∀ own, demandsOf (e.addFrameworkStart start) own = fun c =>
      List.filter (fun demand => demand.1.owner.isOutside start) <$> demandsOf e own c :=
    fun own => funext (demandsOf_addFrameworkStart own)
  simp only [demands, heach, mapM_map_eq, map_bind, bind_map_left, map_pure, List.filter_flatten]

/-- One more start of names of the framework only leaves out entries, if no name of a class in the module
has a `#`: collecting fails as before, or else the manifest has the same entries as before, without those
whose owners begin with this start. -/
theorem collect_addFrameworkStart (m : Instrumentation) (e : Environment) (start : String)
    (hplain : ∀ name, m.Names name → '#' ∉ name.text.toList) :
    m.collect (e.addFrameworkStart start) =
      Manifest.filterOwners (·.isOutside start) <$> m.collect e := by
  cases h : m.demands e with
  | error fault =>
      -- the environment is not asked before the fault is found
      simp only [collect, demands_addFrameworkStart, h]
      rfl
  | ok demands =>
      have howners : ∀ demand ∈ demands, demand.1.target.HasPlainOwner := by
        intro demand hdemand
        exact hplain _ (names_of_mem_demands h hdemand)
      have hdemands : m.demands (e.addFrameworkStart start) =
          .ok (demands.filter fun demand => demand.1.owner.isOutside start) := by
        rw [demands_addFrameworkStart, h]
        rfl
      have hcollect : m.collect e = .ok (.record demands) := collect_eq_ok_iff.2 ⟨demands, h, rfl⟩
      rw [hcollect]
      exact collect_eq_ok_iff.2
        ⟨_, hdemands, Manifest.record_filter_owner (·.isOutside start) howners⟩

end Instrumentation

/-! ## A module without one of its interfaces -/

namespace Greeting

theorem namesClass_callerFile {text : String} (h : callerFile.NamesClass text) :
    text = "lib/Base" ∨ text = "lib/Greeter" := by
  cases h with
  | superclass htext =>
      have hsuper : callerFile.superName = .ok (some "lib/Base") := by decide +kernel
      rw [hsuper] at htext
      cases htext
      exact Or.inl rfl
  | interface htexts htext =>
      have hinterfaces : callerFile.interfaceNames = .ok ["lib/Greeter"] := by decide +kernel
      rw [hinterfaces] at htexts
      cases htexts
      exact Or.inr (List.mem_singleton.1 htext)
  | operand hhas hentry hoperand _ =>
      obtain rfl := hasBody_callerFile hhas
      rw [ofCode_callerBody] at hentry
      simp only [List.mem_cons, List.not_mem_nil, or_false] at hentry
      rcases hentry with rfl | rfl | rfl <;> cases hoperand
  | caught hhas hhandler _ _ =>
      obtain rfl := hasBody_callerFile hhas
      cases hhandler
  | arrayOwner hasks harray =>
      obtain rfl := asks_callerFile hasks
      exact absurd harray (by decide +kernel)

theorem not_mentions_callerFile {counted : MemberSite → Prop} {name : BinaryName} :
    ¬ callerFile.Mentions counted name := by
  -- the only descriptor is that of a method without parameters and result
  have hparse : ClassError.methodDescriptor "()V" = .ok ⟨[], none⟩ := by decide +kernel
  intro h
  cases h with
  | field hfield _ _ _ => cases hfield
  | method hmethod htext hdescriptor hname =>
      obtain rfl := List.mem_singleton.1 hmethod
      have hutf8 : callerFile.pool.utf8 callerMethod.descriptor = .ok "()V" := by decide +kernel
      rw [hutf8] at htext
      cases htext
      rw [hparse] at hdescriptor
      cases hdescriptor
      cases hname
  | member hasks _ hname =>
      obtain rfl := asks_callerFile hasks
      obtain ⟨descriptor, hdescriptor, hname⟩ := hname
      cases hparse.symm.trans hdescriptor
      cases hname

theorem not_sharp_of_names_agent (name : BinaryName) (h : agent.Names name) :
    '#' ∉ name.text.toList := by
  have hname : name = callerName ∨ name = baseName ∨ name = greeterName := by
    cases h with
    | ownClass hc hname =>
        obtain rfl := List.mem_singleton.1 hc
        exact Or.inl (hname.eq ⟨"agent/Caller", by decide +kernel, by decide +kernel⟩)
    | constant hc hnames hname =>
        obtain rfl := List.mem_singleton.1 hc
        rcases namesClass_callerFile hnames with rfl | rfl
        · have hbase : Referrer.namedClass? "lib/Base" = .ok (some baseName) := by decide +kernel
          rw [hbase] at hname
          cases hname
          exact Or.inr (Or.inl rfl)
        · have hgreeter : Referrer.namedClass? "lib/Greeter" = .ok (some greeterName) := by decide +kernel
          rw [hgreeter] at hname
          cases hname
          exact Or.inr (Or.inr rfl)
    | owner hc hasks hnamed =>
        obtain rfl := List.mem_singleton.1 hc
        obtain rfl := asks_callerFile hasks
        rw [namedOwner_greetSite] at hnamed
        cases hnamed
        exact Or.inl rfl
    | descriptor hc hmentions =>
        obtain rfl := List.mem_singleton.1 hc
        exact absurd hmentions not_mentions_callerFile
  rcases hname with rfl | rfl | rfl <;> decide

/-- Without the interface, the superclass and its method are still asked for as before. -/
theorem collect_agent_outside :
    (∀ name, agent.Names name → '#' ∉ name.text.toList) ∧
      agent.collect .standard = .ok (.record demands) ∧
      agent.collect (Environment.standard.addFrameworkStart "lib/G") =
        .ok (.record [(⟨.classOf baseName, .publicAccess⟩, callerName),
          (⟨greetAt baseName, .protectedAccess⟩, callerName)]) := by
  refine ⟨not_sharp_of_names_agent, collect_agent, ?_⟩
  rw [Instrumentation.collect_addFrameworkStart agent .standard "lib/G" not_sharp_of_names_agent,
    collect_agent]
  exact congrArg Except.ok (by decide +kernel)

end Greeting

end Linkage
