import Linkage.Proofs.Entries
import Mathlib.Data.List.Sort

/-!
# Merging manifests

A manifest is made from the empty one by adding references and by merging in other manifests that are
made in this way (`Making`). Whatever the way, its keys ascend, every entry is under its own key, and
the sources of an entry ascend (`Orderly`).

Merging looks up in both manifests and joins what it finds (`get?_merge`), so the keys, the sources of
a key and its visibility are those of a union (`IsUnion`). A manifest records every reference that was
added on the way, in whatever manifest it was first (`records_manifest`). Hence two ways on which the
same references are added, in another order, grouped in another way or repeated, lead to the same keys
with the same sources and visibilities (`SameDemands`). The target of an entry is not among these: it
is the one that came first (`sameDemands_regrouped`).
-/

set_option autoImplicit false

namespace Linkage

/-! ## Lists in order -/

/-- Elements in strictly ascending order of their texts are told apart by which ones they are. -/
theorem eq_of_ascending {α : Type} (text : α → String) {as bs : List α}
    (has : as.Pairwise fun a b => compare (text a) (text b) = .lt)
    (hbs : bs.Pairwise fun a b => compare (text a) (text b) = .lt) (h : ∀ a, a ∈ as ↔ a ∈ bs) :
    as = bs := by
  have hirrefl : ∀ a, compare (text a) (text a) ≠ .lt := fun a ha => by
    rw [Std.compare_self] at ha
    cases ha
  have : Std.Irrefl fun a b => compare (text a) (text b) = .lt := ⟨hirrefl⟩
  have : Std.Antisymm fun a b => compare (text a) (text b) = .lt :=
    ⟨fun a b hab hba => absurd (Std.TransCmp.lt_trans hab hba) (hirrefl a)⟩
  exact has.eq_of_mem_iff hbs h

namespace Ascending

variable {as : List BinaryName}

/-- The names are in strictly ascending order. -/
def Sorted (as : List BinaryName) : Prop := as.Pairwise fun a b => compare a.text b.text = .lt

theorem sorted_insert (h : Sorted as) (a : BinaryName) : Sorted (insert a as) := by
  induction as with
  | nil => exact List.pairwise_singleton _ _
  | cons b bs ih =>
      obtain ⟨hb, hbs⟩ := List.pairwise_cons.1 h
      rw [insert]
      split
      · -- what is behind the next name is beyond the new one, too
        rename_i hlt
        refine List.pairwise_cons.2 ⟨fun c hc => ?_, h⟩
        rcases List.mem_cons.1 hc with rfl | hc
        · exact hlt
        · exact Std.TransCmp.lt_trans (show compare a.text b.text = .lt from hlt) (hb c hc)
      · exact h
      · rename_i hgt
        refine List.pairwise_cons.2 ⟨fun c hc => ?_, ih hbs⟩
        rcases mem_insert_iff.1 hc with hc | rfl
        · exact hb c hc
        · exact Std.OrientedCmp.gt_iff_lt.1 (show compare c.text b.text = .gt from hgt)

theorem sorted_union (h : Sorted as) (bs : List BinaryName) : Sorted (union as bs) := by
  rw [union]
  induction bs generalizing as with
  | nil => exact h
  | cons b bs ih => exact ih (sorted_insert h b)

end Ascending

namespace Manifest

/-! ## What a manifest holds -/

/-- Keys of the entries, in their order. -/
def keys (m : Manifest) : List String := m.rows.map Prod.fst

/-- Sources under a key; there are none without an entry. -/
def sourcesAt (m : Manifest) (key : String) : List BinaryName :=
  ((m.get? key).map Entry.sources).getD []

/-- Visibility that is needed at least under a key, if there is an entry. -/
def visibilityAt? (m : Manifest) (key : String) : Option Visibility :=
  (m.get? key).map fun entry => entry.reference.visibility

/-- The keys ascend, every entry is under the key of its reference, and its sources ascend. -/
structure Orderly (m : Manifest) : Prop where
  ordered : m.Ordered
  keyed : m.Keyed
  sources : ∀ e ∈ m.entries, Ascending.Sorted e.sources

/-- The manifest has the keys of two others, and under each key the sources of both and the more
permissive one of their visibilities. -/
structure IsUnion (m a b : Manifest) : Prop where
  keys : ∀ key, key ∈ m.keys ↔ key ∈ a.keys ∨ key ∈ b.keys
  sources : ∀ key c, c ∈ m.sourcesAt key ↔ c ∈ a.sourcesAt key ∨ c ∈ b.sourcesAt key
  visibility : ∀ key,
    m.visibilityAt? key = (a.visibilityAt? key).merge Visibility.max (b.visibilityAt? key)

/-- Both manifests have the same keys with the same sources and visibilities. -/
structure SameDemands (a b : Manifest) : Prop where
  keys : a.keys = b.keys
  sources : ∀ key, a.sourcesAt key = b.sourcesAt key
  visibility : ∀ key, a.visibilityAt? key = b.visibilityAt? key

variable {a b m : Manifest} {e : Entry} {key : String}

theorem mem_keys_iff : key ∈ m.keys ↔ ∃ entry, m.get? key = some entry := by
  rw [← Option.isSome_iff_exists, get?, Option.isSome_map, List.find?_isSome, keys, List.mem_map]
  exact exists_congr fun row => and_congr_right fun _ => beq_iff_eq.symm

theorem mem_entries_of_get? (h : m.get? key = some e) : e ∈ m.entries := by
  obtain ⟨row, hrow, rfl⟩ := Option.map_eq_some_iff.1 h
  exact List.mem_map_of_mem (List.mem_of_find?_eq_some hrow)

/-! ## Orderly manifests -/

theorem orderly_empty : Orderly empty :=
  ⟨ordered_empty, keyed_empty, fun _ he => absurd he List.not_mem_nil⟩

theorem Orderly.insert (hm : m.Orderly) (he : Ascending.Sorted e.sources) : (m.insert e).Orderly where
  ordered := hm.ordered.insert e
  keyed := hm.keyed.insert e
  sources := by
    have hsources := hm.sources
    rcases hm.keyed.insert_cases e with ⟨front, back, hentries, hinsert⟩ |
      ⟨front, old, back, -, hentries, hinsert⟩
    · rw [hentries, List.forall_mem_append] at hsources
      rw [hinsert, List.forall_mem_append, List.forall_mem_cons]
      exact ⟨hsources.1, he, hsources.2⟩
    · rw [hentries, List.forall_mem_append, List.forall_mem_cons] at hsources
      obtain ⟨hfront, hold, hback⟩ := hsources
      rw [hinsert, List.forall_mem_append, List.forall_mem_cons]
      exact ⟨hfront, Ascending.sorted_union hold e.sources, hback⟩

theorem Orderly.merge (ha : a.Orderly) (hb : b.Orderly) : (a.merge b).Orderly := by
  have hsources := hb.sources
  rw [Manifest.merge]
  generalize b.entries = es at hsources
  clear hb
  induction es generalizing a with
  | nil => exact ha
  | cons e es ih =>
      obtain ⟨he, hes⟩ := List.forall_mem_cons.1 hsources
      exact ih (ha.insert he) hes

/-! ## Looking up in a merged manifest -/

theorem joinAt_eq_merge (found : Option Entry) (e : Entry) :
    some (joinAt found e) = found.merge Entry.join (some e) := by
  cases found <;> rfl

/-- A key has the entries of both manifests, joined. -/
theorem get?_merge (ha : a.Ordered) (hordered : b.Ordered) (hkeyed : b.Keyed) (key : String) :
    (a.merge b).get? key = (a.get? key).merge Entry.join (b.get? key) := by
  obtain ⟨rows⟩ := b
  rw [Manifest.merge, entries]
  induction rows generalizing a with
  | nil => exact (Option.merge_none_right).symm
  | cons row rows ih =>
      obtain ⟨hrow, hrows⟩ := List.pairwise_cons.1 hordered
      obtain ⟨hkey, hkeys⟩ := List.forall_mem_cons.1 hkeyed
      rw [List.map_cons, List.foldl_cons, ih (ha.insert row.2) hrows hkeys, get?_insert ha, ← hkey,
        get?_cons]
      split
      · -- the other rows are under greater keys
        rename_i heq
        have hnone : get? ⟨rows⟩ key = none := get?_eq_none_of_lt (by rwa [← heq])
        rw [hnone, joinAt_eq_merge, Option.merge_none_right]
      · rfl

theorem isUnion_merge (ha : a.Orderly) (hb : b.Orderly) : (a.merge b).IsUnion a b := by
  have hget := get?_merge ha.ordered hb.ordered hb.keyed
  constructor
  · intro key
    rw [mem_keys_iff, mem_keys_iff, mem_keys_iff, hget]
    cases a.get? key <;> cases b.get? key <;> simp
  · intro key c
    rw [sourcesAt, sourcesAt, sourcesAt, hget]
    cases a.get? key with
    | none => cases b.get? key <;> simp
    | some old =>
        cases b.get? key with
        | none => simp
        | some entry => exact Ascending.mem_union_iff
  · intro key
    rw [visibilityAt?, visibilityAt?, visibilityAt?, hget]
    cases a.get? key <;> cases b.get? key <;> rfl

/-! ## Records of the same demands -/

section Demands

variable {p q : BinaryName → Reference → Prop} {found found' : Option Entry}

/-- What is found in two manifests, joined, stands for the demands on both. -/
theorem SumsAt.merge (h : SumsAt found key p) (h' : SumsAt found' key q) :
    SumsAt (found.merge Entry.join found') key fun c r => p c r ∨ q c r := by
  cases found' with
  | none =>
      rw [Option.merge_none_right]
      exact h.congr fun c r hkey => (or_iff_left fun hq => h' c r hq hkey).symm
  | some entry' =>
      cases found with
      | none => exact SumsAt.congr h' fun c r hkey => (or_iff_right fun hp => h c r hp hkey).symm
      | some entry => exact Entry.Sums.join h h'

theorem Entry.Sums.visibility_eq {e e' : Entry} (h : e.Sums key p) (h' : e'.Sums key p) :
    e.reference.visibility = e'.reference.visibility := by
  obtain ⟨c, r, hp, hkey, hvisibility⟩ := h.attained
  obtain ⟨c', r', hp', hkey', hvisibility'⟩ := h'.attained
  apply Visibility.rank_injective
  apply Nat.le_antisymm
  · rw [← hvisibility]
    exact h'.greatest c r hp hkey
  · rw [← hvisibility']
    exact h.greatest c' r' hp' hkey'

theorem Records.get?_rel (ha : a.Records p) (hb : b.Records p) (key : String) :
    (a.get? key = none ∧ b.get? key = none) ∨
      ∃ e e', a.get? key = some e ∧ b.get? key = some e' ∧ e.Sums key p ∧ e'.Sums key p := by
  have hfound := (ha.found_iff key).trans (hb.found_iff key).symm
  cases hget : a.get? key with
  | none =>
      cases hget' : b.get? key with
      | none => exact Or.inl ⟨rfl, rfl⟩
      | some e' => simp [hget, hget'] at hfound
  | some e =>
      obtain ⟨e', hget'⟩ := hfound.1 ⟨e, hget⟩
      exact Or.inr ⟨e, e', rfl, hget', ha.sums key e hget, hb.sums key e' hget'⟩

/-- Manifests that record the same demands have the same keys, sources and visibilities. -/
theorem Records.sameDemands (ha : a.Records p) (hb : b.Records p) (haOrderly : a.Orderly)
    (hbOrderly : b.Orderly) : a.SameDemands b where
  keys := by
    refine eq_of_ascending id (List.pairwise_map.2 ha.ordered)
      (List.pairwise_map.2 hb.ordered) fun key => ?_
    rw [mem_keys_iff, mem_keys_iff, ha.found_iff, hb.found_iff]
  sources := by
    intro key
    rw [sourcesAt, sourcesAt]
    rcases ha.get?_rel hb key with ⟨hget, hget'⟩ | ⟨e, e', hget, hget', he, he'⟩
    · rw [hget, hget']
    · rw [hget, hget', Option.map_some, Option.map_some, Option.getD_some, Option.getD_some]
      refine eq_of_ascending BinaryName.text (haOrderly.sources e (mem_entries_of_get? hget))
        (hbOrderly.sources e' (mem_entries_of_get? hget')) fun c => ?_
      rw [he.sources, he'.sources]
  visibility := by
    intro key
    rw [visibilityAt?, visibilityAt?]
    rcases ha.get?_rel hb key with ⟨hget, hget'⟩ | ⟨e, e', hget, hget', he, he'⟩
    · rw [hget, hget']
    · rw [hget, hget', Option.map_some, Option.map_some, he.visibility_eq he']

end Demands

/-! ## Ways of making a manifest -/

/-- Way of making a manifest: calls that add a reference with its source, or merge in another
manifest. -/
inductive Making where
  | start
  | add (making : Making) (reference : Reference) (source : BinaryName)
  | merge (making other : Making)

namespace Making

/-- Manifest that is made. -/
def manifest : Making → Manifest
  | .start => .empty
  | .add w reference source => w.manifest.add reference source
  | .merge v w => v.manifest.merge w.manifest

/-- References that are added on the way, also those of manifests that are merged in. -/
def uses : Making → List (Reference × BinaryName)
  | .start => []
  | .add w reference source => w.uses ++ [(reference, source)]
  | .merge v w => v.uses ++ w.uses

theorem orderly_manifest (w : Making) : w.manifest.Orderly := by
  induction w with
  | start => exact orderly_empty
  | add w reference source ih => exact ih.insert (List.pairwise_singleton _ _)
  | merge v w ihv ihw => exact ihv.merge ihw

theorem sumsAt_manifest (w : Making) (key : String) :
    SumsAt (w.manifest.get? key) key fun c r => (r, c) ∈ w.uses := by
  induction w with
  | start =>
      intro c r hmem
      cases hmem
  | add w reference source ih =>
      have hmore : (fun c r => (r, c) ∈ (w.add reference source).uses) =
          OneMore (fun c r => (r, c) ∈ w.uses) source reference := by
        funext c r
        simp [uses, OneMore, and_comm]
      rw [hmore]
      exact ih.insert w.orderly_manifest.ordered
  | merge v w ihv ihw =>
      have hboth := ihv.merge ihw
      rw [manifest, get?_merge v.orderly_manifest.ordered w.orderly_manifest.ordered
        w.orderly_manifest.keyed]
      simpa only [uses, List.mem_append] using hboth

/-- A manifest records exactly what is added on its way. -/
theorem records_manifest (w : Making) : w.manifest.Records fun c r => (r, c) ∈ w.uses :=
  records_of_sumsAt w.orderly_manifest.ordered w.sumsAt_manifest

/-- Manifests are orderly whatever the way they are made, merging is a union, and the keys with their
sources and visibilities depend only on which references are added: not on their order, on how they are
grouped into manifests, or on how often they are added or merged in. -/
theorem orderly_and_isUnion_and_sameDemands :
    (∀ w : Making, w.manifest.Orderly) ∧
    (∀ v w : Making, (v.manifest.merge w.manifest).IsUnion v.manifest w.manifest) ∧
    ∀ v w : Making, (∀ use, use ∈ v.uses ↔ use ∈ w.uses) → v.manifest.SameDemands w.manifest := by
  refine ⟨orderly_manifest, fun v w => isUnion_merge v.orderly_manifest w.orderly_manifest, ?_⟩
  intro v w hsame
  have hrecords : v.manifest.Records fun c r => (r, c) ∈ w.uses := by
    simpa only [hsame] using v.records_manifest
  exact hrecords.sameDemands w.records_manifest v.orderly_manifest w.orderly_manifest

/-! ### A regrouped way -/

/-- Two references of one key with different targets, from two classes, added one by one. -/
def inOrder : Making :=
  (start.add (counterField true) .object).add (counterField false) .string

/-- The same references in manifests of their own, merged the other way round and repeated. -/
def regrouped : Making :=
  ((start.add (counterField false) .string).merge inOrder).merge
    (start.add (counterField true) .object)

/-- Both ways lead to the same demands, although not to the same targets. -/
theorem sameDemands_regrouped : (∀ use, use ∈ inOrder.uses ↔ use ∈ regrouped.uses) ∧
    inOrder.manifest.SameDemands regrouped.manifest ∧ inOrder.manifest ≠ regrouped.manifest := by
  have hsame : ∀ use, use ∈ inOrder.uses ↔ use ∈ regrouped.uses := by
    intro use
    simp only [inOrder, regrouped, uses, List.nil_append, List.mem_append, List.mem_singleton]
    tauto
  exact ⟨hsame, orderly_and_isUnion_and_sameDemands.2.2 inOrder regrouped hsame, by decide +kernel⟩

end Making

end Manifest

end Linkage
