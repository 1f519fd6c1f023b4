import Linkage.Proofs.ClassCodec
import Linkage.Proofs.RoundTrip
import Mathlib.Data.List.Induction

/-!
# Entries of manifests

What a manifest holds under a key after a list of demands has been recorded (`records_record`): there
is an entry exactly if a demand has the key. Its sources are the classes that make these demands, and
its visibility is the most permissive one among them.

So the manifest of a module holds its sites on external classes (`Instrumentation.records_collect`).

The keys of a manifest are in strictly ascending order (`Ordered`), so a look-up finds what was put
under its key (`get?_insert`).
-/

set_option autoImplicit false

namespace Linkage

open Fallible

/-! ## Sources -/

theorem BinaryName.eq_of_compare {a b : BinaryName} (h : compare a b = .eq) : a = b := by
  have htext : compare a.text b.text = .eq := h
  cases a
  cases b
  cases Std.compare_eq_iff_eq.1 htext
  rfl

theorem Ascending.mem_insert_iff {a c : BinaryName} {as : List BinaryName} :
    c ∈ insert a as ↔ c ∈ as ∨ c = a := by
  induction as with
  | nil => simp [insert]
  | cons b bs ih =>
      rw [insert]
      split
      · rw [List.mem_cons, or_comm]
      · rename_i hcompare
        rw [BinaryName.eq_of_compare hcompare, List.mem_cons, or_right_comm, or_self]
      · rw [List.mem_cons, ih, List.mem_cons, or_assoc]

theorem Ascending.mem_union_iff {c : BinaryName} {as bs : List BinaryName} :
    c ∈ union as bs ↔ c ∈ as ∨ c ∈ bs := by
  rw [union]
  induction bs generalizing as with
  | nil => simp
  | cons b bs ih => rw [List.foldl_cons, ih, mem_insert_iff, List.mem_cons, or_assoc]

namespace Manifest

/-! ## Keys in order -/

/-- The keys are in strictly ascending order. -/
def Ordered (m : Manifest) : Prop := m.rows.Pairwise fun a b => compare a.1 b.1 = .lt

variable {rows : List (String × Entry)} {key k : String} {e : Entry}

theorem key_of_mem_place {row : String × Entry} (h : row ∈ place key e rows) :
    row.1 = key ∨ ∃ row' ∈ rows, row'.1 = row.1 := by
  rcases place_cases key e rows with ⟨front, back, hrows, hplace⟩ | ⟨front, old, back, hrows, hplace⟩
  · rw [hplace, List.mem_append, List.mem_cons] at h
    rcases h with h | rfl | h
    · exact Or.inr ⟨row, by rw [hrows]; exact List.mem_append_left _ h, rfl⟩
    · exact Or.inl rfl
    · exact Or.inr ⟨row, by rw [hrows]; exact List.mem_append_right _ h, rfl⟩
  · rw [hplace, List.mem_append, List.mem_cons] at h
    rcases h with h | rfl | h
    · exact Or.inr ⟨row, by rw [hrows]; exact List.mem_append_left _ h, rfl⟩
    · exact Or.inl rfl
    · exact Or.inr ⟨row, by rw [hrows]; simp [h], rfl⟩

theorem pairwise_place (h : rows.Pairwise fun a b => compare a.1 b.1 = .lt) :
    (place key e rows).Pairwise fun a b => compare a.1 b.1 = .lt := by
  induction rows with
  | nil => simp [place]
  | cons row rows ih =>
      obtain ⟨hrow, hrows⟩ := List.pairwise_cons.1 h
      rw [place]
      split
      · rename_i hlt
        refine List.pairwise_cons.2 ⟨fun other hother => ?_, h⟩
        rcases List.mem_cons.1 hother with rfl | hother
        · exact hlt
        · exact Std.TransCmp.lt_trans hlt (hrow other hother)
      · exact List.pairwise_cons.2 ⟨hrow, hrows⟩
      · rename_i hgt
        refine List.pairwise_cons.2 ⟨fun other hother => ?_, ih hrows⟩
        have hlt : compare row.1 key = .lt := Std.OrientedCmp.gt_iff_lt.1 hgt
        rcases key_of_mem_place hother with hkey | ⟨row', hrow', hkey⟩
        · rwa [hkey]
        · rw [← hkey]
          exact hrow row' hrow'

theorem ordered_empty : Ordered empty := List.Pairwise.nil

theorem Ordered.insert {m : Manifest} (h : m.Ordered) (e : Entry) : (m.insert e).Ordered :=
  pairwise_place h

/-! ## Looking up -/

theorem get?_cons (row : String × Entry) :
    get? ⟨row :: rows⟩ k = if row.1 = k then some row.2 else get? ⟨rows⟩ k := by
  rw [get?, List.find?_cons]
  by_cases hkey : row.1 = k
  · simp [hkey]
  · simp [beq_eq_false_iff_ne.2 hkey, hkey, get?]

/-- Behind a greater key nothing is found. -/
theorem get?_eq_none_of_lt (h : ∀ row ∈ rows, compare k row.1 = .lt) : get? ⟨rows⟩ k = none := by
  have hnone : rows.find? (fun row => row.1 == k) = none := by
    refine List.find?_eq_none.2 fun row hrow hkey => ?_
    have hlt := h row hrow
    rw [eq_of_beq hkey, Std.compare_self] at hlt
    cases hlt
  rw [get?, hnone]
  rfl

/-- The entry of a key, joined with another one. -/
def joinAt (found : Option Entry) (e : Entry) : Entry :=
  match found with
  | some old => old.join e
  | none => e

theorem get?_place (h : rows.Pairwise fun a b => compare a.1 b.1 = .lt) :
    get? ⟨place key e rows⟩ k =
      if key = k then some (joinAt (get? ⟨rows⟩ k) e) else get? ⟨rows⟩ k := by
  induction rows with
  | nil =>
      rw [place, get?_cons]
      rfl
  | cons row rows ih =>
      obtain ⟨hrow, hrows⟩ := List.pairwise_cons.1 h
      rw [place]
      split
      · -- the key is in front of all others, so it has not been there
        rename_i hlt
        have hnone : get? ⟨row :: rows⟩ key = none := by
          refine get?_eq_none_of_lt fun other hother => ?_
          rcases List.mem_cons.1 hother with rfl | hother
          · exact hlt
          · exact Std.TransCmp.lt_trans hlt (hrow other hother)
        rw [get?_cons]
        by_cases hkey : key = k
        · rw [if_pos hkey, if_pos hkey, ← hkey, hnone]
          rfl
        · rw [if_neg hkey, if_neg hkey]
      · -- the entry is joined where it is
        rename_i heq
        have hkey : key = row.1 := Std.compare_eq_iff_eq.1 heq
        rw [get?_cons, get?_cons, hkey]
        by_cases hk : row.1 = k
        · rw [if_pos hk, if_pos hk, if_pos hk]
          rfl
        · rw [if_neg hk, if_neg hk, if_neg hk]
      · -- the first row is not the one of the key
        rename_i hgt
        rw [get?_cons, get?_cons, ih hrows]
        by_cases hk : row.1 = k
        · have hne : key ≠ k := by
            rintro rfl
            rw [hk, Std.compare_self] at hgt
            cases hgt
          rw [if_pos hk, if_pos hk, if_neg hne]
        · rw [if_neg hk, if_neg hk]

/-- One more entry joins the one of its key, and the other keys keep theirs. -/
theorem get?_insert {m : Manifest} (hm : m.Ordered) (e : Entry) (k : String) :
    (m.insert e).get? k = if e.reference.key = k then some (joinAt (m.get? k) e) else m.get? k :=
  get?_place hm

/-! ## Sums of demands -/

/-- The entry stands for the demands that have its key: its sources are the classes that make them,
and its visibility is the greatest one that is demanded. -/
structure Entry.Sums (entry : Entry) (key : String) (demanded : BinaryName → Reference → Prop) :
    Prop where
  key_eq : entry.reference.key = key
  sources : ∀ c, c ∈ entry.sources ↔ ∃ r, demanded c r ∧ r.key = key
  attained : ∃ c r, demanded c r ∧ r.key = key ∧ r.visibility = entry.reference.visibility
  greatest : ∀ c r, demanded c r → r.key = key →
    r.visibility.rank ≤ entry.reference.visibility.rank

/-- The manifest has one entry for each key that is demanded, and no other ones, and the entries stand
for the demands. -/
structure Records (m : Manifest) (demanded : BinaryName → Reference → Prop) : Prop where
  ordered : m.Ordered
  found_iff : ∀ key, (∃ entry, m.get? key = some entry) ↔ ∃ c r, demanded c r ∧ r.key = key
  sums : ∀ key entry, m.get? key = some entry → entry.Sums key demanded

section Demands

variable {demanded p q : BinaryName → Reference → Prop} {found : Option Entry} {c : BinaryName}
  {r : Reference}

/-- A demand makes an entry of its own. -/
theorem Entry.sums_single (c : BinaryName) (r : Reference) :
    Sums ⟨r, [c]⟩ r.key fun c' r' => c' = c ∧ r' = r where
  key_eq := rfl
  sources := by
    intro c'
    rw [List.mem_singleton]
    exact ⟨fun hc => ⟨r, ⟨hc, rfl⟩, rfl⟩, fun ⟨_, ⟨hc, _⟩, _⟩ => hc⟩
  attained := ⟨c, r, ⟨rfl, rfl⟩, rfl, rfl⟩
  greatest := by
    rintro c' r' ⟨-, rfl⟩ -
    exact Nat.le_refl _

/-- Only demands of the key count. -/
theorem Entry.Sums.congr {entry : Entry} (h : entry.Sums key p)
    (hsame : ∀ c r, r.key = key → (p c r ↔ q c r)) : entry.Sums key q where
  key_eq := h.key_eq
  sources := by
    intro c
    rw [h.sources]
    exact exists_congr fun r => and_congr_left (hsame c r)
  attained := by
    obtain ⟨c, r, hp, hkey, hvisibility⟩ := h.attained
    exact ⟨c, r, (hsame c r hkey).1 hp, hkey, hvisibility⟩
  greatest := fun c r hq hkey => h.greatest c r ((hsame c r hkey).2 hq) hkey

/-- Two entries of one key, joined, stand for the demands of both. -/
theorem Entry.Sums.join {a b : Entry} (ha : a.Sums key p) (hb : b.Sums key q) :
    (a.join b).Sums key fun c r => p c r ∨ q c r where
  key_eq := (Reference.key_join a.reference b.reference).trans ha.key_eq
  sources := by
    intro c
    rw [Entry.join, Ascending.mem_union_iff, ha.sources, hb.sources, ← exists_or]
    exact exists_congr fun r => or_and_right.symm
  attained := by
    -- the greater one of the two visibilities is that of a demand
    rcases Visibility.max_eq_or a.reference.visibility b.reference.visibility with
      ⟨hmax, -⟩ | ⟨hmax, -⟩
    · obtain ⟨c, r, hp, hkey, hvisibility⟩ := ha.attained
      exact ⟨c, r, Or.inl hp, hkey, hvisibility.trans hmax.symm⟩
    · obtain ⟨c, r, hq, hkey, hvisibility⟩ := hb.attained
      exact ⟨c, r, Or.inr hq, hkey, hvisibility.trans hmax.symm⟩
  greatest := by
    intro c r hdemanded hkey
    change r.visibility.rank ≤ (a.reference.visibility.max b.reference.visibility).rank
    rw [Visibility.rank_max]
    rcases hdemanded with hp | hq
    · exact Nat.le_trans (ha.greatest c r hp hkey) (Nat.le_max_left _ _)
    · exact Nat.le_trans (hb.greatest c r hq hkey) (Nat.le_max_right _ _)

/-- What is found under the key stands for the demands that have it. -/
def SumsAt (found : Option Entry) (key : String) (demanded : BinaryName → Reference → Prop) : Prop :=
  match found with
  | some entry => entry.Sums key demanded
  | none => ∀ c r, demanded c r → r.key ≠ key

theorem SumsAt.congr (h : SumsAt found key p) (hsame : ∀ c r, r.key = key → (p c r ↔ q c r)) :
    SumsAt found key q := by
  cases found with
  | none => exact fun c r hq hkey => h c r ((hsame c r hkey).2 hq) hkey
  | some entry => exact Entry.Sums.congr h hsame

/-- One more demand, besides the others. -/
def OneMore (demanded : BinaryName → Reference → Prop) (c : BinaryName) (r : Reference) :
    BinaryName → Reference → Prop :=
  fun c' r' => demanded c' r' ∨ c' = c ∧ r' = r

/-- A demand of the key joins those that were there. -/
theorem SumsAt.joinAt (h : SumsAt found key demanded) (hkey : r.key = key) :
    (joinAt found ⟨r, [c]⟩).Sums key (OneMore demanded c r) := by
  subst hkey
  cases found with
  | none => exact (Entry.sums_single c r).congr fun c' r' hkey' =>
      ⟨Or.inr, fun hmore => hmore.resolve_left fun hdemanded => h c' r' hdemanded hkey'⟩
  | some old => exact Entry.Sums.join h (Entry.sums_single c r)

/-- A demand of another key makes no difference. -/
theorem SumsAt.oneMore (h : SumsAt found key demanded) (hkey : r.key ≠ key) :
    SumsAt found key (OneMore demanded c r) := by
  refine h.congr fun c' r' hkey' => ⟨Or.inl, fun hmore => hmore.resolve_right ?_⟩
  rintro ⟨-, rfl⟩
  exact hkey hkey'

/-- One more demand in a manifest is one more under each key. -/
theorem SumsAt.insert {m : Manifest} (hm : m.Ordered) (h : SumsAt (m.get? key) key demanded) :
    SumsAt ((m.insert ⟨r, [c]⟩).get? key) key (OneMore demanded c r) := by
  rw [get?_insert hm]
  split
  · rename_i hkey
    exact h.joinAt hkey
  · rename_i hkey
    exact h.oneMore hkey

end Demands

theorem record_concat (uses : List (Reference × BinaryName)) (use : Reference × BinaryName) :
    record (uses ++ [use]) = (record uses).insert ⟨use.1, [use.2]⟩ := by
  rw [record, List.foldl_append]
  rfl

theorem ordered_record (uses : List (Reference × BinaryName)) : (record uses).Ordered := by
  induction uses using List.reverseRecOn with
  | nil => exact ordered_empty
  | append_singleton uses use ih =>
      rw [record_concat]
      exact ih.insert ⟨use.1, [use.2]⟩

theorem sumsAt_record (uses : List (Reference × BinaryName)) (key : String) :
    SumsAt ((record uses).get? key) key fun c r => (r, c) ∈ uses := by
  -- by induction from the end of the list, where the next use is recorded
  induction uses using List.reverseRecOn with
  | nil =>
      intro c r hmem
      cases hmem
  | append_singleton uses use ih =>
      have hmore : (fun c r => (r, c) ∈ uses ++ [use]) =
          OneMore (fun c r => (r, c) ∈ uses) use.2 use.1 := by
        funext c r
        rw [OneMore, List.mem_append, List.mem_singleton, Prod.ext_iff, and_comm (a := r = use.1)]
      rw [hmore, record_concat]
      exact ih.insert (ordered_record uses)

/-- An ordered manifest records the demands if what it holds under each key stands for those of the
key. -/
theorem records_of_sumsAt {m : Manifest} {demanded : BinaryName → Reference → Prop}
    (hordered : m.Ordered) (hall : ∀ key, SumsAt (m.get? key) key demanded) :
    m.Records demanded where
  ordered := hordered
  found_iff := by
    intro key
    have hsums := hall key
    cases hfound : m.get? key with
    | none =>
        rw [hfound] at hsums
        constructor
        · rintro ⟨entry, hentry⟩
          cases hentry
        · rintro ⟨c, r, hdemanded, hkey⟩
          exact absurd hkey (hsums c r hdemanded)
    | some entry =>
        rw [hfound] at hsums
        obtain ⟨c, r, hdemanded, hkey, -⟩ := Entry.Sums.attained hsums
        exact ⟨fun _ => ⟨c, r, hdemanded, hkey⟩, fun _ => ⟨entry, rfl⟩⟩
  sums := by
    intro key entry hfound
    have hsums := hall key
    rw [hfound] at hsums
    exact hsums

/-- A record has exactly the demands of its list. -/
theorem records_record (uses : List (Reference × BinaryName)) :
    (record uses).Records fun c r => (r, c) ∈ uses :=
  records_of_sumsAt (ordered_record uses) (sumsAt_record uses)

end Manifest

/-! ## Manifests of modules -/

namespace Instrumentation

variable {m : Instrumentation} {e : Environment} {own : OwnClasses} {manifest : Manifest}

/-- The manifest of a module records its external sites, and nothing else: there is an entry for each
key that one of these sites has, with the classes that have such a site and the greatest visibility
that one of them demands. -/
theorem records_collect (hown : OwnClasses.ofClassFiles m.classes = .ok own)
    (hcollect : m.collect e = .ok manifest) :
    manifest.Records (m.ExternalSite e own (MemberSite.Leaves · own)) := by
  obtain ⟨demands, hdemands, rfl⟩ := collect_eq_ok_iff.1 hcollect
  have hsites : (fun self r => (r, self) ∈ demands) =
      m.ExternalSite e own (MemberSite.Leaves · own) := by
    funext self r
    exact propext (mem_demands_iff hown hdemands)
  rw [← hsites]
  exact Manifest.records_record demands

end Instrumentation

theorem Greeting.records_agent : ∃ own, OwnClasses.ofClassFiles agent.classes = .ok own ∧
    agent.collect .standard = .ok (.record demands) ∧
      (Manifest.record demands).Records
        (agent.ExternalSite .standard own (MemberSite.Leaves · own)) := by
  obtain ⟨own, hown, -⟩ := bind_eq_ok_iff.1 demands_agent
  exact ⟨own, hown, collect_agent, Instrumentation.records_collect hown collect_agent⟩

/-! ## A descriptor that is not counted -/

namespace Helping

def callerName : BinaryName := ⟨"agent/Caller", Greeting.callerName.valid⟩

def helperName : BinaryName := ⟨"agent/Helper", rfl⟩

def clientName : BinaryName := ⟨"lib/Client", rfl⟩

/-- Method with a body in one attribute, which calls the method at index 10 and returns. -/
def callerMethod : Method where
  flags := .ofBits 1
  name := 11
  descriptor := 12
  attributes := [⟨13, [0, 1, 0, 1, 0, 0, 0, 4, 0xb8, 0, 10, 0xb1, 0, 0, 0, 0]⟩]

/-- Class file of a class that calls a static method of another own class. -/
def callerFile : ClassFile where
  minorVersion := 0
  majorVersion := 52
  pool := .ofConstants [.utf8 "agent/Caller", .classInfo 1, .utf8 "java/lang/Object", .classInfo 3,
    .utf8 "agent/Helper", .classInfo 5, .utf8 "use", .utf8 "(Llib/Client;)V", .nameAndType 7 8,
    .methodRef 6 9 false, .utf8 "run", .utf8 "()V", .utf8 "Code"]
  flags := .ofBits 0x21
  thisClass := 2
  superClass := some 4
  interfaces := []
  fields := []
  methods := [callerMethod]
  attributes := []

/-- Class file of the class with that method, which takes an object of a class of the library. -/
def helperFile : ClassFile where
  minorVersion := 0
  majorVersion := 52
  pool := .ofConstants [.utf8 "agent/Helper", .classInfo 1, .utf8 "java/lang/Object", .classInfo 3,
    .utf8 "use", .utf8 "(Llib/Client;)V"]
  flags := .ofBits 0x21
  thisClass := 2
  superClass := some 4
  interfaces := []
  fields := []
  methods := [⟨.ofBits 0x109, 5, 6, []⟩]
  attributes := []

/-- Module of the two classes. -/
def agent : Instrumentation := ⟨"agent", [callerFile, helperFile]⟩

def own : OwnClasses :=
  ⟨[(helperName, ⟨some .object, [("use", "(Llib/Client;)V")]⟩),
    (callerName, ⟨some .object, [("run", "()V")]⟩)]⟩

/-- Demand of the declaration of the method. -/
def demands : List (Reference × BinaryName) := [(⟨.classOf clientName, .privateAccess⟩, helperName)]

theorem ofClassFiles_agent : OwnClasses.ofClassFiles agent.classes = .ok own := by
  decide +kernel

theorem demands_agent : agent.demands .standard = .ok demands := by
  decide +kernel

theorem collect_agent : agent.collect .standard = .ok (.record demands) :=
  Instrumentation.collect_eq_ok_iff.2 ⟨demands, demands_agent, rfl⟩

/-- The call of the method. -/
def call : MemberSite :=
  ⟨⟨"agent/Helper", "use", "(Llib/Client;)V", .method false⟩, true, false⟩

theorem asks_call : callerFile.Asks call := by
  have hbody : callerMethod.body? callerFile.pool =
      .ok (some ⟨1, 1, [0xb8, 0, 10, 0xb1], [], []⟩) := by decide +kernel
  have hcode : Disassembly.ofCode [0xb8, 0, 10, 0xb1] =
      ⟨[(0, .invoke .static 10), (3, .other 0xb1 [])], none⟩ := by decide +kernel
  refine ⟨callerMethod, List.mem_singleton_self _, _, hbody, (0, .invoke .static 10), ?_, 10, rfl, ?_⟩
  · rw [hcode]
    exact List.mem_cons_self
  · decide +kernel

/-- The class that calls the method does not count as a source of the class in its descriptor. -/
theorem not_records_agent : OwnClasses.ofClassFiles agent.classes = .ok own ∧
    agent.collect .standard = .ok (.record demands) ∧
      ¬ (Manifest.record demands).Records
        (agent.ExternalSite .standard own fun s => ¬ s.IsOnArray) := by
  refine ⟨ofClassFiles_agent, collect_agent, fun hrecords => ?_⟩
  have hmentions : call.Mentions clientName :=
    ⟨⟨[.reference (.object clientName)], none⟩, by decide +kernel, by decide⟩
  have hsite : agent.ExternalSite .standard own (fun s => ¬ s.IsOnArray) callerName
      ⟨.classOf clientName, .privateAccess⟩ :=
    ⟨by decide +kernel, callerFile, List.mem_cons_self, ⟨"agent/Caller", by decide +kernel,
      by decide +kernel⟩, .mentioned (.member asks_call (by decide +kernel) hmentions)⟩
  have hfound : (Manifest.record demands).get? "lib/Client" =
      some ⟨⟨.classOf clientName, .privateAccess⟩, [helperName]⟩ := by decide +kernel
  have hsums := hrecords.sums "lib/Client" _ hfound
  have hsource := (hsums.sources callerName).2 ⟨_, hsite, rfl⟩
  exact absurd hsource (by decide)

end Helping

end Linkage
