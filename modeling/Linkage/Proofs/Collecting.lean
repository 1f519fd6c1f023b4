import Linkage.Proofs.OwnWalks
import Linkage.Proofs.Sites

/-!
# Where demands come from

A module demands what its sites ask for, apart from what an own class or the environment provides
(`mem_demands_iff`).

`demand_cases` says of every demand of a module that neither an own class nor the environment provides
it, and that it is on a class or on the member of an instruction, at the class where linking begins.
-/

set_option autoImplicit false

namespace Linkage

open Fallible

/-! ## What modules ask for -/

namespace Instrumentation

/-- An instruction of the module asks for the member. -/
def Asks (m : Instrumentation) (s : MemberSite) : Prop := ∃ c ∈ m.classes, c.Asks s

/-- An instruction of the module asks for the target as it stands. -/
def AsksFor (m : Instrumentation) (t : Target) : Prop :=
  ∃ s, m.Asks s ∧ s.namedOwner = .ok t.owner ∧ s.targetAt t.owner = .ok t

end Instrumentation

/-- The target is a class. -/
def Target.IsClass (t : Target) : Prop := ∃ name, t = .classOf name

/-- Sites of a module on classes that neither an own class nor the environment provides, with the
classes that have them. -/
def Instrumentation.ExternalSite (m : Instrumentation) (e : Environment) (own : OwnClasses)
    (counted : MemberSite → Prop) (self : BinaryName) (r : Reference) : Prop :=
  e.isExternal own r.owner = true ∧
    ∃ c ∈ m.classes, c.HasName self ∧ c.Site own counted self r

/-! ## Demands of a module -/

/-- Referrers have the name, the pool and the superclasses of their class files. -/
theorem ClassFile.ofClassFile_eq_ok_iff {c : ClassFile} {own : OwnClasses} {r : Referrer} :
    Referrer.ofClassFile own c = .ok r ↔ ∃ self, c.HasName self ∧ r = c.referrer own self := by
  constructor
  · intro h
    obtain ⟨text, htext, h⟩ := bind_eq_ok_iff.1 h
    obtain ⟨self, hself, hpure⟩ := bind_eq_ok_iff.1 h
    exact ⟨self, ⟨text, htext, hself⟩, (pure_eq_ok_iff.1 hpure).symm⟩
  · rintro ⟨self, ⟨text, htext, hself⟩, rfl⟩
    exact bind_eq_ok_iff.2 ⟨text, htext, bind_eq_ok_iff.2 ⟨self, hself, rfl⟩⟩

namespace Instrumentation

variable {m : Instrumentation} {e : Environment} {own : OwnClasses}
  {demands : List (Reference × BinaryName)} {c : ClassFile} {self : BinaryName} {r : Reference}

theorem mem_demandsOf_iff (h : demandsOf e own c = .ok demands) :
    (r, self) ∈ demands ↔ e.isExternal own r.owner = true ∧ c.HasName self ∧
      c.Site own (MemberSite.Leaves · own) self r := by
  obtain ⟨referrer, hreferrer, h⟩ := bind_eq_ok_iff.1 h
  obtain ⟨uses, huses, hpure⟩ := bind_eq_ok_iff.1 h
  obtain rfl := pure_eq_ok_iff.1 hpure
  obtain ⟨name, hname, rfl⟩ := ClassFile.ofClassFile_eq_ok_iff.1 hreferrer
  rw [List.mem_map]
  constructor
  · rintro ⟨use, huse, heq⟩
    cases heq
    obtain ⟨huse, hexternal⟩ := List.mem_filter.1 huse
    exact ⟨hexternal, hname, (ClassFile.mem_uses_iff_site huses).1 huse⟩
  · rintro ⟨hexternal, hself, hsite⟩
    rw [hself.eq hname] at hsite ⊢
    exact ⟨r, List.mem_filter.2 ⟨(ClassFile.mem_uses_iff_site huses).2 hsite, hexternal⟩, rfl⟩

theorem mem_demands_iff (hown : OwnClasses.ofClassFiles m.classes = .ok own)
    (h : m.demands e = .ok demands) :
    (r, self) ∈ demands ↔ m.ExternalSite e own (MemberSite.Leaves · own) self r := by
  obtain ⟨own', hown', h⟩ := bind_eq_ok_iff.1 h
  rw [hown] at hown'
  cases hown'
  obtain ⟨lists, hlists, hpure⟩ := bind_eq_ok_iff.1 h
  obtain rfl := pure_eq_ok_iff.1 hpure
  rw [mem_flatten_iff_of_mapM hlists fun c _ _ hdemands => mem_demandsOf_iff hdemands, ExternalSite]
  constructor
  · rintro ⟨c, hc, hexternal, hself, hsite⟩
    exact ⟨hexternal, c, hc, hself, hsite⟩
  · rintro ⟨hexternal, c, hc, hself, hsite⟩
    exact ⟨c, hc, hexternal, hself, hsite⟩

/-- A demand of a module is external. It is on a class, or it comes from an instruction that asks for
the member, at the class where linking begins. -/
theorem demand_cases {demand : Reference × BinaryName}
    (hown : OwnClasses.ofClassFiles m.classes = .ok own) (h : m.demands e = .ok demands)
    (hdemand : demand ∈ demands) :
    e.isExternal own demand.1.owner = true ∧
      (demand.1.target.IsClass ∨
        ∃ s named owner, m.Asks s ∧ s.namedOwner = .ok named ∧
          s.linkOwner? own named = some owner ∧ s.targetAt owner = .ok demand.1.target) := by
  obtain ⟨hexternal, c, hc, -, hsite⟩ := (mem_demands_iff hown h).1 hdemand
  refine ⟨hexternal, ?_⟩
  generalize demand.1 = r at hsite
  cases hsite with
  | named _ _ _ => exact Or.inl ⟨_, rfl⟩
  | mentioned _ => exact Or.inl ⟨_, rfl⟩
  | member hasks howner htarget _ =>
      obtain ⟨-, named, hnamed, hlinks⟩ := howner
      exact Or.inr ⟨_, named, _, ⟨c, hc, hasks⟩, hnamed, OwnClasses.linkOwner?_eq_some_iff.2 hlinks,
        htarget⟩

end Instrumentation

end Linkage
