import Linkage.ClassFile.Reader
import Linkage.Proofs.Fallible

/-!
# Readers and what they read

Two properties of readers, each of which goes through all the ways in which readers are put together.

* `Reads read bytes a`: from a list that begins with the bytes, the reader takes these bytes and makes
  the value of them. It is what a writer promises of its bytes, whatever comes after them.
* `Yields read p`: whatever the reader makes has the property.
-/

set_option autoImplicit false

namespace Linkage.ClassReader

open Fallible

variable {α β γ : Type} {read : ClassReader α} {next : α → ClassReader β}
  {next' : β → ClassReader γ} {a : α} {b : β} {c : γ} {bs bs' : List UInt8} {f : α → β}

/-! ## Bytes of a value -/

/-- The reader takes the bytes off the front of every list that begins with them, and makes the value
of them. -/
def Reads (read : ClassReader α) (bytes : List UInt8) (a : α) : Prop :=
  ∀ rest, read (bytes ++ rest) = .ok (a, rest)

theorem Reads.bind (h : Reads read bs a) (hnext : Reads (next a) bs' b) :
    Reads (read >>= next) (bs ++ bs') b := by
  intro rest
  rw [List.append_assoc]
  exact bind_eq_ok_iff.2 ⟨(a, bs' ++ rest), h (bs' ++ rest), hnext rest⟩

/-- What is made of the last value takes no more bytes. -/
theorem Reads.map (h : Reads read bs a) : Reads (read >>= fun a => pure (f a)) bs (f a) :=
  fun rest => bind_eq_ok_iff.2 ⟨(a, rest), h rest, rfl⟩

/-- What is read after the value. -/
theorem Reads.of_bind {rest rest' : List UInt8} (h : Reads read bs a)
    (hbind : (read >>= next) (bs ++ rest) = .ok (b, rest')) : next a rest = .ok (b, rest') := by
  obtain ⟨⟨a', bs''⟩, ha, hb⟩ := bind_eq_ok_iff.1 hbind
  rw [h rest] at ha
  cases ha
  exact hb

/-- Bytes after the value are dropped. -/
theorem fst_eq_ok_iff {x : Except ClassError (α × List UInt8)} :
    Prod.fst <$> x = .ok a ↔ ∃ rest, x = .ok (a, rest) := by
  cases x with
  | error e => simp
  | ok result => simp [Prod.ext_iff]

/-- A value that takes two readers, and what is read after it. -/
theorem Reads.bind_bind (h : Reads (read >>= next) bs b) (hlast : Reads (next' b) bs' c) :
    Reads (read >>= fun a => next a >>= next') (bs ++ bs') c := by
  rw [← bind_assoc]
  exact h.bind hlast

/-- A value that takes two readers, and what is made of it. -/
theorem Reads.bind_map (h : Reads (read >>= next) bs b) (hlast : next' b = pure c) :
    Reads (read >>= fun a => next a >>= next') bs c := by
  have hpure : Reads (next' b) [] c := fun rest => by rw [hlast]; rfl
  simpa using h.bind_bind hpure

theorem reads_take (bs : List UInt8) : Reads (take bs.length) bs bs := by
  intro rest
  simp [take]

theorem reads_u8 (b : UInt8) : Reads u8 [b] b := fun _ => rfl

theorem reads_bigEndian {width count : Nat} (hwidth : width = count) (make : Nat → α) (n : Nat) :
    Reads (take count >>= fun bs => pure (make (ofBigEndian bs))) (bigEndian width n)
      (make (n % byteRange width)) := by
  have hread : Reads (take count) (bigEndian width n) (bigEndian width n) := by
    subst hwidth
    have htake := reads_take (bigEndian width n)
    rwa [length_bigEndian] at htake
  rw [← ofBigEndian_bigEndian width n]
  exact hread.map

/-- Only the low sixteen bits of a number are read. -/
theorem reads_u16_bigEndian (n : Nat) : Reads u16 (bigEndian 2 n) (UInt16.ofNat (n % 0x10000)) :=
  reads_bigEndian rfl UInt16.ofNat n

theorem reads_u16 (n : UInt16) : Reads u16 (ClassWriter.u16 n) n := by
  have hread := reads_u16_bigEndian n.toNat
  rwa [Nat.mod_eq_of_lt n.toNat_lt, UInt16.ofNat_toNat] at hread

/-- Only the low 32 bits of a number are read. -/
theorem reads_u32_bigEndian (n : Nat) :
    Reads u32 (bigEndian 4 n) (UInt32.ofNat (n % 0x100000000)) :=
  reads_bigEndian rfl UInt32.ofNat n

theorem reads_u32 (n : UInt32) : Reads u32 (ClassWriter.u32 n) n := by
  have hread := reads_u32_bigEndian n.toNat
  rwa [Nat.mod_eq_of_lt n.toNat_lt, UInt32.ofNat_toNat] at hread

theorem reads_u64 (n : UInt64) : Reads u64 (ClassWriter.u64 n) n := by
  have hread : Reads u64 (bigEndian 8 n.toNat) (UInt64.ofNat (n.toNat % 0x10000000000000000)) :=
    reads_bigEndian rfl UInt64.ofNat n.toNat
  rwa [Nat.mod_eq_of_lt n.toNat_lt, UInt64.ofNat_toNat] at hread

/-- Greatest length of a list with its length in two bytes. -/
def maxLength : Nat := 0xffff

/-- One more than the greatest number of bytes with their number in four bytes. -/
def byteLimit : Nat := 0x100000000

/-- The length of a list has room in two bytes, and its elements have a property. -/
def ListFits (p : α → Prop) (xs : List α) : Prop := xs.length ≤ maxLength ∧ ∀ x ∈ xs, p x

/-- The number of bytes in two bytes of its own, and then the bytes. -/
theorem reads_shortBytes (h : bs.length ≤ maxLength) :
    Reads (u16 >>= fun count => take count.toNat) (bigEndian 2 bs.length ++ bs) bs := by
  have hlt : bs.length < 0x10000 := Nat.lt_succ_of_le h
  have hcount : (UInt16.ofNat (bs.length % 0x10000)).toNat = bs.length := by
    rw [Nat.mod_eq_of_lt hlt, UInt16.toNat_ofNat_of_lt' hlt]
  refine (reads_u16_bigEndian bs.length).bind ?_
  rw [hcount]
  exact reads_take bs

/-- The number of bytes in four bytes of its own, and then the bytes. -/
theorem reads_longBytes (h : bs.length < byteLimit) :
    Reads (u32 >>= fun count => take count.toNat) (bigEndian 4 bs.length ++ bs) bs := by
  have hcount : (UInt32.ofNat (bs.length % 0x100000000)).toNat = bs.length := by
    rw [Nat.mod_eq_of_lt (b := 0x100000000) h, UInt32.toNat_ofNat_of_lt' h]
  refine (reads_u32_bigEndian bs.length).bind ?_
  rw [hcount]
  exact reads_take bs

theorem timesAfter_flatMap {write : α → List UInt8} {xs : List α}
    (hread : ∀ x ∈ xs, Reads read (write x) x) (done : List α) (rest : List UInt8) :
    timesAfter read xs.length done (xs.flatMap write ++ rest) = .ok (done.reverse ++ xs, rest) := by
  induction xs generalizing done with
  | nil => simp [timesAfter]
  | cons x xs ih =>
      obtain ⟨hx, hxs⟩ := List.forall_mem_cons.1 hread
      rw [List.flatMap_cons, List.append_assoc, List.length_cons, timesAfter, hx]
      simpa using ih hxs (x :: done)

/-- A list is read if its elements are and its length has room in two bytes. -/
theorem reads_list {p : α → Prop} {write : α → List UInt8} {xs : List α} (hfits : ListFits p xs)
    (hread : ∀ x, p x → Reads read (write x) x) :
    Reads (list read) (ClassWriter.list write xs) xs := by
  have hlt : xs.length < 0x10000 := Nat.lt_succ_of_le hfits.1
  have hcount : (UInt16.ofNat (xs.length % 0x10000)).toNat = xs.length := by
    rw [Nat.mod_eq_of_lt hlt, UInt16.toNat_ofNat_of_lt' hlt]
  refine (reads_u16_bigEndian xs.length).bind ?_
  rw [hcount]
  exact fun rest => timesAfter_flatMap (fun x hx => hread x (hfits.2 x hx)) [] rest

/-- A missing index is written as zero, so zero is no index. -/
theorem reads_optionalIndex {index : Option PoolIndex} (h : index ≠ some 0) :
    Reads optionalIndex (ClassWriter.optionalIndex index) index := by
  cases index with
  | none => -- zero is read, which stands for no index
      exact (reads_u16 0).map (f := fun i => if i = 0 then none else some i)
  | some i =>
      have hne : i ≠ 0 := fun hzero => h (congrArg some hzero)
      have hread := (reads_u16 i).map (f := fun i => if i = 0 then none else some i)
      rwa [if_neg hne] at hread

/-! ## Properties of what is read -/

/-- Whatever the reader makes has the property. -/
def Yields (read : ClassReader α) (p : α → Prop) : Prop :=
  ∀ bs a rest, read bs = .ok (a, rest) → p a

variable {p : α → Prop} {q : β → Prop}

theorem yields_pure (h : p a) : Yields (pure a) p := by
  intro bs a' rest hread
  cases hread
  exact h

theorem Yields.bind (h : Yields read p) (hnext : ∀ a, p a → Yields (next a) q) :
    Yields (read >>= next) q := by
  intro bs b rest hread
  obtain ⟨⟨a, bs'⟩, ha, hb⟩ := bind_eq_ok_iff.1 hread
  exact hnext a (h bs a bs' ha) bs' b rest hb

theorem Yields.mono {p' : α → Prop} (h : Yields read p) (himp : ∀ a, p a → p' a) :
    Yields read p' :=
  fun bs a rest hread => himp a (h bs a rest hread)

/-- The first value, beside what is made after it. -/
theorem exists_of_bind {r : α → β → Prop} {rest : List UInt8} (hnext : ∀ a, Yields (next a) (r a))
    (h : (read >>= next) bs = .ok (b, rest)) : ∃ a bs', read bs = .ok (a, bs') ∧ r a b := by
  obtain ⟨⟨a, bs'⟩, ha, hb⟩ := bind_eq_ok_iff.1 h
  exact ⟨a, bs', ha, hnext a bs' b rest hb⟩

/-- A value that takes two readers, and what is read after it. -/
theorem Yields.bind_bind {r : γ → Prop} (h : Yields (read >>= next) q)
    (hnext : ∀ b, q b → Yields (next' b) r) :
    Yields (read >>= fun a => next a >>= next') r := by
  rw [← bind_assoc]
  exact h.bind hnext

theorem yields_true (read : ClassReader α) : Yields read fun _ => True :=
  fun _ _ _ _ => trivial

/-- Any reader comes in front, whatever it makes. -/
theorem yields_bind (hnext : ∀ a, Yields (next a) q) : Yields (read >>= next) q :=
  (yields_true read).bind fun a _ => hnext a

theorem yields_throw {e : ClassError} : Yields (throw e) p := by
  intro bs a rest hread
  cases hread

theorem yields_take (count : Nat) : Yields (take count) fun bs => bs.length = count := by
  intro bs taken rest hread
  simp only [take] at hread
  split at hread
  · rename_i hlength
    rw [Except.ok.inj hread] at hlength
    exact hlength
  · cases hread

theorem yields_shortBytes :
    Yields (u16 >>= fun count => take count.toNat) fun bs => bs.length ≤ maxLength := by
  refine yields_bind fun count => ?_
  -- so many bytes are taken as the two bytes in front say
  intro bs taken rest hread
  rw [yields_take count.toNat bs taken rest hread]
  exact Nat.le_of_lt_succ count.toNat_lt

theorem yields_longBytes :
    Yields (u32 >>= fun count => take count.toNat) fun bs => bs.length < byteLimit := by
  refine yields_bind fun count => ?_
  intro bs taken rest hread
  rw [yields_take count.toNat bs taken rest hread]
  exact count.toNat_lt

theorem timesAfter_yields (hread : Yields read p) (count : Nat) :
    ∀ (done xs : List α) (bs rest : List UInt8), (∀ x ∈ done, p x) →
      timesAfter read count done bs = .ok (xs, rest) →
        (∀ x ∈ xs, p x) ∧ xs.length = done.length + count := by
  induction count with
  | zero =>
      intro done xs bs rest hdone h
      cases h
      simpa using hdone
  | succ count ih =>
      intro done xs bs rest hdone h
      rw [timesAfter] at h
      split at h
      · cases h
      · rename_i x bs' hx
        obtain ⟨hxs, hlength⟩ := ih (x :: done) xs bs' rest
          (List.forall_mem_cons.2 ⟨hread bs x bs' hx, hdone⟩) h
        exact ⟨hxs, by rw [hlength, List.length_cons, Nat.add_assoc, Nat.add_comm 1]⟩

/-- A list that is read is no longer than its length in two bytes can tell. -/
theorem yields_list (hread : Yields read p) : Yields (list read) (ListFits p) := by
  refine yields_bind fun count => ?_
  intro bs xs rest h
  obtain ⟨hxs, hlength⟩ :=
    timesAfter_yields hread count.toNat [] xs bs rest (fun _ hx => absurd hx List.not_mem_nil) h
  refine ⟨?_, hxs⟩
  rw [hlength, List.length_nil, Nat.zero_add]
  exact Nat.le_of_lt_succ count.toNat_lt

theorem yields_optionalIndex : Yields optionalIndex fun index => index ≠ some 0 := by
  refine yields_bind fun index => yields_pure ?_
  split
  · exact nofun
  · rename_i hne
    exact fun hzero => hne (Option.some.inj hzero)

end Linkage.ClassReader
