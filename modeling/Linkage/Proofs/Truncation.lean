import Linkage.Proofs.ClassCodec

/-!
# Truncated class files

A class file ends where its reader stops: what comes after the last byte that it takes makes no
difference, and every shorter part of the bytes is a class file cut short, which is a fault of its own
(`ClassFile.parse_of_front`). This holds of a reader that makes its values of the bytes that it takes
(`ClassReader.Metered`), and goes through all the ways in which readers are put together: a reader that
comes to the end of its input does so before it looks at anything that it has read.
-/

set_option autoImplicit false

namespace Linkage

open Fallible

namespace ClassReader

variable {α β : Type} {read : ClassReader α} {next : α → ClassReader β} {a : α} {b : β}
  {bs bs' rest : List UInt8}

/-- The bytes are what the reader takes to make the value: what comes after them is left, and with
fewer of them the input ends too early. -/
structure Takes (read : ClassReader α) (bytes : List UInt8) (a : α) : Prop where
  reads : Reads read bytes a
  ends : ∀ m < bytes.length, read (bytes.take m) = .error .endOfInput

/-- Every value is made of the bytes that the reader takes for it. -/
def Metered (read : ClassReader α) : Prop :=
  ∀ bs a rest, read bs = .ok (a, rest) → ∃ bytes, bs = bytes ++ rest ∧ Takes read bytes a

/-- The input ends in the first reader or, after its bytes, in the second one. -/
theorem Takes.bind (h : Takes read bs a) (hnext : Takes (next a) bs' b) :
    Takes (read >>= next) (bs ++ bs') b where
  reads := h.reads.bind hnext.reads
  ends := by
    intro m hm
    rw [List.length_append] at hm
    by_cases hfirst : m < bs.length
    · have hread := h.ends m hfirst
      rw [List.take_append_of_le_length (Nat.le_of_lt hfirst)]
      show (read (bs.take m) >>= fun result => next result.1 result.2) = _
      rw [hread]
      rfl
    · have htake : (bs ++ bs').take m = bs ++ bs'.take (m - bs.length) := by
        rw [List.take_append, List.take_of_length_le (by omega)]
      have hread := h.reads (bs'.take (m - bs.length))
      rw [htake]
      show (read (bs ++ bs'.take (m - bs.length)) >>= fun result => next result.1 result.2) = _
      rw [hread]
      exact hnext.ends (m - bs.length) (by omega)

theorem metered_pure (a : α) : Metered (pure a) := by
  intro bs a' rest h
  cases h
  refine ⟨[], rfl, fun _ => rfl, ?_⟩
  intro m hm
  cases hm

theorem metered_throw (e : ClassError) : Metered (throw e : ClassReader α) := by
  intro bs a rest h
  cases h

/-- After a fault nothing is read. -/
theorem metered_throw_bind (e : ClassError) (next : α → ClassReader β) :
    Metered (throw e >>= next) := by
  intro bs b rest h
  cases h

theorem Metered.bind (h : Metered read) (hnext : ∀ a, Metered (next a)) : Metered (read >>= next) := by
  intro bs b rest hbind
  obtain ⟨⟨a, bs'⟩, hread, hb⟩ := bind_eq_ok_iff.1 hbind
  obtain ⟨bytes, rfl, htakes⟩ := h bs a bs' hread
  obtain ⟨bytes', rfl, htakes'⟩ := hnext a bs' b rest hb
  exact ⟨bytes ++ bytes', (List.append_assoc _ _ _).symm, htakes.bind htakes'⟩

theorem metered_take (count : Nat) : Metered (take count) := by
  intro bs bytes rest h
  have hlength := yields_take count bs bytes rest h
  simp only [take, List.splitAt_eq] at h
  split at h
  · cases h
    refine ⟨bs.take count, (List.take_append_drop count bs).symm, ?_, ?_⟩
    · have hreads := reads_take (bs.take count)
      rwa [hlength] at hreads
    · intro m hm
      have hshort : (((bs.take count).take m).splitAt count).1.length ≠ count := by
        rw [List.splitAt_eq, List.length_take, List.length_take]
        omega
      simp only [take]
      rw [if_neg hshort]
  · cases h

theorem metered_u8 : Metered u8 := by
  intro bs b rest h
  cases bs with
  | nil => cases h
  | cons b' bs =>
      cases h
      refine ⟨[b], rfl, reads_u8 b, ?_⟩
      intro m hm
      have hzero : m = 0 := Nat.lt_one_iff.1 hm
      subst hzero
      rfl

theorem metered_u16 : Metered u16 := (metered_take 2).bind fun _ => metered_pure _

theorem metered_u32 : Metered u32 := (metered_take 4).bind fun _ => metered_pure _

theorem metered_u64 : Metered u64 := (metered_take 8).bind fun _ => metered_pure _

theorem timesAfter_succ (read : ClassReader α) (count : Nat) (done : List α) :
    timesAfter read (count + 1) done =
      (read >>= fun a => timesAfter read count (a :: done) : ClassReader (List α)) := by
  funext bs
  rw [timesAfter]
  show _ = (read bs >>= fun result => timesAfter read count (result.1 :: done) result.2)
  cases read bs <;> rfl

theorem metered_timesAfter (h : Metered read) (count : Nat) (done : List α) :
    Metered (timesAfter read count done) := by
  induction count generalizing done with
  | zero => exact metered_pure done.reverse
  | succ count ih =>
      rw [timesAfter_succ]
      exact h.bind fun a => ih (a :: done)

theorem metered_list (h : Metered read) : Metered (list read) :=
  metered_u16.bind fun count => metered_timesAfter h count.toNat []

theorem metered_optionalIndex : Metered optionalIndex := metered_u16.bind fun _ => metered_pure _

end ClassReader

open ClassReader

/-! ## Class files -/

theorem Constant.metered_read (index : PoolIndex) : Metered (Constant.read index) := by
  refine metered_u8.bind fun tag => ?_
  split
  case h_1 =>
    refine metered_u16.bind fun count => (metered_take count.toNat).bind fun bytes => ?_
    -- a text is looked at when its bytes have all been taken
    split
    · exact metered_pure _
    · exact metered_throw _
  case h_12 =>
    refine metered_u8.bind fun code => ?_
    split
    · exact metered_u16.bind fun _ => metered_pure _
    · exact metered_throw _
  case h_2 | h_3 => exact metered_u32.bind fun _ => metered_pure _
  case h_4 | h_5 => exact metered_u64.bind fun _ => metered_pure _
  case h_18 => exact metered_throw _
  all_goals
    first
      | exact metered_u16.bind fun _ => metered_pure _
      | exact metered_u16.bind fun _ => metered_u16.bind fun _ => metered_pure _

theorem ConstantPool.metered_readSlots (slots : Nat) (p : ConstantPool) :
    Metered (readSlots slots p) := by
  induction slots using Nat.strongRecOn generalizing p with
  | _ slots ih =>
      cases slots with
      | zero => exact metered_pure p
      | succ slots =>
          rw [readSlots_succ]
          refine (Constant.metered_read _).bind fun c => ?_
          have hpos := c.width_pos
          exact ih (slots + 1 - c.width) (by omega) (p.push c)

theorem ConstantPool.metered_read : Metered ConstantPool.read :=
  metered_u16.bind fun count => metered_readSlots (count.toNat - 1) empty

theorem Attribute.metered_read : Metered Attribute.read :=
  metered_u16.bind fun _ => metered_u32.bind fun count => (metered_take count.toNat).bind fun _ =>
    metered_pure _

theorem Member.metered_read {mask : UInt16} : Metered (Member.read : ClassReader (Member mask)) :=
  metered_u16.bind fun _ => metered_u16.bind fun _ => metered_u16.bind fun _ =>
    (metered_list Attribute.metered_read).bind fun _ => metered_pure _

namespace ClassFile

theorem metered_read : Metered read := by
  refine (metered_take 4).bind fun start => ?_
  split
  · exact metered_throw_bind _ _
  · refine metered_u16.bind fun _ => metered_u16.bind fun _ => ?_
    refine ConstantPool.metered_read.bind fun _ => ?_
    refine metered_u16.bind fun _ => metered_u16.bind fun _ => metered_optionalIndex.bind fun _ => ?_
    refine (metered_list metered_u16).bind fun _ => ?_
    refine (metered_list Member.metered_read).bind fun _ => ?_
    refine (metered_list Member.metered_read).bind fun _ => ?_
    exact (metered_list Attribute.metered_read).bind fun _ => metered_pure _

/-- The front of the bytes decides: whatever comes after it, the class file is the same, and with less
of it the input ends too early. -/
theorem parse_of_front {bytes : List UInt8} {c : ClassFile} (h : parse bytes = .ok c) :
    ∃ n ≤ bytes.length,
      (∀ bytes', bytes.take n <+: bytes' → parse bytes' = .ok c) ∧
        ∀ m < n, parse (bytes.take m) = .error .endOfInput := by
  obtain ⟨rest, hread⟩ := fst_eq_ok_iff.1 h
  obtain ⟨front, rfl, htakes⟩ := metered_read bytes c rest hread
  refine ⟨front.length, by simp, ?_, ?_⟩
  · rintro bytes' ⟨rest', rfl⟩
    rw [List.take_left]
    exact fst_eq_ok_iff.2 ⟨rest', htakes.reads rest'⟩
  · intro m hm
    have hends := htakes.ends m hm
    rw [List.take_append_of_le_length (Nat.le_of_lt hm), parse, hends]
    rfl

theorem parse_of_front_sample :
    parse (sampleClass.toBytes ++ [1, 2, 3]) = .ok sampleClass ∧
      ∃ n ≤ (sampleClass.toBytes ++ [1, 2, 3]).length,
        (∀ bytes', (sampleClass.toBytes ++ [1, 2, 3]).take n <+: bytes' →
          parse bytes' = .ok sampleClass) ∧
          ∀ m < n, parse ((sampleClass.toBytes ++ [1, 2, 3]).take m) = .error .endOfInput := by
  have hparse := (parse_toBytes_append_iff sampleClass).2 fits_sampleClass [1, 2, 3]
  exact ⟨hparse, parse_of_front hparse⟩

end ClassFile

end Linkage
