import Linkage.Proofs.Casing
import Linkage.Proofs.VersionOrder
import Mathlib.Data.Nat.Digits.Defs

/-!
# Conventional versions

A conventional version is a row of numbers with dots between them, and maybe one qualifier at the end
that has a number of its own, as in `1.0.2`, `1.5-rc2` and `2.0Beta`. Its items are the numbers and a
nested list with the qualifier, in which the number of the qualifier is nested once more, whether or not
there is a hyphen (`Conventional.itemsOf_text`).

The text is scanned run by run: a run takes up all characters of its kind (`Token.scan_append`), and a
nested list begins where the kind changes (`Token.scan_change`).
-/

set_option autoImplicit false

namespace Linkage.Version

/-! ## Texts -/

/-- A row of decimal digits, as long as it may be and with any zeros in front. -/
structure Numeral where
  digits : List Char
  ne_nil : digits ≠ []
  isDigit : ∀ c ∈ digits, c.isDigit = true

/-- Number that the digits stand for. -/
def Numeral.value (n : Numeral) : Nat :=
  Nat.ofDigits 10 (n.digits.reverse.map fun c => c.toNat - '0'.toNat)

/-- Word of some letters, in lowercase. -/
def wordOf (letters : List Char) : String := String.ofList (letters.map Char.toLower)

/-- A word of letters that does not stand for the plain release, maybe with a hyphen before it and a
number directly after it. -/
structure Suffix where
  hyphen : Bool
  letters : List Char
  ne_nil : letters ≠ []
  isAlpha : ∀ c ∈ letters, c.isAlpha = true
  not_release : wordOf letters ∉ ["ga", "final", "release"]
  number : Option Numeral

/-- Characters of the suffix. -/
def Suffix.chars (s : Suffix) : List Char :=
  (if s.hyphen then ['-'] else []) ++ (s.letters ++ s.number.elim [] Numeral.digits)

/-- Numbers with dots between them, and maybe a suffix. -/
structure Conventional where
  first : Numeral
  more : List Numeral
  suffix : Option Suffix

namespace Conventional

/-- Characters of the version. -/
def chars (c : Conventional) : List Char :=
  c.first.digits ++ (c.more.flatMap (fun n => '.' :: n.digits) ++ c.suffix.elim [] Suffix.chars)

/-- Text of the version. -/
def text (c : Conventional) : String := String.ofList c.chars

/-- Numbers of the version. -/
def core (c : Conventional) : List Nat := (c.first :: c.more).map Numeral.value

end Conventional

/-! ## Characters -/

theorem toNat_lt_of_isDigit {c : Char} (h : c.isDigit = true) : c.toNat < 128 :=
  Nat.lt_of_le_of_lt (Char.isDigit_iff_toNat.1 h).2 (by decide)

theorem toNat_lt_of_isAlpha {c : Char} (h : c.isAlpha = true) : c.toNat < 128 := by
  have hc : c.toNat = c.val.toNat := rfl
  have hupper : 'Z'.val.toNat = 90 := rfl
  have hlower : 'z'.val.toNat = 122 := rfl
  have hranges : (decide (c.val ≥ 'A'.val ∧ c.val ≤ 'Z'.val) ||
      (c.val ≥ 'a'.val && c.val ≤ 'z'.val)) = true := h
  simp only [Bool.or_eq_true, Bool.and_eq_true, decide_eq_true_eq, UInt32.le_iff_toNat_le] at hranges
  omega

/-- Characters that can stand in a run of digits, or in a run of other characters. -/
def InRun (digit : Bool) (c : Char) : Prop := c.isDigit = digit ∧ c ≠ '.' ∧ c ≠ '-'

instance (digit : Bool) (c : Char) : Decidable (InRun digit c) := inferInstanceAs (Decidable (_ ∧ _))

theorem toLower_of_isDigit {c : Char} (h : c.isDigit = true) : c.toLower = c ∧ InRun true c :=
  Text.of_ascii (p := fun c => c.isDigit = true → c.toLower = c ∧ InRun true c) (by decide +kernel)
    (toNat_lt_of_isDigit h) h

theorem inRun_toLower {c : Char} (h : c.isAlpha = true) : InRun false c.toLower :=
  Text.of_ascii (p := fun c => c.isAlpha = true → InRun false c.toLower) (by decide +kernel)
    (toNat_lt_of_isAlpha h) h

theorem Numeral.map_toLower (n : Numeral) : n.digits.map Char.toLower = n.digits := by
  have hid : ∀ c ∈ n.digits, c.toLower = id c := fun c hc => (toLower_of_isDigit (n.isDigit c hc)).1
  rw [List.map_congr_left hid, List.map_id]

theorem Numeral.inRun (n : Numeral) : ∀ c ∈ n.digits, InRun true c :=
  fun c hc => (toLower_of_isDigit (n.isDigit c hc)).2

theorem Numeral.ascii (n : Numeral) : ∀ c ∈ n.digits, c.toNat < 128 :=
  fun c hc => toNat_lt_of_isDigit (n.isDigit c hc)

/-- Lowercase letters of the suffix. -/
def Suffix.lowered (s : Suffix) : List Char := s.letters.map Char.toLower

theorem Suffix.lowered_ne_nil (s : Suffix) : s.lowered ≠ [] := by
  rw [lowered, ne_eq, List.map_eq_nil_iff]
  exact s.ne_nil

/-- Qualifier that the suffix is read as. -/
def Suffix.kind (s : Suffix) : Qualifier := .ofWord (wordOf s.letters) s.number.isSome

theorem Suffix.inRun (s : Suffix) : ∀ c ∈ s.lowered, InRun false c := by
  intro c hc
  obtain ⟨d, hd, rfl⟩ := List.mem_map.1 hc
  exact inRun_toLower (s.isAlpha d hd)

theorem Suffix.ascii (s : Suffix) : ∀ c ∈ s.chars, c.toNat < 128 := by
  intro c hc
  rw [chars, List.mem_append, List.mem_append] at hc
  obtain hhyphen | hletter | hdigit := hc
  · cases hs : s.hyphen with
    | false => rw [hs] at hhyphen; cases hhyphen
    | true =>
        rw [hs] at hhyphen
        rw [List.mem_singleton.1 hhyphen]
        decide
  · exact toNat_lt_of_isAlpha (s.isAlpha c hletter)
  · cases hn : s.number with
    | none => rw [hn] at hdigit; cases hdigit
    | some n => rw [hn] at hdigit; exact n.ascii c hdigit

theorem Conventional.ascii (c : Conventional) : ∀ d ∈ c.chars, d.toNat < 128 := by
  intro d hd
  rw [chars, List.mem_append, List.mem_append, List.mem_flatMap] at hd
  obtain hfirst | ⟨n, -, hmore⟩ | hsuffix := hd
  · exact c.first.ascii d hfirst
  · obtain rfl | hdigit := List.mem_cons.1 hmore
    · decide
    · exact n.ascii d hdigit
  · cases hs : c.suffix with
    | none => rw [hs] at hsuffix; cases hsuffix
    | some s => rw [hs] at hsuffix; exact s.ascii d hsuffix

/-! ## Tokens -/

namespace Token

variable {digit : Bool} {run cs rest : List Char}

/-- A run takes up all characters of its kind. -/
theorem scan_append (rest : List Char) (hrun : ∀ d ∈ run, d.isDigit = digit)
    (hcs : ∀ c ∈ cs, InRun digit c) :
    scan run (cs ++ rest) = scan (cs.reverse ++ run) rest := by
  -- the run is held backwards and grows at its front, so it is not fixed in the induction
  induction cs generalizing run with
  | nil => rfl
  | cons c cs ih =>
      obtain ⟨⟨hc, hdot, hhyphen⟩, hcs⟩ := List.forall_mem_cons.1 hcs
      have hnext : ∀ d ∈ c :: run, d.isDigit = digit := List.forall_mem_cons.2 ⟨hc, hrun⟩
      have hread : scan run (c :: (cs ++ rest)) = scan (c :: run) (cs ++ rest) := by
        cases run with
        | nil => rw [scan, if_neg hdot, if_neg hhyphen]
        | cons d ds =>
            have hsame : (d.isDigit == c.isDigit) = true := by
              rw [hc, hrun d List.mem_cons_self, beq_self_eq_true]
            rw [scan, if_neg hdot, if_neg hhyphen]
            exact if_pos hsame
      rw [List.cons_append, hread, ih hnext hcs, List.reverse_cons, List.append_assoc]
      rfl

theorem decimal_eq_value (n : Numeral) : decimal n.digits = n.value := by
  rw [Numeral.value, Nat.ofDigits_eq_foldr, List.map_reverse, List.foldr_reverse, List.foldl_map]
  simp only [decimal, Nat.cast_id, Nat.add_comm]

theorem ofRun_digits (n : Numeral) (beforeDigit : Bool) :
    ofRun n.digits beforeDigit = .number n.value := by
  rw [← decimal_eq_value]
  cases hdigits : n.digits with
  | nil => exact absurd hdigits n.ne_nil
  | cons d ds =>
      have hd : d.isDigit = true := n.isDigit d (hdigits ▸ List.mem_cons_self)
      rw [ofRun, if_pos hd]

theorem ofRun_letters (s : Suffix) (beforeDigit : Bool) :
    ofRun s.lowered beforeDigit = .qualifier (.ofWord (wordOf s.letters) beforeDigit) := by
  rw [wordOf, ← Suffix.lowered]
  cases hletters : s.lowered with
  | nil => exact absurd hletters s.lowered_ne_nil
  | cons d ds =>
      have hd := (s.inRun d (hletters ▸ List.mem_cons_self)).1
      rw [ofRun, if_neg (by rw [hd]; decide)]

/-- At a change of kind the run is over, and a nested list begins. -/
theorem scan_change (rest : List Char) (hrun : ∀ d ∈ run, d.isDigit = digit) (hne : run ≠ [])
    (hcs : ∀ c ∈ cs, InRun (!digit) c) (hnext : cs ≠ []) :
    scan run (cs ++ rest) = .item (ofRun run.reverse (!digit)) :: .nest :: scan cs.reverse rest := by
  cases run with
  | nil => exact absurd rfl hne
  | cons d ds =>
      cases cs with
      | nil => exact absurd rfl hnext
      | cons c cs =>
          -- the first character of the other kind begins the next run, which takes up the others
          obtain ⟨⟨hc, hdot, hhyphen⟩, hcs⟩ := List.forall_mem_cons.1 hcs
          have hother : ¬ (d.isDigit == c.isDigit) = true := by
            rw [hc, hrun d List.mem_cons_self]
            cases digit <;> decide
          have hstart : ∀ d ∈ [c], d.isDigit = !digit := by simpa using hc
          have hread := scan_append rest hstart hcs
          rw [List.cons_append, scan, if_neg hdot, if_neg hhyphen]
          simp only [if_neg hother]
          rw [hread, hc, ← List.reverse_cons]

theorem scan_dot : scan run ('.' :: cs) = .item (ofRun run.reverse false) :: scan [] cs := by
  cases run <;> rfl

theorem scan_hyphen : scan run ('-' :: cs) = .item (ofRun run.reverse false) :: .nest :: scan [] cs := by
  cases run <;> rfl

theorem scan_end (hne : run ≠ []) : scan run [] = [.item (ofRun run.reverse false)] := by
  rw [scan, if_neg (by simpa using hne)]

theorem scan_run (hcs : ∀ c ∈ cs, InRun digit c) : scan [] (cs ++ rest) = scan cs.reverse rest := by
  have hrun : ∀ d ∈ ([] : List Char), d.isDigit = digit := nofun
  have hread := scan_append rest hrun hcs
  rwa [List.append_nil] at hread

/-- Number of the suffix as a nested list, if there is one. -/
def numberItems (n : Option Numeral) : List Item := n.elim [] fun n => [.list [.number n.value]]

theorem items_scan_number (s : Suffix) :
    items (scan s.lowered.reverse (s.number.elim [] Numeral.digits)) =
      .qualifier s.kind :: numberItems s.number := by
  have hne : s.lowered.reverse ≠ [] := by simpa using s.lowered_ne_nil
  cases hn : s.number with
  | none =>
      rw [Option.elim_none, scan_end hne, List.reverse_reverse, ofRun_letters, Suffix.kind, hn]
      rfl
  | some n =>
      have hrun : ∀ d ∈ s.lowered.reverse, d.isDigit = false :=
        fun d hd => (s.inRun d (List.mem_reverse.1 hd)).1
      have hread := scan_change [] hrun hne n.inRun n.ne_nil
      have hend : n.digits.reverse ≠ [] := by simpa using n.ne_nil
      rw [List.append_nil, scan_end hend, List.reverse_reverse, List.reverse_reverse, ofRun_letters,
        ofRun_digits] at hread
      rw [Option.elim_some, hread, Suffix.kind, hn]
      rfl

/-- Items of what may follow the numbers, before they are normalised. -/
def suffixItems (s : Option Suffix) : List Item :=
  s.elim [] fun s => [.list (.qualifier s.kind :: numberItems s.number)]

/-- After the last number comes the end or a nested list, whether or not there is a hyphen. -/
theorem items_scan_suffix (n : Numeral) (s : Option Suffix) :
    items (scan n.digits.reverse ((s.elim [] Suffix.chars).map Char.toLower)) =
      .number n.value :: suffixItems s := by
  have hne : n.digits.reverse ≠ [] := by simpa using n.ne_nil
  cases s with
  | none =>
      rw [Option.elim_none, List.map_nil, scan_end hne, List.reverse_reverse, ofRun_digits]
      rfl
  | some s =>
      have hnumber : (s.number.elim [] Numeral.digits).map Char.toLower =
          s.number.elim [] Numeral.digits := by
        cases s.number with
        | none => rfl
        | some n => exact n.map_toLower
      rw [Option.elim_some, Suffix.chars, List.map_append, List.map_append, hnumber, ← Suffix.lowered]
      cases s.hyphen with
      | false =>
          -- the letters end the run of digits, which opens a list as a hyphen does
          have hrun : ∀ d ∈ n.digits.reverse, d.isDigit = true :=
            fun d hd => n.isDigit d (List.mem_reverse.1 hd)
          have hread := scan_change (s.number.elim [] Numeral.digits) hrun hne s.inRun s.lowered_ne_nil
          rw [List.reverse_reverse, ofRun_digits] at hread
          rw [if_neg Bool.false_ne_true, List.map_nil, List.nil_append, hread, items, items,
            items_scan_number]
          rfl
      | true =>
          have hhyphen : ['-'].map Char.toLower = ['-'] := rfl
          rw [if_pos rfl, hhyphen, List.singleton_append, scan_hyphen, scan_run s.inRun,
            List.reverse_reverse, ofRun_digits, items, items, items_scan_number]
          rfl

/-- Each number is an item, up to the last one. -/
theorem items_scan_core {tail : List Item} (first : Numeral) (more : List Numeral)
    (htail : ∀ n : Numeral, items (scan n.digits.reverse rest) = .number n.value :: tail) :
    items (scan [] (first.digits ++ (more.flatMap (fun n => '.' :: n.digits) ++ rest))) =
      ((first :: more).map Numeral.value).map Item.number ++ tail := by
  -- the first number ends where the next one begins, so each is the first one in turn
  induction more generalizing first with
  | nil =>
      rw [scan_run first.inRun, List.flatMap_nil, List.nil_append, htail]
      rfl
  | cons n more ih =>
      rw [scan_run first.inRun, List.flatMap_cons, List.append_assoc, List.cons_append, scan_dot, items, ih n,
        List.reverse_reverse, ofRun_digits]
      rfl

end Token

/-- Items of a conventional version, before they are normalised. -/
theorem Conventional.itemsOf_text (c : Conventional) :
    itemsOf c.text =
      Item.normalizeAll (c.core.map Item.number ++ Token.suffixItems c.suffix) := by
  have hmore : (c.more.flatMap fun n => '.' :: n.digits).map Char.toLower =
      c.more.flatMap fun n => '.' :: n.digits := by
    simp only [List.map_flatMap, List.map_cons, Numeral.map_toLower]
    rfl
  rw [itemsOf, text, String.toList_ofList, Text.lowercaseChars_of_ascii c.ascii, chars, List.map_append,
    List.map_append, hmore, c.first.map_toLower]
  exact congrArg Item.normalizeAll
    (Token.items_scan_core c.first c.more fun n => Token.items_scan_suffix n c.suffix)

end Linkage.Version
