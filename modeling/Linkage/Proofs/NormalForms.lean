import Linkage.Proofs.NullComponents

/-!
# Normal forms

What the items of a version look like, in the list that they are in and in all lists nested in it
(`Version.normalForm_of_encloses`). A list in normal form ends in what means something: in a nested list,
which is not empty and stands nowhere else, or in an item that is not null.

- `Item.normalizeAll_normalizeAll`: normalising twice is the same as normalising once;
- `Token.exists_suffix_of_encloses`: every nested list of a version is itself the normal form of tokens,
  those from some place of the version on, so what holds of the normal form of any tokens holds of all of
  them;
- `Item.toList_digits_decimal`: the digits of a number are those of the run that it was read from, without
  the zeros in front.
-/

set_option autoImplicit false

namespace Linkage.Version

namespace Item

/-- The second list is the first one itself, or is nested in it at any depth. -/
inductive Encloses : List Item → List Item → Prop
  | self (is : List Item) : Encloses is is
  | nested {is js ks : List Item} : .list js ∈ is → Encloses js ks → Encloses is ks

/-- Only the last item is a nested list, and it is not empty. The last item that is no list is not null.
Numbers have no zeros in front, and the normal form of the list is the list. -/
structure NormalForm (is : List Item) : Prop where
  list_last : ∀ front inner back, is = front ++ .list inner :: back → back = [] ∧ inner ≠ []
  last_not_null : ∀ i, (is.filter fun i => !i.isList).getLast? = some i → i.isNull = false
  no_leading_zero : ∀ n, .number n ∈ is → (digits n).toList.head? ≠ some '0'
  normalizeAll_eq : normalizeAll is = is

/-! ## Normalising twice -/

mutual

theorem normalize_normalize (i : Item) : i.normalize.normalize = i.normalize := by
  match i with
  | .number n => rfl
  | .qualifier q => rfl
  | .list items => exact congrArg Item.list (normalizeAll_normalizeAll items)

/-- A normal form is its own normal form. -/
theorem normalizeAll_normalizeAll (is : List Item) :
    normalizeAll (normalizeAll is) = normalizeAll is := by
  match is with
  | [] => rfl
  | i :: is =>
      have hrest := normalizeAll_normalizeAll is
      rw [normalizeAll]
      split
      · exact hrest
      · -- the item was kept, and is kept again for the same reason
        rename_i hkept
        rw [normalizeAll, normalize_normalize i, hrest]
        exact if_neg hkept

end

/-! ## What is left at the end -/

section Ends

variable {is front back inner : List Item} {i : Item}

theorem eq_nil_of_allNestLast (h : AllNestLast (front ++ .list inner :: back)) : back = [] := by
  induction front with
  | nil => exact h.1 rfl
  | cons j front ih => exact ih h.2.2

theorem isList_of_normalize_eq (h : i.normalize = .list inner) : i.isList = true := by
  cases i with
  | list items => rfl
  | _ => cases h

/-- An empty nested list at the end is dropped. -/
theorem ne_nil_of_mem_normalizeAll (hlast : AllNestLast is) (hmem : .list inner ∈ normalizeAll is) :
    inner ≠ [] := by
  induction is with
  | nil => cases hmem
  | cons i is ih =>
      rw [normalizeAll] at hmem
      split at hmem
      · exact ih hlast.2.2 hmem
      · rename_i hkept
        rcases List.mem_cons.1 hmem with hhead | hmem
        · -- nothing comes after a nested list, so it was kept because of what is in it
          rintro rfl
          have hnone : is = [] := hlast.1 (isList_of_normalize_eq hhead.symm)
          apply hkept
          rw [← hhead, hnone]
          rfl
        · exact ih hlast.2.2 hmem

/-- The last item that is no list would have been dropped if it were null. -/
theorem isNull_of_getLast? (is : List Item)
    (h : ((normalizeAll is).filter fun i => !i.isList).getLast? = some i) : i.isNull = false := by
  induction is with
  | nil => cases h
  | cons j is ih =>
      rw [normalizeAll] at h
      split at h
      · exact ih h
      · rename_i hkept
        cases hrest : (normalizeAll is).filter fun i => !i.isList with
        | cons k ks =>
            -- there is another item that is no list behind it
            apply ih
            rw [List.filter_cons] at h
            split at h
            · rwa [hrest, List.getLast?_cons_cons, ← hrest] at h
            · exact h
        | nil =>
            have hlists : (normalizeAll is).all isList = true := by
              rw [List.all_eq_true]
              intro k hk
              simpa using List.filter_eq_nil_iff.1 hrest k hk
            rw [List.filter_cons, hrest] at h
            split at h
            · obtain rfl : j.normalize = i := Option.some.inj h
              simpa [hlists] using hkept
            · cases h

end Ends

/-! ## Numbers -/

theorem digitChar_of_isDigit {c : Char} (h : c.isDigit = true) :
    Nat.digitChar (c.toNat - '0'.toNat) = c ∧ c.toNat - '0'.toNat < 10 ∧
      (c.toNat - '0'.toNat = 0 → c = '0') :=
  Text.of_ascii (p := fun c => c.isDigit = true → Nat.digitChar (c.toNat - '0'.toNat) = c ∧
    c.toNat - '0'.toNat < 10 ∧ (c.toNat - '0'.toNat = 0 → c = '0')) (by decide +kernel)
    (toNat_lt_of_isDigit h) h

/-- Behind a digit that is not zero, every digit of a run is a digit of the number. -/
theorem toDigits_foldl {run : List Char} {n : Nat} (hn : 0 < n) (hrun : ∀ c ∈ run, c.isDigit = true) :
    Nat.toDigits 10 (run.foldl (fun n d => 10 * n + (d.toNat - '0'.toNat)) n) =
      Nat.toDigits 10 n ++ run := by
  induction run generalizing n with
  | nil => exact (List.append_nil _).symm
  | cons c cs ih =>
      obtain ⟨hc, hcs⟩ := List.forall_mem_cons.1 hrun
      obtain ⟨hchar, hlt, -⟩ := digitChar_of_isDigit hc
      have hpos : 0 < 10 * n + (c.toNat - '0'.toNat) := by omega
      rw [List.foldl_cons, ih hpos hcs, ← Nat.toDigits_append_toDigits (by decide) hn hlt,
        Nat.toDigits_of_lt_base hlt, hchar, List.append_assoc, List.singleton_append]

/-- The digits of a number are those of its run without the zeros in front. -/
theorem toList_digits_decimal {run : List Char} (hrun : ∀ c ∈ run, c.isDigit = true) :
    (digits (Token.decimal run)).toList = run.dropWhile (· == '0') := by
  induction run with
  | nil => rfl
  | cons c cs ih =>
      obtain ⟨hc, hcs⟩ := List.forall_mem_cons.1 hrun
      obtain ⟨hchar, hlt, hzero⟩ := digitChar_of_isDigit hc
      by_cases hfront : c = '0'
      · -- a zero in front makes no difference to the number
        subst hfront
        exact ih hcs
      · have hpos : 0 < c.toNat - '0'.toNat := Nat.pos_of_ne_zero (mt hzero hfront)
        have hdigits := toDigits_foldl hpos hcs
        rw [Nat.toDigits_of_lt_base hlt, hchar, List.singleton_append] at hdigits
        have hdecimal : Token.decimal (c :: cs) =
            cs.foldl (fun n d => 10 * n + (d.toNat - '0'.toNat)) (c.toNat - '0'.toNat) := by
          rw [Token.decimal, List.foldl_cons, Nat.mul_zero, Nat.zero_add]
        have hne : Token.decimal (c :: cs) ≠ 0 := by
          intro hnone
          rw [← hdecimal, hnone, Nat.toDigits_zero] at hdigits
          exact hfront (List.cons.inj hdigits).1.symm
        rw [digits, if_neg hne, Nat.toString_eq_repr, Nat.toList_repr, hdecimal, hdigits,
          List.dropWhile_cons_of_neg (by simpa using hfront)]

theorem number_mem_of_mem_normalizeAll {is : List Item} {n : Nat} (h : .number n ∈ normalizeAll is) :
    .number n ∈ is := by
  induction is with
  | nil => cases h
  | cons i is ih =>
      rw [normalizeAll] at h
      split at h
      · exact List.mem_cons_of_mem _ (ih h)
      · rcases List.mem_cons.1 h with hhead | h
        · cases i with
          | number m => exact hhead ▸ List.mem_cons_self
          | _ => cases hhead
        · exact List.mem_cons_of_mem _ (ih h)

end Item

namespace Token

open Item

section Tokens

variable {ts : List Token} {js : List Item} {n : Nat}

theorem exists_suffix_of_list_mem (hts : ∀ t ∈ ts, t.IsPlain)
    (h : .list js ∈ normalizeAll (items ts)) : ∃ us, us <:+ ts ∧ js = normalizeAll (items us) := by
  induction ts with
  | nil => cases h
  | cons t ts ih =>
      obtain ⟨ht, hrest⟩ := List.forall_mem_cons.1 hts
      cases t with
      | nest =>
          rw [items, normalizeAll_list] at h
          split at h
          · cases h
          · cases List.mem_singleton.1 h
            exact ⟨ts, List.suffix_cons _ _, rfl⟩
      | item i =>
          have hinner : .list js ∈ normalizeAll (items ts) := by
            rw [items, normalizeAll] at h
            split at h
            · exact h
            · rcases List.mem_cons.1 h with hhead | h
              · -- normalising makes no list of an item that is none
                have hlist := isList_of_normalize_eq hhead.symm
                have hplain : i.isList = false := ht
                rw [hplain] at hlist
                cases hlist
              · exact h
          obtain ⟨us, hus, hjs⟩ := ih hrest hinner
          exact ⟨us, hus.trans (List.suffix_cons _ _), hjs⟩

/-- Every nested list of a normal form is the normal form of the tokens from some place on. -/
theorem exists_suffix_of_encloses {is : List Item} (h : Encloses is js)
    (hts : ∀ t ∈ ts, t.IsPlain) (his : is = normalizeAll (items ts)) :
    ∃ us, us <:+ ts ∧ js = normalizeAll (items us) := by
  induction h generalizing ts with
  | self is => exact ⟨ts, List.suffix_refl ts, his⟩
  | nested hmem _ ih =>
      obtain ⟨us, hus, hinner⟩ := exists_suffix_of_list_mem hts (his ▸ hmem)
      obtain ⟨vs, hvs, hjs⟩ := ih (fun t ht => hts t (hus.subset ht)) hinner
      exact ⟨vs, hvs.trans hus, hjs⟩

theorem item_number_mem_of_mem_items (h : .number n ∈ items ts) : .item (.number n) ∈ ts := by
  induction ts with
  | nil => cases h
  | cons t ts ih =>
      cases t with
      | item i =>
          rcases List.mem_cons.1 h with hi | h
          · exact hi ▸ List.mem_cons_self
          · exact List.mem_cons_of_mem _ (ih h)
      | nest => cases List.mem_singleton.1 h

end Tokens

/-! ## Runs of digits -/

section Runs

variable {digit : Bool} {run cs : List Char} {n : Nat}

theorem eq_decimal_of_ofRun {beforeDigit : Bool} (hrun : ∀ d ∈ run, d.isDigit = digit)
    (h : ofRun run beforeDigit = .number n) :
    (∀ d ∈ run, d.isDigit = true) ∧ n = decimal run := by
  cases run with
  | nil =>
      cases h
      exact ⟨nofun, rfl⟩
  | cons c cs =>
      rw [ofRun] at h
      split at h
      · rename_i hc
        cases h
        have hdigit : digit = true := (hrun c List.mem_cons_self).symm.trans hc
        exact ⟨fun d hd => (hrun d hd).trans hdigit, rfl⟩
      · cases h

/-- The number of the run that has been read so far. -/
theorem exists_run_of_ofRun (cs : List Char) {beforeDigit : Bool} (hrun : ∀ d ∈ run, d.isDigit = digit)
    (h : .number n = ofRun run.reverse beforeDigit) :
    ∃ ds, ds <:+: run.reverse ++ cs ∧ (∀ d ∈ ds, d.isDigit = true) ∧ n = decimal ds := by
  have hreverse : ∀ d ∈ run.reverse, d.isDigit = digit := fun d hd => hrun d (List.mem_reverse.1 hd)
  exact ⟨run.reverse, (List.prefix_append _ _).isInfix, eq_decimal_of_ofRun hreverse h.symm⟩

theorem exists_run_append {ds rest : List Char} (front : List Char)
    (h : ds <:+: rest ∧ (∀ d ∈ ds, d.isDigit = true) ∧ n = decimal ds) :
    ds <:+: front ++ rest ∧ (∀ d ∈ ds, d.isDigit = true) ∧ n = decimal ds :=
  ⟨h.1.trans (List.suffix_append _ _).isInfix, h.2⟩

/-- Numbers are read from runs of digits of the text. -/
theorem exists_run_of_mem_scan (hrun : ∀ d ∈ run, d.isDigit = digit)
    (h : .item (.number n) ∈ scan run cs) :
    ∃ ds, ds <:+: run.reverse ++ cs ∧ (∀ d ∈ ds, d.isDigit = true) ∧ n = decimal ds := by
  have hnone : ∀ d ∈ ([] : List Char), d.isDigit = true := nofun
  -- an item is made of the run so far, or of what is read after it
  fun_induction scan run cs generalizing digit with
  | case1 run hnil => cases h
  | case2 run hnil =>
      obtain hn := Token.item.inj (List.mem_singleton.1 h)
      exact exists_run_of_ofRun [] hrun hn
  | case3 run cs ih =>
      rcases List.mem_cons.1 h with hitem | h
      · exact exists_run_of_ofRun _ hrun (Token.item.inj hitem)
      · obtain ⟨ds, hds⟩ := ih hnone h
        rw [List.append_cons]
        exact ⟨ds, exists_run_append _ hds⟩
  | case4 run cs hdot ih =>
      rcases List.mem_cons.1 h with hitem | h
      · exact exists_run_of_ofRun _ hrun (Token.item.inj hitem)
      · rcases List.mem_cons.1 h with hnest | h
        · cases hnest
        · obtain ⟨ds, hds⟩ := ih hnone h
          rw [List.append_cons]
          exact ⟨ds, exists_run_append _ hds⟩
  | case5 c cs hdot hhyphen ih =>
      exact ih (List.forall_mem_singleton.2 rfl) h
  | case6 c cs hdot hhyphen d ds hsame ih =>
      have hc : c.isDigit = digit := (beq_iff_eq.1 hsame).symm.trans (hrun d List.mem_cons_self)
      have hmore := ih (List.forall_mem_cons.2 ⟨hc, hrun⟩) h
      rwa [List.reverse_cons, ← List.append_cons] at hmore
  | case7 c cs hdot hhyphen d ds hchange ih =>
      rcases List.mem_cons.1 h with hitem | h
      · exact exists_run_of_ofRun _ hrun (Token.item.inj hitem)
      · rcases List.mem_cons.1 h with hnest | h
        · cases hnest
        · obtain ⟨es, hes⟩ := ih (List.forall_mem_singleton.2 rfl) h
          exact ⟨es, exists_run_append _ hes⟩

end Runs

/-- The normal form of tokens as they are read from a text is in normal form. -/
theorem normalForm_normalizeAll {ts : List Token} (hts : ∀ t ∈ ts, t.IsPlain)
    (hnumbers : ∀ n, .item (.number n) ∈ ts → ∃ run : List Char, (∀ c ∈ run, c.isDigit = true) ∧
      n = decimal run) : NormalForm (normalizeAll (items ts)) := by
  have hlast := allNestLast_items hts
  exact {
    list_last := by
      intro front inner back his
      have hnormal := allNestLast_normalizeAll _ hlast
      have hmem : .list inner ∈ normalizeAll (items ts) := by
        rw [his]
        exact List.mem_append_right _ List.mem_cons_self
      rw [his] at hnormal
      exact ⟨eq_nil_of_allNestLast hnormal, ne_nil_of_mem_normalizeAll hlast hmem⟩
    last_not_null := fun i hi => isNull_of_getLast? _ hi
    no_leading_zero := by
      intro n hn hzero
      have hmem := item_number_mem_of_mem_items (number_mem_of_mem_normalizeAll hn)
      obtain ⟨run, hrun, rfl⟩ := hnumbers n hmem
      rw [toList_digits_decimal hrun] at hzero
      have hhead := List.head?_dropWhile_not (· == '0') run
      rw [hzero] at hhead
      cases hhead
    normalizeAll_eq := normalizeAll_normalizeAll _ }

end Token

/-- The items of a version are in normal form, in every list at any depth. The digits of each number are
those of a run of digits of the text, without the zeros in front. -/
theorem normalForm_of_encloses (v : Version) {js : List Item} (h : Item.Encloses v.items js) :
    Item.NormalForm js ∧ ∀ n, .number n ∈ js →
      ∃ run, run <:+: Text.lowercaseChars v.text.toList ∧ (∀ c ∈ run, c.isDigit = true) ∧
        (Item.digits n).toList = run.dropWhile (· == '0') := by
  have hplain : ∀ t ∈ Token.scan [] (Text.lowercaseChars v.text.toList), t.IsPlain :=
    fun t ht => Token.isPlain_of_mem_scan _ _ ht
  obtain ⟨us, hus, rfl⟩ := Token.exists_suffix_of_encloses h hplain v.items_eq
  have hruns : ∀ n, .item (.number n) ∈ us →
      ∃ run, run <:+: Text.lowercaseChars v.text.toList ∧ (∀ c ∈ run, c.isDigit = true) ∧
        n = Token.decimal run := by
    intro n hn
    have hnone : ∀ d ∈ ([] : List Char), d.isDigit = true := nofun
    exact Token.exists_run_of_mem_scan hnone (hus.subset hn)
  constructor
  · apply Token.normalForm_normalizeAll (fun t ht => hplain t (hus.subset ht))
    intro n hn
    obtain ⟨run, -, hrun, hdecimal⟩ := hruns n hn
    exact ⟨run, hrun, hdecimal⟩
  · intro n hn
    have hmem := Token.item_number_mem_of_mem_items (Item.number_mem_of_mem_normalizeAll hn)
    obtain ⟨run, hinfix, hrun, rfl⟩ := hruns n hmem
    exact ⟨run, hinfix, hrun, Item.toList_digits_decimal hrun⟩

theorem items_ofText_releaseCandidate :
    (ofText "2.0-RC.007-0").items = [.number 2, .list [.qualifier .candidate, .number 7]] := by
  have hlower : Text.lowercaseChars "2.0-RC.007-0".toList = "2.0-rc.007-0".toList := by decide +kernel
  have hcandidate : Qualifier.ofWord "rc" false = .candidate := by decide
  have hitems : (ofText "2.0-RC.007-0").items = itemsOf "2.0-RC.007-0" := rfl
  rw [hitems, itemsOf, hlower]
  simp [Token.scan, Token.ofRun, Token.decimal, Token.items, Item.normalizeAll, Item.normalize,
    Item.isNull, Item.isList, hcandidate]

/-- Of the zeros in the nested list and before it nothing is left. -/
theorem normalForm_of_encloses_releaseCandidate :
    Item.Encloses (ofText "2.0-RC.007-0").items [.qualifier .candidate, .number 7] ∧
      Item.NormalForm [.qualifier .candidate, .number 7] ∧
        ∃ run, run <:+: Text.lowercaseChars "2.0-RC.007-0".toList ∧
          (∀ c ∈ run, c.isDigit = true) ∧ ['7'] = run.dropWhile (· == '0') := by
  have hencloses :
      Item.Encloses (ofText "2.0-RC.007-0").items [.qualifier .candidate, .number 7] := by
    rw [items_ofText_releaseCandidate]
    exact .nested (List.mem_cons_of_mem _ List.mem_cons_self) (.self _)
  obtain ⟨hnormal, hruns⟩ := normalForm_of_encloses (ofText "2.0-RC.007-0") hencloses
  obtain ⟨run, hinfix, hrun, hdigits⟩ := hruns 7 (by simp)
  exact ⟨hencloses, hnormal, run, hinfix, hrun, hdigits⟩

end Linkage.Version
