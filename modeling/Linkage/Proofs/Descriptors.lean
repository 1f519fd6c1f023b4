import Linkage.ClassFile.Error
import Linkage.Proofs.Fallible
import Linkage.Proofs.Names
import Mathlib.Data.List.TakeWhile

/-!
# Descriptors and their texts

A reader takes the text of a value off the front, whatever comes behind it, and nothing else
(`Descriptor.TakesExactly`): what it takes is the text of the value that it returns
(`eq_of_readFieldType`, `eq_of_readMethodDescriptor`), and it reads every value back from its text
(`readFieldType_chars`, `readMethodDescriptor_chars`). So whole texts are read and written in ways that are
inverse to each other (`Descriptor.descriptors_mutuallyInverse`).

Dimensions are counted without a bound, but a type that is read has fewer of them than its text has
characters (`MethodDescriptor.dimensions_lt_of_parse`).
-/

set_option autoImplicit false

namespace Linkage

open Fallible

namespace Descriptor

variable {cs rest : List Char}

/-- What comes before and after the first character of a kind. -/
theorem eq_append_of_dropWhile {p : Char → Bool} {c : Char} (h : cs.dropWhile p = c :: rest) :
    p c = false ∧ cs = cs.takeWhile p ++ c :: rest := by
  have hhead := List.head?_dropWhile_not p cs
  rw [h] at hhead
  exact ⟨hhead, by rw [← h, List.takeWhile_append_dropWhile]⟩

theorem eq_letter_of_ofLetter? {c : Char} {type : BaseType} (h : BaseType.ofLetter? c = some type) :
    c = type.letter := by
  unfold BaseType.ofLetter? at h
  split at h <;> cases h <;> rfl

theorem eq_of_readBaseType {type : BaseType} (h : readBaseType cs = .ok (type, rest)) :
    cs = type.chars ++ rest := by
  cases cs with
  | nil => cases h
  | cons c cs =>
      simp only [readBaseType] at h
      split at h
      · rename_i hletter
        cases h
        rw [eq_letter_of_ofLetter? hletter]
        rfl
      · cases h

theorem eq_of_readClass {name : BinaryName} (h : readClass cs = .ok (name, rest)) :
    cs = name.typeChars ++ rest := by
  unfold readClass at h
  split at h
  · rename_i cs
    dsimp only at h
    split at h
    · cases h
    · rename_i c rest' hdrop
      split at h
      · rename_i name' hname
        cases h
        obtain ⟨hstop, hcs⟩ := eq_append_of_dropWhile hdrop
        have hsemicolon : c = ';' := by simpa using hstop
        have htext : name.text = String.ofList (cs.takeWhile (· ≠ ';')) :=
          BinaryName.ofText_eq_ok_iff.1 hname
        rw [BinaryName.typeChars, htext, String.toList_ofList]
        conv => lhs; rw [hcs, hsemicolon]
        simp
      · cases h
  · cases h

theorem takeWhile_eq_replicate (c : Char) (cs : List Char) :
    cs.takeWhile (· = c) = List.replicate (cs.takeWhile (· = c)).length c := by
  refine List.eq_replicate_of_mem fun d hd => ?_
  simpa using List.mem_takeWhile_imp hd

theorem eq_of_readReferenceType {type : ReferenceType}
    (h : readReferenceType cs = .ok (type, rest)) : cs = type.chars ++ rest := by
  unfold readReferenceType at h
  split at h
  · obtain ⟨⟨name, left⟩, hname, hpure⟩ := bind_eq_ok_iff.1 h
    cases pure_eq_ok_iff.1 hpure
    exact eq_of_readClass hname
  · rename_i further hlength
    have hbrackets : cs = List.replicate (further + 1) '[' ++ cs.dropWhile (· = '[') := by
      conv => lhs; rw [← List.takeWhile_append_dropWhile (p := (· = '[')) (l := cs)]
      rw [takeWhile_eq_replicate, hlength]
    split at h
    · rename_i left hdrop
      obtain ⟨⟨name, left'⟩, hname, hpure⟩ := bind_eq_ok_iff.1 h
      cases pure_eq_ok_iff.1 hpure
      rw [hbrackets, hdrop, eq_of_readClass hname, ReferenceType.chars, List.append_assoc]
    · obtain ⟨⟨element, left'⟩, helement, hpure⟩ := bind_eq_ok_iff.1 h
      cases pure_eq_ok_iff.1 hpure
      conv => lhs; rw [hbrackets]
      rw [eq_of_readBaseType helement, ReferenceType.chars, List.append_assoc]

theorem eq_of_readFieldType {type : FieldType} (h : readFieldType cs = .ok (type, rest)) :
    cs = type.chars ++ rest := by
  cases cs with
  | nil => cases h
  | cons c cs =>
      simp only [readFieldType] at h
      split at h
      · obtain ⟨⟨reference, left⟩, hreference, hpure⟩ := bind_eq_ok_iff.1 h
        cases pure_eq_ok_iff.1 hpure
        exact eq_of_readReferenceType hreference
      · obtain ⟨⟨base, left⟩, hbase, hpure⟩ := bind_eq_ok_iff.1 h
        cases pure_eq_ok_iff.1 hpure
        exact eq_of_readBaseType hbase

theorem readParameters_cons {c : Char} (hopen : c ≠ ')') :
    readParameters (c :: cs) = do
      let (type, rest) ← readFieldType (c :: cs)
      let (types, rest) ← readParameters rest
      return (type :: types, rest) := by
  rw [readParameters, if_neg hopen]
  split
  · rename_i hread
    rw [hread]
    rfl
  · rename_i type left hread
    rw [hread]
    change _ = (readParameters left >>= fun result => pure (type :: result.1, result.2))
    cases readParameters left with
    | error fault => rfl
    | ok result => rfl

theorem eq_of_readParameters {types : List FieldType} (h : readParameters cs = .ok (types, rest)) :
    cs = types.flatMap FieldType.chars ++ ')' :: rest := by
  -- the induction is on what each type leaves
  induction hlength : cs.length using Nat.strongRecOn generalizing cs types with
  | _ n ih =>
      cases cs with
      | nil =>
          rw [readParameters] at h
          cases h
      | cons c cs =>
          by_cases hclose : c = ')'
          · rw [readParameters, if_pos hclose] at h
            cases h
            rw [hclose]
            rfl
          · rw [readParameters_cons hclose] at h
            obtain ⟨⟨type, left⟩, htype, h⟩ := bind_eq_ok_iff.1 h
            obtain ⟨⟨types', left'⟩, htypes, hpure⟩ := bind_eq_ok_iff.1 h
            cases pure_eq_ok_iff.1 hpure
            have hlt : left.length < n := hlength ▸ length_lt_of_readFieldType htype
            rw [eq_of_readFieldType htype, ih left.length hlt htypes rfl, List.flatMap_cons,
              List.append_assoc]

theorem eq_of_readResult {result : Option FieldType} (h : readResult cs = .ok (result, rest)) :
    result = none ∧ cs = 'V' :: rest ∨ ∃ type, result = some type ∧ cs = type.chars ++ rest := by
  unfold readResult at h
  split at h
  · cases h
    exact Or.inl ⟨rfl, rfl⟩
  · obtain ⟨⟨type, left⟩, htype, hpure⟩ := bind_eq_ok_iff.1 h
    cases pure_eq_ok_iff.1 hpure
    exact Or.inr ⟨type, rfl, eq_of_readFieldType htype⟩

theorem eq_of_readMethodDescriptor {d : MethodDescriptor}
    (h : readMethodDescriptor cs = .ok (d, rest)) : cs = d.chars ++ rest := by
  unfold readMethodDescriptor at h
  split at h
  · obtain ⟨⟨parameters, left⟩, hparameters, h⟩ := bind_eq_ok_iff.1 h
    obtain ⟨⟨result, left'⟩, hresult, hpure⟩ := bind_eq_ok_iff.1 h
    cases pure_eq_ok_iff.1 hpure
    rw [eq_of_readParameters hparameters, MethodDescriptor.chars]
    rcases eq_of_readResult hresult with ⟨rfl, hleft⟩ | ⟨type, rfl, hleft⟩
    · rw [hleft]
      simp
    · rw [hleft]
      simp
  · cases h

/-! ## Texts of values -/

theorem readBaseType_chars (type : BaseType) (rest : List Char) :
    readBaseType (type.chars ++ rest) = .ok (type, rest) := by
  simp only [BaseType.chars, List.cons_append, List.nil_append, readBaseType,
    BaseType.ofLetter?_letter]

theorem semicolon_not_mem_text (name : BinaryName) : ';' ∉ name.text.toList := by
  intro hmem
  have hplain := name.isNameDelimiter_of_mem hmem (by decide)
  exact absurd hplain (by decide)

theorem readClass_typeChars (name : BinaryName) (rest : List Char) :
    readClass (name.typeChars ++ rest) = .ok (name, rest) := by
  -- the name has no semicolon, so the first one is that of the type
  have hname : ∀ c ∈ name.text.toList, decide (c ≠ ';') = true := by
    intro c hc
    refine decide_eq_true ?_
    rintro rfl
    exact semicolon_not_mem_text name hc
  have htake : (name.text.toList ++ ';' :: rest).takeWhile (· ≠ ';') = name.text.toList := by
    rw [List.takeWhile_append_of_pos hname]
    simp
  have hdrop : (name.text.toList ++ ';' :: rest).dropWhile (· ≠ ';') = ';' :: rest := by
    rw [List.dropWhile_append_of_pos hname]
    simp
  have hchars : name.typeChars ++ rest = 'L' :: (name.text.toList ++ ';' :: rest) := by
    simp [BinaryName.typeChars]
  have hread : BinaryName.ofText (String.ofList name.text.toList) = .ok name :=
    BinaryName.ofText_eq_ok_iff.2 String.ofList_toList.symm
  simp only [hchars, readClass, htake, hdrop, hread]

/-- Brackets before another character. -/
theorem takeWhile_brackets {c : Char} (hc : c ≠ '[') (n : Nat) (cs : List Char) :
    (List.replicate n '[' ++ c :: cs).takeWhile (· = '[') = List.replicate n '[' ∧
      (List.replicate n '[' ++ c :: cs).dropWhile (· = '[') = c :: cs := by
  have hbrackets : ∀ d ∈ List.replicate n '[', decide (d = '[') = true := by
    intro d hd
    exact decide_eq_true (List.eq_of_mem_replicate hd)
  rw [List.takeWhile_append_of_pos hbrackets, List.dropWhile_append_of_pos hbrackets]
  simp [hc]

theorem letter_ne (type : BaseType) :
    type.letter ≠ 'L' ∧ type.letter ≠ '[' ∧ type.letter ≠ ')' ∧ type.letter ≠ 'V' := by
  cases type <;> decide

theorem readReferenceType_chars (type : ReferenceType) (rest : List Char) :
    readReferenceType (type.chars ++ rest) = .ok (type, rest) := by
  cases type with
  | object name =>
      have hlength : ((name.typeChars ++ rest).takeWhile (· = '[')).length = 0 := rfl
      simp only [ReferenceType.chars, readReferenceType, hlength]
      rw [readClass_typeChars]
      rfl
  | objectArray element further =>
      -- the brackets end at the `L` of the class, which the reader of the class takes itself
      obtain ⟨htake, hdrop⟩ := takeWhile_brackets (c := 'L') (by decide) (further + 1)
        (element.text.toList ++ [';'] ++ rest)
      have hchars : (ReferenceType.objectArray element further).chars ++ rest =
          List.replicate (further + 1) '[' ++ 'L' :: (element.text.toList ++ [';'] ++ rest) := by
        simp [ReferenceType.chars, BinaryName.typeChars]
      have hread : readClass ('L' :: (element.text.toList ++ [';'] ++ rest)) = .ok (element, rest) :=
        readClass_typeChars element rest
      rw [hchars, readReferenceType, htake, hdrop, List.length_replicate]
      simp only [hread]
      rfl
  | primitiveArray element further =>
      obtain ⟨hclass, hbracket, -⟩ := letter_ne element
      obtain ⟨htake, hdrop⟩ := takeWhile_brackets hbracket (further + 1) rest
      have hchars : (ReferenceType.primitiveArray element further).chars ++ rest =
          List.replicate (further + 1) '[' ++ element.letter :: rest := by
        simp [ReferenceType.chars, BaseType.chars]
      have hread : readBaseType (element.letter :: rest) = .ok (element, rest) :=
        readBaseType_chars element rest
      rw [hchars, readReferenceType, htake, hdrop, List.length_replicate]
      cases element <;> rfl

theorem readFieldType_chars (type : FieldType) (rest : List Char) :
    readFieldType (type.chars ++ rest) = .ok (type, rest) := by
  cases type with
  | base type =>
      obtain ⟨hclass, hbracket, -⟩ := letter_ne type
      have hread : readBaseType (type.letter :: rest) = .ok (type, rest) := readBaseType_chars type rest
      have hchars : (FieldType.base type).chars ++ rest = type.letter :: rest := rfl
      rw [hchars, readFieldType, if_neg (not_or.2 ⟨hclass, hbracket⟩), hread]
      rfl
  | reference type =>
      have hread := readReferenceType_chars type rest
      obtain ⟨c, cs, hcons, hstart⟩ : ∃ c cs, type.chars ++ rest = c :: cs ∧ (c = 'L' ∨ c = '[') := by
        cases type with
        | object name => exact ⟨'L', _, rfl, Or.inl rfl⟩
        | objectArray element further => exact ⟨'[', _, rfl, Or.inr rfl⟩
        | primitiveArray element further => exact ⟨'[', _, rfl, Or.inr rfl⟩
      rw [FieldType.chars, hcons, readFieldType, if_pos hstart, ← hcons, hread]
      rfl

/-- The first character of a type is neither the end of the parameters nor the sign for no result. -/
theorem exists_chars_eq_cons (type : FieldType) :
    ∃ c cs, type.chars = c :: cs ∧ c ≠ ')' ∧ c ≠ 'V' := by
  cases type with
  | base type => exact ⟨type.letter, [], rfl, (letter_ne type).2.2⟩
  | reference type =>
      cases type with
      | object name => exact ⟨'L', _, rfl, by decide⟩
      | objectArray element further => exact ⟨'[', _, rfl, by decide⟩
      | primitiveArray element further => exact ⟨'[', _, rfl, by decide⟩

theorem readParameters_chars (types : List FieldType) (rest : List Char) :
    readParameters (types.flatMap FieldType.chars ++ ')' :: rest) = .ok (types, rest) := by
  induction types with
  | nil => rw [List.flatMap_nil, List.nil_append, readParameters, if_pos rfl]
  | cons type types ih =>
      have hread := readFieldType_chars type (types.flatMap FieldType.chars ++ ')' :: rest)
      obtain ⟨c, cs, hcons, hopen, -⟩ := exists_chars_eq_cons type
      rw [hcons, List.cons_append] at hread
      rw [List.flatMap_cons, List.append_assoc, hcons, List.cons_append, readParameters_cons hopen, hread]
      change (readParameters _ >>= fun result => pure (type :: result.1, result.2)) = _
      rw [ih]
      rfl

theorem readMethodDescriptor_chars (d : MethodDescriptor) (rest : List Char) :
    readMethodDescriptor (d.chars ++ rest) = .ok (d, rest) := by
  obtain ⟨parameters, result⟩ := d
  cases result with
  | none =>
      have hread := readParameters_chars parameters ('V' :: rest)
      have hchars : (MethodDescriptor.mk parameters none).chars ++ rest =
          '(' :: (parameters.flatMap FieldType.chars ++ ')' :: 'V' :: rest) := by
        simp [MethodDescriptor.chars]
      rw [hchars, readMethodDescriptor, hread]
      rfl
  | some type =>
      have hread := readParameters_chars parameters (type.chars ++ rest)
      have hchars : (MethodDescriptor.mk parameters (some type)).chars ++ rest =
          '(' :: (parameters.flatMap FieldType.chars ++ ')' :: (type.chars ++ rest)) := by
        simp [MethodDescriptor.chars]
      have hresult : readResult (type.chars ++ rest) = .ok (some type, rest) := by
        have htype := readFieldType_chars type rest
        obtain ⟨c, cs, hcons, -, hvoid⟩ := exists_chars_eq_cons type
        rw [hcons, List.cons_append] at htype ⊢
        unfold readResult
        split
        · rename_i hc
          exact absurd (List.cons.inj hc).1 hvoid
        · rw [htype]
          rfl
      rw [hchars, readMethodDescriptor, hread]
      change (readResult _ >>= fun result => pure (MethodDescriptor.mk parameters result.1, result.2)) = _
      rw [hresult]
      rfl

/-! ## Whole texts -/

section Inverse

variable {α : Type}

/-- What the reader takes off the front is exactly the text of the value that it returns. -/
def TakesExactly (read : Reader α) (chars : α → List Char) : Prop :=
  ∀ cs value rest, read cs = .ok (value, rest) ↔ cs = chars value ++ rest

theorem takesExactly_readReferenceType : TakesExactly readReferenceType ReferenceType.chars := by
  intro cs type rest
  constructor
  · exact eq_of_readReferenceType
  · rintro rfl
    exact readReferenceType_chars type rest

theorem takesExactly_readFieldType : TakesExactly readFieldType FieldType.chars := by
  intro cs type rest
  constructor
  · exact eq_of_readFieldType
  · rintro rfl
    exact readFieldType_chars type rest

theorem takesExactly_readMethodDescriptor :
    TakesExactly readMethodDescriptor MethodDescriptor.chars := by
  intro cs d rest
  constructor
  · exact eq_of_readMethodDescriptor
  · rintro rfl
    exact readMethodDescriptor_chars d rest

/-- Reading and writing are inverse to each other: values are read from their texts, and from no others.
So the texts that are read are those of values, no two values have one text, and values that are read are
equal exactly if their texts are. -/
structure MutuallyInverse (parse : String → Except DescriptorError α) (render : α → String) : Prop where
  parse_render : ∀ value, parse (render value) = .ok value
  render_of_parse : ∀ text value, parse text = .ok value → render value = text
  accepted_iff : ∀ text, (∃ value, parse text = .ok value) ↔ ∃ value, render value = text
  render_injective : Function.Injective render
  eq_iff : ∀ s t a b, parse s = .ok a → parse t = .ok b → (a = b ↔ s = t)

theorem mutuallyInverse_of_iff {parse : String → Except DescriptorError α} {render : α → String}
    (h : ∀ text value, parse text = .ok value ↔ render value = text) : MutuallyInverse parse render where
  parse_render value := (h (render value) value).2 rfl
  render_of_parse text value := (h text value).1
  accepted_iff text := exists_congr (h text)
  render_injective := by
    intro a b hab
    have ha := (h (render b) a).2 hab
    rw [(h (render b) b).2 rfl] at ha
    exact (Except.ok.inj ha).symm
  eq_iff := by
    intro s t a b ha hb
    constructor
    · rintro rfl
      rw [← (h s a).1 ha, (h t a).1 hb]
    · rintro rfl
      rw [ha] at hb
      exact Except.ok.inj hb

theorem parseWith_eq_ok_iff {read : Reader α} {text : String} {value : α} :
    parseWith read text = .ok value ↔ read text.toList = .ok (value, []) := by
  unfold parseWith
  split
  · rename_i hread
    simp [hread]
  · rename_i hread
    simp [hread]
  · rename_i hread
    simp [hread]

/-- A reader that takes exactly the text of a value makes reading whole texts the inverse of writing. -/
theorem TakesExactly.mutuallyInverse {read : Reader α} {chars : α → List Char}
    (h : TakesExactly read chars) :
    MutuallyInverse (parseWith read) fun value => String.ofList (chars value) := by
  apply mutuallyInverse_of_iff
  intro text value
  rw [parseWith_eq_ok_iff, h, List.append_nil]
  constructor
  · intro htext
    rw [← htext, String.ofList_toList]
  · rintro rfl
    rw [String.toList_ofList]

end Inverse

/-- Types of fields, reference types and signatures are read and written in ways that are inverse to each
other, whatever the dimensions of arrays, the number of parameters and the names of classes. -/
theorem descriptors_mutuallyInverse :
    MutuallyInverse FieldType.parse FieldType.render ∧
      MutuallyInverse ReferenceType.parse ReferenceType.render ∧
        MutuallyInverse MethodDescriptor.parse MethodDescriptor.render :=
  ⟨takesExactly_readFieldType.mutuallyInverse, takesExactly_readReferenceType.mutuallyInverse,
    takesExactly_readMethodDescriptor.mutuallyInverse⟩

/-- A signature with arrays and a void result is its text, and a text with something behind it is read as
no signature. -/
example : (MethodDescriptor.parse "([[Llib/Shape;J[Z)V").map MethodDescriptor.render =
      .ok "([[Llib/Shape;J[Z)V" ∧
    MethodDescriptor.parse "()VV" = .error ⟨"()VV", .trailing 'V'⟩ := by
  decide +kernel

end Descriptor

/-- The text of a type that is read is the text that it is read from. -/
theorem FieldType.render_of_parse {text : String} {type : FieldType} (h : parse text = .ok type) :
    type.render = text :=
  Descriptor.takesExactly_readFieldType.mutuallyInverse.render_of_parse text type h

/-- The text of a signature that is read is the text that it is read from. -/
theorem MethodDescriptor.render_of_parse {text : String} {d : MethodDescriptor}
    (h : parse text = .ok d) : d.render = text :=
  Descriptor.takesExactly_readMethodDescriptor.mutuallyInverse.render_of_parse text d h

/-! ## Dimensions -/

/-- Dimensions of a type; all but the first one are further ones. -/
def ReferenceType.dimensions : ReferenceType → Nat
  | .object _ => 0
  | .objectArray _ further => further + 1
  | .primitiveArray _ further => further + 1

/-- Dimensions of a type of a field. -/
def FieldType.dimensions : FieldType → Nat
  | .base _ => 0
  | .reference type => type.dimensions

theorem ReferenceType.dimensions_lt_length (type : ReferenceType) :
    type.dimensions < type.chars.length := by
  cases type with
  | object name => simp [dimensions, chars, BinaryName.typeChars]
  | objectArray element further => simp [dimensions, chars, BinaryName.typeChars]
  | primitiveArray element further => simp [dimensions, chars, BaseType.chars]

theorem FieldType.dimensions_lt_length (type : FieldType) : type.dimensions < type.chars.length := by
  cases type with
  | base type => exact Nat.one_pos
  | reference type => exact type.dimensions_lt_length

/-- The text of a signature is longer than those of its types. -/
theorem MethodDescriptor.length_chars_lt {d : MethodDescriptor} {type : FieldType}
    (h : type ∈ d.parameters ++ d.result.toList) : type.chars.length < d.chars.length := by
  rw [MethodDescriptor.chars, List.length_append, List.length_cons, List.length_cons]
  rcases List.mem_append.1 h with hparameter | hresult
  · have hle : type.chars.length ≤ (d.parameters.flatMap FieldType.chars).length :=
      (List.sublist_flatten_of_mem (List.mem_map_of_mem hparameter)).length_le
    omega
  · obtain hsome := Option.mem_toList.1 hresult
    simp only [hsome]
    omega

/-- Every type of a signature that is read has fewer dimensions than the text has characters, so they are
counted by a word wherever the characters are. -/
theorem MethodDescriptor.dimensions_lt_of_parse {text : String} {d : MethodDescriptor}
    (h : parse text = .ok d) {type : FieldType} (htype : type ∈ d.parameters ++ d.result.toList) :
    type.dimensions < text.toList.length := by
  rw [← render_of_parse h, render, String.toList_ofList]
  exact Nat.lt_trans type.dimensions_lt_length (length_chars_lt htype)

/-- A type that is read has fewer dimensions than its text has characters. -/
theorem FieldType.dimensions_lt_of_parse {text : String} {type : FieldType} (h : parse text = .ok type) :
    type.dimensions < text.toList.length := by
  rw [← render_of_parse h, render, String.toList_ofList]
  exact type.dimensions_lt_length

theorem ReferenceType.dimensions_lt_of_parse {text : String} {type : ReferenceType}
    (h : parse text = .ok type) : type.dimensions < text.toList.length := by
  rw [← Descriptor.takesExactly_readReferenceType.mutuallyInverse.render_of_parse text type h,
    String.toList_ofList]
  exact type.dimensions_lt_length

end Linkage
