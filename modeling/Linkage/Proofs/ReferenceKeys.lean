import Linkage.Manifest
import Linkage.Proofs.Descriptors

/-!
# What keys tell apart

The key of a member joins the name of its owner, its own name and its descriptor with `#` and with `:` or
`(`, and all three of these may stand in names. So a key may be cut at another `#`, or inside of the name of
a class in the descriptor, and then two things have one key.

* `Target.parts?`: a key behind the name of the owner, cut where it was joined.
* `MarksBehindClass`: inside of a descriptor `:` and `(` stand in names of classes only, and these follow an
  `L`. So where a descriptor is cut in another place, the name of the member takes an `L` from it.
* `Target.sameThing_of_key_eq`: targets with clear names and one key ask for the same thing.
* `Target.keysIdentify_iff`: the alphabets over which keys identify what is asked for.
-/

set_option autoImplicit false

namespace Linkage

variable {c : Char} {cs rest : List Char}

/-! ## Marks inside of descriptors -/

/-- Every `:` and every `(` stands behind the `L` of a class or the bracket of an array. -/
def MarksBehindClass : List Char → Prop
  | [] => True
  | c :: cs => c ≠ ':' ∧ c ≠ '(' ∧ (c = 'L' ∨ c = '[' ∨ MarksBehindClass cs)

theorem MarksBehindClass.mem_of_append {front : List Char} (h : MarksBehindClass (front ++ c :: rest))
    (hc : c = ':' ∨ c = '(') : 'L' ∈ front ∨ '[' ∈ front := by
  induction front with
  | nil =>
      obtain ⟨hcolon, hparenthesis, -⟩ := h
      rcases hc with rfl | rfl
      · exact absurd rfl hcolon
      · exact absurd rfl hparenthesis
  | cons d front ih =>
      obtain ⟨-, -, rfl | rfl | h⟩ := h
      · exact Or.inl List.mem_cons_self
      · exact Or.inr List.mem_cons_self
      · exact (ih h).imp (List.mem_cons_of_mem d) (List.mem_cons_of_mem d)

theorem FieldType.marksBehindClass (type : FieldType) (h : MarksBehindClass rest) :
    MarksBehindClass (type.chars ++ rest) := by
  cases type with
  | base type => cases type <;> exact ⟨by decide, by decide, Or.inr (Or.inr h)⟩
  | reference type =>
      cases type with
      | object name => exact ⟨by decide, by decide, Or.inl rfl⟩
      | objectArray element further => exact ⟨by decide, by decide, Or.inr (Or.inl rfl)⟩
      | primitiveArray element further => exact ⟨by decide, by decide, Or.inr (Or.inl rfl)⟩

theorem FieldType.marksBehindClass_chars (type : FieldType) : MarksBehindClass type.chars := by
  rw [← List.append_nil type.chars]
  exact type.marksBehindClass trivial

/-- The text of a signature behind its first parenthesis. -/
def MethodDescriptor.openChars (d : MethodDescriptor) : List Char :=
  d.parameters.flatMap FieldType.chars ++ ')' ::
    match d.result with
    | some type => type.chars
    | none => ['V']

theorem MethodDescriptor.chars_eq (d : MethodDescriptor) : d.chars = '(' :: d.openChars := rfl

theorem MethodDescriptor.marksBehindClass (d : MethodDescriptor) : MarksBehindClass d.openChars := by
  obtain ⟨parameters, result⟩ := d
  unfold openChars
  dsimp only
  induction parameters with
  | nil =>
      refine ⟨by decide, by decide, Or.inr (Or.inr ?_)⟩
      cases result with
      | none => exact ⟨by decide, by decide, Or.inr (Or.inr trivial)⟩
      | some type => exact type.marksBehindClass_chars
  | cons type types ih =>
      rw [List.flatMap_cons, List.append_assoc]
      exact type.marksBehindClass ih

/-! ## Cutting keys -/

/-- The name of a member cannot be taken for one that goes on into a descriptor: it has no mark, or no
letter that stands before a class. -/
def UnqualifiedName.Clear (name : UnqualifiedName) : Prop :=
  ':' ∉ name.text.toList ∧ '(' ∉ name.text.toList ∨ 'L' ∉ name.text.toList

variable {mark mark' : Char} {descriptor descriptor' : List Char}

/-- No name with a descriptor goes on into the descriptor of a shorter name. -/
theorem UnqualifiedName.Clear.not_longer {name name' : UnqualifiedName} (hclear : name'.Clear)
    (hmark : mark = ':' ∨ mark = '(') (hmark' : mark' = ':' ∨ mark' = '(')
    (hbehind : MarksBehindClass descriptor) {more : List Char}
    (hname : name'.text.toList = name.text.toList ++ more)
    (hdescriptor : mark :: descriptor = more ++ mark' :: descriptor') : more = [] := by
  cases more with
  | nil => rfl
  | cons c more =>
      exfalso
      -- the longer name takes the mark of the shorter one and all of its descriptor up to the other mark
      obtain ⟨rfl, rfl⟩ := List.cons.inj hdescriptor
      have hmem : ∀ c ∈ mark :: more, c ∈ name'.text.toList := by
        intro c hc
        rw [hname]
        exact List.mem_append_right _ hc
      have hbracket : '[' ∉ name'.text.toList := by
        intro hc
        have hplain := name'.isNameDelimiter_of_mem hc
        exact absurd hplain (by decide)
      rcases hclear with ⟨hcolon, hparenthesis⟩ | hclass
      · rcases hmark with rfl | rfl
        · exact hcolon (hmem ':' List.mem_cons_self)
        · exact hparenthesis (hmem '(' List.mem_cons_self)
      · rcases hbehind.mem_of_append hmark' with hletter | hletter
        · exact hclass (hmem 'L' (List.mem_cons_of_mem mark hletter))
        · exact hbracket (hmem '[' (List.mem_cons_of_mem mark hletter))

/-- Clear names with descriptors behind them are told apart. -/
theorem UnqualifiedName.Clear.eq_of_append {name name' : UnqualifiedName} (hclear : name.Clear)
    (hclear' : name'.Clear) (hmark : mark = ':' ∨ mark = '(') (hmark' : mark' = ':' ∨ mark' = '(')
    (hbehind : MarksBehindClass descriptor) (hbehind' : MarksBehindClass descriptor')
    (h : name.text.toList ++ mark :: descriptor = name'.text.toList ++ mark' :: descriptor') :
    name = name' ∧ mark = mark' ∧ descriptor = descriptor' := by
  have htexts : name.text.toList = name'.text.toList := by
    -- one of the names begins the other, and what it lacks is a part of its own descriptor
    rcases List.append_eq_append_iff.1 h with ⟨more, hname, hdescriptor⟩ | ⟨more, hname, hdescriptor⟩
    · obtain rfl := hclear'.not_longer hmark hmark' hbehind hname hdescriptor
      rw [hname, List.append_nil]
    · obtain rfl := hclear.not_longer hmark' hmark hbehind' hname hdescriptor
      rw [hname, List.append_nil]
  rw [htexts] at h
  obtain ⟨hmarks, hdescriptors⟩ := List.cons.inj (List.append_cancel_left h)
  exact ⟨UnqualifiedName.eq_of_text_eq (String.toList_inj.1 htexts), hmarks, hdescriptors⟩

/-! ## Targets -/

namespace Target

/-- Both targets are of one kind and have the same owner, the same name and the same descriptor. Whether
members are static and whether methods are called through an interface does not matter. -/
inductive SameThing : Target → Target → Prop
  | classes (name : BinaryName) : SameThing (.classOf name) (.classOf name)
  | methods (owner : BinaryName) (name : UnqualifiedName) (descriptor : MethodDescriptor)
      (isStatic isInterface isStatic' isInterface' : Bool) :
      SameThing (.methodOf owner name descriptor isStatic isInterface)
        (.methodOf owner name descriptor isStatic' isInterface')
  | fields (owner : BinaryName) (name : UnqualifiedName) (type : FieldType) (isStatic isStatic' : Bool) :
      SameThing (.fieldOf owner name type isStatic) (.fieldOf owner name type isStatic')

/-- Name of the member, if the target is one. -/
def memberName? : Target → Option UnqualifiedName
  | .classOf _ => none
  | .methodOf _ name _ _ _ => some name
  | .fieldOf _ name _ _ => some name

/-- Name of the member, the mark behind it and the rest of the key. -/
def parts? : Target → Option (UnqualifiedName × Char × List Char)
  | .classOf _ => none
  | .methodOf _ name descriptor _ _ => some (name, '(', descriptor.openChars)
  | .fieldOf _ name type _ => some (name, ':', type.chars)

variable {a b t : Target} {name : UnqualifiedName}

/-- What stands behind the owner and the `#` in the key of a member. -/
def memberChars? (t : Target) : Option (List Char) :=
  t.parts?.map fun (name, mark, descriptor) => name.text.toList ++ mark :: descriptor

theorem toList_key (t : Target) : t.key.toList = t.owner.text.toList ++
    match t.memberChars? with
    | none => []
    | some cs => '#' :: cs := by
  cases t with
  | classOf name => exact (List.append_nil _).symm
  | methodOf owner name descriptor isStatic isInterface =>
      simp [key, Target.owner, memberChars?, parts?, MethodDescriptor.render, MethodDescriptor.chars_eq]
  | fieldOf owner name type isStatic =>
      simp [key, Target.owner, memberChars?, parts?, FieldType.render]

/-- Keys of owners without a `#` are told apart by what stands in front of it and behind it. -/
theorem owner_eq_of_key_eq (ha : '#' ∉ a.owner.text.toList) (hb : '#' ∉ b.owner.text.toList)
    (h : a.key = b.key) : a.owner = b.owner ∧ a.memberChars? = b.memberChars? := by
  have hchars := congrArg String.toList h
  rw [toList_key, toList_key] at hchars
  -- the key of a member has a `#` and that of a class has none, so the kinds cannot be mixed up
  cases hmemberA : a.memberChars? with
  | none =>
      cases hmemberB : b.memberChars? with
      | none =>
          simp only [hmemberA, hmemberB, List.append_nil] at hchars
          exact ⟨BinaryName.eq_of_text_eq (String.toList_inj.1 hchars), rfl⟩
      | some cs =>
          simp only [hmemberA, hmemberB, List.append_nil] at hchars
          exact absurd (hchars ▸ List.mem_append_right _ List.mem_cons_self) ha
  | some cs =>
      cases hmemberB : b.memberChars? with
      | none =>
          simp only [hmemberA, hmemberB, List.append_nil] at hchars
          exact absurd (hchars.symm ▸ List.mem_append_right _ List.mem_cons_self) hb
      | some cs' =>
          simp only [hmemberA, hmemberB] at hchars
          obtain ⟨howner, hmember⟩ := Text.append_cons_inj ha hb hchars
          exact ⟨BinaryName.eq_of_text_eq (String.toList_inj.1 howner), congrArg some hmember⟩

theorem parts?_spec (h : t.parts? = some (name, mark, descriptor)) :
    t.memberName? = some name ∧ (mark = ':' ∨ mark = '(') ∧ MarksBehindClass descriptor := by
  cases t with
  | classOf name => cases h
  | methodOf owner name descriptor isStatic isInterface =>
      cases h
      exact ⟨rfl, Or.inr rfl, descriptor.marksBehindClass⟩
  | fieldOf owner name type isStatic =>
      cases h
      exact ⟨rfl, Or.inl rfl, type.marksBehindClass_chars⟩

/-- Targets with the same owner and the same parts ask for the same thing, since the parts of a descriptor
can be read off it. -/
theorem sameThing_of_parts_eq (howner : a.owner = b.owner) (hparts : a.parts? = b.parts?) :
    SameThing a b := by
  cases a with
  | classOf x =>
      cases b with
      | classOf y =>
          obtain rfl : x = y := howner
          exact .classes x
      | methodOf _ _ _ _ _ => cases hparts
      | fieldOf _ _ _ _ => cases hparts
  | methodOf x name descriptor _ _ =>
      cases b with
      | classOf _ => cases hparts
      | methodOf y name' descriptor' _ _ =>
          obtain rfl : x = y := howner
          simp only [parts?, Option.some.injEq, Prod.mk.injEq, true_and] at hparts
          obtain ⟨rfl, hopen⟩ := hparts
          have hrender : descriptor.render = descriptor'.render := by
            rw [MethodDescriptor.render, MethodDescriptor.render, MethodDescriptor.chars_eq,
              MethodDescriptor.chars_eq, hopen]
          obtain rfl := Descriptor.takesExactly_readMethodDescriptor.mutuallyInverse.render_injective hrender
          exact .methods x name descriptor _ _ _ _
      | fieldOf _ _ _ _ => simp [parts?] at hparts
  | fieldOf x name type _ =>
      cases b with
      | classOf _ => cases hparts
      | methodOf _ _ _ _ _ => simp [parts?] at hparts
      | fieldOf y name' type' _ =>
          obtain rfl : x = y := howner
          simp only [parts?, Option.some.injEq, Prod.mk.injEq, true_and] at hparts
          obtain ⟨rfl, hchars⟩ := hparts
          have hrender : type.render = type'.render := by rw [FieldType.render, FieldType.render, hchars]
          obtain rfl := Descriptor.takesExactly_readFieldType.mutuallyInverse.render_injective hrender
          exact .fields x name type _ _

theorem SameThing.key_eq (h : SameThing a b) : a.key = b.key := by
  cases h with
  | classes name => rfl
  | methods owner name descriptor _ _ _ _ => rfl
  | fields owner name type _ _ => rfl

theorem SameThing.memberName?_eq (h : SameThing a b) : a.memberName? = b.memberName? := by
  cases h with
  | classes name => rfl
  | methods owner name descriptor _ _ _ _ => rfl
  | fields owner name type _ _ => rfl

/-- The name of the owner has no `#`, and the name of the member is clear. -/
def Clear (t : Target) : Prop :=
  '#' ∉ t.owner.text.toList ∧ ∀ name, t.memberName? = some name → name.Clear

/-- Targets with clear names and one key ask for the same thing. -/
theorem sameThing_of_key_eq (ha : a.Clear) (hb : b.Clear) (h : a.key = b.key) : SameThing a b := by
  obtain ⟨howner, hmember⟩ := owner_eq_of_key_eq ha.1 hb.1 h
  apply sameThing_of_parts_eq howner
  rw [memberChars?, memberChars?] at hmember
  cases hpartsA : a.parts? with
  | none =>
      rw [hpartsA, Option.map_none, eq_comm, Option.map_eq_none_iff] at hmember
      exact hmember.symm
  | some parts =>
      rw [hpartsA, Option.map_some, eq_comm, Option.map_eq_some_iff] at hmember
      obtain ⟨⟨name', mark', descriptor'⟩, hpartsB, hchars⟩ := hmember
      obtain ⟨name, mark, descriptor⟩ := parts
      obtain ⟨hnameA, hmark, hbehind⟩ := parts?_spec hpartsA
      obtain ⟨hnameB, hmark', hbehind'⟩ := parts?_spec hpartsB
      obtain ⟨rfl, rfl, rfl⟩ := (ha.2 name hnameA).eq_of_append (hb.2 name' hnameB) hmark hmark'
        hbehind hbehind' hchars.symm
      exact hpartsB.symm

/-! ## Alphabets -/

/-- The names of the owner and of the member are words over the alphabet. -/
def SpelledIn (alphabet : Char → Prop) (t : Target) : Prop :=
  (∀ c ∈ t.owner.text.toList, alphabet c) ∧
    ∀ name, t.memberName? = some name → ∀ c ∈ name.text.toList, alphabet c

/-- Among the targets with names over the alphabet, those with one key ask for the same thing. -/
def KeysIdentify (alphabet : Char → Prop) : Prop :=
  ∀ a b : Target, a.SpelledIn alphabet → b.SpelledIn alphabet → (a.key = b.key ↔ SameThing a b)

theorem SpelledIn.clear {alphabet : Char → Prop} (h : t.SpelledIn alphabet) (hsharp : ¬ alphabet '#')
    (hclass : alphabet 'L' → ¬ alphabet ':' ∧ ¬ alphabet '(') : t.Clear := by
  refine ⟨fun hmem => hsharp (h.1 '#' hmem), ?_⟩
  intro name hname
  by_cases hletter : alphabet 'L'
  · obtain ⟨hcolon, hparenthesis⟩ := hclass hletter
    exact Or.inl ⟨fun hmem => hcolon (h.2 name hname ':' hmem),
      fun hmem => hparenthesis (h.2 name hname '(' hmem)⟩
  · exact Or.inr fun hmem => hletter (h.2 name hname 'L' hmem)

/-- Over `#` alone, the key of a field can be cut at two of its characters. -/
theorem not_keysIdentify_of_sharp {alphabet : Char → Prop} (hsharp : alphabet '#') :
    ¬ KeysIdentify alphabet := by
  intro h
  have hone : ∀ c ∈ ['#'], alphabet c := by simpa using hsharp
  have htwo : ∀ c ∈ ['#', '#'], alphabet c := by simpa using hsharp
  have hkeys := h (.fieldOf ⟨"#", rfl⟩ ⟨"##", rfl⟩ (.base .byte) false)
    (.fieldOf ⟨"##", rfl⟩ ⟨"#", rfl⟩ (.base .byte) false)
    ⟨hone, by rintro name ⟨⟩; exact htwo⟩ ⟨htwo, by rintro name ⟨⟩; exact hone⟩
  exact absurd (hkeys.1 (by decide)).memberName?_eq (by decide)

/-- With `L` and `:`, the key of a field can be cut inside of the name of its class. -/
theorem not_keysIdentify_of_colon {alphabet : Char → Prop} (hclass : alphabet 'L')
    (hcolon : alphabet ':') : ¬ KeysIdentify alphabet := by
  intro h
  have hshort : ∀ c ∈ ['L'], alphabet c := by simpa using hclass
  have hlong : ∀ c ∈ ['L', ':', 'L'], alphabet c := by simp [hclass, hcolon]
  have hkeys := h (.fieldOf ⟨"L", rfl⟩ ⟨"L", rfl⟩ (.ofClass ⟨":LL", rfl⟩) false)
    (.fieldOf ⟨"L", rfl⟩ ⟨"L:L", rfl⟩ (.ofClass ⟨"L", rfl⟩) false)
    ⟨hshort, by rintro name ⟨⟩; exact hshort⟩ ⟨hshort, by rintro name ⟨⟩; exact hlong⟩
  exact absurd (hkeys.1 (by decide)).memberName?_eq (by decide)

/-- With `L` and `(`, the key of a method can be cut inside of the name of a class in its signature. -/
theorem not_keysIdentify_of_parenthesis {alphabet : Char → Prop} (hclass : alphabet 'L')
    (hparenthesis : alphabet '(') : ¬ KeysIdentify alphabet := by
  intro h
  have hshort : ∀ c ∈ ['L'], alphabet c := by simpa using hclass
  have hlong : ∀ c ∈ ['L', '(', 'L'], alphabet c := by simp [hclass, hparenthesis]
  have hkeys := h (.methodOf ⟨"L", rfl⟩ ⟨"L", rfl⟩ ⟨[.ofClass ⟨"(LL", rfl⟩], none⟩ false false)
    (.methodOf ⟨"L", rfl⟩ ⟨"L(L", rfl⟩ ⟨[.ofClass ⟨"L", rfl⟩], none⟩ false false)
    ⟨hshort, by rintro name ⟨⟩; exact hshort⟩ ⟨hshort, by rintro name ⟨⟩; exact hlong⟩
  exact absurd (hkeys.1 (by decide)).memberName?_eq (by decide)

/-- Keys identify what is asked for, whatever the descriptors, exactly over the alphabets without `#` that
have neither `:` nor `(` if they have `L`. -/
theorem keysIdentify_iff (alphabet : Char → Prop) :
    KeysIdentify alphabet ↔ ¬ alphabet '#' ∧ (alphabet 'L' → ¬ alphabet ':' ∧ ¬ alphabet '(') := by
  constructor
  · intro h
    refine ⟨fun hsharp => not_keysIdentify_of_sharp hsharp h, fun hclass => ⟨?_, ?_⟩⟩
    · exact fun hcolon => not_keysIdentify_of_colon hclass hcolon h
    · exact fun hparenthesis => not_keysIdentify_of_parenthesis hclass hparenthesis h
  · rintro ⟨hsharp, hclass⟩ a b ha hb
    constructor
    · exact sameThing_of_key_eq (ha.clear hsharp hclass) (hb.clear hsharp hclass)
    · exact SameThing.key_eq

/-- A field of a class. -/
def meterField : Target := .fieldOf ⟨"lib/Meter", rfl⟩ ⟨"ticks", rfl⟩ (.base .int) false

/-- A class that has the key of the field as its name. -/
def meterClass : Target := .classOf ⟨"lib/Meter#ticks:I", rfl⟩

/-- Both as references of one class, the field first. -/
def meterManifest : Manifest :=
  (Manifest.empty.add ⟨meterField, .publicAccess⟩ ⟨"agent/Source", rfl⟩).add
    ⟨meterClass, .publicAccess⟩ ⟨"agent/Source", rfl⟩

/-- The field and the class have one key, and the manifest does not ask for the class any more. -/
theorem key_meterField_eq_meterClass :
    meterField.key = meterClass.key ∧ ¬ SameThing meterField meterClass ∧
      meterManifest.references = [⟨meterField, .publicAccess⟩] := by
  refine ⟨by decide, ?_, by decide +kernel⟩
  intro h
  cases h

end Target

end Linkage
