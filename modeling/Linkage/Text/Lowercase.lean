import Linkage.Text.CaseTable

/-!
# Lowercase of a text

The full lowercase mapping of Unicode over lists of characters. Two characters
are special: capital I with a dot above has a two-character image, and capital
sigma has the final form at the end of a word, which is decided by the nearest
characters around it that are not case-ignorable. Every other character is
looked up in `lowercaseRanges` on its own.
-/

set_option autoImplicit false

namespace Linkage.Text

/-- Image of a code point under a table of lowercase ranges; a code point outside
the table is its own image. -/
def lowercaseCode (n : Nat) : List (Nat × Nat × Nat × Nat) → Nat
  | [] => n
  | (first, last, step, image) :: ranges =>
      if n < first then n
      else if n ≤ last then
        if (n - first) % step = 0 then image + (n - first) else n
      else lowercaseCode n ranges

/-- Lowercase image of a character that does not depend on its neighbours. -/
def lowercaseChar (c : Char) : List Char :=
  if c = 'İ' then ['i', '\u0307']
  else [Char.ofNat (lowercaseCode c.toNat lowercaseRanges)]

/-- Cased characters that are not case-ignorable. -/
def isCased (c : Char) : Bool := inRanges c.toNat casedRanges

/-- Characters that are stepped over when the case of a neighbour is asked for. -/
def isCaseIgnorable (c : Char) : Bool := inRanges c.toNat caseIgnorableRanges

/-- Whether the first character that is not case-ignorable is cased. -/
def startsCased (cs : List Char) : Bool :=
  match cs.dropWhile isCaseIgnorable with
  | [] => false
  | c :: _ => isCased c

/-- Lowercase of the characters after a context. The flag says whether the last
character of the context that is not case-ignorable is cased: a capital sigma
ends a word when that holds before it and does not hold after it. -/
def lowercaseAfter (cased : Bool) : List Char → List Char
  | [] => []
  | c :: cs =>
      let image :=
        if c = 'Σ' then [if cased && !startsCased cs then 'ς' else 'σ'] else lowercaseChar c
      image ++ lowercaseAfter (if isCaseIgnorable c then cased else isCased c) cs

/-- Lowercase of a list of characters. -/
def lowercaseChars (cs : List Char) : List Char := lowercaseAfter false cs

/-- Lowercase of a text. -/
def lowercase (s : String) : String := String.ofList (lowercaseChars s.toList)

/-! ## Lowercase of ASCII -/

theorem lowercaseCode_of_ascii :
    ∀ n < 128, Char.ofNat (lowercaseCode n lowercaseRanges) = (Char.ofNat n).toLower := by
  decide +kernel

theorem lowercaseChar_of_ascii {c : Char} (h : c.toNat < 128) : lowercaseChar c = [c.toLower] := by
  have hcode := lowercaseCode_of_ascii c.toNat h
  rw [Char.ofNat_toNat] at hcode
  have hdot : c ≠ 'İ' := by
    rintro rfl
    exact absurd h (by decide)
  rw [lowercaseChar, if_neg hdot, hcode]

theorem lowercaseAfter_of_ascii (cased : Bool) {cs : List Char} (h : ∀ c ∈ cs, c.toNat < 128) :
    lowercaseAfter cased cs = cs.map Char.toLower := by
  induction cs generalizing cased with
  | nil => rfl
  | cons c cs ih =>
      have hc := h c List.mem_cons_self
      have hsigma : c ≠ 'Σ' := by
        rintro rfl
        exact absurd hc (by decide)
      rw [lowercaseAfter, if_neg hsigma, lowercaseChar_of_ascii hc, List.map_cons]
      exact congrArg (c.toLower :: ·) (ih _ fun d hd => h d (List.mem_cons_of_mem c hd))

/-- In ASCII, every character has its lowercase on its own. -/
theorem lowercaseChars_of_ascii {cs : List Char} (h : ∀ c ∈ cs, c.toNat < 128) :
    lowercaseChars cs = cs.map Char.toLower :=
  lowercaseAfter_of_ascii false h

end Linkage.Text
