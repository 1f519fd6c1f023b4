import Linkage.Text.Blank
import Linkage.Text.Pieces
import Linkage.Version.Basic

/-!
# Version ranges

A range is a union of intervals of versions, written in bracket notation:
`[1.0,2.0)` holds the versions from `1.0` up to `2.0`, without `2.0`; a side that
is left blank is unbounded; `[1.2]` and the bare text `1.2` hold the versions
equal to `1.2`; several intervals are joined by commas. Reading refuses an
interval whose lower bound is above its upper one.
-/

set_option autoImplicit false

namespace Linkage

/-! ## Intervals -/

/-- One end of an interval of versions. -/
inductive Bound where
  | unbounded
  | included (version : Version)
  | excluded (version : Version)
  deriving BEq

namespace Bound

/-- Bound of a text between a bracket and a comma; a blank text is no bound. -/
def ofText (text : List Char) (inclusive : Bool) : Bound :=
  let t := Text.trim text
  if t.isEmpty then .unbounded
  else if inclusive then .included (.ofText (String.ofList t))
  else .excluded (.ofText (String.ofList t))

/-- Version at the bound, and whether it belongs to the interval. -/
def limit? : Bound → Option (Version × Bool)
  | .unbounded => none
  | .included v => some (v, true)
  | .excluded v => some (v, false)

end Bound

/-- Interval of versions. Equality of intervals is equality of bounds as
versions, not as texts. -/
structure Interval where
  lower : Bound
  upper : Bound
  deriving BEq

namespace Interval

/-- Interval that holds the versions equal to the given one. -/
def exactly (v : Version) : Interval := ⟨.included v, .included v⟩

/-- Whether the version is not below the lower bound. -/
def aboveLower (i : Interval) (v : Version) : Bool :=
  match i.lower with
  | .unbounded => true
  | .included l => (compare v l).isGE
  | .excluded l => (compare v l).isGT

/-- Whether the version is not above the upper bound. -/
def belowUpper (i : Interval) (v : Version) : Bool :=
  match i.upper with
  | .unbounded => true
  | .included u => (compare v u).isLE
  | .excluded u => (compare v u).isLT

/-- Whether the version lies between the bounds. -/
def contains (i : Interval) (v : Version) : Bool := i.aboveLower v && i.belowUpper v

/-- Whether the lower bound is above the upper one, or the two are equal and one
of them is excluded. -/
def isInverted (i : Interval) : Bool :=
  match i.lower.limit?, i.upper.limit? with
  | some (l, lowerIn), some (u, upperIn) =>
      match compare l u with
      | .gt => true
      | .eq => !(lowerIn && upperIn)
      | .lt => false
  | _, _ => false

/-- Text of an interval. Equal included bounds are written once, as the lower
one. -/
def render (i : Interval) : String :=
  match i.lower, i.upper with
  | .included l, .included u =>
      if l == u then "[" ++ l.text ++ "]" else "[" ++ l.text ++ "," ++ u.text ++ "]"
  | l, u => lowerText l ++ "," ++ upperText u
where
  /-- Opening bracket and lower bound. -/
  lowerText : Bound → String
    | .unbounded => "("
    | .included v => "[" ++ v.text
    | .excluded v => "(" ++ v.text
  /-- Upper bound and closing bracket. -/
  upperText : Bound → String
    | .unbounded => ")"
    | .included v => v.text ++ "]"
    | .excluded v => v.text ++ ")"

end Interval

/-! ## Ranges -/

/-- Ways in which a text is no range. -/
inductive RangeFault where
  | empty
  | bareUnion
  | trailingComma
  | noOpening
  | unterminated
  | nested
  | notExact
  | tooManyBounds
  | noComma
  | inverted
  deriving DecidableEq, Repr

/-- Text that is no range, with the first fault found in it. -/
structure RangeError where
  source : String
  fault : RangeFault
  deriving DecidableEq, Repr

namespace RangeError

/-- What is wrong with the text. -/
def message (e : RangeError) : String :=
  let quoted := "'" ++ e.source ++ "'"
  match e.fault with
  | .empty => quoted ++ ": empty range"
  | .bareUnion => quoted ++ ": unions must use bracketed intervals"
  | .trailingComma => quoted ++ ": trailing comma"
  | .noOpening => quoted ++ ": expected '[' or '('"
  | .unterminated => quoted ++ ": unterminated interval"
  | .nested => quoted ++ ": nested brackets"
  | .notExact => quoted ++ ": exact versions must be written as '[v]'"
  | .tooManyBounds => quoted ++ ": intervals have at most two bounds"
  | .noComma => quoted ++ ": expected ',' between intervals"
  | .inverted => quoted ++ " has a lower bound above its upper bound"

end RangeError

/-- Opening brackets. -/
def isOpening (c : Char) : Bool := c == '[' || c == '('

/-- Closing brackets. -/
def isClosing (c : Char) : Bool := c == ']' || c == ')'

/-- Interval of the text between an opening and a closing bracket. -/
def Interval.ofBody (opening closing : Char) (body : List Char) :
    Except RangeFault Interval := do
  if body.any isOpening then throw .nested
  let interval ←
    match Text.cut? ',' body with
    | none =>
        let t := Text.trim body
        if opening == '[' && closing == ']' && !t.isEmpty then
          pure (exactly (.ofText (String.ofList t)))
        else throw .notExact
    | some (lower, upper) =>
        if upper.contains ',' then throw .tooManyBounds
        else pure ⟨.ofText lower (opening == '['), .ofText upper (closing == ']')⟩
  if interval.isInverted then throw .inverted
  return interval

/-- Union of intervals. -/
structure VersionRange where
  intervals : List Interval
  deriving BEq

namespace VersionRange

/-- Range of every version. -/
def unbounded : VersionRange := ⟨[⟨.unbounded, .unbounded⟩]⟩

/-- Intervals of a text that is one or more bracketed intervals joined by
commas, with optional blanks around the commas. -/
def intervalsOf : List Char → Except RangeFault (List Interval)
  | [] => .error .trailingComma
  | opening :: cs =>
      if !isOpening opening then .error .noOpening
      else
        match _ : cs.dropWhile (!isClosing ·) with
        | [] => .error .unterminated
        | closing :: after =>
            match Interval.ofBody opening closing (cs.takeWhile (!isClosing ·)) with
            | .error fault => .error fault
            | .ok interval =>
                match _ : Text.trimLeft after with
                | [] => .ok [interval]
                | c :: more =>
                    if c = ',' then (intervalsOf (Text.trimLeft more)).map (interval :: ·)
                    else .error .noComma
termination_by cs => cs.length
decreasing_by
  rename_i hclosing hafter _
  have h₁ := (List.dropWhile_suffix (l := cs) (!isClosing ·)).length_le
  have h₂ := (List.dropWhile_suffix (l := after) Text.isBlank).length_le
  have h₃ := (List.dropWhile_suffix (l := more) Text.isBlank).length_le
  simp only [Text.trimLeft] at hafter ⊢
  rw [hclosing] at h₁
  rw [hafter] at h₂
  simp only [List.length_cons] at *
  omega

/-- Range of a text whose blanks at both ends are gone. -/
def ofTrimmed : List Char → Except RangeFault VersionRange
  | [] => .error .empty
  | c :: cs =>
      if isOpening c then VersionRange.mk <$> intervalsOf (c :: cs)
      else if (c :: cs).any fun d => d == ',' || isOpening d || isClosing d then
        .error .bareUnion
      else .ok ⟨[Interval.exactly (.ofText (String.ofList (c :: cs)))]⟩

/-- Range that a text denotes. -/
def parse (source : String) : Except RangeError VersionRange :=
  (ofTrimmed (Text.trim source.toList)).mapError fun fault => ⟨source, fault⟩

/-- Whether the version lies in one of the intervals. -/
def contains (r : VersionRange) (v : Version) : Bool := r.intervals.any (·.contains v)

/-- Text of a range. -/
def render (r : VersionRange) : String :=
  ",".intercalate (r.intervals.map Interval.render)

end VersionRange

end Linkage
