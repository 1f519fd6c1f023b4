import Linkage.Version.Item

/-!
# Tokens of a version text

A version text is cut at every dot and hyphen and at every change between digits
and other characters. A hyphen and a change of kind also open a nested list,
which holds everything that follows: lists are never closed before the end.
-/

set_option autoImplicit false

namespace Linkage.Version

/-- Part of a version text: an item, or the start of a nested list. -/
inductive Token where
  | item (i : Item)
  | nest
  deriving Repr

namespace Token

/-- Value of a run of decimal digits. -/
def decimal (run : List Char) : Nat := run.foldl (fun n d => 10 * n + (d.toNat - '0'.toNat)) 0

/-- Item of a run of characters that are all digits or all not. The empty run,
between two separators, is zero. -/
def ofRun (run : List Char) (beforeDigit : Bool) : Item :=
  match run with
  | [] => .number 0
  | c :: _ =>
      if c.isDigit then .number (decimal run)
      else .qualifier (Qualifier.ofWord (String.ofList run) beforeDigit)

/-- Tokens of the characters after the run that has been read so far, which is
held backwards. Nothing is made of an empty run at the end of the text. -/
def scan (run : List Char) : List Char → List Token
  | [] => if run.isEmpty then [] else [.item (ofRun run.reverse false)]
  | c :: cs =>
      if c = '.' then .item (ofRun run.reverse false) :: scan [] cs
      else if c = '-' then .item (ofRun run.reverse false) :: .nest :: scan [] cs
      else
        match run with
        | [] => scan [c] cs
        | d :: _ =>
            if d.isDigit == c.isDigit then scan (c :: run) cs
            else .item (ofRun run.reverse c.isDigit) :: .nest :: scan [c] cs

/-- Items of a list of tokens. -/
def items : List Token → List Item
  | [] => []
  | .item i :: ts => i :: items ts
  | .nest :: ts => [.list (items ts)]

end Token

end Linkage.Version
