/-!
# Pieces of a text

Cutting a list of characters at a separator, at every place or at the first one,
and looking for a list of characters inside another.
-/

set_option autoImplicit false

namespace Linkage.Text

/-- The texts between the separators. There is one more of them than there are
separators, so the result is never empty. -/
def pieces (sep : Char) : List Char → List (List Char)
  | [] => [[]]
  | c :: cs =>
      if c = sep then [] :: pieces sep cs
      else
        match pieces sep cs with
        | [] => [[c]]
        | p :: ps => (c :: p) :: ps

/-- The texts before and after the first separator, if there is one. -/
def cut? (sep : Char) : List Char → Option (List Char × List Char)
  | [] => none
  | c :: cs =>
      if c = sep then some ([], cs)
      else (cut? sep cs).map fun halves => (c :: halves.1, halves.2)

/-- Whether the text stands somewhere inside the other one. -/
def isInside (needle : List Char) : List Char → Bool
  | [] => needle.isEmpty
  | c :: cs => needle.isPrefixOf (c :: cs) || isInside needle cs

end Linkage.Text
