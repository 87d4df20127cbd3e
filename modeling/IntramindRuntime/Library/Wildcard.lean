import Mathlib.Data.List.Infix

/-!
# Patterns with wildcards

The patterns of file names: a star stands for any text, a question mark for any character, and
brackets for one character of a set or outside of it. Nothing is special about slashes.

## Main definitions

* `Wildcard.Atom`, `Wildcard.atoms` — what a pattern is made of
* `fnmatchcase` — a name matches a pattern
-/

namespace IntramindRuntime.Library

namespace Wildcard

/-- A piece of a pattern. -/
inductive Atom
  | star
  | any
  | char (c : Char)
  | set (negated : Bool) (ranges : List (Char × Char))

/-- The ranges of a set. A hyphen that does not stand between two characters is one itself. -/
def ranges : List Char → List (Char × Char)
  | low :: '-' :: high :: rest => (low, high) :: ranges rest
  | c :: rest => (c, c) :: ranges rest
  | [] => []

/-- A set behind its opening bracket, and what follows it. A closing bracket at the head of a set
is one of its characters. -/
def readSet (text : List Char) : Option (Atom × List Char) :=
  let negated := text.head? = some '!'
  let body := if negated then text.tail else text
  let (first, tail) := if body.head? = some ']' then ([']'], body.tail) else ([], body)
  match tail.dropWhile (· ≠ ']') with
  | [] => none
  | _ :: rest => some (.set negated (ranges (first ++ tail.takeWhile (· ≠ ']'))), rest)

/-- The pieces of a pattern of at most the given length. -/
def atoms : ℕ → List Char → List Atom
  | 0, _ | _, [] => []
  | fuel + 1, '*' :: rest => .star :: atoms fuel rest
  | fuel + 1, '?' :: rest => .any :: atoms fuel rest
  | fuel + 1, '[' :: rest =>
    match readSet rest with
    | some (atom, rest) => atom :: atoms fuel rest
    | none => .char '[' :: atoms fuel rest
  | fuel + 1, c :: rest => .char c :: atoms fuel rest

/-- A piece accepts a character. -/
def Atom.accepts (c : Char) : Atom → Bool
  | .star | .any => true
  | .char d => c = d
  | .set negated ranges => negated ^^ ranges.any fun range => range.1 ≤ c && c ≤ range.2

/-- The whole text is made of the pieces. -/
def accepts : List Atom → List Char → Bool
  | [], text => text.isEmpty
  | .star :: rest, text => text.tails.any (accepts rest)
  | _ :: _, [] => false
  | atom :: rest, c :: text => atom.accepts c && accepts rest text

end Wildcard

/-- The name matches the pattern. -/
def fnmatchcase (name pattern : List Char) : Bool :=
  Wildcard.accepts (Wildcard.atoms pattern.length pattern) name

example : fnmatchcase "items/12/text".toList "items/[!a-z]*/te?t".toList = true ∧
    fnmatchcase "items/12/text".toList "items/[]x-]".toList = false := by
  decide +kernel

end IntramindRuntime.Library
