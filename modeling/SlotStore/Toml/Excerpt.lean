import SlotStore.Toml.Lexeme

/-!
# Excerpts

A message about a place in a text shows the line of the place with its number, and marks the place
below it.
-/

namespace SlotStore.Toml

/-- A line of a text with a marked place in it. -/
structure Excerpt where
  /-- The number of the line, from 1. -/
  line : Nat
  /-- The number of the first marked character in the line, from 1. -/
  column : Nat
  /-- The line without its line feed. -/
  text : List Char
  width : Nat
deriving DecidableEq, Repr

namespace Excerpt

def bytes (cs : List Char) : Nat := cs.foldr (fun c n => c.utf8Size + n) 0

def isInLine (c : Char) : Bool := c != '\n'

/-- The line in which a piece of a text begins, with the piece marked. The mark is as wide as the
piece has bytes, but ends with the line. -/
def ofSpan (text : List Char) (span : Span) : Excerpt :=
  let earlier := text.take (text.length - span.start)
  let rest := text.drop (text.length - span.start)
  let lead := (earlier.reverse.takeWhile isInLine).reverse
  let shownLine := lead ++ rest.takeWhile isInLine
  { line := earlier.count '\n' + 1
    column := lead.length + 1
    text := shownLine
    width := max 1
      (min (bytes (rest.take (span.start - span.stop))) (bytes shownLine - lead.length)) }

/-- The excerpt with a reason below it. -/
def report (e : Excerpt) (reason : String) : String :=
  let margin := String.ofList (List.replicate (e.line.repr.length + 1) ' ') ++ "|"
  "TOML parse error at line " ++ e.line.repr ++ ", column " ++ e.column.repr ++ "\n" ++
    margin ++ "\n" ++
    e.line.repr ++ " | " ++ String.ofList e.text ++ "\n" ++
    margin ++ String.ofList (List.replicate e.column ' ' ++ List.replicate e.width '^') ++ "\n" ++
    reason ++ "\n"

end Excerpt

end SlotStore.Toml
