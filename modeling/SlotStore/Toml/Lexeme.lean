/-!
# Blanks, comments and keys

The smallest parts of a TOML document. A reader takes characters off the front of a text: it gives
what it read and the characters that are left, or nothing if the text does not begin that way.
Because a reader only sees what is left, a position in the text is the number of characters from
there to the end of the text.
-/

namespace SlotStore.Toml

/-- A piece of a text. Both ends are given by the number of characters that are left there. -/
structure Span where
  /-- How many characters are left at the start of the piece. -/
  start : Nat
  /-- How many characters are left behind the piece. -/
  stop : Nat
deriving DecidableEq, Repr

structure Key where
  /-- The key without quotes and escapes. -/
  name : String
  span : Span
deriving DecidableEq, Repr

/-! ## Blanks and line ends -/

/-- The characters that separate parts of a line. -/
def isBlank (c : Char) : Bool := c = ' ' || c = '\t'

/-- The characters beyond ASCII, all of which may stand in comments and strings. -/
def isWide (c : Char) : Bool := 0x80 ≤ c.toNat

/-- The characters of a comment: all but the control characters other than the tabulator. -/
def isCommentChar (c : Char) : Bool :=
  c = '\t' || (0x20 ≤ c.toNat && c.toNat < 0x7f) || isWide c

def skipBlanks (cs : List Char) : List Char := cs.dropWhile isBlank

/-- Reads one line break: a line feed, with or without a carriage return before it. -/
def lineBreak? : List Char → Option (List Char)
  | '\n' :: r => some r
  | '\r' :: '\n' :: r => some r
  | _ => none

def skipComment : List Char → List Char
  | '#' :: r => r.dropWhile isCommentChar
  | r => r

/-- Reads the rest of a line that holds nothing more: blanks, a comment, and the line break or the
end of the text. -/
def lineEnd? (cs : List Char) : Option (List Char) :=
  match skipComment (skipBlanks cs) with
  | [] => some []
  | r => lineBreak? r

/-- Passes over blanks and line breaks. -/
def skipWhite : List Char → List Char
  | '\n' :: r => skipWhite r
  | '\r' :: '\n' :: r => skipWhite r
  | c :: r => if isBlank c then skipWhite r else c :: r
  | [] => []

theorem length_skipWhite_le (cs : List Char) : (skipWhite cs).length ≤ cs.length := by
  fun_induction skipWhite cs with
  | case1 r ih => simp only [List.length_cons]; omega
  | case2 r ih => simp only [List.length_cons]; omega
  | case3 c r _ _ _ ih => simp only [List.length_cons]; omega
  | case4 => exact Nat.le_refl _
  | case5 => exact Nat.le_refl _

/-- Passes over blanks, line breaks and comments, as between the elements of an array. -/
def skipFiller (cs : List Char) : List Char :=
  match h : skipWhite cs with
  | '#' :: r =>
    have : r.length < cs.length := by
      have := length_skipWhite_le cs
      rw [h, List.length_cons] at this
      omega
    skipFiller (r.dropWhile isCommentChar)
  | r => r
termination_by cs.length
decreasing_by
  have := (List.dropWhile_sublist (l := r) isCommentChar).length_le
  omega

/-! ## Repetition -/

/-- Reads one or more items with a mark between them. -/
def separated {α : Type} (item : List Char → Option (α × List Char)) (mark : Char)
    (cs : List Char) : Option (List α × List Char) :=
  match item cs with
  | none => none
  | some (a, []) => some ([a], [])
  | some (a, c :: r) =>
    if c = mark then
      if r.length < cs.length then
        (separated item mark r).map fun (as, r) => (a :: as, r)
      else none
    else some ([a], c :: r)
termination_by cs.length

end SlotStore.Toml
