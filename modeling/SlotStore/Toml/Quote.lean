import SlotStore.Toml.Lexeme

/-!
# Strings

The four kinds of TOML strings. Each reader starts behind the opening quotes and ends behind the
closing ones.
-/

namespace SlotStore.Toml

def hexValue? (c : Char) : Option Nat :=
  if '0' ≤ c && c ≤ '9' then some (c.toNat - '0'.toNat)
  else if 'a' ≤ c && c ≤ 'f' then some (c.toNat - 'a'.toNat + 10)
  else if 'A' ≤ c && c ≤ 'F' then some (c.toNat - 'A'.toNat + 10)
  else none

/-- The character with a code point, unless that is a surrogate or beyond the last one. -/
def charOf? (n : Nat) : Option Char := if n.isValidChar then some (Char.ofNat n) else none

/-- Reads `k` hexadecimal digits after the number `n`, and gives the character with that code
point. -/
def codePoint? : Nat → Nat → List Char → Option (Char × List Char)
  | 0, n, cs => (charOf? n).map (·, cs)
  | k + 1, n, c :: r => (hexValue? c).bind fun v => codePoint? k (16 * n + v) r
  | _ + 1, _, [] => none

/-- Reads what follows the backslash of an escape. -/
def escape? : List Char → Option (Char × List Char)
  | 'b' :: r => some ('\x08', r)
  | 't' :: r => some ('\t', r)
  | 'n' :: r => some ('\n', r)
  | 'f' :: r => some ('\x0c', r)
  | 'r' :: r => some ('\r', r)
  | '"' :: r => some ('"', r)
  | '\\' :: r => some ('\\', r)
  | 'u' :: r => codePoint? 4 0 r
  | 'U' :: r => codePoint? 8 0 r
  | _ => none

theorem codePoint?_length {k n : Nat} {cs r : List Char} {c : Char}
    (h : codePoint? k n cs = some (c, r)) : r.length ≤ cs.length := by
  induction k generalizing n cs with
  | zero =>
    simp only [codePoint?, Option.map_eq_some_iff, Prod.mk.injEq] at h
    obtain ⟨_, _, _, rfl⟩ := h
    exact Nat.le_refl _
  | succ k ih =>
    cases cs with
    | nil => simp [codePoint?] at h
    | cons d cs =>
      simp only [codePoint?, Option.bind_eq_some_iff] at h
      obtain ⟨v, _, h⟩ := h
      have := ih h
      simp only [List.length_cons]
      omega

theorem escape?_length {cs r : List Char} {c : Char} (h : escape? cs = some (c, r)) :
    r.length < cs.length := by
  unfold escape? at h
  split at h
  case h_8 | h_9 =>
    have := codePoint?_length h
    simp only [List.length_cons]
    omega
  case h_10 => simp at h
  all_goals
    simp only [Option.some.injEq, Prod.mk.injEq] at h
    obtain ⟨_, rfl⟩ := h
    simp

/-- The characters that stand for themselves in a string with escapes. -/
def isPlainChar (c : Char) : Bool := isCommentChar c && c != '"' && c != '\\'

/-- The characters of a string without escapes. -/
def isLiteralChar (c : Char) : Bool := isCommentChar c && c != '\''

/-- Puts a character before what a reader read. -/
def before (c : Char) : List Char × List Char → List Char × List Char
  | (cs, r) => (c :: cs, r)

/-- Reads a string with escapes on one line. -/
def basicString (cs : List Char) : Option (List Char × List Char) :=
  match cs with
  | '"' :: r => some ([], r)
  | '\\' :: r =>
    match h : escape? r with
    | some (c, r') =>
      have : r'.length < r.length := escape?_length h
      (basicString r').map (before c)
    | none => none
  | c :: r => if isPlainChar c then (basicString r).map (before c) else none
  | [] => none
termination_by cs.length
decreasing_by all_goals (simp only [List.length_cons]; omega)

/-- Reads a string without escapes on one line. -/
def literalString (cs : List Char) : Option (List Char × List Char) :=
  match cs.dropWhile isLiteralChar with
  | '\'' :: r => some (cs.takeWhile isLiteralChar, r)
  | _ => none

/-- Reads the closing quotes of a string on several lines, three of them: up to two more directly
before them belong to the string. -/
def closing? (quote : Char) : List Char → Option (List Char × List Char)
  | a :: b :: c :: r =>
    if a = quote && b = quote && c = quote then
      match r with
      | d :: e :: r' =>
        if d = quote && e = quote then some ([quote, quote], r')
        else if d = quote then some ([quote], e :: r')
        else some ([], r)
      | [d] => if d = quote then some ([quote], []) else some ([], r)
      | [] => some ([], [])
    else none
  | _ => none

/-- Passes over the line break directly behind the opening quotes. -/
def skipFirstBreak (cs : List Char) : List Char := (lineBreak? cs).getD cs

/-- Passes over an escaped line break, behind its backslash, and all white space after it. -/
def escapedBreak? (cs : List Char) : Option (List Char) :=
  (lineBreak? (skipBlanks cs)).map skipWhite

theorem lineBreak?_length {cs r : List Char} (h : lineBreak? cs = some r) :
    r.length < cs.length := by
  unfold lineBreak? at h
  split at h
  case h_3 => cases h
  all_goals
    cases h
    simp only [List.length_cons]
    omega

theorem escapedBreak?_length {cs r : List Char} (h : escapedBreak? cs = some r) :
    r.length < cs.length := by
  simp only [escapedBreak?, Option.map_eq_some_iff] at h
  obtain ⟨s, hs, rfl⟩ := h
  have h₁ := lineBreak?_length hs
  have h₂ := length_skipWhite_le s
  have h₃ := (List.dropWhile_sublist (l := cs) isBlank).length_le
  unfold skipBlanks at h₁
  omega

/-- Reads a string with escapes on several lines. Line breaks are kept as line feeds, unless they
are escaped. -/
def multilineBasicString (cs : List Char) : Option (List Char × List Char) :=
  match closing? '"' cs with
  | some hit => some hit
  | none =>
    match cs with
    | '\\' :: r =>
      match h : escapedBreak? r with
      | some r' =>
        have : r'.length < r.length := escapedBreak?_length h
        multilineBasicString r'
      | none =>
        match h : escape? r with
        | some (c, r') =>
          have : r'.length < r.length := escape?_length h
          (multilineBasicString r').map (before c)
        | none => none
    | '\r' :: '\n' :: r => (multilineBasicString r).map (before '\n')
    | c :: r =>
      if isPlainChar c || c = '"' || c = '\n' then
        (multilineBasicString r).map (before c)
      else none
    | [] => none
termination_by cs.length
decreasing_by all_goals (simp only [List.length_cons]; omega)

/-- Reads a string without escapes on several lines. Line breaks are kept as line feeds. -/
def multilineLiteralString (cs : List Char) : Option (List Char × List Char) :=
  match closing? '\'' cs with
  | some hit => some hit
  | none =>
    match cs with
    | '\r' :: '\n' :: r => (multilineLiteralString r).map (before '\n')
    | c :: r =>
      if isCommentChar c || c = '\n' then (multilineLiteralString r).map (before c) else none
    | [] => none

/-! ## Keys -/

def isKeyChar (c : Char) : Bool := c.isAlphanum || c = '-' || c = '_'

/-- Reads the text of a key: in quotes, or of letters, digits, dashes and underscores. -/
def keyText : List Char → Option (List Char × List Char)
  | '"' :: r => basicString r
  | '\'' :: r => literalString r
  | cs =>
    match cs.takeWhile isKeyChar with
    | [] => none
    | name => some (name, cs.dropWhile isKeyChar)

/-- Reads one key and the blanks around it. -/
def key (cs : List Char) : Option (Key × List Char) :=
  let cs := skipBlanks cs
  (keyText cs).map fun (name, r) =>
    (⟨String.ofList name, ⟨cs.length, r.length⟩⟩, skipBlanks r)

/-- A key with the keys of the tables that lead to it. -/
structure Path where
  /-- The keys of the tables, outermost first. -/
  parents : List Key
  last : Key
deriving DecidableEq, Repr

/-- How deep tables and arrays may be nested in each other. -/
def nestingLimit : Nat := 80

/-- Reads keys with dots between them. -/
def path (cs : List Char) : Option (Path × List Char) :=
  (separated key '.' cs).bind fun (keys, r) =>
    if keys.length < nestingLimit then
      keys.getLast?.map fun last => (⟨keys.dropLast, last⟩, r)
    else none

end SlotStore.Toml
