import SlotStore.Toml.Table

/-!
# Documents

A document is read line by line: values with their keys, headers, comments and blank lines. What is
read is then put together to one table, whose entries stand in the order in which they were made.
-/

namespace SlotStore.Toml

/-! ## Values -/

/-- Reads the elements of an array up to its closing bracket. A comma may follow the last one. -/
def elements {α : Type} (item : List Char → Option (α × List Char)) (cs : List Char) :
    Option (List α × List Char) :=
  match skipFiller cs with
  | ']' :: r => some ([], r)
  | cs' =>
    match item cs' with
    | none => none
    | some (a, r) =>
      match skipFiller r with
      | ',' :: r' =>
        if r'.length < cs.length then (elements item r').map fun (as, r) => (a :: as, r)
        else none
      | ']' :: r' => some ([a], r')
      | _ => none
termination_by cs.length

/-- Reads keys, an equals sign and a value, and the blanks around them. -/
def assignment (value : List Char → Option (Datum × List Char)) (cs : List Char) :
    Option (Assignment × List Char) := do
  let (path, r) ← path cs
  let start := skipBlanks (← mark? '=' r)
  let (d, r) ← value start
  pure (⟨path, ⟨start.length, r.length⟩, d⟩, skipBlanks r)

/-- Reads the values of a table in braces up to the closing brace. -/
def braced (value : List Char → Option (Datum × List Char)) (cs : List Char) :
    Option (Datum × List Char) :=
  match skipBlanks cs with
  | '\x7d' :: r => some (.mapping [], r)
  | cs => do
    let (as, r) ← separated (assignment value) ',' cs
    let entries ← Entries.assignAll [] as
    pure (.mapping (fieldsOf entries), ← mark? '\x7d' r)

/-- Reads a string, behind its first quote. -/
def quoted (quote : Char) (multiline single : List Char → Option (List Char × List Char))
    (cs : List Char) : Option (Datum × List Char) :=
  (match cs with
  | a :: b :: r =>
    if a = quote && b = quote then multiline (skipFirstBreak r) else single cs
  | _ => single cs).map fun (s, r) => (.string (String.ofList s), r)

/-- Reads a value. Arrays and tables in it are nested at most so deep. -/
def value : Nat → List Char → Option (Datum × List Char)
  | nesting, '[' :: r =>
    match nesting with
    | 0 => none
    | nesting + 1 => (elements (value nesting) r).map fun (ds, r) => (.sequence ds, r)
  | nesting, '\x7b' :: r =>
    match nesting with
    | 0 => none
    | nesting + 1 => braced (value nesting) r
  | _, '"' :: r => quoted '"' multilineBasicString basicString r
  | _, '\'' :: r => quoted '\'' multilineLiteralString literalString r
  | _, cs =>
    let (w, r) := word cs
    (scalar? w).map fun s => (s.datum, r)

/-! ## Lines -/

/-- A line that says something. -/
inductive Line where
  | assignment (a : Assignment)
  | header (h : Header)

/-- Reads a header, behind its first bracket. -/
def header (start : Nat) (cs : List Char) : Option (Header × List Char) :=
  match cs with
  | '[' :: r => do
    let (path, r) ← path r
    let r ← mark? ']' (← mark? ']' r)
    pure (⟨true, path, ⟨start, r.length⟩⟩, r)
  | r => do
    let (path, r) ← path r
    let r ← mark? ']' r
    pure (⟨false, path, ⟨start, r.length⟩⟩, r)

/-- Reads a line with its end. Many lines say nothing. -/
def line (cs : List Char) : Option (Option Line × List Char) :=
  match skipBlanks cs with
  | '[' :: r => do
    let (h, r) ← header (r.length + 1) r
    pure (some (.header h), ← lineEnd? r)
  | cs =>
    match lineEnd? cs with
    | some r => some (none, r)
    | none => do
      let (a, r) ← assignment (value (nestingLimit - 1)) cs
      pure (some (.assignment a), ← lineEnd? r)

/-- Reads all lines of a text. -/
def lines (cs : List Char) : Option (List Line) :=
  if cs.isEmpty then some []
  else
    match line cs with
    | none => none
    | some (l, r) =>
      if r.length < cs.length then (lines r).map (l.toList ++ ·) else none
termination_by cs.length

/-- Sorts lines into the values before the first header, and the parts after it. -/
def parts : List Line → List Assignment × List Part
  | [] => ([], [])
  | .assignment a :: ls =>
    let (as, ps) := parts ls
    (a :: as, ps)
  | .header h :: ls =>
    let (as, ps) := parts ls
    ([], ⟨h, as⟩ :: ps)

/-! ## Documents -/

/-- A document: the entries of its outermost table. -/
structure Document where
  entries : Entries

def Document.ofLines? (ls : List Line) : Option Document := do
  let (as, ps) := parts ls
  let entries ← Entries.assignAll [] as
  let entries ← ps.foldlM Entries.addPart entries
  pure ⟨entries⟩

/-- The text without a byte order mark at its start. -/
def skipByteOrderMark : List Char → List Char
  | '\ufeff' :: r => r
  | r => r

def Document.read? (text : String) : Option Document :=
  (lines (skipByteOrderMark text.toList)).bind ofLines?

end SlotStore.Toml
