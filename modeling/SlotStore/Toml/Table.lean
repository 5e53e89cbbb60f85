import SlotStore.Datum
import SlotStore.Toml.Scalar

/-!
# Tables

A document is a table of tables. Its parts come in any order, so what stands under a key is kept
with the way in which it came to be there, which decides what may still be added to it:

* a value is complete, and so is a table written in braces;
* a table with a header of its own is complete too, once its part of the document ends, but tables
  below it may follow;
* a table that is only implied by the header of a table below it may still get a header;
* a table made by dotted keys may be extended by dotted keys;
* a sequence of tables grows by one with every header in double brackets, and what is added below it
  goes to its last table.

A key that is already there cannot be added again.
-/

namespace SlotStore.Toml

/-- How a table came to be. -/
inductive Origin where
  /-- By a header of its own. -/
  | header
  /-- By the header of a table below it. -/
  | implied
  /-- By a dotted key. -/
  | dotted
deriving DecidableEq, Repr

/-- What stands under a key. -/
inductive Node where
  /-- A value, with the place where it stands. -/
  | value (span : Span) (d : Datum)
  /-- A table, with the place of its header and its own part, if it has a header. -/
  | table (origin : Origin) (span : Option Span) (entries : List (Key × Node))
  /-- A sequence of tables, with the place from the first header to the end of the last part. -/
  | tables (span : Span) (elements : List (List (Key × Node)))

/-- What stands in a table, in order. -/
abbrev Entries := List (Key × Node)

/-- A key with its value, and the keys of the tables that lead to it. -/
structure Assignment where
  path : Path
  span : Span
  value : Datum

namespace Entries

def lookup? (entries : Entries) (name : String) : Option Node :=
  (entries.find? fun e => e.1.name = name).map Prod.snd

def without (entries : Entries) (name : String) : Entries :=
  entries.filter fun e => e.1.name != name

/-- Exchanges what stands under a name. -/
def replace (entries : Entries) (name : String) (node : Node) : Entries :=
  entries.map fun e => if e.1.name = name then (e.1, node) else e

/-- Changes the last of some things, if there is one and it can be changed. -/
def changeLast {α : Type} (f : α → Option α) : List α → Option (List α)
  | [] => none
  | [a] => (f a).map fun a => [a]
  | a :: as => (changeLast f as).map (a :: ·)

/-- Goes down along keys and changes the table that is reached. Tables that are missing on the way
are made, in the way that `made` says. Dotted keys do not lead into tables with a header. -/
def change (made : Origin) (f : Origin → Entries → Option Entries) (reached : Origin) :
    List Key → Entries → Option Entries
  | [], entries => f reached entries
  | k :: keys, entries =>
    match entries.lookup? k.name with
    | none => do
      let inner ← change made f made keys []
      pure (entries ++ [(k, .table made none inner)])
    | some (.value _ _) => none
    | some (.table origin span inner) =>
      if made = .dotted && origin = .header then none
      else do
        let inner ← change made f origin keys inner
        pure (entries.replace k.name (.table origin span inner))
    | some (.tables span elements) => do
      let elements ← changeLast (change made f .header keys) elements
      pure (entries.replace k.name (.tables span elements))

/-- Adds a value. The table that its dotted key leads to must be one that a dotted key made. -/
def assign (entries : Entries) (a : Assignment) : Option Entries :=
  change .dotted (fun reached inner =>
    if (reached = .dotted) = !a.path.parents.isEmpty then
      match inner.lookup? a.path.last.name with
      | none => some (inner ++ [(a.path.last, .value a.span a.value)])
      | some _ => none
    else none) .header a.path.parents entries

def assignAll (entries : Entries) (as : List Assignment) : Option Entries :=
  as.foldlM assign entries

end Entries

/-! ## Parts of a document -/

/-- A header of a table, or of one more table of a sequence. -/
structure Header where
  /-- Whether the header stands in double brackets. -/
  repeated : Bool
  path : Path
  /-- The place of the header with its brackets. -/
  span : Span

/-- A header and the values that follow it. -/
structure Part where
  header : Header
  /-- The values up to the next header. -/
  assignments : List Assignment

/-- The place of a part: from its header to the end of its last value. -/
def Part.span (p : Part) : Span :=
  match p.assignments.getLast? with
  | none => p.header.span
  | some a => ⟨p.header.span.start, a.span.stop⟩

namespace Entries

/-- Adds a table with a header. If it was implied before, it keeps what is in it, and moves behind
the other entries. -/
def addTable (entries : Entries) (key : Key) (p : Part) : Option Entries := do
  let inner : Entries ← match entries.lookup? key.name with
    | none => some []
    | some (.table .implied _ inner) => some inner
    | some _ => none
  let inner ← inner.assignAll p.assignments
  pure (entries.without key.name ++ [(key, .table .header (some p.span) inner)])

/-- Adds one more table to a sequence of tables. -/
def addElement (entries : Entries) (key : Key) (p : Part) : Option Entries := do
  let element ← assignAll [] p.assignments
  match entries.lookup? key.name with
  | none => pure (entries ++ [(key, .tables p.span [element])])
  | some (.tables span elements) =>
    pure (entries.replace key.name (.tables ⟨span.start, p.span.stop⟩ (elements ++ [element])))
  | some _ => none

def addPart (entries : Entries) (p : Part) : Option Entries :=
  let key := p.header.path.last
  change .implied (fun _ inner =>
    if p.header.repeated then inner.addElement key p else inner.addTable key p)
    .header p.header.path.parents entries

end Entries

/-! ## Tables as data -/

mutual

def Node.datum : Node → Datum
  | .value _ d => d
  | .table _ _ entries => .mapping (fieldsOf entries)
  | .tables _ elements => .sequence (elementsOf elements)

/-- The entries of a table, as data by name. -/
def fieldsOf : List (Key × Node) → List (String × Datum)
  | [] => []
  | (k, n) :: entries => (k.name, n.datum) :: fieldsOf entries

def elementsOf : List (List (Key × Node)) → List Datum
  | [] => []
  | entries :: elements => .mapping (fieldsOf entries) :: elementsOf elements

end

/-- The place of what stands under a key. A table without a header has none. -/
def Node.span? : Node → Option Span
  | .value span _ => some span
  | .table _ span _ => span
  | .tables span _ => some span

/-- The datum of a word. Dates and times are known to be there, but are of no kind that is wanted
anywhere, and pass for tables. -/
def Scalar.datum : Scalar → Datum
  | .boolean b => .boolean b
  | .integer i => .integer i
  | .float x => .float x
  | .moment text => .mapping [("datetime", .string text)]

end SlotStore.Toml
