import SlotStore.Error
import SlotStore.Limits
import SlotStore.Toml.Document
import SlotStore.Toml.Excerpt

/-!
# Limits as TOML

Limits are read from a document whose entries are their names, and written as one, a line for each
limit. A whole number of a document is below `2 ^ 63`, so larger limits cannot be written.
-/

namespace SlotStore.Limits

/-! ## Reading -/

/-- Why limits cannot be read from a text. -/
inductive Unreadable where
  | malformed
  /-- An entry of the document does not fit; the place is that of its key or of its value. -/
  | misfit (m : Misfit) (span : Toml.Span)

def Unreadable.error (text : String) : Unreadable → Error
  | malformed => .config "Invalid slot config: TOML parse error"
  | misfit m span =>
    let excerpt := Toml.Excerpt.ofSpan text.toList span
    .config ("Invalid slot config: " ++ excerpt.report (m.reason Toml.layout))

/-- The place that is at fault if an entry does not fit: its key if that is unknown, and otherwise
what stands under it. -/
def faultSpan (k : Toml.Key) (n : Toml.Node) : Misfit → Toml.Span
  | .unknownField _ => k.span
  | _ => n.span?.getD k.span

def setEntry (limits : Limits) (e : Toml.Key × Toml.Node) : Except Unreadable Limits :=
  (limits.setField e.1.name e.2.datum).mapError fun m => .misfit m (faultSpan e.1 e.2 m)

/-- The limits that a document gives. The first entry that does not fit is reported. -/
def ofDocument (d : Toml.Document) : Except Unreadable Limits := d.entries.foldlM setEntry {}

def ofToml (text : String) : Except Unreadable Limits :=
  match Toml.Document.read? text with
  | none => .error .malformed
  | some d => ofDocument d

/-! ## Writing -/

/-- Writes one limit, if there is one and it is small enough. -/
def boundLine (name : String) : Option Nat → Except Error String
  | none => .ok ""
  | some n =>
    if Toml.isInRange n then .ok (name ++ " = " ++ n.repr ++ "\n")
    else .error (.config "Failed to write slot config: out-of-range value for u64 type")

def toToml (limits : Limits) : Except Error String := do
  let slots ← boundLine slotsName limits.slots
  let length ← boundLine lengthName limits.length
  pure (slots ++ length)

end SlotStore.Limits
