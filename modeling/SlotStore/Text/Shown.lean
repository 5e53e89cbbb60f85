/-!
# Structured texts

Values are shown in one notation everywhere: a record is its name and its fields in braces, an
optional value is wrapped or absent, a sequence stands in brackets.
-/

namespace SlotStore.Shown

def option {α : Type} (show1 : α → String) : Option α → String
  | none => "None"
  | some a => "Some(" ++ show1 a ++ ")"

def sequence {α : Type} (show1 : α → String) (values : List α) : String :=
  "[" ++ ", ".intercalate (values.map show1) ++ "]"

/-- Shows a record by its name and its fields, each with the text of its value. -/
def record (name : String) (fields : List (String × String)) : String :=
  name ++ " \x7b " ++ ", ".intercalate (fields.map fun f => f.1 ++ ": " ++ f.2) ++ " \x7d"

def truth : Bool → String
  | true => "true"
  | false => "false"

end SlotStore.Shown
