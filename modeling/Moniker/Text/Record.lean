/-! # Diagnostic records

A record shows its type's name and its fields between braces, as diagnostic text does. -/

namespace Moniker.Text

/-- A record of at least one field, each shown as it is given. -/
def record (type : String) (fields : List (String × String)) : String :=
  type ++ " \x7b " ++ String.intercalate ", " (fields.map fun (field, value) => field ++ ": " ++ value)
    ++ " \x7d"

/-- An optional value as diagnostic text shows it. -/
def optional (value : Option String) : String :=
  match value with
  | none => "None"
  | some s => "Some(" ++ s ++ ")"

end Moniker.Text
