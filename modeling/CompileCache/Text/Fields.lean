/-
  CompileCache.Text.Fields — the one-line description of a value by its named
  fields, as it appears in logs: `Name { first: 1, second: 2 }`.
-/

namespace CompileCache.Text

def describe (name : String) (fields : List (String × String)) : String :=
  name ++ " \x7b " ++ ", ".intercalate (fields.map fun f => f.1 ++ ": " ++ f.2) ++ " \x7d"

/-- `Some(x)` for a field that is present, `None` for one that is not. -/
def describeOption : Option String → String
  | none => "None"
  | some s => "Some(" ++ s ++ ")"

end CompileCache.Text
