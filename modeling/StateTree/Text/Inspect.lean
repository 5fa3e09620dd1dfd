import StateTree.Text.Quoted

/-!
How values are shown to a developer: records with named fields, constructors with one argument,
lists and optional values.
-/

namespace StateTree.Text

/-- A record with all of its fields. -/
def record (name : String) (fields : List (String × String)) : String :=
  name ++ " \x7b " ++ ", ".intercalate (fields.map fun f => f.1 ++ ": " ++ f.2) ++ " \x7d"

/-- A record of which only some fields are shown. -/
def openRecord (name : String) (fields : List (String × String)) : String :=
  name ++ " \x7b " ++ String.join (fields.map fun f => f.1 ++ ": " ++ f.2 ++ ", ") ++ ".. \x7d"

/-- A constructor and its argument. -/
def applied (name argument : String) : String := name ++ "(" ++ argument ++ ")"

def list (items : List String) : String := "[" ++ ", ".intercalate items ++ "]"

def option (inspect : α → String) : Option α → String
  | none => "None"
  | some a => applied "Some" (inspect a)

def bool : Bool → String
  | true => "true"
  | false => "false"

end StateTree.Text
