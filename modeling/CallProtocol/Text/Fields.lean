/-!
# Texts of composite values

A record is written with its name and its fields in braces, a list in square
brackets, an optional value under `Some` or as `None`.
-/

namespace CallProtocol.Text

def items (xs : List String) : String :=
  "[" ++ ", ".intercalate xs ++ "]"

def fields (name : String) (fs : List (String × String)) : String :=
  name ++ " \x7b " ++ ", ".intercalate (fs.map fun f => f.1 ++ ": " ++ f.2) ++ " \x7d"

def applied (name arg : String) : String := name ++ "(" ++ arg ++ ")"

def optional : Option String → String
  | some s => applied "Some" s
  | none => "None"

def bool : Bool → String
  | true => "true"
  | false => "false"

end CallProtocol.Text
