/-! Developer texts of compound values: bracketed lists, quoted names, optional values, and argument
tuples, where a tuple of one member keeps its comma. -/
namespace FaultRelay.Text

def listed (parts : List String) : String := "[" ++ ", ".intercalate parts ++ "]"

def quoted (name : String) : String := "\"" ++ name ++ "\""

def optional : Option String → String
  | none => "None"
  | some part => "Some(" ++ part ++ ")"

def tuple : List String → String
  | [part] => "(" ++ part ++ ",)"
  | parts => "(" ++ ", ".intercalate parts ++ ")"

/-- A structure with named fields; the opening and closing braces are written by code point. -/
def fields (name : String) (parts : List (String × String)) : String :=
  name ++ " \x7b " ++ ", ".intercalate (parts.map fun part => part.1 ++ ": " ++ part.2) ++ " \x7d"

theorem listed_nil : listed [] = "[]" := rfl

theorem tuple_nil : tuple [] = "()" := rfl

end FaultRelay.Text
