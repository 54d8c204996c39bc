/-!
# Calls

The text of a call: a name and its arguments in parentheses.
-/

namespace Rosette.Text

/-- A call with its arguments, a comma and a space between them. -/
def call (name : List Char) (args : List (List Char)) : List Char :=
  name ++ '(' :: [',', ' '].intercalate args ++ [')']

end Rosette.Text
