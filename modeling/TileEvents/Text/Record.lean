/-!
# The text of a value with named parts

Values are shown in one notation throughout: `tagged` writes a name with one part in round
brackets, `record` a name with labelled parts in braces.
-/

set_option autoImplicit false

namespace TileEvents.Text

/-- A name and its only part, as in `Budget(10)`. -/
def tagged (name part : String) : String := name ++ "(" ++ part ++ ")"

/-- A name and its labelled parts, separated by commas, in braces. -/
def record (name : String) (parts : List (String × String)) : String :=
  name ++ " \x7b " ++ ", ".intercalate (parts.map fun p ↦ p.1 ++ ": " ++ p.2) ++ " \x7d"

/-- A truth value, in words. -/
def truth (b : Bool) : String := if b then "true" else "false"

end TileEvents.Text
