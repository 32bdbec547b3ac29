import LoxFrontEnd.Options.Schema
import LoxFrontEnd.Text.UpperCase

/-! The usage text of a schema: a line with the required options, the description, and a table of
all options. The executable's name stands for its placeholder everywhere above the table. -/

namespace LoxFrontEnd.Options
set_option autoImplicit false

/-- Replaces every occurrence of a nonempty pattern, from the left, none overlapping another. -/
def substitute (pattern replacement : List Char) (text : List Char) : List Char :=
  match text with
  | [] => []
  | c :: cs =>
    if _h : pattern ≠ [] ∧ pattern.isPrefixOf (c :: cs) then
      replacement ++ substitute pattern replacement ((c :: cs).drop pattern.length)
    else c :: substitute pattern replacement cs
termination_by text.length
decreasing_by
  · have := List.length_pos_iff.2 _h.1
    simp only [List.length_drop, List.length_cons]
    omega
  · simp

def executablePlaceholder : String := "EXEC_NAME"

/-- Fills a column: blanks up to the width, and nothing cut off. -/
def padTo (width : Nat) (text : String) : String :=
  text ++ String.ofList (List.replicate (width - text.length) ' ')

def tableRow (short long parameter description : String) : String :=
  "   " ++ padTo 3 short ++ " " ++ padTo 20 long ++ " " ++ padTo 20 parameter ++ " " ++ description

namespace Field

/-- The name of a field's parameter as usage texts show it; flags have none. -/
def placeholder (field : Field) : String :=
  if field.takesParameter then "<" ++ upperCase field.name ++ ">" else ""

def row (field : Field) : String :=
  tableRow field.short (field.long?.getD "") field.placeholder (field.description?.getD "") ++
    if field.required then " (Required)" else ""

end Field

namespace Schema

/-- The table of options; help comes last. -/
def optionTable (schema : Schema) : String :=
  String.join (schema.fields.map fun field => field.row ++ "\n") ++
    tableRow "-h" "--help" "" "Displays help"

/-- The usage line and the description, before the executable is named. -/
def usageHead (schema : Schema) : String :=
  "Usage: " ++ executablePlaceholder ++ " [OPTIONS]" ++
    String.join ((schema.fields.filter Field.required).map fun field =>
      " " ++ field.short ++ " " ++ field.placeholder) ++
    if schema.description = "" then "" else "\n\n" ++ schema.description

def usage (schema : Schema) (executable : String) : String :=
  String.ofList (substitute executablePlaceholder.toList executable.toList
    schema.usageHead.toList) ++
    "\n\nOptions:\n" ++ schema.optionTable

end Schema
end LoxFrontEnd.Options
