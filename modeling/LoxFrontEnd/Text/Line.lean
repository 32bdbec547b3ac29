/-! Lines as they are read: the characters that end a line are no part of it. -/

namespace LoxFrontEnd
set_option autoImplicit false

def isLineEnd (c : Char) : Bool := c = '\n' || c = '\r'

/-- Drops every line feed and carriage return at the end. -/
def stripLineEnding (line : String) : String :=
  String.ofList (line.toList.reverse.dropWhile isLineEnd).reverse

theorem stripLineEnding_append (line ending : List Char) (h : ∀ c ∈ ending, isLineEnd c) :
    stripLineEnding (String.ofList (line ++ ending)) = stripLineEnding (String.ofList line) := by
  simp only [stripLineEnding, String.toList_ofList, List.reverse_append]
  rw [List.dropWhile_append_of_pos (by simpa using h)]

end LoxFrontEnd
