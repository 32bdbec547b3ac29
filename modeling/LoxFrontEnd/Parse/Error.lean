import LoxFrontEnd.Report
import LoxFrontEnd.Token.Basic

/-! Parse errors: what was expected, and the token found instead. -/

namespace LoxFrontEnd
set_option autoImplicit false

inductive ParseFault
  | expectExpression
  | expectLiteral
  | expectClosing
  | expectEnd
  | tooDeep
  deriving DecidableEq

def ParseFault.message : ParseFault → String
  | expectExpression => "Expect expression."
  | expectLiteral => "Expect literal value."
  | expectClosing => "Expect ')' after expression."
  | expectEnd => "Expect end of expression."
  | tooDeep => "Expression nests too deeply."

structure ParseError where
  fault : ParseFault
  token : Token
  deriving DecidableEq

namespace ParseError

def message (error : ParseError) : String := error.fault.message

/-- The token is named by its lexeme, and the end of the source by that word. -/
def location (error : ParseError) : String :=
  if error.token.isEof then " at end" else " at '" ++ error.token.lexeme ++ "'"

def report (error : ParseError) : Report := ⟨error.token.line, error.location, error.message⟩

end ParseError
end LoxFrontEnd
