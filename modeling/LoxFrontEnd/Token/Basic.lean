import LoxFrontEnd.Number.Shortest
import LoxFrontEnd.Token.Kind

/-! Tokens: a kind, the text it was read from, the value it carries and the line it starts on. -/

namespace LoxFrontEnd
set_option autoImplicit false

inductive Literal
  | string (value : String)
  | number (value : Double)
  deriving DecidableEq

/-- Strings stand for themselves, without quotes. -/
def Literal.text : Literal → String
  | .string value => value
  | .number value => toString value

/-- A token. Its four parts are independent: a list of tokens need not come from a source. -/
structure Token where
  kind : Kind
  lexeme : String
  literal : Option Literal
  line : Nat
  deriving DecidableEq

namespace Token

def eof (line : Nat) : Token := ⟨.eof, "", none, line⟩

def isEof (token : Token) : Bool := token.kind = .eof

/-- One line about a token: name, lexeme and value. -/
def text (token : Token) : String :=
  token.kind.name ++ " " ++ token.lexeme ++ " " ++ (token.literal.map Literal.text).getD "null"

@[simp] theorem isEof_eof (line : Nat) : (eof line).isEof = true := rfl

end Token

/-- Something other than the end of the source is among the tokens. -/
def hasExpression (tokens : List Token) : Bool := tokens.any fun token => !token.isEof

end LoxFrontEnd
