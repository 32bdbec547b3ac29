import LoxFrontEnd.Parse.Rule

/-! Parsing a list of tokens. A stream ends at the first mark of the end in the list. Parsing reads
one expression that reaches to the end of the stream, and a stream can be parsed again from where
the parse before stopped. -/

namespace LoxFrontEnd
set_option autoImplicit false

/-- How many unary operators and groupings may stand around a node. -/
def nestingLimit : Nat := 128

/-- The tokens still to be read, and the mark of the end behind them. -/
structure TokenStream where
  tokens : List Token
  finish : Token
  deriving DecidableEq

namespace TokenStream

/-- The tokens before the first end mark. A list without one ends on the line of its last token. -/
def ofList (tokens : List Token) : TokenStream where
  tokens := tokens.takeWhile fun token => !token.isEof
  finish := (tokens.find? Token.isEof).getD (.eof ((tokens.getLast?.map Token.line).getD 1))

/-- Parses one expression, and leaves the stream where reading stopped. -/
def parse (stream : TokenStream) : Except ParseError Expr × TokenStream :=
  match (Rule.expression stream.finish nestingLimit).run stream.tokens with
  | (.error error, rest) => (.error error, ⟨rest, stream.finish⟩)
  | (.ok expr, []) => (.ok expr, ⟨[], stream.finish⟩)
  | (.ok _, token :: rest) => (.error ⟨.expectEnd, token⟩, ⟨token :: rest, stream.finish⟩)

def parseTimes : Nat → TokenStream → List (Except ParseError Expr)
  | 0, _ => []
  | n + 1, stream =>
    let (result, behind) := stream.parse
    result :: parseTimes n behind

theorem parse_suffix (stream : TokenStream) : stream.parse.2.tokens <:+ stream.tokens := by
  have hs := (Rule.expression stream.finish nestingLimit).suffix stream.tokens
  unfold parse
  split <;> simp_all

theorem parse_finish (stream : TokenStream) : stream.parse.2.finish = stream.finish := by
  unfold parse
  split <;> rfl

end TokenStream

def parse (tokens : List Token) : Except ParseError Expr := (TokenStream.ofList tokens).parse.1

end LoxFrontEnd
