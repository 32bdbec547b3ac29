import LoxFrontEnd.Expr.Basic
import LoxFrontEnd.Parse.Error

/-! The grammar of expressions. Four levels of binary operators associate to the left, from
equality down to factors; below them stand the unary operators, which nest to the right, and
literals and groupings. A rule reads one phrase from the front of a list of tokens. Where it fails
it leaves what it has not consumed, so that reading can go on from there. -/

namespace LoxFrontEnd
set_option autoImplicit false

/-- A way to read one phrase. It only takes tokens from the front. -/
structure Rule where
  run : List Token → Except ParseError Expr × List Token
  suffix : ∀ tokens, (run tokens).2 <:+ tokens

namespace Rule

/-! ## Binary operators -/

/-- Goes on with operators of a level as long as there are any. -/
def extend (level : BinaryOp.Level) (operand : Rule) (left : Expr) (tokens : List Token) :
    Except ParseError Expr × List Token :=
  match tokens with
  | [] => (.ok left, [])
  | token :: rest =>
    match level.operator? token.kind with
    | none => (.ok left, token :: rest)
    | some op =>
      match _h : operand.run rest with
      | (.error error, behind) => (.error error, behind)
      | (.ok right, behind) => extend level operand (.binary left op right) behind
termination_by tokens.length
decreasing_by
  have h := (operand.suffix rest).length_le
  rw [_h] at h
  exact Nat.lt_succ_of_le h

theorem extend_suffix (level : BinaryOp.Level) (operand : Rule) (left : Expr)
    (tokens : List Token) : (extend level operand left tokens).2 <:+ tokens := by
  fun_induction extend level operand left tokens with
  | case1 => exact List.suffix_refl _
  | case2 => exact List.suffix_refl _
  | case3 left token rest op _ error behind h =>
    have hs := operand.suffix rest
    rw [h] at hs
    exact hs.trans (List.suffix_cons ..)
  | case4 left token rest op _ right behind h ih =>
    have hs := operand.suffix rest
    rw [h] at hs
    exact (ih.trans hs).trans (List.suffix_cons ..)

/-- `operand ( operator operand )*`, folded to the left. -/
def foldLeft (level : BinaryOp.Level) (operand : Rule) : Rule where
  run tokens :=
    match operand.run tokens with
    | (.error error, behind) => (.error error, behind)
    | (.ok left, behind) => extend level operand left behind
  suffix tokens := by
    have hs := operand.suffix tokens
    split <;> simp_all
    exact (extend_suffix ..).trans hs

def binary (operand : Rule) : Rule :=
  foldLeft .equality (foldLeft .comparison (foldLeft .term (foldLeft .factor operand)))

/-! ## Unary operators, groupings and literals -/

def groupingRun (finish : Token) (inner : Rule) (tokens : List Token) :
    Except ParseError Expr × List Token :=
  match inner.run tokens with
  | (.error error, behind) => (.error error, behind)
  | (.ok _, []) => (.error ⟨.expectClosing, finish⟩, [])
  | (.ok expr, close :: behind) =>
    if close.kind = .symbol .rightParen then (.ok (.grouping expr), behind)
    else (.error ⟨.expectClosing, close⟩, close :: behind)

theorem groupingRun_suffix (finish : Token) (inner : Rule) (tokens : List Token) :
    (groupingRun finish inner tokens).2 <:+ tokens := by
  have hs := inner.suffix tokens
  unfold groupingRun
  split <;> simp_all
  split
  · exact (List.suffix_cons ..).trans hs
  · exact hs

/-- What an operand that is no operator application is read as; `inner?` reads what stands in
parentheses, and is absent at the nesting limit. The end of the tokens is named by `finish`. -/
def primaryRun (finish : Token) (inner? : Option Rule) :
    List Token → Except ParseError Expr × List Token
  | [] => (.error ⟨.expectExpression, finish⟩, [])
  | token :: rest =>
    match token.kind with
    | .keyword .falseWord => (.ok (.literal (.bool false)), rest)
    | .keyword .trueWord => (.ok (.literal (.bool true)), rest)
    | .keyword .nilWord => (.ok (.literal .nil), rest)
    | .number | .string =>
      match token.literal with
      | some literal => (.ok (.literal literal.toValue), rest)
      | none => (.error ⟨.expectLiteral, token⟩, rest)
    | .symbol .leftParen =>
      match inner? with
      | some inner => groupingRun finish inner rest
      | none => (.error ⟨.tooDeep, token⟩, rest)
    | _ => (.error ⟨.expectExpression, token⟩, token :: rest)

theorem primaryRun_suffix (finish : Token) (inner? : Option Rule) (tokens : List Token) :
    (primaryRun finish inner? tokens).2 <:+ tokens := by
  unfold primaryRun
  split
  · exact List.suffix_refl _
  split
  case h_7 => exact List.suffix_refl _
  case h_6 =>
    split
    · exact (groupingRun_suffix ..).trans (List.suffix_cons ..)
    · exact List.suffix_cons ..
  case h_4 | h_5 => split <;> exact List.suffix_cons ..
  all_goals exact List.suffix_cons ..

/-- An operand. `deeper?` reads an operand one level further in, and is absent at the nesting
limit. -/
def operandRun (finish : Token) (deeper? : Option Rule) (tokens : List Token) :
    Except ParseError Expr × List Token :=
  match tokens with
  | [] => primaryRun finish none []
  | token :: rest =>
    match UnaryOp.ofKind? token.kind, deeper? with
    | none, _ => primaryRun finish (deeper?.map binary) (token :: rest)
    | some _, none => (.error ⟨.tooDeep, token⟩, rest)
    | some op, some deeper =>
      match deeper.run rest with
      | (.error error, behind) => (.error error, behind)
      | (.ok expr, behind) => (.ok (.unary op expr), behind)

theorem operandRun_suffix (finish : Token) (deeper? : Option Rule) (tokens : List Token) :
    (operandRun finish deeper? tokens).2 <:+ tokens := by
  unfold operandRun
  split
  · exact primaryRun_suffix ..
  split
  · exact primaryRun_suffix ..
  · exact List.suffix_cons ..
  · next rest _ _ op deeper _ =>
    have hs := deeper.suffix rest
    split <;> simp_all <;> exact hs.trans (List.suffix_cons ..)

/-- An operand under at most `levels` further unary operators and groupings. -/
def operand (finish : Token) : Nat → Rule
  | 0 => ⟨operandRun finish none, operandRun_suffix finish none⟩
  | levels + 1 =>
    ⟨operandRun finish (some (operand finish levels)), operandRun_suffix finish _⟩

/-- An expression with at most `levels` unary operators and groupings around any node. -/
def expression (finish : Token) (levels : Nat) : Rule := binary (operand finish levels)

end Rule
end LoxFrontEnd
