import LoxFrontEnd.Token.Basic

/-! Expressions. An operator is one of the symbols it is written with; an expression prints with
its operator first and with every node but a leaf in parentheses. -/

namespace LoxFrontEnd
set_option autoImplicit false

inductive Value
  | bool (value : Bool)
  | number (value : Double)
  | string (value : String)
  | nil
  deriving DecidableEq

/-- Strings print as they are. -/
def Value.text : Value → String
  | .bool true => "true"
  | .bool false => "false"
  | .number value => toString value
  | .string value => value
  | .nil => "nil"

def Literal.toValue : Literal → Value
  | .string value => .string value
  | .number value => .number value

inductive UnaryOp
  | not | negate
  deriving DecidableEq

inductive BinaryOp
  | notEqual | equal
  | greater | greaterEqual | less | lessEqual
  | subtract | add
  | divide | multiply
  deriving DecidableEq

namespace UnaryOp

def symbol : UnaryOp → Symbol
  | not => .bang
  | negate => .minus

/-- The operator that a kind of token stands for in front of an operand. -/
def ofKind? : Kind → Option UnaryOp
  | .symbol .bang => some not
  | .symbol .minus => some negate
  | _ => none

theorem ofKind?_eq_some_iff {kind : Kind} {op : UnaryOp} :
    ofKind? kind = some op ↔ kind = .symbol op.symbol := by
  constructor
  · intro h
    unfold ofKind? at h
    split at h <;> simp_all <;> subst h <;> rfl
  · rintro rfl
    cases op <;> rfl

end UnaryOp

namespace BinaryOp

def symbol : BinaryOp → Symbol
  | notEqual => .bangEqual
  | equal => .equalEqual
  | greater => .greater
  | greaterEqual => .greaterEqual
  | less => .less
  | lessEqual => .lessEqual
  | subtract => .minus
  | add => .plus
  | divide => .slash
  | multiply => .star

/-- The operator that a kind of token stands for between two operands. -/
def ofKind? : Kind → Option BinaryOp
  | .symbol .bangEqual => some notEqual
  | .symbol .equalEqual => some equal
  | .symbol .greater => some greater
  | .symbol .greaterEqual => some greaterEqual
  | .symbol .less => some less
  | .symbol .lessEqual => some lessEqual
  | .symbol .minus => some subtract
  | .symbol .plus => some add
  | .symbol .slash => some divide
  | .symbol .star => some multiply
  | _ => none

theorem ofKind?_eq_some_iff {kind : Kind} {op : BinaryOp} :
    ofKind? kind = some op ↔ kind = .symbol op.symbol := by
  constructor
  · intro h
    unfold ofKind? at h
    split at h <;> simp_all <;> subst h <;> rfl
  · rintro rfl
    cases op <;> rfl

/-- The four levels of binary operators, from the loosest to the tightest. -/
inductive Level
  | equality | comparison | term | factor
  deriving DecidableEq

def level : BinaryOp → Level
  | notEqual | equal => .equality
  | greater | greaterEqual | less | lessEqual => .comparison
  | subtract | add => .term
  | divide | multiply => .factor

/-- The operator of a level that a kind of token stands for. -/
def Level.operator? (level : Level) (kind : Kind) : Option BinaryOp :=
  (ofKind? kind).filter fun op => op.level = level

theorem Level.operator?_eq_some_iff {level : Level} {kind : Kind} {op : BinaryOp} :
    level.operator? kind = some op ↔ kind = .symbol op.symbol ∧ op.level = level := by
  simp [operator?, Option.filter_eq_some_iff, ofKind?_eq_some_iff]

end BinaryOp

inductive Expr
  | literal (value : Value)
  | grouping (inner : Expr)
  | unary (op : UnaryOp) (operand : Expr)
  | binary (left : Expr) (op : BinaryOp) (right : Expr)
  deriving DecidableEq

namespace Expr

def print (out : String) : Expr → String
  | literal value => out ++ value.text
  | grouping inner => inner.print (out ++ "(group ") ++ ")"
  | unary op operand => operand.print (out ++ "(" ++ op.symbol.text ++ " ") ++ ")"
  | binary left op right =>
    right.print (left.print (out ++ "(" ++ op.symbol.text ++ " ") ++ " ") ++ ")"

def text (expr : Expr) : String := expr.print ""

theorem print_eq (out : String) (expr : Expr) : expr.print out = out ++ expr.text := by
  induction expr generalizing out with
  | literal value => simp [text, print]
  | grouping inner ih => simp only [text, print]; rw [ih, ih ("" ++ _)]; simp [String.append_assoc]
  | unary op operand ih => simp only [text, print]; rw [ih, ih ("" ++ _ ++ _ ++ _)]; simp [String.append_assoc]
  | binary left op right ihl ihr =>
    simp only [text, print]
    rw [ihr, ihl, ihr (print _ left ++ _), ihl ("" ++ _ ++ _ ++ _)]
    simp [String.append_assoc]

@[simp] theorem text_literal (value : Value) : (literal value).text = value.text :=
  String.empty_append

@[simp] theorem text_grouping (inner : Expr) :
    (grouping inner).text = "(group " ++ inner.text ++ ")" := by
  show inner.print ("" ++ "(group ") ++ ")" = _
  rw [print_eq, String.empty_append]

@[simp] theorem text_unary (op : UnaryOp) (operand : Expr) :
    (unary op operand).text = "(" ++ op.symbol.text ++ " " ++ operand.text ++ ")" := by
  show operand.print ("" ++ "(" ++ op.symbol.text ++ " ") ++ ")" = _
  rw [print_eq, String.empty_append]

@[simp] theorem text_binary (left : Expr) (op : BinaryOp) (right : Expr) :
    (binary left op right).text =
      "(" ++ op.symbol.text ++ " " ++ left.text ++ " " ++ right.text ++ ")" := by
  show right.print (left.print ("" ++ "(" ++ op.symbol.text ++ " ") ++ " ") ++ ")" = _
  rw [print_eq, print_eq, String.empty_append]

end Expr
end LoxFrontEnd
