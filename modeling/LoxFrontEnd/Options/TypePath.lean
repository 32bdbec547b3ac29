/-! Type paths: names joined by double colons, each with type arguments if it has any. Only the
last name of a path counts. References, tuples, slices and every other form of type are no paths. -/

namespace LoxFrontEnd.Options.TypePath
set_option autoImplicit false

/-- The pieces a type is written with. Arguments in brackets are one piece, whatever they hold. -/
inductive Piece
  | name (text : List Char)
  | separator
  | arguments
  | other
  deriving DecidableEq

def isNameChar (c : Char) : Bool := c.isAlphanum || c = '_' || c.toNat ≥ 128

/-- The piece for a name that is kept backwards, if it has begun. -/
def flush (name : List Char) (pieces : List Piece) : List Piece :=
  if name = [] then pieces else .name name.reverse :: pieces

/-- Cuts a type into pieces. A name under way is kept backwards in `name`; `depth` counts the open
angle brackets, among which the arrow's is none. Nothing that follows a round bracket counts. -/
def piecesFrom (name : List Char) : Nat → List Char → List Piece
  | 0, [] => flush name []
  | _ + 1, [] => [.other]
  | depth + 1, '-' :: '>' :: cs => piecesFrom [] (depth + 1) cs
  | depth + 1, '<' :: cs => piecesFrom [] (depth + 2) cs
  | 1, '>' :: cs => .arguments :: piecesFrom [] 0 cs
  | depth + 2, '>' :: cs => piecesFrom [] (depth + 1) cs
  | depth + 1, _ :: cs => piecesFrom [] (depth + 1) cs
  | 0, ':' :: ':' :: cs => flush name (.separator :: piecesFrom [] 0 cs)
  | 0, '<' :: cs => flush name (piecesFrom [] 1 cs)
  | 0, '(' :: _ => flush name [.arguments]
  | 0, c :: cs =>
    if isNameChar c ∨ (c = '#' ∧ name = ['r']) then piecesFrom (c :: name) 0 cs
    else if c.isWhitespace then flush name (piecesFrom [] 0 cs)
    else flush name [.other]

def typeWords : List String := ["_", "fn", "dyn", "impl", "for", "unsafe", "extern"]

mutual

def fromName : List Piece → Option (List Char)
  | .name text :: pieces =>
    if String.ofList text ∈ typeWords then none else afterName text pieces
  | _ => none

def afterName (last : List Char) : List Piece → Option (List Char)
  | [] => some last
  | [.separator, .arguments] => some last
  | [.arguments] => some last
  | .separator :: .arguments :: .separator :: pieces => fromName pieces
  | .arguments :: .separator :: pieces => fromName pieces
  | .separator :: pieces => fromName pieces
  | _ => none

end

/-- The last name of a path; none when a type is no path. A path may start with double colons. -/
def lastName? (type : String) : Option String :=
  let name? := match piecesFrom [] 0 type.toList with
    | .separator :: pieces => fromName pieces
    | .arguments :: .separator :: pieces => fromName pieces
    | pieces => fromName pieces
  name?.map String.ofList

end LoxFrontEnd.Options.TypePath
