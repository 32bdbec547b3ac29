/-! What separates lexemes: blanks, line comments and nested block comments. A `Cursor` is a place
in a text with the line it is on and the number of block comments open around it. Skipping trivia
consumes from the front (`skip_suffix`), counts every line break it passes (`line_skip`), and stops
inside a comment only where the text ends (`rest_skip_of_depth`). -/

namespace LoxFrontEnd
set_option autoImplicit false

def lineBreaks (text : List Char) : Nat := text.count '\n'

@[simp] theorem lineBreaks_nil : lineBreaks [] = 0 := rfl

@[simp] theorem lineBreaks_newline (cs : List Char) :
    lineBreaks ('\n' :: cs) = lineBreaks cs + 1 := by simp [lineBreaks]

theorem lineBreaks_cons {c : Char} (cs : List Char) (h : c ≠ '\n') :
    lineBreaks (c :: cs) = lineBreaks cs := by simp [lineBreaks, h]

@[simp] theorem lineBreaks_append (xs ys : List Char) :
    lineBreaks (xs ++ ys) = lineBreaks xs + lineBreaks ys := by simp [lineBreaks]

structure Cursor where
  rest : List Char
  line : Nat
  depth : Nat
  deriving DecidableEq

namespace Cursor

/-- The beginning of a text that continues `depth` open block comments. -/
def start (text : List Char) (depth : Nat) : Cursor := ⟨text, 1, depth⟩

/-- Where the skipping of trivia stands: between lexemes, in a line comment, or in
`outer + 1` block comments. -/
inductive Region
  | code
  | lineComment
  | blockComment (outer : Nat)

/-- The region that a number of open block comments stands for. -/
def Region.ofDepth : Nat → Region
  | 0 => .code
  | outer + 1 => .blockComment outer

/-- Skips trivia. Inside block comments only the two comment marks and line breaks matter; each
mark takes both of its characters. -/
def skipFrom (line : Nat) : Region → List Char → Cursor
  | .blockComment outer, '/' :: '*' :: cs => skipFrom line (.blockComment (outer + 1)) cs
  | .blockComment outer, '*' :: '/' :: cs => skipFrom line (.ofDepth outer) cs
  | .blockComment outer, '\n' :: cs => skipFrom (line + 1) (.blockComment outer) cs
  | .blockComment outer, _ :: cs => skipFrom line (.blockComment outer) cs
  | .blockComment outer, [] => ⟨[], line, outer + 1⟩
  | .lineComment, '\n' :: cs => skipFrom (line + 1) .code cs
  | .lineComment, _ :: cs => skipFrom line .lineComment cs
  | .lineComment, [] => ⟨[], line, 0⟩
  | .code, ' ' :: cs => skipFrom line .code cs
  | .code, '\r' :: cs => skipFrom line .code cs
  | .code, '\t' :: cs => skipFrom line .code cs
  | .code, '\n' :: cs => skipFrom (line + 1) .code cs
  | .code, '/' :: '/' :: cs => skipFrom line .lineComment cs
  | .code, '/' :: '*' :: cs => skipFrom line (.blockComment 0) cs
  | .code, cs => ⟨cs, line, 0⟩

def skip (cursor : Cursor) : Cursor :=
  skipFrom cursor.line (.ofDepth cursor.depth) cursor.rest

theorem skipFrom_suffix (line : Nat) (region : Region) (text : List Char) :
    (skipFrom line region text).rest <:+ text := by
  fun_induction skipFrom line region text with
  | case5 | case8 | case15 => simp
  | case4 _ _ _ _ _ _ _ ih | case7 _ _ _ _ ih => exact List.suffix_cons_iff.2 (.inr ih)
  | _ => grind [List.suffix_cons_iff]

theorem skip_suffix (cursor : Cursor) : cursor.skip.rest <:+ cursor.rest := skipFrom_suffix ..

theorem line_skipFrom (line : Nat) (region : Region) (text : List Char) :
    (skipFrom line region text).line + lineBreaks (skipFrom line region text).rest =
      line + lineBreaks text := by
  fun_induction skipFrom line region text with
  | case5 | case8 | case15 => rfl
  | _ => simp_all [lineBreaks] <;> omega

theorem line_skip (cursor : Cursor) :
    cursor.skip.line + lineBreaks cursor.skip.rest = cursor.line + lineBreaks cursor.rest :=
  line_skipFrom ..

theorem rest_skipFrom_of_depth {line : Nat} {region : Region} {text : List Char}
    (h : (skipFrom line region text).depth ≠ 0) : (skipFrom line region text).rest = [] := by
  fun_induction skipFrom line region text with
  | case5 | case8 => rfl
  | case15 => simp at h
  | _ => simp_all

theorem rest_skip_of_depth {cursor : Cursor} (h : cursor.skip.depth ≠ 0) :
    cursor.skip.rest = [] := rest_skipFrom_of_depth h

end Cursor
end LoxFrontEnd
