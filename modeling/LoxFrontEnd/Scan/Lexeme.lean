import LoxFrontEnd.Report
import LoxFrontEnd.Text.Quoted
import LoxFrontEnd.Token.Basic
import LoxFrontEnd.Scan.Trivia

/-! Lexemes: the units that a source is cut into. `Lexeme.split` takes the longest one from the
front of a text, and its text and what is left are the whole text again
(`text_append_of_split`). -/

namespace LoxFrontEnd
set_option autoImplicit false

namespace Symbol

def single? : Char → Option Symbol
  | '(' => some leftParen
  | ')' => some rightParen
  | '{' => some leftBrace
  | '}' => some rightBrace
  | ',' => some comma
  | '.' => some dot
  | '-' => some minus
  | '+' => some plus
  | ';' => some semicolon
  | '/' => some slash
  | '*' => some star
  | '!' => some bang
  | '=' => some equal
  | '>' => some greater
  | '<' => some less
  | _ => none

/-- The symbol that a following equals sign makes of a symbol. -/
def withEqual? : Symbol → Option Symbol
  | bang => some bangEqual
  | equal => some equalEqual
  | greater => some greaterEqual
  | less => some lessEqual
  | _ => none

def extend (symbol : Symbol) : List Char → Symbol × List Char
  | '=' :: cs => match symbol.withEqual? with
    | some longer => (longer, cs)
    | none => (symbol, '=' :: cs)
  | cs => (symbol, cs)

theorem text_of_single? {c : Char} {symbol : Symbol} (h : single? c = some symbol) :
    symbol.text.toList = [c] := by
  unfold single? at h
  split at h <;> simp_all <;> subst h <;> rfl

theorem text_of_withEqual? {symbol longer : Symbol} (h : symbol.withEqual? = some longer) :
    longer.text.toList = symbol.text.toList ++ ['='] := by
  cases symbol <;> simp [withEqual?] at h <;> subst h <;> rfl

theorem text_ne_nil (symbol : Symbol) : symbol.text.toList ≠ [] := by cases symbol <;> decide

theorem text_extend (symbol : Symbol) (cs : List Char) :
    (symbol.extend cs).1.text.toList ++ (symbol.extend cs).2 = symbol.text.toList ++ cs := by
  unfold extend
  split
  · split
    · next h => simp [text_of_withEqual? h]
    · rfl
  · rfl

end Symbol

/-- The letters that a word starts with: those of the Latin alphabet and the low line. -/
def isWordStart (c : Char) : Bool := c.isAlpha || c = '_'

def isWordPart (c : Char) : Bool := c.isAlphanum || c = '_'

/-- The digits that go on a number, and what follows it. A point belongs to the number only when a
digit follows the point. -/
def splitNumber (cs : List Char) : List Char × List Char :=
  let whole := cs.takeWhile Char.isDigit
  match cs.dropWhile Char.isDigit with
  | '.' :: d :: rest =>
    if d.isDigit then
      (whole ++ '.' :: d :: rest.takeWhile Char.isDigit, rest.dropWhile Char.isDigit)
    else (whole, '.' :: d :: rest)
  | rest => (whole, rest)

theorem splitNumber_append (cs : List Char) : (splitNumber cs).1 ++ (splitNumber cs).2 = cs := by
  have h := List.takeWhile_append_dropWhile (p := Char.isDigit) (l := cs)
  unfold splitNumber
  split
  · next hd => split <;> simp_all [List.takeWhile_append_dropWhile]
  · exact h

inductive Lexeme
  | word (text : List Char)
  | number (text : List Char)
  | quoted (body : List Char)
  | symbol (symbol : Symbol)
  | stray (c : Char)
  | unterminated (body : List Char)
  deriving DecidableEq

/-- A fault that scanning skips past, with the line it is reported on. -/
inductive ScanError
  | unexpectedCharacter (line : Nat) (c : Char)
  | unterminatedString (line : Nat)
  deriving DecidableEq

namespace ScanError

def line : ScanError → Nat
  | unexpectedCharacter line _ => line
  | unterminatedString line => line

def message : ScanError → String
  | unexpectedCharacter _ c => "Unexpected character '" ++ c.toString ++ "'."
  | unterminatedString _ => "Unterminated string."

/-- Faults of scanning are reported without a location. -/
def report (error : ScanError) : Report := ⟨error.line, "", error.message⟩

end ScanError

def Kind.ofWord (text : String) : Kind :=
  match Keyword.ofSpelling? text with
  | some word => .keyword word
  | none => .identifier

namespace Lexeme

def text : Lexeme → List Char
  | word text => text
  | number text => text
  | quoted body => '"' :: (body ++ ['"'])
  | symbol s => s.text.toList
  | stray c => [c]
  | unterminated body => '"' :: body

/-- Takes the lexeme at the front of a text that starts with `c`. -/
def split (c : Char) (cs : List Char) : Lexeme × List Char :=
  if isWordStart c then (word (c :: cs.takeWhile isWordPart), cs.dropWhile isWordPart)
  else if c.isDigit then (number (c :: (splitNumber cs).1), (splitNumber cs).2)
  else if c = '"' then
    match Quoted.close? cs with
    | some (body, rest) => (quoted body, rest)
    | none => (unterminated cs, [])
  else match Symbol.single? c with
    | some s => (symbol (s.extend cs).1, (s.extend cs).2)
    | none => (stray c, cs)

/-- What a lexeme on a line is: a token, or a fault. A token is on the line where its lexeme
starts; a string that never ends is reported on the last line. -/
def outcome (line : Nat) (lexeme : Lexeme) : Except ScanError Token :=
  let source := String.ofList lexeme.text
  match lexeme with
  | word _ => .ok ⟨.ofWord source, source, none, line⟩
  | number digits => .ok ⟨.number, source, (Double.ofText? digits).map .number, line⟩
  | quoted body =>
    .ok ⟨.string, source, some (.string (String.ofList (Quoted.unescape body))), line⟩
  | symbol s => .ok ⟨.symbol s, source, none, line⟩
  | stray c => .error (.unexpectedCharacter line c)
  | unterminated body => .error (.unterminatedString (line + lineBreaks body))

/-! ## No text is lost -/

theorem text_append_split (c : Char) (cs : List Char) :
    (split c cs).1.text ++ (split c cs).2 = c :: cs := by
  unfold split
  split
  · simp [text, List.takeWhile_append_dropWhile]
  split
  · simp [text, splitNumber_append]
  split
  · split
    · next h => simp_all [text, Quoted.append_of_close? h]
    · simp_all [text]
  split
  · next h => simp [text, Symbol.text_extend, Symbol.text_of_single? h]
  · simp [text]

theorem split_text_ne_nil (c : Char) (cs : List Char) : (split c cs).1.text ≠ [] := by
  unfold split
  split
  · simp [text]
  split
  · simp [text]
  split
  · split <;> simp [text]
  split
  · exact Symbol.text_ne_nil _
  · simp [text]

theorem split_rest_length (c : Char) (cs : List Char) :
    (split c cs).2.length < (c :: cs).length := by
  have h := congrArg List.length (text_append_split c cs)
  have pos := List.length_pos_iff.2 (split_text_ne_nil c cs)
  rw [List.length_append] at h
  omega

end Lexeme
end LoxFrontEnd
