import LoxFrontEnd.Parse.Basic
import LoxFrontEnd.Scan.Basic
import LoxFrontEnd.Text.Line

/-! Running a source: scanning it, parsing what was scanned, and the events that are shown. Faults
of scanning come first, then the echoed tokens, then the tree or the parse error. A source without
any token is not parsed. -/

namespace LoxFrontEnd
set_option autoImplicit false

structure Display where
  tokens : Bool
  tree : Bool
  deriving DecidableEq

/-- One thing that is shown: a line of output, or a report. -/
inductive Event
  | print (line : String)
  | report (report : Report)
  deriving DecidableEq

/-- A scanned source and, if it has any token, what it was parsed as. -/
structure Run where
  scan : Scan
  parsed? : Option (Except ParseError Expr)

/-- Runs a source that continues `depth` open block comments. -/
def run (source : String) (depth : Nat) : Run :=
  let scan := scan source depth
  ⟨scan, if hasExpression scan.tokens then some (parse scan.tokens) else none⟩

namespace Run

def depth (run : Run) : Nat := run.scan.depth

def events (run : Run) (display : Display) : List Event :=
  run.scan.reports.map .report ++
    ((if display.tokens then run.scan.tokens.map fun token => .print token.text else []) ++
      match run.parsed? with
      | none => []
      | some (.ok expr) => if display.tree then [.print expr.text] else []
      | some (.error error) => [.report error.report])

end Run

namespace Event

def report? : Event → Option Report
  | print _ => none
  | report r => some r

def written : Event → String
  | print line => line ++ "\n"
  | report _ => ""

end Event

def outputOf (events : List Event) : String := String.join (events.map Event.written)

def reportsOf (events : List Event) : List Report := events.filterMap Event.report?

/-- Runs lines one after another, each continuing the open comments of the one before. -/
def runSession (depth : Nat) : List String → List Run
  | [] => []
  | line :: lines =>
    let first := run (stripLineEnding line) depth
    first :: runSession first.depth lines

theorem reportsOf_events (run : Run) (display : Display) :
    reportsOf (run.events display) = run.scan.reports ++
      match run.parsed? with
      | some (.error error) => [error.report]
      | _ => [] := by
  have quiet (tokens : List Token) :
      (tokens.map fun token => Event.print token.text).filterMap Event.report? = [] := by
    simp [Event.report?]
  have loud (reports : List Report) :
      (reports.map Event.report).filterMap Event.report? = reports := by
    simp [List.filterMap_map, Function.comp_def, Event.report?]
  unfold Run.events reportsOf
  rw [List.filterMap_append, loud, List.filterMap_append]
  congr 1
  split <;> split <;> simp_all [Event.report?]

end LoxFrontEnd
