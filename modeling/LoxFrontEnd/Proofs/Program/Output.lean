import LoxFrontEnd.Program.Basic

/-! # What a run writes

The events of a run are its lexical faults, then what is shown of it, and its parse error where
there is one. Standard output holds what is shown and standard error the reports, each on a line of
its own. -/

namespace LoxFrontEnd
set_option autoImplicit false

/-- Texts on a line each. -/
def unlines (texts : List String) : String := String.join (texts.map (· ++ "\n"))

theorem unlines_append (texts texts' : List String) :
    unlines (texts ++ texts') = unlines texts ++ unlines texts' := by
  rw [unlines, List.map_append, String.join_append]
  rfl

theorem outputOf_append (events events' : List Event) :
    outputOf (events ++ events') = outputOf events ++ outputOf events' := by
  rw [outputOf, List.map_append, String.join_append]
  rfl

theorem outputOf_print (texts : List String) : outputOf (texts.map .print) = unlines texts := by
  rw [outputOf, unlines, List.map_map]
  rfl

theorem outputOf_report (reports : List Report) : outputOf (reports.map .report) = "" := by
  induction reports with
  | nil => rfl
  | cons report reports ih => simpa [outputOf, Event.written] using ih

namespace Run

/-- The tree, if there was something to parse and it was parsed. -/
def tree? (run : Run) : Option Expr :=
  match run.parsed? with
  | some (.ok expr) => some expr
  | _ => none

/-- The parse error, if there was something to parse and it was not parsed. -/
def parseError? (run : Run) : Option ParseError :=
  match run.parsed? with
  | some (.error error) => some error
  | _ => none

def reports (run : Run) : List Report :=
  run.scan.reports ++ run.parseError?.toList.map ParseError.report

/-- The lines that are shown of a run. -/
def shown (run : Run) (display : Display) : List String :=
  (if display.tokens then run.scan.tokens.map Token.text else []) ++
    if display.tree then run.tree?.toList.map Expr.text else []

theorem reportsOf_events_eq (run : Run) (display : Display) :
    reportsOf (run.events display) = run.reports := by
  rw [reportsOf_events, reports, parseError?]
  rcases run.parsed? with _ | error | expr <;> rfl

theorem outputOf_events (run : Run) (display : Display) :
    outputOf (run.events display) = unlines (run.shown display) := by
  have htokens : outputOf (if display.tokens then
      run.scan.tokens.map fun token => .print token.text else []) =
      unlines (if display.tokens then run.scan.tokens.map Token.text else []) := by
    split
    · rw [← outputOf_print, List.map_map]
      rfl
    · rfl
  rw [events, outputOf_append, outputOf_report, outputOf_append, String.empty_append, htokens,
    shown, unlines_append, tree?]
  congr 1
  rcases run.parsed? with _ | error | expr <;> cases display.tree <;> rfl

end Run

namespace Program

theorem written_writeOf (event : Event) : Transcript.written (writeOf event) = event.written := by
  cases event <;> rfl

theorem complained_writeOf (event : Event) : Transcript.complained (writeOf event) =
    unlines (event.report?.toList.map Report.text) := by
  cases event with
  | print => rfl
  | report report => exact String.empty_append.symm

theorem join_written (events : List Event) :
    String.join ((writesOf events).map Transcript.written) = outputOf events := by
  simp [outputOf, writesOf, Function.comp_def, written_writeOf]

theorem join_complained (events : List Event) :
    String.join ((writesOf events).map Transcript.complained) =
      unlines ((reportsOf events).map Report.text) := by
  induction events with
  | nil => rfl
  | cons event events ih =>
    have hreports : reportsOf (event :: events) = event.report?.toList ++ reportsOf events := by
      cases event <;> rfl
    rw [hreports, List.map_append, unlines_append, ← ih, ← complained_writeOf]
    exact String.join_cons

end Program
end LoxFrontEnd
