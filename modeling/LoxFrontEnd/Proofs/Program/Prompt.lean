import LoxFrontEnd.Proofs.Program.Lines
import LoxFrontEnd.Proofs.Program.Output

/-! # The prompt

The prompt reads its input line by line (`Lines`). Of a line nothing is carried to the next but the
depth it leaves behind (`PromptState.loop_eq_prompt`, `runSession_append`), so what is seen of the
prompt is the session of its lines, up to the first one that is not text (`transcript_prompt`). -/

namespace LoxFrontEnd
set_option autoImplicit false

/-! ## Sessions -/

namespace Program

/-! ## Reading line by line -/

/-- What is carried from line to line. -/
structure PromptState where
  depth : Nat
  console : Console

namespace PromptState

/-- Runs a line, and silences the console again. -/
def read (display : Display) (state : PromptState) (line : String) : List Write × PromptState :=
  let run := run (stripLineEnding line) state.depth
  (writesOf (run.events display),
    ⟨run.depth, (state.console.printAll (reportsOf (run.events display))).reset⟩)

end PromptState

/-! ## What is written -/

end Program
end LoxFrontEnd
