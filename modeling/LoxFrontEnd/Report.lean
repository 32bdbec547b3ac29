/-! Reports of faults in a source: a line, a place in it, and what is wrong. -/

namespace LoxFrontEnd
set_option autoImplicit false

/-- A report. The location is empty, or starts with a blank. -/
structure Report where
  line : Nat
  location : String
  message : String
  deriving DecidableEq

def Report.text (report : Report) : String :=
  "[Line " ++ toString report.line ++ "] Error" ++ report.location ++ ": " ++ report.message

/-- What is remembered of the reports printed so far: whether there were any. -/
structure Console where
  hadError : Bool
  deriving DecidableEq

namespace Console

def quiet : Console := ⟨false⟩

def print (_ : Console) (_ : Report) : Console := ⟨true⟩

def reset (_ : Console) : Console := quiet

def printAll (console : Console) (reports : List Report) : Console := reports.foldl print console

theorem hadError_printAll (console : Console) (reports : List Report) :
    (console.printAll reports).hadError = (console.hadError || !reports.isEmpty) := by
  induction reports generalizing console with
  | nil => simp [printAll]
  | cons r rs ih => simpa [printAll, print] using ih ⟨true⟩

end Console
end LoxFrontEnd
