/-! What a program writes and how it ends. A transcript keeps the order in which both outputs are
written to; a run whose output fails is the part of it before the first write that fails. -/

namespace LoxFrontEnd
set_option autoImplicit false

inductive Write
  | out (text : String)
  | err (text : String)
  deriving DecidableEq

inductive ExitCode
  | success
  | usage
  | data
  | io
  deriving DecidableEq

def ExitCode.toNat : ExitCode → Nat
  | success => 0
  | usage => 64
  | data => 65
  | io => 74

structure Transcript where
  writes : List Write
  code : ExitCode
  deriving DecidableEq

namespace Transcript

def written : Write → String
  | .out text => text
  | .err _ => ""

def complained : Write → String
  | .out _ => ""
  | .err text => text

def stdout (transcript : Transcript) : String := String.join (transcript.writes.map written)

def stderr (transcript : Transcript) : String := String.join (transcript.writes.map complained)

/-- The writes before the first one to the output that fails, when only the first `allowed` of
these succeed; none when all of them do. -/
def failing? : (allowed : Nat) → List Write → Option (List Write)
  | _, [] => none
  | 0, .out _ :: _ => some []
  | allowed + 1, .out text :: rest => (failing? allowed rest).map (.out text :: ·)
  | allowed, .err text :: rest => (failing? allowed rest).map (.err text :: ·)

/-- The run whose output takes only the first `allowed` writes. It stops at the next one. -/
def cutAfter (allowed : Nat) (transcript : Transcript) : Transcript :=
  match failing? allowed transcript.writes with
  | some writes => ⟨writes, .io⟩
  | none => transcript

end Transcript
end LoxFrontEnd
