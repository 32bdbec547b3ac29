import LoxFrontEnd.Program.Basic

/-! The command line. -/

namespace LoxFrontEnd
set_option autoImplicit false

/-- Carries out the writes of a transcript in their order. A failing write ends the program. -/
def emit (transcript : Transcript) : IO UInt32 := do
  let out ← IO.getStdout
  let err ← IO.getStderr
  for write in transcript.writes do
    match write with
    | .out text =>
      try
        out.putStr text
        out.flush
      catch _ => return ExitCode.io.toNat.toUInt32
    | .err text => err.putStr text
  return transcript.code.toNat.toUInt32

/-- Reads up to and including the next line feed. -/
partial def readLine (input : IO.FS.Stream) (line : ByteArray) : IO ByteArray := do
  let bytes ← input.read 1
  if bytes.isEmpty then return line
  let line := line ++ bytes
  if bytes[0]! = 10 then return line
  readLine input line

def runFile (path : String) (display : Display) : IO UInt32 := do
  match ← (IO.FS.readBinFile path).toBaseIO with
  | .ok bytes =>
    match String.fromUTF8? bytes with
    | some text => emit (Program.runText display text)
    | none => emit (Program.unreadable path FileError.notText.message)
  | .error (.noFileOrDirectory ..) => emit (Program.unreadable path FileError.notFound.message)
  | .error (.inappropriateType ..) => emit (Program.unreadable path FileError.isDirectory.message)
  | .error error => emit (Program.unreadable path (toString error))

partial def prompt (display : Display) (depth : Nat) : IO UInt32 := do
  let code ← emit ⟨[.out Program.promptText], .success⟩
  if code ≠ 0 then return code
  let line ← readLine (← IO.getStdin) .empty
  if line.isEmpty then return ExitCode.success.toNat.toUInt32
  match Program.decodeLine? line.toList with
  | none => return ExitCode.io.toNat.toUInt32
  | some text =>
    let run := run (stripLineEnding text) depth
    let code ← emit ⟨Program.writesOf (run.events display), .success⟩
    if code ≠ 0 then return code
    prompt display run.depth

end LoxFrontEnd

def main (args : List String) : IO UInt32 :=
  match LoxFrontEnd.Program.Task.ofArgs args with
  | .runFile path display => LoxFrontEnd.runFile path display
  | .prompt display => LoxFrontEnd.prompt display 0
  | task => LoxFrontEnd.emit (LoxFrontEnd.Program.perform [] [] task)
