import LoxFrontEnd.Program.Directory
import LoxFrontEnd.Program.Task
import LoxFrontEnd.Program.Transcript

/-! The whole program: a command line, a directory and the input become a transcript. With a file
the program runs it at once; without one it prompts for line after line, and each line continues
the block comments left open before it. -/

namespace LoxFrontEnd.Program
set_option autoImplicit false

def writeOf : Event → Write
  | .print line => .out (line ++ "\n")
  | .report report => .err (report.text ++ "\n")

def writesOf (events : List Event) : List Write := events.map writeOf

/-! ## Files -/

/-- Runs the text of a file. Any report makes it fail. -/
def runText (display : Display) (text : String) : Transcript :=
  let events := (run text 0).events display
  let console := Console.quiet.printAll (reportsOf events)
  ⟨writesOf events, if console.hadError then .data else .success⟩

def unreadable (path reason : String) : Transcript :=
  ⟨[.err ("Could not read '" ++ path ++ "': " ++ reason ++ "\n")], .io⟩

def runFile (display : Display) (directory : Directory) (path : String) : Transcript :=
  match directory.readText path with
  | .ok text => runText display text
  | .error error => unreadable path error.message

/-! ## The prompt -/

/-- Moves lines onto `lines`; both these and the bytes of `line` are kept backwards. -/
def cutOnto (lines : List (List UInt8)) (line : List UInt8) : List UInt8 → List (List UInt8)
  | [] => (if line = [] then lines else line.reverse :: lines).reverse
  | byte :: bytes =>
    if byte = 10 then cutOnto ((byte :: line).reverse :: lines) [] bytes
    else cutOnto lines (byte :: line) bytes

/-- Cuts an input after each line feed. -/
def cutLines (input : List UInt8) : List (List UInt8) := cutOnto [] [] input

def decodeLine? (bytes : List UInt8) : Option String := String.fromUTF8? ⟨bytes.toArray⟩

def promptText : String := "> "

/-- Prompts for each line and for the end of the input. A line that is not text ends the run. -/
def prompt (display : Display) (depth : Nat) : List (List UInt8) → Transcript
  | [] => ⟨[.out promptText], .success⟩
  | bytes :: lines =>
    match decodeLine? bytes with
    | none => ⟨[.out promptText], .io⟩
    | some line =>
      let run := run (stripLineEnding line) depth
      let later := prompt display run.depth lines
      ⟨.out promptText :: (writesOf (run.events display) ++ later.writes), later.code⟩

/-! ## The program -/

def perform (directory : Directory) (input : List UInt8) : Task → Transcript
  | .refuse error => ⟨[.err ("[ERROR] " ++ error.message ++ "\n"), .err (usage ++ "\n")], .usage⟩
  | .help => ⟨[.out (usage ++ "\n")], .success⟩
  | .runFile path display => runFile display directory path
  | .prompt display => prompt display 0 (cutLines input)

def transcript (args : List String) (directory : Directory) (input : List UInt8) : Transcript :=
  perform directory input (.ofArgs args)

end LoxFrontEnd.Program
