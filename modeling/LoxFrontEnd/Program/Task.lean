import LoxFrontEnd.Options.CommandLine
import LoxFrontEnd.Options.Usage
import LoxFrontEnd.Run.Basic

/-! What a command line asks the program to do. -/

namespace LoxFrontEnd.Program
set_option autoImplicit false

open Options

def fileField : Field :=
  ⟨"file", .optional, "-f", some "--file", some "The script to scan and parse", false⟩

def tokensField : Field :=
  ⟨"log_tokens", .flag, "-t", some "--tokens", some "Print every scanned token", false⟩

def treeField : Field :=
  ⟨"log_ast", .flag, "-a", some "--ast",
    some "Print the parsed expression when running a file", false⟩

def schema : Schema :=
  .ofFields "Lox scanner and expression parser. Starts a prompt when no file is given."
    [fileField, tokensField, treeField]

def executable : String := "lox"

def usage : String := schema.usage executable

inductive Task
  | refuse (error : ArgError)
  | help
  | runFile (path : String) (display : Display)
  | prompt (display : Display)
  deriving DecidableEq

/-- The task of a record of options. A prompt always shows the trees. -/
def Task.ofRecord (record : Record) : Task :=
  let tokens : Bool := record tokensField.name = .flag true
  match record fileField.name with
  | .optional (some path) => .runFile path ⟨tokens, record treeField.name = .flag true⟩
  | _ => .prompt ⟨tokens, true⟩

def Task.ofArgs (args : List String) : Task :=
  match schema.parse schema.defaults args with
  | .error error => .refuse error
  | .ok .help => .help
  | .ok (.record record) => .ofRecord record

end LoxFrontEnd.Program
