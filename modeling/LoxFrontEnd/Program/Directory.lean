/-! Files and their contents as a program finds them. -/

namespace LoxFrontEnd
set_option autoImplicit false

inductive FileError
  | notFound
  | isDirectory
  | notText
  deriving DecidableEq

def FileError.message : FileError → String
  | notFound => "No such file or directory (os error 2)"
  | isDirectory => "Is a directory (os error 21)"
  | notText => "stream did not contain valid UTF-8"

/-- The files below a working directory, by their paths from there. -/
abbrev Directory := List (String × ByteArray)

namespace Directory

/-- The names along a path, without those that lead nowhere. -/
def segments (path : String) : List String :=
  ((path.splitOn "/").filter fun name => name ≠ "" ∧ name ≠ ".")

def find (directory : Directory) (path : String) : Except FileError ByteArray :=
  let wanted := segments path
  if path = "" then .error .notFound
  else if wanted.all (· = "..") then .error .isDirectory
  else if path.startsWith "/" then .error .notFound
  else match directory.find? fun file => segments file.1 = wanted with
    | some file => .ok file.2
    | none =>
      if directory.any fun file => wanted.isPrefixOf (segments file.1) then .error .isDirectory
      else .error .notFound

def readText (directory : Directory) (path : String) : Except FileError String :=
  match directory.find path with
  | .error error => .error error
  | .ok bytes =>
    match String.fromUTF8? bytes with
    | some text => .ok text
    | none => .error .notText

end Directory
end LoxFrontEnd
