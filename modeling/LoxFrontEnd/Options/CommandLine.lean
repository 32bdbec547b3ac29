import LoxFrontEnd.Options.Schema

/-! Reading a command line against a schema. Arguments are read from left to right and the first
one that does not fit decides; what is missing is told at the end. An argument that asks for help
ends the reading. -/

namespace LoxFrontEnd.Options
set_option autoImplicit false

inductive FieldValue
  | flag (given : Bool)
  | value (text : String)
  | optional (text : Option String)
  deriving DecidableEq

/-- What the fields hold, by name. -/
abbrev Record := String → FieldValue

namespace Record

def set (record : Record) (name : String) (value : FieldValue) : Record :=
  fun other => if other = name then value else record other

@[simp] theorem set_self (record : Record) (name : String) (value : FieldValue) :
    record.set name value name = value := by simp [set]

theorem set_of_ne {record : Record} {name other : String} {value : FieldValue}
    (h : other ≠ name) : record.set name value other = record other := by simp [set, h]

theorem set_comm {record : Record} {a b : String} {x y : FieldValue} (h : a ≠ b) :
    (record.set a x).set b y = (record.set b y).set a x := by
  funext other
  unfold set
  by_cases ha : other = a
  · subst ha; simp [h]
  · simp [ha]

end Record

/-- What a parameter makes a field hold. -/
def FieldKind.hold (kind : FieldKind) (parameter : String) : FieldValue :=
  match kind with
  | .flag => .flag true
  | .value => .value parameter
  | .optional => .optional (some parameter)

def FieldKind.absent : FieldKind → FieldValue
  | .flag => .flag false
  | .value => .value ""
  | .optional => .optional none

inductive ArgError
  | notAnOption (arg : String)
  | repeated (arg : String)
  | missingParameter (arg : String)
  | missingOption (short : String)
  deriving DecidableEq

def ArgError.message : ArgError → String
  | notAnOption arg => "'" ++ arg ++ "' is not a valid option"
  | repeated arg => "Option '" ++ arg ++ "' has already been processed"
  | missingParameter arg => "'" ++ arg ++ "' requires an argument to be passed"
  | missingOption short => "Option '" ++ short ++ "' is required"

inductive Request
  | help
  | record (record : Record)

namespace Schema

def defaults (schema : Schema) : Record := fun name =>
  match schema.fields.find? fun field => field.name = name with
  | some field => field.kind.absent
  | none => .flag false

def missing? (schema : Schema) (given : List String) : Option Field :=
  schema.fields.find? fun field => field.required && !given.contains field.name

/-- Reads the arguments that are left, when the fields named in `given` have been filled. -/
def read (schema : Schema) (given : List String) (record : Record) :
    List String → Except ArgError Request
  | [] =>
    match schema.missing? given with
    | some field => .error (.missingOption field.short)
    | none => .ok (.record record)
  | arg :: rest =>
    if arg ∈ helpNames then .ok .help
    else
      match schema.field? arg with
      | none => .error (.notAnOption arg)
      | some field =>
        if field.name ∈ given then .error (.repeated arg)
        else if field.takesParameter then
          match rest with
          | [] => .error (.missingParameter arg)
          | parameter :: rest =>
            if parameter ∈ schema.knownNames then .error (.missingParameter arg)
            else read schema (field.name :: given)
              (record.set field.name (field.kind.hold parameter)) rest
        else read schema (field.name :: given) (record.set field.name (.flag true)) rest

/-- Reads a command line over what the fields hold beforehand. -/
def parse (schema : Schema) (defaults : Record) (args : List String) : Except ArgError Request :=
  schema.read [] defaults args

end Schema
end LoxFrontEnd.Options
