import LoxFrontEnd.Options.Schema
import LoxFrontEnd.Options.TypePath

/-! Declarations of options as they are written: a type with fields and the attributes on them.
A declaration becomes a schema, or the first thing wrong with it is told: field by field, a field's
type before its attributes, and those in the order they are written. -/

namespace LoxFrontEnd.Options
set_option autoImplicit false

inductive Shape
  | named
  | tuple
  | unit
  | enumeration
  | union
  deriving DecidableEq

inductive AttributeValue
  | text (value : String)
  | boolean (value : Bool)
  | other
  deriving DecidableEq

inductive AttributeKey
  | short
  | long
  | description
  | required
  | unknown (key : String)
  deriving DecidableEq

structure FieldDeclaration where
  name : String
  type : String
  attributes : List (AttributeKey × AttributeValue)
  deriving DecidableEq

structure Declaration where
  shape : Shape
  description? : Option AttributeValue
  fields : List FieldDeclaration
  deriving DecidableEq

inductive DeclarationError
  | notAStruct
  | unnamedField
  | fieldType
  | missingShort
  | unknownKey (key : String)
  | expectedText
  | expectedBoolean
  deriving DecidableEq

def DeclarationError.message : DeclarationError → String
  | notAStruct => "CmdArgs only supports structs"
  | unnamedField => "CmdArgs needs named fields"
  | fieldType => "CmdArgs fields must be bool, String or Option<String>"
  | missingShort => "missing required field #[arg(short)]"
  | unknownKey key => "unknown field \x60" ++ key ++ "\x60"
  | expectedText => "expected string literal"
  | expectedBoolean => "expected boolean literal"

def AttributeValue.expectText : AttributeValue → Except DeclarationError String
  | text value => .ok value
  | _ => .error .expectedText

def AttributeValue.expectBoolean : AttributeValue → Except DeclarationError Bool
  | boolean value => .ok value
  | _ => .error .expectedBoolean

def FieldKind.ofType? (type : String) : Option FieldKind :=
  (TypePath.lastName? type).map fun name =>
    if name = "bool" then .flag else if name = "Option" then .optional else .value

/-- The attributes of one field read so far. -/
structure Attributes where
  short? : Option String
  long : String
  description : String
  required : Bool

namespace Attributes

def none : Attributes := ⟨.none, "", "", false⟩

def add (attributes : Attributes) :
    AttributeKey × AttributeValue → Except DeclarationError Attributes
  | (.short, value) => value.expectText.map fun text => { attributes with short? := some text }
  | (.long, value) => value.expectText.map fun text => { attributes with long := text }
  | (.description, value) => value.expectText.map fun text => { attributes with description := text }
  | (.required, value) => value.expectBoolean.map fun flag => { attributes with required := flag }
  | (.unknown key, _) => .error (.unknownKey key)

end Attributes

/-- A text that may be left out; an empty one counts as left out. -/
def unlessEmpty (text : String) : Option String := if text = "" then none else some text

def FieldDeclaration.field (declaration : FieldDeclaration) : Except DeclarationError Field := do
  let some kind := FieldKind.ofType? declaration.type | .error .fieldType
  let attributes ← declaration.attributes.foldlM Attributes.add .none
  let some short := attributes.short? | .error .missingShort
  return ⟨declaration.name, kind, short, unlessEmpty attributes.long,
    unlessEmpty attributes.description, attributes.required⟩

/-- The schema that a declaration stands for. Of two fields of one name the later one counts. -/
def Declaration.schema (declaration : Declaration) : Except DeclarationError Schema := do
  let description ← match declaration.description? with
    | none => .ok ""
    | some value => value.expectText
  match declaration.shape, declaration.fields with
  | .enumeration, _ | .union, _ => .error .notAStruct
  | .tuple, _ :: _ => .error .unnamedField
  | .tuple, [] | .unit, _ => return .ofFields description []
  | .named, fields => return .ofFields description (← fields.mapM FieldDeclaration.field)

end LoxFrontEnd.Options
