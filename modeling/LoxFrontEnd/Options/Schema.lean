/-! Options of a command line. A schema lists fields in the order of their names, each name once,
whatever the order in which they were declared (`insert_comm`). A field is reached by its short
name or, if it has one, by its long name. -/

namespace LoxFrontEnd.Options
set_option autoImplicit false

/-- How a field is filled: set when its option is given, or by the argument after the option. -/
inductive FieldKind
  | flag
  | value
  | optional
  deriving DecidableEq

structure Field where
  name : String
  kind : FieldKind
  short : String
  long? : Option String
  description? : Option String
  required : Bool
  deriving DecidableEq

namespace Field

def takesParameter (field : Field) : Bool := field.kind ≠ .flag

def names (field : Field) : List String := field.short :: field.long?.toList

end Field

/-- Puts a field in its place by name; a field of the same name gives way. -/
def insert (field : Field) : List Field → List Field
  | [] => [field]
  | other :: rest =>
    if field.name < other.name then field :: other :: rest
    else if field.name = other.name then field :: rest
    else other :: insert field rest

theorem mem_insert {field other : Field} {fields : List Field} (h : other ∈ insert field fields) :
    other = field ∨ other ∈ fields := by
  induction fields with
  | nil => simpa [insert] using h
  | cons first rest ih =>
    unfold insert at h
    split at h
    · simpa using h
    split at h
    · rcases List.mem_cons.1 h with h | h
      · exact .inl h
      · exact .inr (List.mem_cons_of_mem _ h)
    · rcases List.mem_cons.1 h with h | h
      · exact .inr (h ▸ List.mem_cons_self)
      · exact (ih h).imp_right (List.mem_cons_of_mem _)

theorem name_trichotomy (a b : Field) : a.name < b.name ∨ a.name = b.name ∨ b.name < a.name := by
  by_cases h : a.name < b.name
  · exact .inl h
  by_cases he : a.name = b.name
  · exact .inr (.inl he)
  · exact .inr (.inr (Std.lt_of_le_of_ne (String.not_lt.1 h) (Ne.symm he)))

theorem insert_comm {a b : Field} (h : a.name ≠ b.name) (fields : List Field) :
    insert a (insert b fields) = insert b (insert a fields) := by
  have irrefl := String.lt_irrefl
  have asymm := @String.lt_asymm
  have trans := @String.lt_trans
  induction fields with
  | nil =>
    rcases name_trichotomy a b with hab | hab | hab
    · simp [insert, hab, asymm hab, Ne.symm h]
    · exact absurd hab h
    · simp [insert, hab, asymm hab, h]
  | cons c rest ih =>
    rcases name_trichotomy a b with hab | hab | hab <;>
      rcases name_trichotomy a c with hac | hac | hac <;>
      rcases name_trichotomy b c with hbc | hbc | hbc <;>
      grind [insert]

def Sorted (fields : List Field) : Prop := fields.Pairwise fun a b => a.name < b.name

theorem sorted_insert (field : Field) {fields : List Field} (h : Sorted fields) :
    Sorted (insert field fields) := by
  induction fields with
  | nil => exact List.pairwise_singleton ..
  | cons first rest ih =>
    obtain ⟨hfirst, hrest⟩ := List.pairwise_cons.1 h
    unfold insert
    split
    · next hlt =>
      refine List.pairwise_cons.2 ⟨fun x hx => ?_, h⟩
      rcases List.mem_cons.1 hx with rfl | hx
      · exact hlt
      · exact String.lt_trans hlt (hfirst x hx)
    split
    · next heq => exact List.pairwise_cons.2 ⟨fun x hx => heq ▸ hfirst x hx, hrest⟩
    · next hlt hne =>
      refine List.pairwise_cons.2 ⟨fun x hx => ?_, ih hrest⟩
      rcases mem_insert hx with rfl | hx
      · exact Std.lt_of_le_of_ne (String.not_lt.1 hlt) (Ne.symm hne)
      · exact hfirst x hx

structure Schema where
  description : String
  fields : List Field
  sorted : Sorted fields

namespace Schema

/-- The schema of fields declared one after another. -/
def ofFields (description : String) (declared : List Field) : Schema where
  description := description
  fields := declared.foldl (fun fields field => insert field fields) []
  sorted := by
    have keep : ∀ (declared fields : List Field), Sorted fields →
        Sorted (declared.foldl (fun fields field => insert field fields) fields) := by
      intro declared
      induction declared with
      | nil => exact fun _ h => h
      | cons field rest ih => exact fun fields h => ih _ (sorted_insert field h)
    exact keep declared [] List.Pairwise.nil

end Schema

/-- How the names of a field are answered: the field's place in name order, and what it takes. -/
structure Arm where
  names : List String
  index : Nat
  field : String
  kind : FieldKind
  deriving DecidableEq

def helpNames : List String := ["-h", "--help"]

namespace Schema

/-- Every name with a meaning: those that ask for help, then those of the fields. -/
def knownNames (schema : Schema) : List String :=
  helpNames ++ schema.fields.flatMap Field.names

/-- The first field, in name order, that a name reaches. -/
def field? (schema : Schema) (name : String) : Option Field :=
  schema.fields.find? fun field => name ∈ field.names

theorem mem_names_of_field? {schema : Schema} {name : String} {field : Field}
    (h : schema.field? name = some field) : name ∈ field.names := by
  simpa using List.find?_some h

theorem mem_of_field? {schema : Schema} {name : String} {field : Field}
    (h : schema.field? name = some field) : field ∈ schema.fields := List.mem_of_find?_eq_some h

theorem mem_knownNames_iff {schema : Schema} {name : String} :
    name ∈ schema.knownNames ↔ name ∈ helpNames ∨ (schema.field? name).isSome := by
  simp [knownNames, field?, List.find?_isSome]

def arms (schema : Schema) : List Arm :=
  schema.fields.mapIdx fun index field => ⟨field.names, index, field.name, field.kind⟩

def shortNames (schema : Schema) : List String := schema.fields.map Field.short

def requirements (schema : Schema) : List Bool := schema.fields.map Field.required

end Schema
end LoxFrontEnd.Options
