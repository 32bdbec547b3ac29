import LoxFrontEnd.Options.CommandLine

/-! # Groups of arguments

A command line is read in groups: the name of a flag, or the name of another field and its
parameter. Reading goes through groups of distinct fields and fills these (`Schema.read_groups`).
Behind them it ends where every required field has been filled, where help is asked for, or at an
offence (`Schema.read_complete`, `Schema.read_help`, `Schema.read_offends`). -/

namespace LoxFrontEnd.Options
set_option autoImplicit false

/-! ## Names -/

/-- A field answers to its short name and, if it has one, to its long name. -/
def Field.Answers (field : Field) (name : String) : Prop :=
  name = field.short ∨ field.long? = some name

theorem Field.mem_names_iff {field : Field} {name : String} :
    name ∈ field.names ↔ field.Answers name := by
  simp [names, Answers]

namespace Schema

/-- A name that does not ask for help stands for the first field, in name order, that answers to
it. -/
structure Reaches (schema : Schema) (name : String) (field : Field) : Prop where
  notHelp : name ∉ helpNames
  answers : field.Answers name
  first : ∃ before behind, schema.fields = before ++ field :: behind ∧
    ∀ other ∈ before, ¬ other.Answers name

/-- The names that have a meaning, and so are no parameters. -/
def Known (schema : Schema) (name : String) : Prop :=
  name ∈ helpNames ∨ ∃ field ∈ schema.fields, field.Answers name

variable {schema : Schema} {name : String} {field : Field}

theorem reaches_iff :
    schema.Reaches name field ↔ name ∉ helpNames ∧ schema.field? name = some field := by
  simp only [field?, List.find?_eq_some_iff_append, decide_eq_true_eq, Bool.not_eq_true',
    decide_eq_false_iff_not, Field.mem_names_iff]
  constructor
  · rintro ⟨hh, ha, hf⟩
    exact ⟨hh, ha, hf⟩
  · rintro ⟨hh, ha, hf⟩
    exact ⟨hh, ha, hf⟩

theorem mem_knownNames_iff_known : name ∈ schema.knownNames ↔ schema.Known name := by
  simp [knownNames, Known, Field.mem_names_iff]

theorem not_known_iff :
    ¬ schema.Known name ↔ name ∉ helpNames ∧ schema.field? name = none := by
  rw [← mem_knownNames_iff_known, mem_knownNames_iff, not_or,
    Option.not_isSome_iff_eq_none]

end Schema

/-! ## Groups -/

/-- The arguments that fill one field. -/
inductive Group (schema : Schema)
  | flag (name : String) (field : Field) (reaches : schema.Reaches name field)
      (kind : field.kind = .flag)
  | parameter (name : String) (field : Field) (text : String)
      (reaches : schema.Reaches name field) (kind : field.kind ≠ .flag) (free : ¬ schema.Known text)

namespace Group
variable {schema : Schema}

def field : Group schema → Field
  | flag _ field _ _ => field
  | parameter _ field _ _ _ _ => field

def args : Group schema → List String
  | flag name _ _ _ => [name]
  | parameter name _ text _ _ _ => [name, text]

/-- What the field holds then. -/
def value : Group schema → FieldValue
  | flag _ _ _ _ => .flag true
  | parameter _ field text _ _ _ => field.kind.hold text

/-- Fields are told apart by their names. -/
def fieldName (group : Group schema) : String := group.field.name

end Group

section
variable {schema : Schema}

def fieldNames (groups : List (Group schema)) : List String := groups.map Group.fieldName

def arguments (groups : List (Group schema)) : List String := groups.flatMap Group.args

/-- What the fields hold when groups of distinct fields fill some of them. -/
def fill (defaults : Record) (groups : List (Group schema)) : Record := fun name =>
  match groups.find? fun group => group.fieldName = name with
  | some group => group.value
  | none => defaults name

/-- Every required field has been filled. -/
def Complete (schema : Schema) (given : List String) : Prop :=
  ∀ field ∈ schema.fields, field.required → field.name ∈ given

/-- What is wrong with the arguments from the first one on that does not fit, when the fields
named in `given` have been filled. -/
inductive Offends (schema : Schema) (given : List String) : List String → ArgError → Prop
  | unknown {arg : String} {rest : List String} :
      ¬ schema.Known arg → Offends schema given (arg :: rest) (.notAnOption arg)
  | repeated {arg : String} {rest : List String} {field : Field} :
      schema.Reaches arg field → field.name ∈ given →
      Offends schema given (arg :: rest) (.repeated arg)
  | noParameter {arg : String} {field : Field} :
      schema.Reaches arg field → field.name ∉ given → field.kind ≠ .flag →
      Offends schema given [arg] (.missingParameter arg)
  | namedParameter {arg next : String} {rest : List String} {field : Field} :
      schema.Reaches arg field → field.name ∉ given → field.kind ≠ .flag → schema.Known next →
      Offends schema given (arg :: next :: rest) (.missingParameter arg)
  | missing {field : Field} {before behind : List Field} :
      schema.fields = before ++ field :: behind → field.required → field.name ∉ given →
      (∀ other ∈ before, other.required → other.name ∈ given) →
      Offends schema given [] (.missingOption field.short)

theorem Offends.congr {given given' rest : List String} {error : ArgError}
    (h : Offends schema given rest error) (hg : ∀ name, name ∈ given ↔ name ∈ given') :
    Offends schema given' rest error := by
  cases h with
  | unknown hk => exact .unknown hk
  | repeated hr hm => exact .repeated hr ((hg _).1 hm)
  | noParameter hr hm hk => exact .noParameter hr (mt (hg _).2 hm) hk
  | namedParameter hr hm hk hn => exact .namedParameter hr (mt (hg _).2 hm) hk hn
  | missing hf hr hm hb => exact .missing hf hr (mt (hg _).2 hm) fun o ho h => (hg _).1 (hb o ho h)

end

namespace Schema
variable {schema : Schema} {given : List String} {record : Record}

/-! ## Single steps of reading -/

theorem read_nil : schema.read given record [] =
    match schema.missing? given with
    | some field => .error (.missingOption field.short)
    | none => .ok (.record record) := rfl

/-- One argument of the reading. The cases below are the ways through it. -/
theorem read_cons (arg : String) (rest : List String) :
    schema.read given record (arg :: rest) =
      if arg ∈ helpNames then .ok .help
      else
        match schema.field? arg with
        | none => .error (.notAnOption arg)
        | some field =>
          if field.name ∈ given then .error (.repeated arg)
          else if field.takesParameter then
            match rest with
            | [] => .error (.missingParameter arg)
            | parameter :: rest =>
              if parameter ∈ schema.knownNames then .error (.missingParameter arg)
              else schema.read (field.name :: given)
                (record.set field.name (field.kind.hold parameter)) rest
          else
            schema.read (field.name :: given) (record.set field.name (.flag true)) rest :=
  read.eq_def schema given record (arg :: rest)

theorem read_help {arg : String} (h : arg ∈ helpNames) (rest : List String) :
    schema.read given record (arg :: rest) = .ok .help := by
  rw [read_cons, if_pos h]

theorem read_flag {arg : String} {field : Field} (hr : schema.Reaches arg field)
    (hk : field.kind = .flag) (hg : field.name ∉ given) (rest : List String) :
    schema.read given record (arg :: rest) =
      schema.read (field.name :: given) (record.set field.name (.flag true)) rest := by
  obtain ⟨hh, hf⟩ := reaches_iff.1 hr
  rw [read_cons, if_neg hh]
  simp [hf, hg, Field.takesParameter, hk]

theorem read_parameter {arg text : String} {field : Field} (hr : schema.Reaches arg field)
    (hk : field.kind ≠ .flag) (hg : field.name ∉ given) (hn : ¬ schema.Known text)
    (rest : List String) :
    schema.read given record (arg :: text :: rest) =
      schema.read (field.name :: given) (record.set field.name (field.kind.hold text)) rest := by
  obtain ⟨hh, hf⟩ := reaches_iff.1 hr
  rw [← mem_knownNames_iff_known] at hn
  rw [read_cons, if_neg hh]
  simp [hf, hg, Field.takesParameter, hk, hn]

theorem read_group {group : Group schema} (hg : group.fieldName ∉ given) (rest : List String) :
    schema.read given record (group.args ++ rest) =
      schema.read (group.fieldName :: given) (record.set group.fieldName group.value) rest := by
  cases group with
  | flag name field reaches kind => exact read_flag reaches kind hg rest
  | parameter name field text reaches kind free => exact read_parameter reaches kind hg free rest

theorem missing?_eq_none_iff : schema.missing? given = none ↔ Complete schema given := by
  simp [missing?, Complete]

theorem missing?_eq_some_iff {field : Field} :
    schema.missing? given = some field ↔ field.required ∧ field.name ∉ given ∧
      ∃ before behind, schema.fields = before ++ field :: behind ∧
        ∀ other ∈ before, other.required → other.name ∈ given := by
  simp [missing?, List.find?_eq_some_iff_append, and_assoc,
    Classical.or_iff_not_imp_left]

theorem read_offends {rest : List String} {error : ArgError}
    (h : Offends schema given rest error) : schema.read given record rest = .error error := by
  cases h with
  | unknown hk =>
    obtain ⟨hh, hf⟩ := not_known_iff.1 hk
    rw [read_cons, if_neg hh, hf]
  | repeated hr hm =>
    obtain ⟨hh, hf⟩ := reaches_iff.1 hr
    rw [read_cons, if_neg hh, hf]
    exact if_pos hm
  | noParameter hr hm hk =>
    obtain ⟨hh, hf⟩ := reaches_iff.1 hr
    rw [read_cons, if_neg hh]
    simp [hf, hm, Field.takesParameter, hk]
  | namedParameter hr hm hk hn =>
    obtain ⟨hh, hf⟩ := reaches_iff.1 hr
    rw [← mem_knownNames_iff_known] at hn
    rw [read_cons, if_neg hh]
    simp [hf, hm, Field.takesParameter, hk, hn]
  | missing hf hr hm hb =>
    rw [read_nil, missing?_eq_some_iff.2 ⟨hr, hm, _, _, hf, hb⟩]

theorem read_complete (h : Complete schema given) :
    schema.read given record [] = .ok (.record record) := by
  rw [read_nil, missing?_eq_none_iff.2 h]

/-! ## Whole command lines -/

theorem fill_cons (group : Group schema) {groups : List (Group schema)}
    (h : group.fieldName ∉ fieldNames groups) :
    fill record (group :: groups) = fill (record.set group.fieldName group.value) groups := by
  funext name
  by_cases hn : group.fieldName = name
  · subst hn
    have hnone : groups.find? (fun other => other.fieldName = group.fieldName) = none := by
      rw [List.find?_eq_none]
      intro other hm
      rw [decide_eq_true_eq]
      exact fun he => h (List.mem_map.2 ⟨other, hm, he⟩)
    simp [fill, hnone]
  · simp [fill, hn, Record.set_of_ne (Ne.symm hn)]

theorem read_groups {groups : List (Group schema)} (hd : (fieldNames groups).Nodup)
    (hg : ∀ group ∈ groups, group.fieldName ∉ given) (rest : List String) :
    schema.read given record (arguments groups ++ rest) =
      schema.read ((fieldNames groups).reverse ++ given) (fill record groups) rest := by
  induction groups generalizing given record with
  | nil => rfl
  | cons group groups ih =>
    obtain ⟨hfresh, hd⟩ := List.nodup_cons.1 hd
    have hrest : ∀ other ∈ groups, other.fieldName ∉ group.fieldName :: given := by
      intro other hm hc
      rcases List.mem_cons.1 hc with he | hc
      · exact hfresh (List.mem_map.2 ⟨other, hm, he⟩)
      · exact hg other (List.mem_cons_of_mem _ hm) hc
    calc schema.read given record (arguments (group :: groups) ++ rest)
        = schema.read given record (group.args ++ (arguments groups ++ rest)) := by
          rw [arguments, List.flatMap_cons, List.append_assoc]; rfl
      _ = schema.read ((fieldNames groups).reverse ++ group.fieldName :: given)
            (fill (record.set group.fieldName group.value) groups) rest := by
          rw [read_group (hg group List.mem_cons_self), ih hd hrest]
      _ = _ := by
          rw [← fill_cons group hfresh]
          simp [fieldNames]

end Schema
end LoxFrontEnd.Options
