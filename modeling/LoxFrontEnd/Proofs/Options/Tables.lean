import LoxFrontEnd.Options.CommandLine
import LoxFrontEnd.Options.Usage

/-! # The tables of a schema

One loop over the fields, in name order, fills all tables of a schema (`Schema.tables_eq`). A
command line is read with them alone: a name is looked up among the arms, and from then on its
field is only an index. Such reading never leaves its tables and does what reading by names does
(`Schema.read_tables`). -/

namespace LoxFrontEnd.Options
set_option autoImplicit false

/-! ## Filling the tables -/

structure Tables where
  arms : List Arm
  required : List Bool
  optionNames : List String
  knownOptions : List String
  usage : String
  options : String
  deriving DecidableEq

def Field.arm (field : Field) (index : Nat) : Arm := ⟨field.names, index, field.name, field.kind⟩

/-- What a required field adds to the usage line. -/
def Field.usagePart (field : Field) : String := " " ++ field.short ++ " " ++ field.placeholder

def rowsOf (fields : List Field) : String := String.join (fields.map fun field => field.row ++ "\n")

def helpRow : String := tableRow "-h" "--help" "" "Displays help"

namespace Tables

def start : Tables :=
  ⟨[], [], [], helpNames, "Usage: " ++ executablePlaceholder ++ " [OPTIONS]", ""⟩

/-- One round of the loop. -/
def add (tables : Tables) (index : Nat) (field : Field) : Tables where
  arms := tables.arms ++ [field.arm index]
  required := tables.required ++ [field.required]
  optionNames := tables.optionNames ++ [field.short]
  knownOptions := tables.knownOptions ++ [field.short] ++ field.long?.toList
  usage := if field.required then tables.usage ++ field.usagePart else tables.usage
  options := tables.options ++ field.row ++ "\n"

def addAll (tables : Tables) (index : Nat) : List Field → Tables
  | [] => tables
  | field :: rest => (tables.add index field).addAll (index + 1) rest

def finish (tables : Tables) (description : String) : Tables where
  arms := tables.arms
  required := tables.required
  optionNames := tables.optionNames
  knownOptions := tables.knownOptions
  usage := if description = "" then tables.usage else tables.usage ++ "\n\n" ++ description
  options := tables.options ++ helpRow

theorem addAll_eq (tables : Tables) (index : Nat) (fields : List Field) :
    tables.addAll index fields =
      ⟨tables.arms ++ fields.mapIdx fun i field => field.arm (index + i),
        tables.required ++ fields.map Field.required,
        tables.optionNames ++ fields.map Field.short,
        tables.knownOptions ++ fields.flatMap Field.names,
        tables.usage ++ String.join ((fields.filter Field.required).map Field.usagePart),
        tables.options ++ rowsOf fields⟩ := by
  induction fields generalizing tables index with
  | nil => simp [addAll, rowsOf]
  | cons field rest ih =>
    have hplace (i : Nat) : index + 1 + i = index + (i + 1) := Nat.add_right_comm ..
    have hrows : rowsOf (field :: rest) = field.row ++ "\n" ++ rowsOf rest := String.join_cons ..
    have husage : String.join (((field :: rest).filter Field.required).map Field.usagePart) =
        (if field.required then field.usagePart else "") ++
          String.join ((rest.filter Field.required).map Field.usagePart) := by
      rw [List.filter_cons]
      split
      · rw [List.map_cons, String.join_cons]
      · rw [String.empty_append]
    rw [addAll, ih, hrows, husage]
    simp only [add, hplace, List.mapIdx_cons, List.map_cons, List.flatMap_cons, Field.names,
      List.append_assoc, List.nil_append, List.cons_append, String.append_assoc, Nat.add_zero]
    split
    · rw [String.append_assoc]
    · rw [String.empty_append]

end Tables

/-- The tables of fields that are in name order already. -/
def tablesOf (description : String) (fields : List Field) : Tables :=
  (Tables.start.addAll 0 fields).finish description

def Schema.tables (schema : Schema) : Tables := tablesOf schema.description schema.fields

theorem Schema.tables_eq (schema : Schema) :
    schema.tables = ⟨schema.arms, schema.requirements, schema.shortNames, schema.knownNames,
      schema.usageHead, schema.optionTable⟩ := by
  have hdescription (usage description : String) :
      (if description = "" then usage else usage ++ "\n\n" ++ description) =
        usage ++ if description = "" then "" else "\n\n" ++ description := by
    split
    · rw [String.append_empty]
    · rw [String.append_assoc]
  rw [tables, tablesOf, Tables.addAll_eq, Tables.finish, hdescription]
  simp only [Tables.start, Nat.zero_add, List.nil_append, String.empty_append]
  rfl

/-- What the tables hold at one place comes from one field. -/
structure Tables.Aligned (tables : Tables) (fields : List Field) (index : Nat) (field : Field) :
    Prop where
  arm : tables.arms[index]? = some ⟨field.names, index, field.name, field.kind⟩
  optionName : tables.optionNames[index]? = some field.short
  required : tables.required[index]? = some field.required
  row : tables.options =
    rowsOf (fields.take index) ++ field.row ++ "\n" ++ rowsOf (fields.drop (index + 1)) ++ helpRow

theorem rowsOf_append (front back : List Field) :
    rowsOf (front ++ back) = rowsOf front ++ rowsOf back := by
  rw [rowsOf, List.map_append, String.join_append]
  rfl

theorem Schema.aligned_tables (schema : Schema) {index : Nat} {field : Field}
    (h : schema.fields[index]? = some field) :
    schema.tables.Aligned schema.fields index field := by
  obtain ⟨hlt, hfield⟩ := List.getElem?_eq_some_iff.1 h
  have hsplit : schema.fields =
      schema.fields.take index ++ field :: schema.fields.drop (index + 1) := by
    rw [← hfield, List.getElem_cons_drop, List.take_append_drop]
  have hrow : rowsOf (field :: schema.fields.drop (index + 1)) =
      field.row ++ "\n" ++ rowsOf (schema.fields.drop (index + 1)) := String.join_cons ..
  have hrows : rowsOf schema.fields = rowsOf (schema.fields.take index) ++
      (field.row ++ "\n" ++ rowsOf (schema.fields.drop (index + 1))) := by
    rw [← hrow, ← rowsOf_append, ← hsplit]
  rw [tables_eq]
  refine ⟨?_, ?_, ?_, ?_⟩
  · rw [arms, List.getElem?_mapIdx, h, Option.map_some]
  · rw [shortNames, List.getElem?_map, h, Option.map_some]
  · rw [requirements, List.getElem?_map, h, Option.map_some]
  · show rowsOf schema.fields ++ helpRow = _
    rw [hrows]
    simp only [String.append_assoc]

/-! ## Reading with the tables -/

namespace Tables

def arm? (tables : Tables) (arg : String) : Option Arm :=
  tables.arms.find? fun arm => arg ∈ arm.names

/-- The option of the first place whose field is required and has not been filled; fails where a
place is outside the tables. -/
def unmet? (tables : Tables) (processed : List Bool) : List Nat → Option (Option String)
  | [] => some none
  | index :: rest => do
    let required ← tables.required[index]?
    let done ← processed[index]?
    if required && !done then return some (← tables.optionNames[index]?)
    else tables.unmet? processed rest

/-- Reads the arguments that are left. `processed` tells for each place whether its field has been
filled; fails where a place is outside the tables. -/
def read (tables : Tables) (processed : List Bool) (record : Record) :
    List String → Option (Except ArgError Request)
  | [] =>
    (tables.unmet? processed (List.range tables.arms.length)).map fun
      | some short => .error (.missingOption short)
      | none => .ok (.record record)
  | arg :: rest =>
    if arg ∈ helpNames then some (.ok .help)
    else
      match tables.arm? arg with
      | none => some (.error (.notAnOption arg))
      | some arm =>
        match processed[arm.index]? with
        | none => none
        | some true => some (.error (.repeated arg))
        | some false =>
          if arm.kind = .flag then
            read tables (processed.set arm.index true) (record.set arm.field (.flag true)) rest
          else
            match rest with
            | [] => some (.error (.missingParameter arg))
            | parameter :: rest =>
              if parameter ∈ tables.knownOptions then some (.error (.missingParameter arg))
              else
                read tables (processed.set arm.index true)
                  (record.set arm.field (arm.kind.hold parameter)) rest

variable {tables : Tables} {processed : List Bool} {record : Record} {arg : String} {arm : Arm}

theorem read_nil : tables.read processed record [] =
    (tables.unmet? processed (List.range tables.arms.length)).map fun
      | some short => .error (.missingOption short)
      | none => .ok (.record record) := rfl

/-- One argument of the reading. The cases below are the ways through it. -/
theorem read_cons (arg : String) (rest : List String) :
    tables.read processed record (arg :: rest) =
      if arg ∈ helpNames then some (.ok .help)
      else
        match tables.arm? arg with
        | none => some (.error (.notAnOption arg))
        | some arm =>
          match processed[arm.index]? with
          | none => none
          | some true => some (.error (.repeated arg))
          | some false =>
            if arm.kind = .flag then
              tables.read (processed.set arm.index true) (record.set arm.field (.flag true)) rest
            else
              match rest with
              | [] => some (.error (.missingParameter arg))
              | parameter :: rest =>
                if parameter ∈ tables.knownOptions then some (.error (.missingParameter arg))
                else tables.read (processed.set arm.index true)
                  (record.set arm.field (arm.kind.hold parameter)) rest :=
  read.eq_def tables processed record (arg :: rest)

theorem read_help (h : arg ∈ helpNames) (rest : List String) :
    tables.read processed record (arg :: rest) = some (.ok .help) := by
  rw [read_cons, if_pos h]

theorem read_unknown (hh : arg ∉ helpNames) (harm : tables.arm? arg = none)
    (rest : List String) :
    tables.read processed record (arg :: rest) = some (.error (.notAnOption arg)) := by
  rw [read_cons, if_neg hh, harm]

theorem read_repeated (hh : arg ∉ helpNames) (harm : tables.arm? arg = some arm)
    (hdone : processed[arm.index]? = some true) (rest : List String) :
    tables.read processed record (arg :: rest) = some (.error (.repeated arg)) := by
  rw [read_cons, if_neg hh, harm]
  simp only [hdone]

theorem read_flag (hh : arg ∉ helpNames) (harm : tables.arm? arg = some arm)
    (hopen : processed[arm.index]? = some false) (hk : arm.kind = .flag) (rest : List String) :
    tables.read processed record (arg :: rest) =
      tables.read (processed.set arm.index true) (record.set arm.field (.flag true)) rest := by
  rw [read_cons, if_neg hh, harm]
  simp only [hopen, if_pos hk]

theorem read_noParameter (hh : arg ∉ helpNames) (harm : tables.arm? arg = some arm)
    (hopen : processed[arm.index]? = some false) (hk : arm.kind ≠ .flag) :
    tables.read processed record [arg] = some (.error (.missingParameter arg)) := by
  rw [read_cons, if_neg hh, harm]
  simp only [hopen, if_neg hk]

theorem read_parameter (hh : arg ∉ helpNames) (harm : tables.arm? arg = some arm)
    (hopen : processed[arm.index]? = some false) (hk : arm.kind ≠ .flag) (parameter : String)
    (rest : List String) :
    tables.read processed record (arg :: parameter :: rest) =
      if parameter ∈ tables.knownOptions then some (.error (.missingParameter arg))
      else tables.read (processed.set arm.index true)
        (record.set arm.field (arm.kind.hold parameter)) rest := by
  rw [read_cons, if_neg hh, harm]
  simp only [hopen, if_neg hk]

theorem missingOption_of_read_nil {error : ArgError}
    (h : tables.read processed record [] = some (.error error)) :
    ∃ short, error = .missingOption short := by
  rw [read_nil] at h
  obtain ⟨unmet, -, h⟩ := Option.map_eq_some_iff.1 h
  cases unmet with
  | none => cases h
  | some short =>
    cases h
    exact ⟨short, rfl⟩

/-- Only what no arm matches is told to be no option. -/
theorem arm?_of_notAnOption {args : List String}
    (h : tables.read processed record args = some (.error (.notAnOption arg))) :
    arg ∉ helpNames ∧ tables.arm? arg = none := by
  fun_induction tables.read processed record args with
  | case1 processed record =>
    obtain ⟨short, hshort⟩ := missingOption_of_read_nil h
    cases hshort
  | case3 processed record other rest hh harm =>
    cases h
    exact ⟨hh, harm⟩
  | case6 processed record other rest hh arm harm hopen hk ih => exact ih h
  | case9 processed record other hh arm harm hopen hk parameter rest hp ih => exact ih h
  | _ => cases h

/-- A name whose field has been filled is never again told to lack its parameter. -/
theorem read_ne_missingParameter (harm : tables.arm? arg = some arm)
    (hdone : processed[arm.index]? = some true) (args : List String) :
    tables.read processed record args ≠ some (.error (.missingParameter arg)) := by
  have hstays {processed : List Bool} {i j : Nat} (h : processed[i]? = some true) :
      (processed.set j true)[i]? = some true := by
    obtain ⟨hi, -⟩ := List.getElem?_eq_some_iff.1 h
    grind
  have hother {processed : List Bool} {other : String} {arm' : Arm}
      (hdone : processed[arm.index]? = some true) (harm' : tables.arm? other = some arm')
      (hopen : processed[arm'.index]? = some false) : other ≠ arg := by
    rintro rfl
    obtain rfl := Option.some.inj (harm.symm.trans harm')
    rw [hdone] at hopen
    cases hopen
  intro h
  fun_induction tables.read processed record args with
  | case1 processed record =>
    obtain ⟨short, hshort⟩ := missingOption_of_read_nil h
    cases hshort
  | case6 processed record other rest hh arm' harm' hopen hk ih => exact ih (hstays hdone) h
  | case7 processed record other hh arm' harm' hopen hk =>
    cases h
    exact hother hdone harm' hopen rfl
  | case8 processed record other hh arm' harm' hopen hk parameter rest hp =>
    cases h
    exact hother hdone harm' hopen rfl
  | case9 processed record other hh arm' harm' hopen hk parameter rest hp ih =>
    exact ih (hstays hdone) h
  | _ => cases h

/-- An argument in the place of an option is told to be none just when no arm matches it. -/
theorem read_eq_notAnOption_iff (rest : List String) :
    tables.read processed record (arg :: rest) = some (.error (.notAnOption arg)) ↔
      arg ∉ helpNames ∧ tables.arm? arg = none :=
  ⟨arm?_of_notAnOption, fun h => read_unknown h.1 h.2 rest⟩

/-- A parameter is refused just when it is among the known options. -/
theorem read_eq_missingParameter_iff (hh : arg ∉ helpNames) (harm : tables.arm? arg = some arm)
    (hopen : processed[arm.index]? = some false) (hk : arm.kind ≠ .flag) (parameter : String)
    (rest : List String) :
    tables.read processed record (arg :: parameter :: rest) =
      some (.error (.missingParameter arg)) ↔ parameter ∈ tables.knownOptions := by
  obtain ⟨hi, -⟩ := List.getElem?_eq_some_iff.1 hopen
  rw [read_parameter hh harm hopen hk]
  split
  · next hp => exact iff_of_true rfl hp
  · next hp =>
    exact iff_of_false (read_ne_missingParameter harm (List.getElem?_set_self hi) rest) hp

/-- Reads a command line over what the fields hold beforehand. -/
def parse (tables : Tables) (defaults : Record) (args : List String) :
    Option (Except ArgError Request) :=
  tables.read (List.replicate tables.arms.length false) defaults args

end Tables

namespace Schema
variable {schema : Schema}

/-- The fields that have been filled, by their places. -/
def processed (schema : Schema) (given : List String) : List Bool :=
  schema.fields.map fun field => given.contains field.name

theorem getElem?_processed (given : List String) {index : Nat} {field : Field}
    (h : schema.fields[index]? = some field) :
    (schema.processed given)[index]? = some (given.contains field.name) := by
  rw [processed, List.getElem?_map, h, Option.map_some]

/-- No two fields share a name, so filling one leaves the places of the others as they are. -/
theorem processed_set {index : Nat} {field : Field} (h : schema.fields[index]? = some field)
    (given : List String) :
    (schema.processed given).set index true = schema.processed (field.name :: given) := by
  obtain ⟨hlt, rfl⟩ := List.getElem?_eq_some_iff.1 h
  have hordered := List.pairwise_iff_getElem.1 schema.sorted
  refine List.ext_getElem (by simp [processed]) fun i hi hi' => ?_
  have hi : i < schema.fields.length := by simpa [processed] using hi'
  rw [List.getElem_set]
  split
  · next heq =>
    subst heq
    simp [processed]
  · next hne =>
    have hname : schema.fields[i].name ≠ schema.fields[index].name := by
      rcases Nat.lt_or_gt_of_ne hne with hlt' | hlt'
      · exact (Std.ne_of_lt (hordered index i hlt hi hlt')).symm
      · exact Std.ne_of_lt (hordered i index hi hlt hlt')
    simp [processed, hname]

theorem arms_tables (schema : Schema) : schema.tables.arms = schema.arms := by rw [tables_eq]

theorem length_arms (schema : Schema) : schema.arms.length = schema.fields.length :=
  List.length_mapIdx

theorem arm?_of_none {arg : String} (h : schema.field? arg = none) :
    schema.tables.arm? arg = none := by
  rw [Tables.arm?, arms_tables]
  refine List.find?_eq_none.2 fun arm hm => ?_
  obtain ⟨i, hi, rfl⟩ := List.mem_mapIdx.1 hm
  exact List.find?_eq_none.1 h _ (List.getElem_mem hi)

/-- A name matches the arm of the first field, in name order, that it reaches. -/
theorem arm?_of_some {arg : String} {field : Field} (h : schema.field? arg = some field) :
    ∃ index, schema.fields[index]? = some field ∧
      schema.tables.arm? arg = some (field.arm index) := by
  obtain ⟨hanswers, i, hi, rfl, hfirst⟩ := List.find?_eq_some_iff_getElem.1 h
  have hlength := schema.length_arms
  have harm (j : Nat) (hj : j < schema.fields.length) (hj' : j < schema.arms.length) :
      schema.arms[j] = schema.fields[j].arm j := List.getElem_mapIdx
  rw [Tables.arm?, arms_tables]
  refine ⟨i, List.getElem?_eq_getElem hi, List.find?_eq_some_iff_getElem.2
    ⟨hanswers, i, hlength ▸ hi, harm i hi _, fun j hj => ?_⟩⟩
  have hj' : j < schema.fields.length := Nat.lt_trans hj hi
  rw [harm j hj']
  exact hfirst j hj

theorem unmet?_suffix {before behind : List Field} (h : schema.fields = before ++ behind)
    (given : List String) :
    schema.tables.unmet? (schema.processed given) (List.range' before.length behind.length) =
      some ((behind.find? fun field => field.required && !given.contains field.name).map
        Field.short) := by
  induction behind generalizing before with
  | nil => rfl
  | cons field rest ih =>
    have hfield : schema.fields[before.length]? = some field := by simp [h]
    have hrequired : schema.tables.required[before.length]? = some field.required := by
      rw [tables_eq, requirements, List.getElem?_map, hfield, Option.map_some]
    have hname : schema.tables.optionNames[before.length]? = some field.short := by
      rw [tables_eq, shortNames, List.getElem?_map, hfield, Option.map_some]
    have hrest := @ih (before ++ [field]) (by simp [h])
    rw [List.length_append, List.length_singleton] at hrest
    rw [List.length_cons, List.range'_succ, Tables.unmet?, hrequired,
      getElem?_processed given hfield, hname, hrest, List.find?_cons]
    simp only [Option.bind_eq_bind, Option.bind_some]
    cases field.required && !given.contains field.name <;> rfl

theorem unmet?_tables (schema : Schema) (given : List String) :
    schema.tables.unmet? (schema.processed given) (List.range schema.tables.arms.length) =
      some ((schema.missing? given).map Field.short) := by
  rw [arms_tables, length_arms, List.range_eq_range']
  exact @unmet?_suffix schema [] schema.fields rfl given

/-- Reading with the tables never leaves them, and does what reading by names does. -/
theorem read_tables (schema : Schema) (given : List String) (record : Record)
    (args : List String) :
    schema.tables.read (schema.processed given) record args =
      some (schema.read given record args) := by
  have hknown : schema.tables.knownOptions = schema.knownNames := by rw [tables_eq]
  have hopen {given : List String} {index : Nat} {field : Field}
      (hi : schema.fields[index]? = some field) (hg : field.name ∉ given) :
      (schema.processed given)[(field.arm index).index]? = some false := by
    rw [show (field.arm index).index = index from rfl, getElem?_processed given hi]
    simpa using hg
  have hkind {field : Field} (h : field.takesParameter) : field.kind ≠ .flag := by
    simpa [Field.takesParameter] using h
  fun_induction schema.read given record args with
  | case1 given record field h | case2 given record h =>
    rw [Tables.read_nil, unmet?_tables, h]
    rfl
  | case3 given record arg rest hh => exact Tables.read_help hh rest
  | case4 given record arg rest hh hf => exact Tables.read_unknown hh (arm?_of_none hf) rest
  | case5 given record arg rest hh field hf hg =>
    obtain ⟨index, hi, harm⟩ := arm?_of_some hf
    refine Tables.read_repeated hh harm ?_ rest
    rw [show (field.arm index).index = index from rfl, getElem?_processed given hi]
    simpa using hg
  | case6 given record arg hh field hf hg hk =>
    obtain ⟨index, hi, harm⟩ := arm?_of_some hf
    exact Tables.read_noParameter hh harm (hopen hi hg) (hkind hk)
  | case7 given record arg hh field hf hg hk parameter rest hp =>
    obtain ⟨index, hi, harm⟩ := arm?_of_some hf
    rw [Tables.read_parameter hh harm (hopen hi hg) (hkind hk), hknown, if_pos hp]
  | case8 given record arg hh field hf hg hk parameter rest hp ih =>
    obtain ⟨index, hi, harm⟩ := arm?_of_some hf
    rw [Tables.read_parameter hh harm (hopen hi hg) (hkind hk), hknown, if_neg hp, ← ih,
      ← processed_set hi]
    rfl
  | case9 given record arg rest hh field hf hg hk ih =>
    obtain ⟨index, hi, harm⟩ := arm?_of_some hf
    have hflag : field.kind = .flag := by simpa [Field.takesParameter] using hk
    rw [Tables.read_flag hh harm (hopen hi hg) hflag, ← ih, ← processed_set hi]
    rfl

theorem parse_tables (schema : Schema) (defaults : Record) (args : List String) :
    schema.tables.parse defaults args = some (schema.parse defaults args) := by
  have hstart : List.replicate schema.tables.arms.length false = schema.processed [] := by
    rw [arms_tables, length_arms, ← List.map_const']
    rfl
  rw [Tables.parse, hstart]
  exact schema.read_tables [] defaults args

/-- The known options are exactly the names that help or an arm matches. -/
theorem not_mem_knownOptions_iff {arg : String} :
    arg ∉ schema.tables.knownOptions ↔ arg ∉ helpNames ∧ schema.tables.arm? arg = none := by
  have hknown : schema.tables.knownOptions = schema.knownNames := by rw [tables_eq]
  have harm : schema.tables.arm? arg = none ↔ schema.field? arg = none := by
    cases hf : schema.field? arg with
    | none => exact iff_of_true (arm?_of_none hf) rfl
    | some field =>
      obtain ⟨index, -, harm⟩ := arm?_of_some hf
      exact iff_of_false (by rw [harm]; nofun) nofun
  rw [hknown, mem_knownNames_iff, not_or, Option.not_isSome_iff_eq_none, harm]

end Schema

end LoxFrontEnd.Options
