import LoxFrontEnd.Options.Declaration
import LoxFrontEnd.Proofs.Options.Tables

/-! # Expanding a declaration

Fields are read one after another in the order of their declaration, up to the first that is at
fault, and each is put in its place by name; then the tables are filled. They are those of the
declared schema (`Declaration.expand_standard`). Of fields with distinct names the order of
declaration makes no difference (`Declaration.expand_perm`), whatever reads their attributes, and
the tables agree with each other (`expand_tables`). -/

namespace LoxFrontEnd.Options
set_option autoImplicit false

/-! ## Declarations -/

/-- What reads the attributes of a type and those of a field. -/
structure Extraction where
  description : Option AttributeValue → Except DeclarationError String
  attributes : List (AttributeKey × AttributeValue) → Except DeclarationError Attributes

def Extraction.standard : Extraction where
  description
    | none => .ok ""
    | some value => value.expectText
  attributes := fun attributes => attributes.foldlM Attributes.add .none

variable (extraction : Extraction)

def FieldDeclaration.fieldBy (declaration : FieldDeclaration) : Except DeclarationError Field := do
  let some kind := FieldKind.ofType? declaration.type | .error .fieldType
  let attributes ← extraction.attributes declaration.attributes
  let some short := attributes.short? | .error .missingShort
  return ⟨declaration.name, kind, short, unlessEmpty attributes.long,
    unlessEmpty attributes.description, attributes.required⟩

/-- Reads fields one after another and puts each in its place. -/
def collectOnto (fields : List Field) :
    List FieldDeclaration → Except DeclarationError (List Field)
  | [] => .ok fields
  | declared :: rest => do
    let field ← declared.fieldBy extraction
    collectOnto (insert field fields) rest

def Declaration.collect (declaration : Declaration) : Except DeclarationError (List Field) :=
  match declaration.shape, declaration.fields with
  | .enumeration, _ | .union, _ => .error .notAStruct
  | .tuple, _ :: _ => .error .unnamedField
  | .tuple, [] | .unit, _ => .ok []
  | .named, fields => collectOnto extraction [] fields

def Declaration.expand (declaration : Declaration) : Except DeclarationError Tables := do
  let description ← extraction.description declaration.description?
  let fields ← declaration.collect extraction
  return tablesOf description fields

/-- The declared fields, where a type has named ones. -/
def Declaration.members (declaration : Declaration) : List FieldDeclaration :=
  match declaration.shape with
  | .named => declaration.fields
  | _ => []

/-! ## Collecting fields -/

variable {extraction}

theorem exists_ok_of_bind {α β : Type} {result : Except DeclarationError α}
    {next : α → Except DeclarationError β} {b : β} (h : result >>= next = .ok b) :
    ∃ a, result = .ok a ∧ next a = .ok b := by
  cases result with
  | error e => cases h
  | ok a => exact ⟨a, rfl, h⟩

theorem FieldDeclaration.name_of_fieldBy {declaration : FieldDeclaration} {field : Field}
    (h : declaration.fieldBy extraction = .ok field) : field.name = declaration.name := by
  unfold fieldBy at h
  split at h
  · obtain ⟨attributes, -, h⟩ := exists_ok_of_bind h
    split at h
    · obtain rfl := Except.ok.inj h
      rfl
    · cases h
  · cases h

theorem collectOnto_eq (fields : List Field) (declared : List FieldDeclaration) :
    collectOnto extraction fields declared =
      (declared.mapM (FieldDeclaration.fieldBy extraction)).map fun read =>
        read.foldl (fun fields field => insert field fields) fields := by
  induction declared generalizing fields with
  | nil => rfl
  | cons first rest ih =>
    rw [collectOnto, List.mapM_cons]
    cases first.fieldBy extraction with
    | error e => rfl
    | ok field =>
      show collectOnto extraction (insert field fields) rest = _
      rw [ih]
      cases rest.mapM (FieldDeclaration.fieldBy extraction) <;> rfl

theorem Declaration.expand_standard (declaration : Declaration) :
    declaration.expand .standard = declaration.schema.map Schema.tables := by
  have hfield : FieldDeclaration.fieldBy .standard = FieldDeclaration.field := rfl
  obtain ⟨shape, description?, fields⟩ := declaration
  have hcollect (description : String) :
      (do
        let fields ← (Declaration.mk shape description? fields).collect .standard
        return tablesOf description fields) =
      (match shape, fields with
        | .enumeration, _ | .union, _ => .error .notAStruct
        | .tuple, _ :: _ => .error .unnamedField
        | .tuple, [] | .unit, _ => return .ofFields description []
        | .named, fields => return .ofFields description (← fields.mapM FieldDeclaration.field) :
          Except DeclarationError Schema).map Schema.tables := by
    cases shape with
    | named =>
      show (collectOnto .standard [] fields >>= _) =
        Except.map _ (fields.mapM FieldDeclaration.field >>= _)
      rw [collectOnto_eq, hfield]
      cases fields.mapM FieldDeclaration.field <;> rfl
    | tuple => cases fields <;> rfl
    | _ => rfl
  unfold expand schema
  cases description? with
  | none => exact hcollect ""
  | some value =>
    show (value.expectText >>= _) = Except.map _ (value.expectText >>= _)
    cases value.expectText with
    | error e => rfl
    | ok description => exact hcollect description

/-! ## The order of declaration -/

/-- Fields with distinct names may be declared in any order. Another order may change which of them
is the first at fault, but not whether one is. -/
theorem collectOnto_perm {declared declared' : List FieldDeclaration}
    (hp : declared.Perm declared') (hd : (declared.map FieldDeclaration.name).Nodup)
    (fields : List Field) :
    (collectOnto extraction fields declared).toOption =
      (collectOnto extraction fields declared').toOption := by
  induction hp generalizing fields with
  | nil => rfl
  | @cons first rest rest' _ ih =>
    rw [collectOnto, collectOnto]
    cases first.fieldBy extraction with
    | error e => rfl
    | ok field => exact ih (List.nodup_cons.1 hd).2 (insert field fields)
  | swap a b rest =>
    simp only [collectOnto]
    cases ha : a.fieldBy extraction with
    | error e => cases b.fieldBy extraction <;> rfl
    | ok first =>
      cases hb : b.fieldBy extraction with
      | error e => rfl
      | ok second =>
        have hne : first.name ≠ second.name := by
          rw [FieldDeclaration.name_of_fieldBy ha, FieldDeclaration.name_of_fieldBy hb]
          intro he
          exact (List.nodup_cons.1 hd).1 (he ▸ List.mem_cons_self)
        show (collectOnto extraction (insert first (insert second fields)) rest).toOption = _
        rw [insert_comm hne]
        rfl
  | trans hp _ ih ih' => rw [ih hd, ih' ((hp.map FieldDeclaration.name).nodup_iff.1 hd)]

theorem Declaration.collect_perm {declaration : Declaration} {fields : List FieldDeclaration}
    (hp : declaration.fields.Perm fields)
    (hd : (declaration.fields.map FieldDeclaration.name).Nodup) :
    (declaration.collect extraction).toOption =
      ({ declaration with fields := fields }.collect extraction).toOption := by
  obtain ⟨shape, description?, declared⟩ := declaration
  cases shape with
  | named => exact collectOnto_perm hp hd []
  | tuple =>
    cases declared with
    | nil => rw [hp.nil_eq]
    | cons first rest =>
      cases fields with
      | nil => exact absurd hp.length_eq (by simp)
      | cons => rfl
  | _ => rfl

theorem Declaration.toOption_expand (declaration : Declaration) :
    (declaration.expand extraction).toOption =
      (extraction.description declaration.description?).toOption.bind fun description =>
        (declaration.collect extraction).toOption.map (tablesOf description) := by
  rw [expand]
  cases extraction.description declaration.description? with
  | error e => rfl
  | ok description => cases declaration.collect extraction <;> rfl

theorem Declaration.expand_perm {declaration : Declaration} {fields : List FieldDeclaration}
    (hp : declaration.fields.Perm fields)
    (hd : (declaration.fields.map FieldDeclaration.name).Nodup) :
    (declaration.expand extraction).toOption =
      ({ declaration with fields := fields }.expand extraction).toOption := by
  rw [toOption_expand, toOption_expand, collect_perm hp hd]

/-! ## Name order -/

theorem insert_perm {field : Field} {fields : List Field}
    (h : field.name ∉ fields.map Field.name) : (insert field fields).Perm (field :: fields) := by
  induction fields with
  | nil => exact .refl _
  | cons first rest ih =>
    obtain ⟨hfirst, hrest⟩ := List.ne_and_not_mem_of_not_mem_cons h
    rw [insert, if_neg hfirst]
    split
    · exact .refl _
    · exact ((ih hrest).cons first).trans (.swap ..)

theorem foldl_insert_perm {fields read : List Field}
    (hd : ((read ++ fields).map Field.name).Nodup) :
    (read.foldl (fun fields field => insert field fields) fields).Perm (read ++ fields) := by
  induction read generalizing fields with
  | nil => exact .refl _
  | cons field rest ih =>
    have hname : field.name ∉ fields.map Field.name := fun hm =>
      (List.nodup_cons.1 hd).1 (List.map_append ▸ List.mem_append_right _ hm)
    have hmoved : (rest ++ insert field fields).Perm (field :: rest ++ fields) :=
      ((insert_perm hname).append_left rest).trans List.perm_middle
    exact (ih ((hmoved.map Field.name).nodup_iff.2 hd)).trans hmoved

theorem names_of_mapM {declared : List FieldDeclaration} {read : List Field}
    (h : declared.mapM (FieldDeclaration.fieldBy extraction) = .ok read) :
    read.map Field.name = declared.map FieldDeclaration.name := by
  induction declared generalizing read with
  | nil =>
    cases h
    rfl
  | cons first rest ih =>
    rw [List.mapM_cons] at h
    obtain ⟨field, hfirst, h⟩ := exists_ok_of_bind h
    obtain ⟨fields, hrest, h⟩ := exists_ok_of_bind h
    obtain rfl := Except.ok.inj h
    rw [List.map_cons, List.map_cons, FieldDeclaration.name_of_fieldBy hfirst, ih hrest]

theorem Declaration.collect_members {declaration : Declaration} {fields : List Field}
    (h : declaration.collect extraction = .ok fields) :
    collectOnto extraction [] declaration.members = .ok fields := by
  obtain ⟨shape, description?, declared⟩ := declaration
  cases shape with
  | named | unit => exact h
  | tuple =>
    cases declared with
    | nil => exact h
    | cons => cases h
  | enumeration | union => cases h

theorem Declaration.names_members (declaration : Declaration)
    (hd : (declaration.fields.map FieldDeclaration.name).Nodup) :
    (declaration.members.map FieldDeclaration.name).Nodup := by
  unfold members
  split
  · exact hd
  · exact List.nodup_nil

/-- Tables are those of a schema, whose fields are the declared ones in name order. -/
theorem Declaration.exists_schema_of_expand {declaration : Declaration} {tables : Tables}
    (hd : (declaration.fields.map FieldDeclaration.name).Nodup)
    (h : declaration.expand extraction = .ok tables) :
    ∃ (schema : Schema) (read : List Field), tables = schema.tables ∧
      declaration.members.mapM (FieldDeclaration.fieldBy extraction) = .ok read ∧
      schema.fields.Perm read := by
  obtain ⟨description, -, h⟩ := exists_ok_of_bind h
  obtain ⟨fields, hcollect, h⟩ := exists_ok_of_bind h
  obtain rfl := Except.ok.inj h
  have hmembers := collect_members hcollect
  rw [collectOnto_eq] at hmembers
  cases hread : declaration.members.mapM (FieldDeclaration.fieldBy extraction) with
  | error e =>
    rw [hread] at hmembers
    cases hmembers
  | ok read =>
    rw [hread] at hmembers
    obtain rfl := Except.ok.inj hmembers
    have hnames := declaration.names_members hd
    rw [← names_of_mapM hread, ← List.append_nil read] at hnames
    have hperm := foldl_insert_perm hnames
    rw [List.append_nil] at hperm
    exact ⟨.ofFields description read, read, rfl, rfl, hperm⟩

/-! ## The tables -/

/-- The tables of a declaration do not depend on the order of its fields, nor does it whether there
are any. What the tables hold at one place comes from one field, the places being in name order.
What may not be a parameter is what is recognized as an option. -/
theorem expand_tables (extraction : Extraction) (declaration : Declaration)
    (hd : (declaration.fields.map FieldDeclaration.name).Nodup) :
    (∀ fields, declaration.fields.Perm fields →
      (declaration.expand extraction).toOption =
        ({ declaration with fields := fields }.expand extraction).toOption) ∧
    ∀ tables, declaration.expand extraction = .ok tables →
      (∃ read fields : List Field,
        declaration.members.mapM (FieldDeclaration.fieldBy extraction) = .ok read ∧
        fields.Perm read ∧ Sorted fields ∧ tables.arms.length = fields.length ∧
        tables.optionNames.length = fields.length ∧ tables.required.length = fields.length ∧
        ∀ index field, fields[index]? = some field → tables.Aligned fields index field) ∧
      (∀ defaults args, ∃ result, tables.parse defaults args = some result) ∧
      (∀ arg processed record rest, arg ∈ tables.knownOptions ↔
        tables.read processed record (arg :: rest) ≠ some (.error (.notAnOption arg))) ∧
      ∀ option arm processed record, option ∉ helpNames → tables.arm? option = some arm →
        processed[arm.index]? = some false → arm.kind ≠ .flag →
        ∀ arg rest, arg ∈ tables.knownOptions ↔
          tables.read processed record (option :: arg :: rest) =
            some (.error (.missingParameter option)) := by
  refine ⟨fun fields hp => Declaration.expand_perm hp hd, fun tables h => ?_⟩
  obtain ⟨schema, read, rfl, hread, hperm⟩ := Declaration.exists_schema_of_expand hd h
  refine ⟨⟨read, schema.fields, hread, hperm, schema.sorted, ?_, ?_, ?_,
    fun index field hi => schema.aligned_tables hi⟩,
    fun defaults args => ⟨_, schema.parse_tables defaults args⟩, fun arg processed record rest => ?_,
    fun option arm processed record hh harm hopen hk arg rest =>
      (Tables.read_eq_missingParameter_iff hh harm hopen hk arg rest).symm⟩
  · rw [Schema.arms_tables, Schema.length_arms]
  · rw [Schema.tables_eq, Schema.shortNames, List.length_map]
  · rw [Schema.tables_eq, Schema.requirements, List.length_map]
  · rw [ne_eq, Tables.read_eq_notAnOption_iff, ← Schema.not_mem_knownOptions_iff,
      Decidable.not_not]

theorem expand_tables_reversed :
    let declaration : Declaration := ⟨.named, none,
      [⟨"tokens", "bool", [(.short, .text "-t")]⟩,
        ⟨"file", "String", [(.short, .text ""), (.long, .text "--file")]⟩]⟩
    (declaration.fields.map FieldDeclaration.name).Nodup ∧
    (declaration.expand .standard).toOption.map Tables.knownOptions =
      some ["-h", "--help", "", "--file", "-t"] ∧
    (declaration.expand .standard).toOption =
      ({ declaration with fields := declaration.fields.reverse }.expand .standard).toOption := by
  intro declaration
  have hd : (declaration.fields.map FieldDeclaration.name).Nodup := by decide
  have hknown : (declaration.expand .standard).toOption.map Tables.knownOptions =
      some ["-h", "--help", "", "--file", "-t"] := by decide +kernel
  have hperm : declaration.fields.Perm declaration.fields.reverse := (List.reverse_perm _).symm
  exact ⟨hd, hknown, (expand_tables .standard declaration hd).1 _ hperm⟩

end LoxFrontEnd.Options
