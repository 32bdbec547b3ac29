import LoxFrontEnd.Proofs.Options.Groups

/-! # Well-formed command lines

Every list of arguments is groups of distinct fields and a rest where reading ends
(`Schema.splits`), so the groups and the rest decide what comes of a command line
(`parse_commandLine`). The order of the groups does not matter (`parse_perm`). -/

namespace LoxFrontEnd.Options
set_option autoImplicit false

namespace Schema
variable {schema : Schema} {given : List String}

/-! ## Splitting into groups -/

/-- The places where reading ends. -/
inductive Ends (schema : Schema) (given : List String) : List String → Prop
  | complete : Complete schema given → Ends schema given []
  | help {name : String} {rest : List String} : name ∈ helpNames → Ends schema given (name :: rest)
  | offence {rest : List String} {error : ArgError} :
      Offends schema given rest error → Ends schema given rest

/-- Arguments are groups of distinct fields that have not been filled yet, and then an end. -/
def Splits (schema : Schema) (given args : List String) : Prop :=
  ∃ (groups : List (Group schema)) (rest : List String), args = arguments groups ++ rest ∧
    (fieldNames groups).Nodup ∧ (∀ group ∈ groups, group.fieldName ∉ given) ∧
    Ends schema ((fieldNames groups).reverse ++ given) rest

theorem Splits.of_ends {args : List String} (h : Ends schema given args) :
    Splits schema given args :=
  ⟨[], args, rfl, List.nodup_nil, by simp, h⟩

theorem Splits.cons (group : Group schema) {rest : List String}
    (hg : group.fieldName ∉ given) (h : Splits schema (group.fieldName :: given) rest) :
    Splits schema given (group.args ++ rest) := by
  obtain ⟨groups, tail, rfl, hd, hfresh, hends⟩ := h
  have hgroup : group.fieldName ∉ fieldNames groups := by
    intro hm
    obtain ⟨other, hm, he⟩ := List.mem_map.1 hm
    exact hfresh other hm (he ▸ List.mem_cons_self)
  refine ⟨group :: groups, tail, by simp [arguments], List.nodup_cons.2 ⟨hgroup, hd⟩, ?_, ?_⟩
  · intro other hm
    rcases List.mem_cons.1 hm with rfl | hm
    · exact hg
    · exact fun hc => hfresh other hm (List.mem_cons_of_mem _ hc)
  · simpa [fieldNames] using hends

theorem splits (schema : Schema) (given args : List String) : Splits schema given args := by
  induction hn : args.length using Nat.strongRecOn generalizing given args with
  | ind n ih =>
    match args with
    | [] =>
      cases hm : schema.missing? given with
      | none => exact .of_ends (.complete (missing?_eq_none_iff.1 hm))
      | some field =>
        obtain ⟨hr, hg, before, behind, hf, hb⟩ := missing?_eq_some_iff.1 hm
        exact .of_ends (.offence (.missing hf hr hg hb))
    | arg :: rest =>
      by_cases hh : arg ∈ helpNames
      · exact .of_ends (.help hh)
      cases hf : schema.field? arg with
      | none => exact .of_ends (.offence (.unknown (not_known_iff.2 ⟨hh, hf⟩)))
      | some field =>
        have hr : schema.Reaches arg field := reaches_iff.2 ⟨hh, hf⟩
        by_cases hg : field.name ∈ given
        · exact .of_ends (.offence (.repeated hr hg))
        by_cases hk : field.kind = .flag
        · have hrest := ih rest.length (by simp at hn; omega) (field.name :: given) rest rfl
          exact .cons (.flag arg field hr hk) hg hrest
        match rest with
        | [] => exact .of_ends (.offence (.noParameter hr hg hk))
        | text :: rest =>
          by_cases ht : schema.Known text
          · exact .of_ends (.offence (.namedParameter hr hg hk ht))
          · have hrest := ih rest.length (by simp at hn; omega) (field.name :: given) rest rfl
            exact .cons (.parameter arg field text hr hk ht) hg hrest

end Schema

/-! ## What comes of a command line -/

section
open Schema
variable {schema : Schema} {groups groups' : List (Group schema)}

theorem parse_arguments (defaults : Record) (hd : (fieldNames groups).Nodup)
    (rest : List String) :
    schema.parse defaults (arguments groups ++ rest) =
      schema.read (fieldNames groups).reverse (fill defaults groups) rest := by
  rw [parse, read_groups hd (by simp), List.append_nil]

theorem parse_of_complete (defaults : Record) (hd : (fieldNames groups).Nodup)
    (hc : Complete schema (fieldNames groups)) :
    schema.parse defaults (arguments groups) = .ok (.record (fill defaults groups)) := by
  have h := parse_arguments defaults hd []
  rw [List.append_nil] at h
  rw [h]
  exact read_complete fun field hm hr => List.mem_reverse.2 (hc field hm hr)

theorem parse_of_help (defaults : Record) (hd : (fieldNames groups).Nodup) {name : String}
    (hh : name ∈ helpNames) (rest : List String) :
    schema.parse defaults (arguments groups ++ name :: rest) = .ok .help := by
  rw [parse_arguments defaults hd, read_help hh]

theorem parse_of_offends (defaults : Record) (hd : (fieldNames groups).Nodup)
    {rest : List String} {error : ArgError} (ho : Offends schema (fieldNames groups) rest error) :
    schema.parse defaults (arguments groups ++ rest) = .error error := by
  rw [parse_arguments defaults hd, read_offends (ho.congr fun _ => List.mem_reverse.symm)]

/-- The three things that can come of a command line. -/
inductive Outcome (schema : Schema) (defaults : Record) :
    List String → Except ArgError Request → Prop
  | record {groups : List (Group schema)} :
      (fieldNames groups).Nodup → Complete schema (fieldNames groups) →
      Outcome schema defaults (arguments groups) (.ok (.record (fill defaults groups)))
  | help {groups : List (Group schema)} {name : String} {rest : List String} :
      (fieldNames groups).Nodup → name ∈ helpNames →
      Outcome schema defaults (arguments groups ++ name :: rest) (.ok .help)
  | error {groups : List (Group schema)} {rest : List String} {error : ArgError} :
      (fieldNames groups).Nodup → Offends schema (fieldNames groups) rest error →
      Outcome schema defaults (arguments groups ++ rest) (.error error)

theorem outcome_parse (schema : Schema) (defaults : Record) (args : List String) :
    Outcome schema defaults args (schema.parse defaults args) := by
  obtain ⟨groups, rest, rfl, hd, -, hends⟩ := splits schema [] args
  rw [List.append_nil] at hends
  cases hends with
  | complete hc =>
    have hc : Complete schema (fieldNames groups) :=
      fun field hm hr => List.mem_reverse.1 (hc field hm hr)
    rw [List.append_nil, parse_of_complete defaults hd hc]
    exact .record hd hc
  | help hh =>
    rw [parse_of_help defaults hd hh]
    exact .help hd hh
  | offence ho =>
    have ho := ho.congr fun _ => List.mem_reverse
    rw [parse_of_offends defaults hd ho]
    exact .error hd ho

/-! ## The order of groups -/

theorem fill_perm (defaults : Record) (hp : groups.Perm groups') (hd : (fieldNames groups).Nodup) :
    fill defaults groups = fill defaults groups' := by
  induction hp generalizing defaults with
  | nil => rfl
  | @cons group groups groups' hp ih =>
    obtain ⟨hfresh, hd⟩ := List.nodup_cons.1 hd
    have hfresh' : group.fieldName ∉ fieldNames groups' :=
      mt (hp.map Group.fieldName).mem_iff.2 hfresh
    rw [fill_cons group hfresh, fill_cons group hfresh', ih _ hd]
  | swap a b groups =>
    obtain ⟨hb, hd⟩ := List.nodup_cons.1 hd
    obtain ⟨ha, -⟩ := List.nodup_cons.1 hd
    have hne : b.fieldName ≠ a.fieldName := fun he => hb (he ▸ List.mem_cons_self)
    have hb' : b.fieldName ∉ fieldNames groups := fun hm => hb (List.mem_cons_of_mem _ hm)
    have ha' : a.fieldName ∉ fieldNames (b :: groups) := by
      intro hm
      rcases List.mem_cons.1 hm with he | hm
      · exact hne he.symm
      · exact ha hm
    rw [fill_cons b hb, fill_cons a ha, fill_cons a ha', fill_cons b hb', Record.set_comm hne]
  | trans hp _ ih ih' => rw [ih _ hd, ih' _ ((hp.map Group.fieldName).nodup_iff.1 hd)]

theorem parse_perm (defaults : Record) (hp : groups.Perm groups')
    (hd : (fieldNames groups).Nodup) :
    schema.parse defaults (arguments groups) = schema.parse defaults (arguments groups') := by
  have hnames := hp.map Group.fieldName
  have hd' : (fieldNames groups').Nodup := hnames.nodup_iff.1 hd
  have hmissing : schema.missing? (fieldNames groups) = schema.missing? (fieldNames groups') := by
    have hcontains (name : String) :
        (fieldNames groups).contains name = (fieldNames groups').contains name := by
      rw [Bool.eq_iff_iff, List.contains_iff_mem, List.contains_iff_mem]
      exact hnames.mem_iff
    simp only [missing?, hcontains]
  cases hm : schema.missing? (fieldNames groups) with
  | none =>
    have hc := missing?_eq_none_iff.1 hm
    have hc' := missing?_eq_none_iff.1 (hmissing ▸ hm)
    rw [parse_of_complete defaults hd hc, parse_of_complete defaults hd' hc',
      fill_perm defaults hp hd]
  | some field =>
    have hoffends {given : List String} (h : schema.missing? given = some field) :
        Offends schema given [] (.missingOption field.short) := by
      obtain ⟨hr, hg, before, behind, hf, hb⟩ := missing?_eq_some_iff.1 h
      exact .missing hf hr hg hb
    have h := parse_of_offends defaults hd (hoffends hm)
    have h' := parse_of_offends defaults hd' (hoffends (hmissing ▸ hm))
    rw [List.append_nil] at h h'
    rw [h, h']

end

/-- A command line is read as a record exactly when it is groups of distinct fields, among them
every required one; the record is the defaults with these fields filled, in whatever order the
groups stand. It asks for help exactly when a help name follows groups of distinct fields. In every
other case the first offence behind such groups is its error. -/
theorem parse_commandLine (schema : Schema) (defaults : Record) (args : List String) :
    (∀ record, schema.parse defaults args = .ok (.record record) ↔
      ∃ groups : List (Group schema), args = arguments groups ∧ (fieldNames groups).Nodup ∧
        Complete schema (fieldNames groups) ∧ record = fill defaults groups) ∧
    (schema.parse defaults args = .ok .help ↔
      ∃ (groups : List (Group schema)) (name : String) (rest : List String),
        args = arguments groups ++ name :: rest ∧ (fieldNames groups).Nodup ∧
        name ∈ helpNames) ∧
    (∀ error, schema.parse defaults args = .error error ↔
      ∃ (groups : List (Group schema)) (rest : List String),
        args = arguments groups ++ rest ∧ (fieldNames groups).Nodup ∧
        Offends schema (fieldNames groups) rest error) ∧
    ∀ groups groups' : List (Group schema), args = arguments groups →
      (fieldNames groups).Nodup → groups.Perm groups' →
      schema.parse defaults (arguments groups') = schema.parse defaults args := by
  have hout := outcome_parse schema defaults args
  refine ⟨fun record => ⟨fun h => ?_, ?_⟩, ⟨fun h => ?_, ?_⟩, fun error => ⟨fun h => ?_, ?_⟩, ?_⟩
  · rw [h] at hout
    cases hout with
    | record hd hc => exact ⟨_, rfl, hd, hc, rfl⟩
  · rintro ⟨groups, rfl, hd, hc, rfl⟩
    exact parse_of_complete defaults hd hc
  · rw [h] at hout
    cases hout with
    | help hd hh => exact ⟨_, _, _, rfl, hd, hh⟩
  · rintro ⟨groups, name, rest, rfl, hd, hh⟩
    exact parse_of_help defaults hd hh rest
  · rw [h] at hout
    cases hout with
    | error hd ho => exact ⟨_, _, rfl, hd, ho⟩
  · rintro ⟨groups, rest, rfl, hd, ho⟩
    exact parse_of_offends defaults hd ho
  · rintro groups groups' rfl hd hp
    exact (parse_perm defaults hp hd).symm

end LoxFrontEnd.Options
