import LoxFrontEnd.Options.Declaration
import LoxFrontEnd.Proofs.Options.Tables

/-! # The usage text

The executable is named part by part: no occurrence of its placeholder reaches over a character
that is not in it (`substitute_append_cons`), and blanks and line feeds stand between the parts of
a usage line. A part is left alone unless it has the placeholder in it (`named_eq_self_iff`). The
names and parameters that it does change stand in the table of options as they are
(`usage_parts`). -/

namespace LoxFrontEnd.Options
set_option autoImplicit false

/-! ## Substitution -/

section
variable {pattern replacement : List Char}

theorem substitute_nil : substitute pattern replacement [] = [] := by rw [substitute]

theorem substitute_occurrence (hp : pattern ≠ []) (rest : List Char) :
    substitute pattern replacement (pattern ++ rest) =
      replacement ++ substitute pattern replacement rest := by
  obtain ⟨c, cs, rfl⟩ := List.exists_cons_of_ne_nil hp
  have hprefix : (c :: cs).isPrefixOf (c :: (cs ++ rest)) :=
    List.isPrefixOf_iff_prefix.2 (List.prefix_append (c :: cs) rest)
  have hdrop : ((c :: cs) ++ rest).drop (c :: cs).length = rest := List.drop_left
  rw [List.cons_append] at hdrop ⊢
  rw [substitute, dif_pos ⟨hp, hprefix⟩, hdrop]

theorem substitute_cons {c : Char} {cs : List Char} (h : ¬ pattern <+: c :: cs) :
    substitute pattern replacement (c :: cs) = c :: substitute pattern replacement cs := by
  have hprefix : ¬ (pattern ≠ [] ∧ pattern.isPrefixOf (c :: cs)) := fun hp =>
    h (List.isPrefixOf_iff_prefix.1 hp.2)
  rw [substitute, dif_neg hprefix]

/-- Induction along the occurrences of a pattern, as substitution meets them. -/
theorem occurrence_induction {motive : List Char → Prop} (hp : pattern ≠ []) (nil : motive [])
    (occurrence : ∀ rest, motive rest → motive (pattern ++ rest))
    (other : ∀ c cs, ¬ pattern <+: c :: cs → motive cs → motive (c :: cs)) (text : List Char) :
    motive text := by
  induction hn : text.length using Nat.strongRecOn generalizing text with
  | ind n ih =>
    cases text with
    | nil => exact nil
    | cons c cs =>
      by_cases h : pattern <+: c :: cs
      · obtain ⟨rest, hrest⟩ := h
        have hlength := congrArg List.length hrest
        have hpos := List.length_pos_iff.2 hp
        rw [List.length_append] at hlength
        exact hrest ▸ occurrence rest (ih rest.length (by omega) rest rfl)
      · exact other c cs h (ih cs.length (by rw [← hn, List.length_cons]; omega) cs rfl)

theorem prefix_append_cons_iff {c : Char} (hc : c ∉ pattern) {front behind : List Char} :
    pattern <+: front ++ c :: behind ↔ pattern <+: front := by
  refine ⟨fun h => ?_, fun h => h.trans (List.prefix_append ..)⟩
  rcases List.prefix_or_prefix_of_prefix h (List.prefix_append front (c :: behind)) with h' | h'
  · exact h'
  · obtain ⟨more, rfl⟩ := h'
    rw [List.prefix_append_right_inj] at h
    cases more with
    | nil => exact (List.append_nil front).symm ▸ List.prefix_refl front
    | cons d more =>
      obtain ⟨rfl, -⟩ := List.cons_prefix_cons.1 h
      exact absurd (List.mem_append_right front List.mem_cons_self) hc

/-- No occurrence reaches over a character that is not in the pattern. -/
theorem substitute_append_cons (hp : pattern ≠ []) {c : Char} (hc : c ∉ pattern)
    (front behind : List Char) : substitute pattern replacement (front ++ c :: behind) =
      substitute pattern replacement front ++ c :: substitute pattern replacement behind := by
  induction front using occurrence_induction hp with
  | nil =>
    have hnot : ¬ pattern <+: [] ++ c :: behind := by
      rw [prefix_append_cons_iff hc, List.prefix_nil]
      exact hp
    rw [List.nil_append, substitute_cons hnot, substitute_nil, List.nil_append]
  | occurrence rest ih =>
    rw [List.append_assoc, substitute_occurrence hp, ih, substitute_occurrence hp, List.append_assoc]
  | other d ds hd ih =>
    have hnot : ¬ pattern <+: d :: (ds ++ c :: behind) := by
      rwa [← List.cons_append, prefix_append_cons_iff hc]
    rw [List.cons_append, substitute_cons hnot, ih, substitute_cons hd,
      List.cons_append]

theorem substitute_append_separator (hp : pattern ≠ []) {separator : List Char}
    (hne : separator ≠ []) (hs : ∀ c ∈ separator, c ∉ pattern) (front behind : List Char) :
    substitute pattern replacement (front ++ (separator ++ behind)) =
      substitute pattern replacement front ++
        (separator ++ substitute pattern replacement behind) := by
  induction separator generalizing front with
  | nil => exact absurd rfl hne
  | cons c cs ih =>
    obtain ⟨hc, hcs⟩ := List.forall_mem_cons.1 hs
    rw [List.cons_append, substitute_append_cons hp hc, List.cons_append]
    cases cs with
    | nil => rfl
    | cons d ds =>
      have hrest := ih (List.cons_ne_nil d ds) hcs []
      rw [substitute_nil, List.nil_append, List.nil_append] at hrest
      rw [hrest]

/-! ## Texts that are left alone -/

/-- Every occurrence makes the text longer or shorter by as much. -/
theorem exists_length_substitute (hp : pattern ≠ []) (replacement text : List Char) : ∃ count,
    (substitute pattern replacement text).length + count * pattern.length =
      text.length + count * replacement.length := by
  induction text using occurrence_induction hp with
  | nil => exact ⟨0, by rw [substitute_nil]; simp⟩
  | occurrence rest ih =>
    obtain ⟨count, hcount⟩ := ih
    refine ⟨count + 1, ?_⟩
    rw [substitute_occurrence hp, List.length_append, List.length_append, Nat.succ_mul, Nat.succ_mul]
    omega
  | other c cs hc ih =>
    obtain ⟨count, hcount⟩ := ih
    refine ⟨count, ?_⟩
    rw [substitute_cons hc, List.length_cons, List.length_cons]
    omega

theorem substitute_self (hp : pattern ≠ []) (text : List Char) :
    substitute pattern pattern text = text := by
  induction text using occurrence_induction hp with
  | nil => exact substitute_nil
  | occurrence rest ih => rw [substitute_occurrence hp, ih]
  | other c cs hc ih => rw [substitute_cons hc, ih]

theorem substitute_absent (hp : pattern ≠ []) {text : List Char} (h : ¬ pattern <:+: text) :
    substitute pattern replacement text = text := by
  induction text using occurrence_induction hp with
  | nil => exact substitute_nil
  | occurrence rest ih => exact absurd (List.prefix_append pattern rest).isInfix h
  | other c cs hc ih =>
    rw [substitute_cons hc, ih fun hin => h (hin.trans (List.suffix_cons c cs).isInfix)]

/-- What stands for an occurrence and leaves the text as it is has the length of the pattern, for
otherwise the text would change its own. -/
theorem eq_of_substitute_append {rest : List Char} (hp : pattern ≠ [])
    (h : replacement ++ substitute pattern replacement rest = pattern ++ rest) :
    replacement = pattern := by
  obtain ⟨count, hcount⟩ := exists_length_substitute hp replacement rest
  have hlength := congrArg List.length h
  rw [List.length_append, List.length_append] at hlength
  have hmul : (count + 1) * replacement.length = (count + 1) * pattern.length := by
    rw [Nat.succ_mul, Nat.succ_mul]
    omega
  exact (List.append_inj h (Nat.eq_of_mul_eq_mul_left (Nat.succ_pos count) hmul)).1

theorem substitute_eq_self_iff (hp : pattern ≠ []) {text : List Char} :
    substitute pattern replacement text = text ↔
      replacement = pattern ∨ ¬ pattern <:+: text := by
  refine ⟨fun h => ?_, ?_⟩
  · induction text using occurrence_induction hp with
    | nil => exact .inr (by rwa [List.infix_nil])
    | occurrence rest ih =>
      rw [substitute_occurrence hp] at h
      exact .inl (eq_of_substitute_append hp h)
    | other c cs hc ih =>
      rw [substitute_cons hc] at h
      refine (ih (List.cons.inj h).2).imp_right fun hcs hin => ?_
      rcases List.infix_cons_iff.1 hin with hprefix | hin
      · exact hc hprefix
      · exact hcs hin
  · rintro (rfl | h)
    · exact substitute_self hp text
    · exact substitute_absent hp h

end

/-! ## Naming the executable -/

/-- The text with the executable in the place of its placeholder. -/
def named (executable text : String) : String :=
  String.ofList (substitute executablePlaceholder.toList executable.toList text.toList)

theorem placeholder_ne_nil : executablePlaceholder.toList ≠ [] := by decide

theorem named_append (executable front separator behind : String) (hne : separator.toList ≠ [])
    (hall : separator.toList.all fun c => decide (c ∉ executablePlaceholder.toList)) :
    named executable (front ++ separator ++ behind) =
      named executable front ++ separator ++ named executable behind := by
  have hs : ∀ c ∈ separator.toList, c ∉ executablePlaceholder.toList := by simpa using hall
  apply String.toList_injective
  simp only [named, String.toList_append, String.toList_ofList, List.append_assoc]
  exact substitute_append_separator placeholder_ne_nil hne hs ..

theorem named_eq_self_iff {executable text : String} : named executable text = text ↔
    executable = executablePlaceholder ∨
      ¬ executablePlaceholder.toList <:+: text.toList := by
  rw [← String.toList_inj, named, String.toList_ofList, substitute_eq_self_iff placeholder_ne_nil,
    String.toList_inj]

theorem named_placeholder (executable : String) :
    named executable executablePlaceholder = executable := by
  have hsubstitute : substitute executablePlaceholder.toList executable.toList
      (executablePlaceholder.toList ++ []) = _ := substitute_occurrence placeholder_ne_nil []
  rw [List.append_nil, substitute_nil, List.append_nil] at hsubstitute
  rw [named, hsubstitute, String.ofList_toList]

/-- What a required field shows in the usage line of an executable. -/
def Field.namedPart (executable : String) (field : Field) : String :=
  " " ++ named executable field.short ++ " " ++ named executable field.placeholder

theorem named_append_parts (executable front : String) (fields : List Field) :
    named executable (front ++ String.join (fields.map Field.usagePart)) =
      named executable front ++ String.join (fields.map (Field.namedPart executable)) := by
  induction fields generalizing front with
  | nil => simp only [List.map_nil, String.join_nil, String.append_empty]
  | cons field rest ih =>
    have hblank (front behind : String) : named executable (front ++ " " ++ behind) =
        named executable front ++ " " ++ named executable behind :=
      named_append executable front " " behind (by decide) (by decide)
    calc named executable (front ++ String.join ((field :: rest).map Field.usagePart))
        = named executable (front ++ " " ++ field.short ++ " " ++ field.placeholder ++
            String.join (rest.map Field.usagePart)) := by
          rw [List.map_cons, String.join_cons, Field.usagePart]
          simp only [String.append_assoc]
      _ = named executable front ++ " " ++ named executable field.short ++ " " ++
            named executable field.placeholder ++
            String.join (rest.map (Field.namedPart executable)) := by
          rw [ih, hblank, hblank]
      _ = named executable front ++
            String.join ((field :: rest).map (Field.namedPart executable)) := by
          rw [List.map_cons, String.join_cons, Field.namedPart]
          simp only [String.append_assoc]

theorem named_usageLine (executable : String) :
    named executable ("Usage: " ++ executablePlaceholder ++ " [OPTIONS]") =
      "Usage: " ++ executable ++ " [OPTIONS]" := by
  have hline (name : String) :
      "Usage: " ++ name ++ " [OPTIONS]" = "Usage:" ++ " " ++ name ++ " " ++ "[OPTIONS]" := by
    have hleft : "Usage: " = "Usage:" ++ " " := by decide
    have hright : " [OPTIONS]" = " " ++ "[OPTIONS]" := by decide
    calc "Usage: " ++ name ++ " [OPTIONS]"
        = "Usage: " ++ name ++ (" " ++ "[OPTIONS]") := congrArg _ hright
      _ = "Usage: " ++ name ++ " " ++ "[OPTIONS]" := String.append_assoc.symm
      _ = "Usage:" ++ " " ++ name ++ " " ++ "[OPTIONS]" :=
        congrArg (fun front => front ++ name ++ " " ++ "[OPTIONS]") hleft
  have hword : named executable "Usage:" = "Usage:" :=
    named_eq_self_iff.2 (.inr fun hin => absurd hin.length_le (by decide))
  have hoptions : named executable "[OPTIONS]" = "[OPTIONS]" :=
    named_eq_self_iff.2 (.inr fun hin => absurd (hin.eq_of_length (by decide)) (by decide))
  rw [hline, named_append _ _ " " _ (by decide) (by decide),
    named_append _ _ " " _ (by decide) (by decide), hword, hoptions, named_placeholder, hline]

theorem named_usageHead (schema : Schema) (executable : String) :
    named executable schema.usageHead = "Usage: " ++ executable ++ " [OPTIONS]" ++
      String.join ((schema.fields.filter Field.required).map (Field.namedPart executable)) ++
      if schema.description = "" then "" else "\n\n" ++ named executable schema.description := by
  have hhead : schema.usageHead = "Usage: " ++ executablePlaceholder ++ " [OPTIONS]" ++
      String.join ((schema.fields.filter Field.required).map Field.usagePart) ++
      if schema.description = "" then "" else "\n\n" ++ schema.description := rfl
  have hfront : named executable ("Usage: " ++ executablePlaceholder ++ " [OPTIONS]" ++
      String.join ((schema.fields.filter Field.required).map Field.usagePart)) =
      "Usage: " ++ executable ++ " [OPTIONS]" ++
        String.join ((schema.fields.filter Field.required).map (Field.namedPart executable)) := by
    rw [named_append_parts, named_usageLine]
  rw [hhead, ← hfront]
  split
  · rw [String.append_empty, String.append_empty]
  · rw [← String.append_assoc, ← String.append_assoc,
      named_append _ _ "\n\n" _ (by decide) (by decide)]

/-- The field is shown in the usage line as it is in the table, whatever executable is named. -/
def Field.NamesNoExecutable (field : Field) : Prop :=
  ¬ executablePlaceholder.toList <:+: field.short.toList ∧
    ¬ executablePlaceholder.toList <:+: field.placeholder.toList

theorem Field.namedPart_eq_usagePart {field : Field} {executable : String}
    (h : executable = executablePlaceholder ∨ field.NamesNoExecutable) :
    field.namedPart executable = field.usagePart := by
  have hshort : named executable field.short = field.short :=
    named_eq_self_iff.2 (h.imp_right And.left)
  have hparameter : named executable field.placeholder = field.placeholder :=
    named_eq_self_iff.2 (h.imp_right And.right)
  rw [namedPart, hshort, hparameter, usagePart]

/-- The executable is named in the usage line and the description, part by part. So it takes the
place of its placeholder also in the short names and the parameters of required fields, while the
table shows those as they are. Fields that do not have it there are shown alike in both. -/
theorem usage_parts (schema : Schema) (executable : String) :
    schema.usage executable = "Usage: " ++ executable ++ " [OPTIONS]" ++
      String.join ((schema.fields.filter Field.required).map fun field =>
        " " ++ named executable field.short ++ " " ++ named executable field.placeholder) ++
      (if schema.description = "" then "" else "\n\n" ++ named executable schema.description) ++
      "\n\nOptions:\n" ++ (rowsOf schema.fields ++ helpRow) ∧
    Sorted schema.fields ∧
    (∀ text, named executable text = text ↔ executable = executablePlaceholder ∨
      ¬ executablePlaceholder.toList <:+: text.toList) ∧
    ((∀ field ∈ schema.fields, field.required →
      executable = executablePlaceholder ∨ field.NamesNoExecutable) → ∃ rest,
      schema.usage executable = "Usage: " ++ executable ++ " [OPTIONS]" ++
        String.join ((schema.fields.filter Field.required).map fun field =>
          " " ++ field.short ++ " " ++ field.placeholder) ++ rest) := by
  have husage : schema.usage executable = "Usage: " ++ executable ++ " [OPTIONS]" ++
      String.join ((schema.fields.filter Field.required).map (Field.namedPart executable)) ++
      (if schema.description = "" then "" else "\n\n" ++ named executable schema.description) ++
      "\n\nOptions:\n" ++ (rowsOf schema.fields ++ helpRow) := by
    rw [← named_usageHead]
    rfl
  refine ⟨husage, schema.sorted, fun _ => named_eq_self_iff, fun h => ?_⟩
  have hparts : (schema.fields.filter Field.required).map (Field.namedPart executable) =
      (schema.fields.filter Field.required).map Field.usagePart := by
    refine List.map_congr_left fun field hm => ?_
    obtain ⟨hmem, hrequired⟩ := List.mem_filter.1 hm
    exact Field.namedPart_eq_usagePart (h field hmem hrequired)
  have hassoc (a b c d : String) : a ++ b ++ c ++ d = a ++ (b ++ c ++ d) := by
    simp only [String.append_assoc]
  rw [husage, hparts]
  exact ⟨_, hassoc ..⟩

theorem usage_parts_input :
    let schema : Schema := .ofFields "" [⟨"input", .value, "-i", some "--input", none, true⟩]
    (∀ field ∈ schema.fields, field.required → field.NamesNoExecutable) ∧
      ∃ rest, schema.usage "lox" = "Usage: lox [OPTIONS] -i <INPUT>" ++ rest := by
  intro schema
  have hfree : ∀ field ∈ schema.fields, field.required → field.NamesNoExecutable := by
    intro field hm _
    obtain rfl := List.mem_singleton.1 hm
    exact ⟨by decide +kernel, by decide +kernel⟩
  obtain ⟨-, -, -, halone⟩ := usage_parts schema "lox"
  obtain ⟨rest, hrest⟩ := halone fun field hm hr => .inr (hfree field hm hr)
  exact ⟨hfree, rest, hrest.trans (congrArg (· ++ rest) (by decide +kernel))⟩

/-- A field with the name of the placeholder shows the executable instead of its parameter. -/
theorem usage_parts_execName :
    ¬ ∀ (declaration : Declaration) (schema : Schema) (executable : String),
      declaration.schema = .ok schema → ∃ rest,
        schema.usage executable = "Usage: " ++ executable ++ " [OPTIONS]" ++
          String.join ((schema.fields.filter Field.required).map fun field =>
            " " ++ field.short ++ " " ++ field.placeholder) ++ rest := by
  intro h
  let declaration : Declaration := ⟨.named, none,
    [⟨"exec_name", "String", [(.short, .text "-e"), (.required, .boolean true)]⟩]⟩
  have hshown : (declaration.schema.toOption.map fun schema =>
      ((schema.usage "lox").toList.take 29, String.join
        ((schema.fields.filter Field.required).map fun field =>
          " " ++ field.short ++ " " ++ field.placeholder))) =
      some ("Usage: lox [OPTIONS] -e <lox>".toList, " -e <EXEC_NAME>") := by decide +kernel
  cases hschema : declaration.schema with
  | error error =>
    rw [hschema] at hshown
    cases hshown
  | ok schema =>
    rw [hschema] at hshown
    obtain ⟨htext, hparts⟩ := Prod.mk.inj (Option.some.inj hshown)
    obtain ⟨rest, hrest⟩ := h declaration schema "lox" hschema
    rw [hparts] at hrest
    have hclaimed : (schema.usage "lox").toList.take 29 =
        "Usage: lox [OPTIONS] -e <EXEC".toList := by
      rw [hrest, String.toList_append, List.take_append_of_le_length (by decide +kernel)]
      decide +kernel
    exact absurd (htext.symm.trans hclaimed) (by decide +kernel)

end LoxFrontEnd.Options
