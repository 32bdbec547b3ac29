import LoxFrontEnd.Program.Task
import LoxFrontEnd.Proofs.Options.WellFormed

/-! # Command lines for a file

Where a command line asks for a file, its path is no name of an option, and there are command lines
that ask for the same file with any other display (`exists_ofArgs_runFile`). -/

namespace LoxFrontEnd.Program
set_option autoImplicit false

open Options

/-! ## Groups of arguments -/

def fileGroup (path : String) (free : ¬ schema.Known path) : Group schema :=
  .parameter "-f" fileField path (Schema.reaches_iff.2 (by decide)) (by decide) free

def tokensGroup : Group schema :=
  .flag "-t" tokensField (Schema.reaches_iff.2 (by decide)) rfl

def treeGroup : Group schema := .flag "-a" treeField (Schema.reaches_iff.2 (by decide)) rfl

/-- The groups that ask for a file and for the parts of the display that are shown. -/
def fileGroups (path : String) (free : ¬ schema.Known path) (display : Display) :
    List (Group schema) :=
  fileGroup path free ::
    ((if display.tokens then [tokensGroup] else []) ++ if display.tree then [treeGroup] else [])

theorem complete_schema (given : List String) : Complete schema given := by
  have hall : ∀ field ∈ schema.fields, ¬ field.required := by decide
  exact fun field hm hr => absurd hr (hall field hm)

theorem ofArgs_arguments {groups : List (Group schema)} (hd : (fieldNames groups).Nodup) :
    Task.ofArgs (arguments groups) = .ofRecord (fill schema.defaults groups) := by
  rw [Task.ofArgs, parse_of_complete _ hd (complete_schema _)]

theorem ofArgs_fileGroups (path : String) (free : ¬ schema.Known path) (display : Display) :
    Task.ofArgs (arguments (fileGroups path free display)) = .runFile path display := by
  have hd : (fieldNames (fileGroups path free display)).Nodup := by
    obtain ⟨_ | _, _ | _⟩ := display <;>
      simp [fieldNames, fileGroups, Group.fieldName, Group.field, fileGroup, tokensGroup,
        treeGroup, fileField, tokensField, treeField]
  rw [ofArgs_arguments hd]
  obtain ⟨_ | _, _ | _⟩ := display <;> rfl

/-! ## The path of a file -/

theorem not_known_of_fill {groups : List (Group schema)} {path : String}
    (h : fill schema.defaults groups fileField.name = .optional (some path)) :
    ¬ schema.Known path := by
  unfold fill at h
  split at h
  · next group _ =>
    cases group with
    | flag => cases h
    | parameter name field text _ _ free =>
      have hheld : field.kind.hold text = .optional (some path) := h
      cases hk : field.kind with
      | optional =>
        rw [hk] at hheld
        obtain rfl : text = path := by simpa [FieldKind.hold] using hheld
        exact free
      | flag | value =>
        rw [hk] at hheld
        cases hheld
  · cases h

theorem not_known_of_ofArgs {args : List String} {path : String} {display : Display}
    (h : Task.ofArgs args = .runFile path display) : ¬ schema.Known path := by
  have hout := outcome_parse schema schema.defaults args
  unfold Task.ofArgs at h
  generalize schema.parse schema.defaults args = request at h hout
  cases hout with
  | error => cases h
  | help => cases h
  | @record groups _ _ =>
    simp only [Task.ofRecord] at h
    split at h
    · next found hfill =>
      obtain ⟨rfl, -⟩ := Task.runFile.inj h
      exact not_known_of_fill hfill
    · cases h

theorem exists_ofArgs_runFile {args : List String} {path : String} {display : Display}
    (h : Task.ofArgs args = .runFile path display) (other : Display) :
    ∃ args', Task.ofArgs args' = .runFile path other :=
  ⟨_, ofArgs_fileGroups path (not_known_of_ofArgs h) other⟩

end LoxFrontEnd.Program
