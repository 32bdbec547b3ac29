import LoxFrontEnd.Scan.Lexeme

/-! Scanning a source. A cursor yields one outcome at a time, and the end of the source for ever
after; a scan is the list of all lexemes with their lines, and where it ended. Tokens and faults
are two views of that list. The number of open block comments at the end is handed to the scan of
the text that follows. -/

namespace LoxFrontEnd
set_option autoImplicit false

structure Located where
  line : Nat
  lexeme : Lexeme
  deriving DecidableEq

namespace Located

def outcome (unit : Located) : Except ScanError Token := unit.lexeme.outcome unit.line

def token? (unit : Located) : Option Token :=
  match unit.outcome with
  | .ok token => some token
  | .error _ => none

def error? (unit : Located) : Option ScanError :=
  match unit.outcome with
  | .ok _ => none
  | .error error => some error

end Located

namespace Cursor

/-- The lexeme that stands at a cursor, and the cursor behind it. -/
def lexeme? (cursor : Cursor) : Option (Located × Cursor) :=
  match cursor.rest with
  | [] => none
  | c :: cs =>
    let (lexeme, rest) := Lexeme.split c cs
    some (⟨cursor.line, lexeme⟩, ⟨rest, cursor.line + lineBreaks lexeme.text, cursor.depth⟩)

/-- The next token or fault. A fault has already been passed by the cursor behind it. -/
def next (cursor : Cursor) : Except ScanError Token × Cursor :=
  match cursor.skip.lexeme? with
  | some (unit, behind) => (unit.outcome, behind)
  | none => (.ok (.eof cursor.skip.line), cursor.skip)

theorem lexeme?_eq_none_iff {cursor : Cursor} : cursor.lexeme? = none ↔ cursor.rest = [] := by
  unfold lexeme?; split <;> simp_all

theorem lexeme?_rest_length {cursor behind : Cursor} {unit : Located}
    (h : cursor.lexeme? = some (unit, behind)) : behind.rest.length < cursor.rest.length := by
  unfold lexeme? at h
  split at h
  · simp at h
  · next c cs heq =>
    simp only [Option.some.injEq, Prod.mk.injEq] at h
    rw [← h.2, heq]
    exact Lexeme.split_rest_length c cs

theorem skip_lexeme?_rest_length {cursor behind : Cursor} {unit : Located}
    (h : cursor.skip.lexeme? = some (unit, behind)) :
    behind.rest.length < cursor.rest.length :=
  Nat.lt_of_lt_of_le (lexeme?_rest_length h) cursor.skip_suffix.length_le

/-- Moves all lexemes onto `units`, which is kept backwards. -/
def unitsOnto (units : List Located) (cursor : Cursor) : List Located × Cursor :=
  match _h : cursor.skip.lexeme? with
  | some (unit, behind) => unitsOnto (unit :: units) behind
  | none => (units.reverse, cursor.skip)
termination_by cursor.rest.length
decreasing_by exact skip_lexeme?_rest_length _h

/-- All lexemes from a cursor on, and the cursor at the end. -/
def units (cursor : Cursor) : List Located × Cursor := unitsOnto [] cursor

theorem unitsOnto_eq (done : List Located) (cursor : Cursor) :
    unitsOnto done cursor = (done.reverse ++ cursor.units.1, cursor.units.2) := by
  have shift : ∀ (n : Nat) (front done : List Located) (cursor : Cursor), cursor.rest.length ≤ n →
      unitsOnto (front ++ done) cursor =
        (done.reverse ++ (unitsOnto front cursor).1, (unitsOnto front cursor).2) := by
    intro n
    induction n with
    | zero =>
      intro front done cursor hn
      rw [unitsOnto, unitsOnto]
      split
      · next h => exact absurd (skip_lexeme?_rest_length h) (by omega)
      · simp
    | succ n ih =>
      intro front done cursor hn
      rw [unitsOnto, unitsOnto]
      split
      · next unit behind h =>
        have := skip_lexeme?_rest_length h
        exact ih (unit :: front) done behind (by omega)
      · simp
  exact shift _ [] done cursor (Nat.le_refl _)

theorem units_of_some {cursor behind : Cursor} {unit : Located}
    (h : cursor.skip.lexeme? = some (unit, behind)) :
    cursor.units = (unit :: behind.units.1, behind.units.2) := by
  rw [units, unitsOnto]
  split
  · next h' =>
    rw [h] at h'
    simp only [Option.some.injEq, Prod.mk.injEq] at h'
    rw [← h'.1, ← h'.2, unitsOnto_eq]; rfl
  · next h' => simp [h] at h'

theorem units_of_none {cursor : Cursor} (h : cursor.skip.lexeme? = none) :
    cursor.units = ([], cursor.skip) := by
  rw [units, unitsOnto]
  split
  · next h' => simp [h] at h'
  · rfl

end Cursor

/-- The lexemes of a source and the place where scanning ended. -/
structure Scan where
  units : List Located
  finish : Cursor
  deriving DecidableEq

/-- Scans a source that continues `depth` open block comments. -/
def scan (source : String) (depth : Nat) : Scan :=
  let (units, finish) := (Cursor.start source.toList depth).units
  ⟨units, finish⟩

namespace Scan

def tokens (scan : Scan) : List Token := scan.units.filterMap Located.token? ++ [.eof scan.finish.line]

def errors (scan : Scan) : List ScanError := scan.units.filterMap Located.error?

def reports (scan : Scan) : List Report := scan.errors.map ScanError.report

def depth (scan : Scan) : Nat := scan.finish.depth

end Scan

/-- Scans sources one after another, each continuing the open comments of the one before. -/
def scanSession (depth : Nat) : List String → List Scan
  | [] => []
  | source :: sources =>
    let first := scan source depth
    first :: scanSession first.depth sources

end LoxFrontEnd
