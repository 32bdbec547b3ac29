import LoxFrontEnd.Proofs.Lexical.Session
import LoxFrontEnd.Proofs.Program.Arguments
import LoxFrontEnd.Proofs.Program.Output
import LoxFrontEnd.Proofs.Source.RoundTrip

/-! # Running a file

Any report makes the run of a readable file fail, so it succeeds on the texts whose scan is free of
faults and whose tokens, if there are any, the grammar derives within the nesting limit
(`Verdict.code_eq_zero_iff`). What is displayed has no part in that (`transcript_runFile`). -/

namespace LoxFrontEnd
set_option autoImplicit false

/-! ## Sources as they are laid out -/

def fault? : Except ScanError Token → Option ScanError
  | .ok _ => none
  | .error error => some error

/-- A layout of the source accounts for a scan: tokens and faults stand in their order there. -/
structure Scan.Reads (scan : Scan) (depth : Nat) (text : List Char)
    (outcomes : List (Except ScanError Token)) : Prop where
  layout : Layout depth text outcomes scan.depth
  tokens : scan.tokens = outcomes.filterMap Except.toOption
  errors : scan.errors = outcomes.filterMap fault?

theorem reads_scan (source : String) (depth : Nat) :
    ∃ outcomes, (scan source depth).Reads depth source.toList outcomes := by
  have htokens : (Except.toOption ∘ Located.outcome) = Located.token? := by
    funext unit
    simp only [Function.comp_apply, Located.token?]
    cases unit.outcome <;> rfl
  have herrors : (fault? ∘ Located.outcome) = Located.error? := by
    funext unit
    simp only [Function.comp_apply, Located.error?]
    cases unit.outcome <;> rfl
  refine ⟨_, Cursor.layout_outcomes (.start source.toList depth), ?_, ?_⟩
  · rw [Cursor.outcomes, List.filterMap_append, List.filterMap_map, htokens]
    rfl
  · rw [Cursor.outcomes, List.filterMap_append, List.filterMap_map, herrors]
    exact (List.append_nil _).symm

/-! ## What is parsed -/

theorem Scan.beforeEof_tokens (scan : Scan) :
    beforeEof scan.tokens = scan.units.filterMap Located.token? := by
  refine TokenStream.tokens_ofList_eof (fun token hm => ?_) scan.finish.line
  obtain ⟨unit, -, ht⟩ := List.mem_filterMap.1 hm
  exact Located.not_isEof_of_token? ht

theorem Scan.hasExpression_iff (scan : Scan) :
    hasExpression scan.tokens ↔ beforeEof scan.tokens ≠ [] := by
  rw [scan.beforeEof_tokens, ← scan.filter_tokens, hasExpression, List.any_eq_true,
    Ne, List.filter_eq_nil_iff]
  simp

section
variable {source : String} {depth : Nat}

theorem tree?_run_eq_some_iff {expr : Expr} : (run source depth).tree? = some expr ↔
    beforeEof (scan source depth).tokens ≠ [] ∧ parse (scan source depth).tokens = .ok expr := by
  rw [← Scan.hasExpression_iff, Run.tree?, run]
  cases hasExpression (scan source depth).tokens <;>
    cases parse (scan source depth).tokens <;> simp

theorem parseError?_run_eq_some_iff {error : ParseError} :
    (run source depth).parseError? = some error ↔
      beforeEof (scan source depth).tokens ≠ [] ∧
        parse (scan source depth).tokens = .error error := by
  rw [← Scan.hasExpression_iff, Run.parseError?, run]
  cases hasExpression (scan source depth).tokens <;>
    cases parse (scan source depth).tokens <;> simp

/-- There is nothing to parse, or the grammar derives it within the nesting limit. -/
def Acceptable (tokens : List Token) : Prop :=
  beforeEof tokens = [] ∨ ∃ expr,
    Derives (.binary .equality) (beforeEof tokens) expr ∧ expr.nesting ≤ nestingLimit

theorem parseError?_run_eq_none_iff : (run source depth).parseError? = none ↔
    Acceptable (scan source depth).tokens := by
  have hparse (expr : Expr) : parse (scan source depth).tokens = .ok expr ↔
      Derives (.binary .equality) (beforeEof (scan source depth).tokens) expr ∧
        expr.nesting ≤ nestingLimit := TokenStream.parse_eq_ok_iff
  simp only [Acceptable, ← hparse, Option.eq_none_iff_forall_ne_some, Ne,
    parseError?_run_eq_some_iff]
  cases parse (scan source depth).tokens <;> simp

end

namespace Program

/-! ## The run of a file -/

theorem transcript_of_runFile {args : List String} {directory : Directory} {path text : String}
    {display : Display} (hargs : Task.ofArgs args = .runFile path display)
    (hread : directory.readText path = .ok text) (input : List UInt8) :
    transcript args directory input = runText display text := by
  rw [transcript, hargs, perform, runFile, hread]

theorem stdout_runText (display : Display) (text : String) :
    (runText display text).stdout = unlines ((run text 0).shown display) := by
  rw [Transcript.stdout, runText, join_written, Run.outputOf_events]

theorem stderr_runText (display : Display) (text : String) :
    (runText display text).stderr = unlines ((run text 0).reports.map Report.text) := by
  rw [Transcript.stderr, runText, join_complained, Run.reportsOf_events_eq]

theorem code_runText (display : Display) (text : String) :
    (runText display text).code = if (run text 0).reports = [] then .success else .data := by
  rw [runText, Run.reportsOf_events_eq, Console.hadError_printAll]
  cases (run text 0).reports <;> rfl

theorem reports_run_eq_nil_iff (text : String) : (run text 0).reports = [] ↔
    (scan text 0).errors = [] ∧ (run text 0).parseError? = none := by
  have hscan : (run text 0).scan.reports = (scan text 0).errors.map ScanError.report := rfl
  rw [Run.reports, hscan]
  cases (run text 0).parseError? <;> simp

/-- What is seen of a run of a text that was read from a file. -/
structure Verdict (text : String) (display : Display) (ended : Transcript) : Prop where
  stderr_eq : ended.stderr = unlines (((scan text 0).errors.map ScanError.report ++
    (run text 0).parseError?.toList.map ParseError.report).map Report.text)
  code_eq : ended.code.toNat =
    if (scan text 0).errors = [] ∧ (run text 0).parseError? = none then 0 else 65
  code_eq_zero_iff : ended.code.toNat = 0 ↔
    (scan text 0).errors = [] ∧ Acceptable (scan text 0).tokens
  stdout_eq : ended.stdout =
    unlines ((if display.tokens then (scan text 0).tokens.map Token.text else []) ++
      if display.tree then (run text 0).tree?.toList.map Expr.text else [])

theorem verdict_runText (display : Display) (text : String) :
    Verdict text display (runText display text) := by
  have hcode : (runText display text).code.toNat =
      if (scan text 0).errors = [] ∧ (run text 0).parseError? = none then 0 else 65 := by
    simp only [code_runText, ← reports_run_eq_nil_iff]
    split <;> rfl
  refine ⟨stderr_runText display text, hcode, ?_, stdout_runText display text⟩
  rw [hcode, ← parseError?_run_eq_none_iff]
  split <;> simp_all

theorem splitOn_a : "a".splitOn "/" = ["a"] := by
  rw [String.splitOn, if_neg (by decide), String.splitOnAux, if_neg (by decide),
    if_neg (by decide), String.splitOnAux, if_pos (by decide)]
  decide

/-- A directory with one file. -/
theorem readText_a (text : String) : Directory.readText [("a", text.toUTF8)] "a" = .ok text := by
  have hsegments : Directory.segments "a" = ["a"] := by
    rw [Directory.segments, splitOn_a]
    decide
  have hfind : Directory.find [("a", text.toUTF8)] "a" = .ok text.toUTF8 := by
    simp [Directory.find, hsegments]
  have hdecode : String.fromUTF8? text.toUTF8 = some text := dif_pos text.isValidUTF8
  rw [Directory.readText, hfind]
  simp only [hdecode]

/-- The verdict on a readable file. Standard error holds the lexical reports and at most one report
of parsing, the exit code says whether there is any, and neither has to do with what is displayed.
-/
theorem transcript_runFile (args : List String) (directory : Directory) (input : List UInt8)
    (path text : String) (display : Display) (hargs : Task.ofArgs args = .runFile path display)
    (hread : directory.readText path = .ok text) :
    (∃ outcomes, (scan text 0).Reads 0 text.toList outcomes) ∧
    (∀ expr, (run text 0).tree? = some expr ↔
      beforeEof (scan text 0).tokens ≠ [] ∧ parse (scan text 0).tokens = .ok expr) ∧
    (∀ error, (run text 0).parseError? = some error ↔
      beforeEof (scan text 0).tokens ≠ [] ∧ parse (scan text 0).tokens = .error error) ∧
    Verdict text display (transcript args directory input) ∧
    ∀ other, (∃ args', Task.ofArgs args' = .runFile path other) ∧
      ∀ args', Task.ofArgs args' = .runFile path other →
        (transcript args' directory input).stderr = (transcript args directory input).stderr ∧
          (transcript args' directory input).code = (transcript args directory input).code := by
  rw [transcript_of_runFile hargs hread]
  refine ⟨reads_scan text 0, fun _ => tree?_run_eq_some_iff, fun _ => parseError?_run_eq_some_iff,
    verdict_runText display text, fun other => ⟨exists_ofArgs_runFile hargs other, ?_⟩⟩
  intro args' hargs'
  rw [transcript_of_runFile hargs' hread]
  constructor
  · rw [stderr_runText, stderr_runText]
  · rw [code_runText, code_runText]

theorem transcript_runFile_stray :
    let args := ["-t", "--ast", "-f", "a"]
    let directory : Directory := [("a", "nil + $nil".toUTF8)]
    Task.ofArgs args = .runFile "a" ⟨true, true⟩ ∧
      directory.readText "a" = .ok "nil + $nil" ∧
      (transcript args directory []).stdout =
        "NIL nil null\nPLUS + null\nNIL nil null\nEOF  null\n(+ nil nil)\n" ∧
      (transcript args directory []).stderr = "[Line 1] Error: Unexpected character '$'.\n" ∧
      (transcript args directory []).code.toNat = 65 := by
  intro args directory
  have hargs : Task.ofArgs args = .runFile "a" ⟨true, true⟩ := by decide
  obtain ⟨-, -, -, hverdict, -⟩ :=
    transcript_runFile args directory [] "a" "nil + $nil" ⟨true, true⟩ hargs (readText_a _)
  exact ⟨hargs, readText_a _, hverdict.stdout_eq.trans (by decide +kernel),
    hverdict.stderr_eq.trans (by decide +kernel), hverdict.code_eq.trans (by decide +kernel)⟩

end Program
end LoxFrontEnd
