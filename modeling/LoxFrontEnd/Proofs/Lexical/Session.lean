import LoxFrontEnd.Proofs.Lexical.Boundary
import LoxFrontEnd.Proofs.Lexical.Shift
import LoxFrontEnd.Text.Line

/-! # Line by line

Scanning lines one after another, each from the depth that the one before returned, agrees with
scanning the joined text (`scan_joinLines`), as long as no string is left open at the end of a
line: a line break ends every other unit, and the depth is all that is carried over it. Carriage
returns at the end of a line make no difference (`scan_stripLineEnding`). -/

namespace LoxFrontEnd
set_option autoImplicit false

def joinLines (lines : List String) : String := "\n".intercalate lines

/-- The number of line breaks above each line of a joined text, with `above` of them above the
first line. -/
def lineBreaksAbove (above : Nat) : List String → List Nat
  | [] => []
  | line :: lines => above :: lineBreaksAbove (above + lineBreaks line.toList + 1) lines

/-- Every end mark but the last one is dropped. -/
def dropInnerEofs (tokens : List Token) : List Token :=
  (tokens.dropLast.filter fun token => !token.isEof) ++ tokens.getLast?.toList

/-- One scan holds what the session of a list of lines holds, in its order, each line number
counted from the beginning of the joined text. -/
structure Scan.IsJoined (whole : Scan) (lines : List String) (session : List Scan) : Prop where
  tokens : whole.tokens = dropInnerEofs (List.flatten
    (List.zipWith (fun above scan => scan.tokens.map (Token.shift above))
      (lineBreaksAbove 0 lines) session))
  reports : whole.reports = List.flatten
    (List.zipWith (fun above scan => scan.reports.map (Report.shift above))
      (lineBreaksAbove 0 lines) session)
  depth : session.getLast?.map Scan.depth = some whole.depth

def inJoined (above : Nat) (lines : List String) (session : List Scan) : List Scan :=
  List.zipWith Scan.shift (lineBreaksAbove above lines) session

/-- No string is reported as unterminated. -/
def Scan.Closed (scan : Scan) : Prop :=
  ∀ report ∈ scan.reports, report.message ≠ "Unterminated string."

/-! ## Scans by their units -/

theorem Scan.Closed.complete {scan : Scan} (h : scan.Closed) :
    ∀ unit ∈ scan.units, unit.Complete := by
  intro unit hm body hb
  have herror : unit.error? = some (.unterminatedString (unit.line + lineBreaks body)) := by
    rw [Located.error?, Located.outcome, hb]
    rfl
  exact h _ (List.mem_map_of_mem (List.mem_filterMap.2 ⟨unit, hm, herror⟩)) rfl

theorem Scan.filter_tokens (scan : Scan) :
    scan.tokens.filter (fun token => !token.isEof) = scan.units.filterMap Located.token? := by
  have hunits : ∀ token ∈ scan.units.filterMap Located.token?, !token.isEof := by
    intro token hm
    obtain ⟨unit, -, ht⟩ := List.mem_filterMap.1 hm
    simpa using Located.not_isEof_of_token? ht
  rw [tokens, List.filter_append, List.filter_eq_self.2 hunits]
  simp

theorem dropInnerEofs_flatMap_tokens (scans : List Scan) (last : Scan) :
    dropInnerEofs ((scans ++ [last]).flatMap Scan.tokens) =
      ((scans ++ [last]).flatMap Scan.units).filterMap Located.token? ++
        [.eof last.finish.line] := by
  have hinner : (fun scan : Scan => scan.tokens.filter fun token => !token.isEof) =
      fun scan => scan.units.filterMap Located.token? := by
    funext scan
    exact scan.filter_tokens
  have hlast : (scans ++ [last]).flatMap Scan.tokens =
      (scans.flatMap Scan.tokens ++ last.units.filterMap Located.token?) ++
        [.eof last.finish.line] := by
    simp [Scan.tokens]
  have hfilter : (last.units.filterMap Located.token?).filter (fun token => !token.isEof) =
      last.units.filterMap Located.token? := by
    have h := last.filter_tokens
    rw [Scan.tokens, List.filter_append] at h
    simpa using h
  rw [hlast, dropInnerEofs, List.dropLast_concat, List.getLast?_concat, List.filter_append,
    List.filter_flatMap, hinner, hfilter, List.flatMap_append, List.filterMap_append,
    List.filterMap_flatMap]
  simp

theorem Scan.isJoined_of_units {whole last : Scan} {lines : List String} {session : List Scan}
    (hlast : (inJoined 0 lines session).getLast? = some last)
    (hunits : whole.units = (inJoined 0 lines session).flatMap Scan.units)
    (hfinish : whole.finish = last.finish)
    (hdepth : session.getLast?.map Scan.depth = some last.depth) :
    whole.IsJoined lines session := by
  obtain ⟨scans, hscans⟩ := List.getLast?_eq_some_iff.1 hlast
  have htokens : (inJoined 0 lines session).flatMap Scan.tokens = List.flatten
      (List.zipWith (fun above scan => scan.tokens.map (Token.shift above))
        (lineBreaksAbove 0 lines) session) := by
    simp only [inJoined, List.flatMap_def, List.map_zipWith, Scan.tokens_shift]
  have hreports : (inJoined 0 lines session).flatMap Scan.reports = List.flatten
      (List.zipWith (fun above scan => scan.reports.map (Report.shift above))
        (lineBreaksAbove 0 lines) session) := by
    simp only [inJoined, List.flatMap_def, List.map_zipWith, Scan.reports_shift]
  refine ⟨?_, ?_, ?_⟩
  · rw [← htokens, hscans, dropInnerEofs_flatMap_tokens, Scan.tokens, hunits, hscans, hfinish]
  · rw [← hreports, Scan.reports, Scan.errors, hunits, List.filterMap_flatMap, List.map_flatMap]
    rfl
  · rw [hdepth, Scan.depth, Scan.depth, hfinish]

/-! ## Line breaks -/

theorem endsLine_newline (text : List Char) : EndsLine ('\n' :: text) := by
  refine ⟨fun c hc => ?_, fun line => Cursor.skipFrom_lineComment_break line text⟩
  obtain rfl : '\n' = c := by simpa using hc
  exact .inr (.inr (.inr rfl))

theorem Cursor.skip_newline (text : List Char) (line depth : Nat) :
    (Cursor.skip ⟨'\n' :: text, line, depth⟩) = Cursor.skip ⟨text, line + 1, depth⟩ := by
  cases depth <;> rfl

theorem toList_joinLines (line next : String) (lines : List String) :
    (joinLines (line :: next :: lines)).toList =
      line.toList ++ '\n' :: (joinLines (next :: lines)).toList := by
  rw [joinLines, String.intercalate_cons_cons]
  simp [joinLines]

theorem Cursor.units_newline (cursor : Cursor) (text : List Char)
    (hc : ∀ unit ∈ cursor.units.1, unit.Complete) :
    (cursor.append ('\n' :: text)).units =
      let behind := units ⟨text, cursor.line + lineBreaks cursor.rest + 1, cursor.units.2.depth⟩
      (cursor.units.1 ++ behind.1, behind.2) := by
  have hfinish : cursor.units.2.append ('\n' :: text) =
      ⟨'\n' :: text, cursor.line + lineBreaks cursor.rest, cursor.units.2.depth⟩ := by
    rw [append, cursor.rest_units, cursor.line_units, List.nil_append]
  rw [units_append (endsLine_newline text) cursor hc, hfinish, units_congr (skip_newline ..)]

theorem units_line {line : String} {depth : Nat} (hc : (scan line depth).Closed)
    {above : Nat} {text : List Char} {units : List Located} {last : Cursor}
    (htext : Cursor.units ⟨text, 1 + (above + lineBreaks line.toList + 1),
      (scan line depth).depth⟩ = (units, last)) :
    Cursor.units ⟨line.toList ++ '\n' :: text, 1 + above, depth⟩ =
      (((scan line depth).shift above).units ++ units, last) := by
  have hcomplete : ∀ unit ∈ (Cursor.units ⟨line.toList, 1 + above, depth⟩).1,
      unit.Complete := by
    rw [units_scan]
    intro unit hm
    obtain ⟨front, hfm, rfl⟩ := List.mem_map.1 hm
    exact hc.complete front hfm
  have hbehind : Cursor.units ⟨text, 1 + above + lineBreaks line.toList + 1,
      ((scan line depth).shift above).finish.depth⟩ = (units, last) := by
    rw [← htext, ← Nat.add_assoc, ← Nat.add_assoc]
    rfl
  have hline := Cursor.units_newline ⟨line.toList, 1 + above, depth⟩ text hcomplete
  rw [units_scan] at hline
  rw [hbehind] at hline
  exact hline

theorem units_joinLines (line : String) (lines : List String) (above depth : Nat)
    (hc : ∀ scan ∈ scanSession depth (line :: lines), scan.Closed) :
    let session := scanSession depth (line :: lines)
    ∃ last, (inJoined above (line :: lines) session).getLast? = some last ∧
      session.getLast?.map Scan.depth = some last.depth ∧
      Cursor.units ⟨(joinLines (line :: lines)).toList, 1 + above, depth⟩ =
        ((inJoined above (line :: lines) session).flatMap Scan.units, last.finish) := by
  -- The first line is the front of the joined text; the others are scanned from where it ends.
  induction lines generalizing line above depth with
  | nil =>
    refine ⟨(scan line depth).shift above, rfl, rfl, ?_⟩
    rw [joinLines, String.intercalate_singleton, units_scan]
    simp [inJoined, lineBreaksAbove, scanSession]
  | cons next lines ih =>
    obtain ⟨last, hlast, hdepth, hrest⟩ := ih next (above + lineBreaks line.toList + 1)
      (scan line depth).depth fun scan hm => hc scan (List.mem_cons_of_mem _ hm)
    refine ⟨last, ?_, ?_, ?_⟩
    · rw [inJoined] at hlast
      rw [scanSession, inJoined, lineBreaksAbove, List.zipWith_cons_cons, List.getLast?_cons, hlast]
      rfl
    · rw [scanSession, scanSession, List.getLast?_cons_cons, ← scanSession, hdepth]
    · rw [toList_joinLines, units_line (hc _ List.mem_cons_self) hrest]
      rfl

/-! ## Carriage returns -/

theorem Cursor.skipFrom_carriageReturns (line : Nat) (region : Region) {tail : List Char}
    (ht : ∀ c ∈ tail, c = '\r') : skipFrom line region tail = skipFrom line region [] := by
  induction tail with
  | nil => rfl
  | cons c tail ih =>
    obtain rfl := ht c List.mem_cons_self
    rw [← ih fun c hm => ht c (List.mem_cons_of_mem _ hm)]
    cases region with
    | code => rfl
    | lineComment => rw [skipFrom.eq_7 _ _ _ (by decide)]
    | blockComment outer => rw [skipFrom.eq_4 _ _ _ _ (by simp) (by simp) (by decide)]

theorem endsLine_carriageReturns {tail : List Char} (ht : ∀ c ∈ tail, c = '\r') :
    EndsLine tail := by
  refine ⟨fun c hc => ?_, fun line => ?_⟩
  · exact .inr (.inr (.inl (ht c (List.mem_of_mem_head? hc))))
  · rw [Cursor.skipFrom_carriageReturns line _ ht, Cursor.skipFrom_carriageReturns line _ ht]
    rfl

theorem Cursor.skip_append_carriageReturns {tail : List Char} (ht : ∀ c ∈ tail, c = '\r')
    {cursor : Cursor} (h : cursor.rest = []) : (cursor.append tail).skip = cursor := by
  obtain ⟨rest, line, depth⟩ := cursor
  obtain rfl : rest = [] := h
  change skipFrom line (.ofDepth depth) tail = _
  rw [skipFrom_carriageReturns _ _ ht]
  cases depth <;> rfl

theorem Cursor.units_carriageReturns {tail : List Char} (ht : ∀ c ∈ tail, c = '\r')
    (cursor : Cursor) (hc : ∀ unit ∈ cursor.units.1, unit.Complete) :
    (cursor.append tail).units = cursor.units := by
  have hskip := skip_append_carriageReturns ht cursor.rest_units
  have hnone : (cursor.units.2.append tail).skip.lexeme? = none := by
    rw [hskip]
    exact lexeme?_eq_none_iff.2 cursor.rest_units
  rw [units_append (endsLine_carriageReturns ht) cursor hc, units_of_none hnone, hskip,
    List.append_nil]

theorem toList_stripLineEnding {line : String} (hl : '\n' ∉ line.toList) :
    ∃ tail, line.toList = (stripLineEnding line).toList ++ tail ∧ ∀ c ∈ tail, c = '\r' := by
  refine ⟨(line.toList.reverse.takeWhile isLineEnd).reverse, ?_, fun c hm => ?_⟩
  · rw [stripLineEnding, String.toList_ofList, ← List.reverse_append,
      List.takeWhile_append_dropWhile, List.reverse_reverse]
  · have hm := List.mem_reverse.1 hm
    have hend : isLineEnd c := List.all_eq_true.1 List.all_takeWhile c hm
    have hline : c ∈ line.toList := List.mem_reverse.1 ((List.takeWhile_prefix _).mem hm)
    have hne : c ≠ '\n' := by
      rintro rfl
      exact hl hline
    simpa [isLineEnd, hne] using hend

theorem scan_stripLineEnding {line : String} {depth : Nat} (hl : '\n' ∉ line.toList)
    (hc : (scan line depth).Closed ∨ (scan (stripLineEnding line) depth).Closed) :
    scan (stripLineEnding line) depth = scan line depth := by
  obtain ⟨tail, hline, ht⟩ := toList_stripLineEnding hl
  have hwhole : Cursor.start line.toList depth =
      (Cursor.start (stripLineEnding line).toList depth).append tail := by
    rw [hline]
    rfl
  have hq : '"' ∉ tail := fun hm => absurd (ht _ hm) (by decide)
  have hfront : ∀ unit ∈ (Cursor.start (stripLineEnding line).toList depth).units.1,
      unit.Complete := by
    rcases hc with hc | hc
    · refine Cursor.complete_of_append (endsLine_carriageReturns ht) hq _ ?_
      rw [← hwhole]
      exact hc.complete
    · exact hc.complete
  rw [scan, scan, hwhole, Cursor.units_carriageReturns ht _ hfront]

theorem scanSession_stripLineEnding {lines : List String} {depth : Nat}
    (hl : ∀ line ∈ lines, '\n' ∉ line.toList)
    (hc : (∀ scan ∈ scanSession depth lines, scan.Closed) ∨
      ∀ scan ∈ scanSession depth (lines.map stripLineEnding), scan.Closed) :
    scanSession depth (lines.map stripLineEnding) = scanSession depth lines := by
  induction lines generalizing depth with
  | nil => rfl
  | cons line lines ih =>
    simp only [List.map_cons, scanSession, List.forall_mem_cons] at hl hc ⊢
    have hscan := scan_stripLineEnding hl.1 (hc.imp And.left And.left)
    rw [hscan] at hc ⊢
    rw [ih hl.2 (hc.imp And.right And.right)]

/-- Scanning lines one after another agrees with scanning the joined text, if no line leaves a
string open. It makes no difference then whether the lines lose their carriage returns first. -/
theorem scan_joinLines (depth : Nat) (line : String) (lines : List String) :
    ((∀ scan ∈ scanSession depth (line :: lines), scan.Closed) →
      (scan (joinLines (line :: lines)) depth).IsJoined (line :: lines)
        (scanSession depth (line :: lines))) ∧
    ((∀ line' ∈ line :: lines, '\n' ∉ line'.toList) →
      ((∀ scan ∈ scanSession depth (line :: lines), scan.Closed) ∨
        ∀ scan ∈ scanSession depth ((line :: lines).map stripLineEnding), scan.Closed) →
      (scan (joinLines (line :: lines)) depth).IsJoined (line :: lines)
        (scanSession depth ((line :: lines).map stripLineEnding))) := by
  have hjoined (hc : ∀ scan ∈ scanSession depth (line :: lines), scan.Closed) :
      (scan (joinLines (line :: lines)) depth).IsJoined (line :: lines)
        (scanSession depth (line :: lines)) := by
    obtain ⟨last, hlast, hdepth, hunits⟩ := units_joinLines line lines 0 depth hc
    have hscan : scan (joinLines (line :: lines)) depth = ⟨_, last.finish⟩ :=
      congrArg (fun p : List Located × Cursor => Scan.mk p.1 p.2) hunits
    exact Scan.isJoined_of_units hlast (by rw [hscan]) (by rw [hscan]) hdepth
  refine ⟨hjoined, fun hl hc => ?_⟩
  have hsession := scanSession_stripLineEnding hl hc
  rw [hsession, or_self] at hc
  rw [hsession]
  exact hjoined hc

theorem scan_joinLines_openComment :
    (∀ line ∈ ["1/*\r", "*/+\r"], '\n' ∉ String.toList line) ∧
    (∀ scan ∈ scanSession 0 ["1/*\r", "*/+\r"], scan.Closed) ∧
    (scan (joinLines ["1/*\r", "*/+\r"]) 0).IsJoined ["1/*\r", "*/+\r"]
      (scanSession 0 (["1/*\r", "*/+\r"].map stripLineEnding)) := by
  have hlines : ∀ line ∈ ["1/*\r", "*/+\r"], '\n' ∉ String.toList line := by decide
  have hfirst : scan "1/*\r" 0 = ⟨[⟨1, .number ['1']⟩], ⟨[], 1, 1⟩⟩ := by
    rw [scan, show "1/*\r".toList = ['1', '/', '*', '\r'] from rfl,
      Cursor.units_of_some rfl, Cursor.units_of_none rfl]
    rfl
  have hsecond : scan "*/+\r" 1 = ⟨[⟨1, .symbol .plus⟩], ⟨[], 1, 0⟩⟩ := by
    rw [scan, show "*/+\r".toList = ['*', '/', '+', '\r'] from rfl,
      Cursor.units_of_some rfl, Cursor.units_of_none rfl]
    rfl
  have hclosed : ∀ scan ∈ scanSession 0 ["1/*\r", "*/+\r"], scan.Closed := by
    rw [scanSession, hfirst, scanSession]
    change ∀ s ∈ [_, scan "*/+\r" 1], s.Closed
    rw [hsecond]
    simp [Scan.Closed, Scan.reports, Scan.errors, Located.error?, Located.outcome, Lexeme.outcome]
  exact ⟨hlines, hclosed, (scan_joinLines 0 _ _).2 hlines (.inl hclosed)⟩

end LoxFrontEnd
