import LoxFrontEnd.Proofs.Lexical.Boundary
import LoxFrontEnd.Proofs.Lexical.Shift

/-! # The balance of comment marks

Open block comments that a text continues are as good as opening marks in front of it. Inside them
only the balance of the marks counts (`Cursor.skipFrom_marks`): the comments end where it first
comes to zero, and what follows is scanned as if it stood alone, further down by the line breaks in
front of it (`scan_openComments`). The counter of the two loops that skip trivia is never taken
below zero (`Cursor.triviaLoop_eq_skip`). -/

namespace LoxFrontEnd
set_option autoImplicit false

/-- What a text is inside block comments: the two marks, and every other character by itself. -/
inductive Mark
  | opening
  | closing
  | plain (c : Char)
  deriving DecidableEq

namespace Mark

def text : Mark → List Char
  | opening => ['/', '*']
  | closing => ['*', '/']
  | plain c => [c]

def weight : Mark → Int
  | opening => 1
  | closing => -1
  | plain _ => 0

end Mark

/-- Reads a text from left to right. Each mark takes both of its characters. -/
def marks : List Char → List Mark
  | '/' :: '*' :: cs => .opening :: marks cs
  | '*' :: '/' :: cs => .closing :: marks cs
  | c :: cs => .plain c :: marks cs
  | [] => []

def textOf (ms : List Mark) : List Char := ms.flatMap Mark.text

/-- How many comments are open behind marks that are read with `depth` comments open. -/
def balance (depth : Nat) (ms : List Mark) : Int := ms.foldl (fun n m => n + m.weight) depth

/-- The balance is not zero before the last mark has been read. -/
def StaysOpen (depth : Nat) (ms : List Mark) : Prop :=
  ∀ n < ms.length, balance depth (ms.take n) ≠ 0

theorem textOf_cons (m : Mark) (ms : List Mark) : textOf (m :: ms) = m.text ++ textOf ms := rfl

theorem textOf_append (ms ms' : List Mark) : textOf (ms ++ ms') = textOf ms ++ textOf ms' :=
  List.flatMap_append

theorem textOf_marks (text : List Char) : textOf (marks text) = text := by
  fun_induction marks text with
  | case1 cs ih | case2 cs ih => rw [textOf_cons, ih]; rfl
  | case3 c cs _ _ ih => rw [textOf_cons, ih]; rfl
  | case4 => rfl

@[simp] theorem balance_nil (depth : Nat) : balance depth [] = depth := rfl

theorem balance_cons {depth after : Nat} {m : Mark} (h : (after : Int) = depth + m.weight)
    (ms : List Mark) : balance depth (m :: ms) = balance after ms := by
  rw [balance, List.foldl_cons, ← h]
  rfl

theorem StaysOpen.depth_ne_zero {depth : Nat} {m : Mark} {ms : List Mark}
    (h : StaysOpen depth (m :: ms)) : depth ≠ 0 := by
  have hzero := h 0 (Nat.succ_pos _)
  rw [List.take_zero, balance_nil] at hzero
  omega

theorem StaysOpen.tail {depth after : Nat} {m : Mark} {ms : List Mark}
    (h : StaysOpen depth (m :: ms)) (ha : (after : Int) = depth + m.weight) :
    StaysOpen after ms := by
  intro n hn
  have hnext := h (n + 1) (Nat.succ_lt_succ hn)
  rwa [List.take_succ_cons, balance_cons ha] at hnext

namespace Cursor

/-! ## Skipping by marks -/

/-- One mark inside comments moves their number by its weight, and the line by its line breaks. -/
theorem skipFrom_mark {depth : Nat} (hd : depth ≠ 0) {m : Mark} {cs : List Char}
    (hm : marks (m.text ++ cs) = m :: marks cs) (line : Nat) :
    ∃ after : Nat, (after : Int) = depth + m.weight ∧
      skipFrom line (.ofDepth depth) (m.text ++ cs) =
        skipFrom (line + lineBreaks m.text) (.ofDepth after) cs := by
  obtain ⟨outer, rfl⟩ := Nat.exists_eq_succ_of_ne_zero hd
  cases m with
  | opening =>
    have hweight : ((outer + 2 : Nat) : Int) = (outer + 1 : Nat) + 1 := by omega
    exact ⟨outer + 2, hweight, skipFrom_opening line _ cs⟩
  | closing =>
    have hweight : (outer : Int) = (outer + 1 : Nat) + -1 := by omega
    exact ⟨outer, hweight, skipFrom_closing line _ cs⟩
  | plain c =>
    refine ⟨outer + 1, by simp [Mark.weight], skipFrom_inside line outer ?_ ?_⟩
    · intro hp
      obtain ⟨rfl, tail, rfl⟩ := List.cons_prefix_cons.1 hp
      simp [Mark.text, marks] at hm
    · intro hp
      obtain ⟨rfl, tail, rfl⟩ := List.cons_prefix_cons.1 hp
      simp [Mark.text, marks] at hm

theorem marks_cons {text : List Char} {m : Mark} {ms : List Mark} (h : marks text = m :: ms) :
    ∃ cs, text = m.text ++ cs ∧ marks cs = ms := by
  unfold marks at h
  split at h <;> simp only [List.cons.injEq, reduceCtorEq] at h <;> obtain ⟨rfl, rfl⟩ := h
  · exact ⟨_, rfl, rfl⟩
  · exact ⟨_, rfl, rfl⟩
  · exact ⟨_, rfl, rfl⟩

theorem skipFrom_marks {depth : Nat} {text : List Char} {before behind : List Mark}
    (hm : marks text = before ++ behind) (ho : StaysOpen depth before) (line : Nat) :
    ∃ after : Nat, (after : Int) = balance depth before ∧
      skipFrom line (.ofDepth depth) text =
        skipFrom (line + lineBreaks (textOf before)) (.ofDepth after) (textOf behind) := by
  induction before generalizing depth text line with
  | nil =>
    refine ⟨depth, (balance_nil depth).symm, ?_⟩
    rw [← show marks text = behind from hm, textOf_marks]
    rfl
  | cons m before ih =>
    obtain ⟨cs, rfl, hcs⟩ := marks_cons hm
    have hmark : marks (m.text ++ cs) = m :: marks cs := by rw [hm, hcs]; rfl
    obtain ⟨after, ha, hskip⟩ := skipFrom_mark ho.depth_ne_zero hmark line
    obtain ⟨last, hl, hrest⟩ := ih hcs (ho.tail ha) (line + lineBreaks m.text)
    refine ⟨last, by rw [hl, balance_cons ha], ?_⟩
    rw [hskip, hrest, textOf_cons, lineBreaks_append, Nat.add_assoc]

theorem skipFrom_openings (depth count line : Nat) (text : List Char) :
    skipFrom line (.ofDepth depth) (textOf (List.replicate count .opening) ++ text) =
      skipFrom line (.ofDepth (depth + count)) text := by
  induction count generalizing depth with
  | zero => rfl
  | succ count ih =>
    rw [List.replicate_succ, ← Nat.succ_add_eq_add_succ, ← ih]
    exact skipFrom_opening line depth _

theorem skipFrom_closings (depth line : Nat) (text : List Char) :
    skipFrom line (.ofDepth depth) (textOf (List.replicate depth .closing) ++ text) =
      skipFrom line .code text := by
  induction depth with
  | zero => rfl
  | succ depth ih =>
    rw [List.replicate_succ, ← ih]
    exact skipFrom_closing line depth _

/-! ## The counter of the loops -/

/-- Takes one away from a counter, if it is not zero. -/
def lower? : Nat → Option Nat
  | 0 => none
  | n + 1 => some n

/-- The loop inside block comments. It runs until its counter is zero or the text ends. -/
def commentLoop (line depth : Nat) (text : List Char) : Option Cursor :=
  if depth = 0 then some ⟨text, line, depth⟩
  else match text with
    | [] => some ⟨[], line, depth⟩
    | '/' :: '*' :: cs => commentLoop line (depth + 1) cs
    | '*' :: '/' :: cs => (lower? depth).bind fun depth => commentLoop line depth cs
    | '\n' :: cs => commentLoop (line + 1) depth cs
    | _ :: cs => commentLoop line depth cs

theorem length_commentLoop {line depth : Nat} {text : List Char} {stop : Cursor}
    (h : commentLoop line depth text = some stop) : stop.rest.length ≤ text.length := by
  fun_induction commentLoop line depth text with
  | case1 | case2 => obtain rfl := Option.some.inj h; exact Nat.le_refl _
  | case3 line depth hd cs ih => exact Nat.le_add_right_of_le (Nat.le_succ_of_le (ih h))
  | case4 line depth hd cs ih =>
    obtain ⟨outer, -, hloop⟩ := Option.bind_eq_some_iff.1 h
    exact Nat.le_add_right_of_le (Nat.le_succ_of_le (ih outer hloop))
  | case5 line depth hd cs ih => exact Nat.le_succ_of_le (ih h)
  | case6 line depth hd c cs _ _ _ ih => exact Nat.le_succ_of_le (ih h)

/-- The loop between lexemes. It opens block comments too, and hands them to the other loop. -/
def triviaLoop (cursor : Cursor) : Option Cursor :=
  match _h : commentLoop cursor.line cursor.depth cursor.rest with
  | none => none
  | some stop =>
    if stop.depth ≠ 0 then some stop
    else match _hr : stop.rest with
      | ' ' :: cs | '\r' :: cs | '\t' :: cs => triviaLoop ⟨cs, stop.line, stop.depth⟩
      | '\n' :: cs => triviaLoop ⟨cs, stop.line + 1, stop.depth⟩
      | '/' :: '/' :: cs => triviaLoop ⟨cs.dropWhile fun c => c ≠ '\n', stop.line, stop.depth⟩
      | '/' :: '*' :: cs => triviaLoop ⟨cs, stop.line, stop.depth + 1⟩
      | _ => some stop
termination_by cursor.rest.length
decreasing_by
  all_goals
    have hlength := length_commentLoop _h
    have hline := (List.dropWhile_sublist (fun c : Char => decide (c ≠ '\n')) (l := cs)).length_le
    simp only [_hr, List.length_cons] at hlength
    omega

/-- Where the inner loop stops, skipping goes on between lexemes, or the text has ended. -/
theorem commentLoop_eq (line depth : Nat) (text : List Char) :
    ∃ stop, commentLoop line depth text = some stop ∧
      skipFrom line (.ofDepth depth) text =
        if stop.depth = 0 then skipFrom stop.line .code stop.rest else stop := by
  fun_induction commentLoop line depth text with
  | case1 line text => exact ⟨_, rfl, rfl⟩
  | case2 line depth hd =>
    obtain ⟨outer, rfl⟩ := Nat.exists_eq_succ_of_ne_zero hd
    exact ⟨_, rfl, rfl⟩
  | case3 line depth hd cs ih =>
    obtain ⟨stop, hstop, hskip⟩ := ih
    exact ⟨stop, hstop, by rw [skipFrom_opening, hskip]⟩
  | case4 line depth hd cs ih =>
    obtain ⟨outer, rfl⟩ := Nat.exists_eq_succ_of_ne_zero hd
    obtain ⟨stop, hstop, hskip⟩ := ih outer
    exact ⟨stop, hstop, by rw [skipFrom_closing, hskip]⟩
  | case5 line depth hd cs ih =>
    obtain ⟨outer, rfl⟩ := Nat.exists_eq_succ_of_ne_zero hd
    obtain ⟨stop, hstop, hskip⟩ := ih
    refine ⟨stop, hstop, ?_⟩
    rw [← hskip]
    exact skipFrom.eq_3 line outer cs
  | case6 line depth hd c cs ho hc hb ih =>
    obtain ⟨outer, rfl⟩ := Nat.exists_eq_succ_of_ne_zero hd
    obtain ⟨stop, hstop, hskip⟩ := ih
    refine ⟨stop, hstop, ?_⟩
    rw [← hskip]
    exact skipFrom.eq_4 line outer c cs ho hc hb

theorem skipFrom_lineComment_eq (line : Nat) (text : List Char) :
    skipFrom line .lineComment text = skipFrom line .code (text.dropWhile fun c => c ≠ '\n') := by
  induction text with
  | nil => rfl
  | cons c cs ih =>
    by_cases hc : c = '\n'
    · subst hc
      exact skipFrom_lineComment_break line cs
    · rw [skipFrom.eq_7 line c cs hc, ih, List.dropWhile_cons_of_pos (by simpa using hc)]

theorem skip_of_commentLoop {cursor stop : Cursor}
    (h : commentLoop cursor.line cursor.depth cursor.rest = some stop) :
    cursor.skip = if stop.depth = 0 then skipFrom stop.line .code stop.rest else stop := by
  obtain ⟨stop', hstop, hskip⟩ := commentLoop_eq cursor.line cursor.depth cursor.rest
  obtain rfl : stop = stop' := Option.some.inj (h.symm.trans hstop)
  exact hskip

theorem triviaLoop_eq_skip (cursor : Cursor) : cursor.triviaLoop = some cursor.skip := by
  fun_induction triviaLoop cursor with
  | case1 cursor hnone =>
    obtain ⟨stop, hstop, -⟩ := commentLoop_eq cursor.line cursor.depth cursor.rest
    rw [hstop] at hnone
    contradiction
  | case2 cursor stop hstop hd => rw [skip_of_commentLoop hstop, if_neg hd]
  | case3 cursor stop hstop hd cs hr ih
  | case4 cursor stop hstop hd cs hr ih
  | case5 cursor stop hstop hd cs hr ih
  | case6 cursor stop hstop hd cs hr ih
  | case8 cursor stop hstop hd cs hr ih =>
    have hzero : stop.depth = 0 := Decidable.not_not.1 hd
    rw [ih, skip_of_commentLoop hstop, if_pos hzero, hr, hzero]
    rfl
  | case7 cursor stop hstop hd cs hr ih =>
    have hzero : stop.depth = 0 := Decidable.not_not.1 hd
    rw [ih, skip_of_commentLoop hstop, if_pos hzero, hr, hzero, skipFrom, skipFrom_lineComment_eq]
    rfl
  | case9 cursor stop hstop hd h1 h2 h3 h4 h5 h6 =>
    obtain ⟨rest, line, depth⟩ := stop
    obtain rfl : depth = 0 := Decidable.not_not.1 hd
    rw [skip_of_commentLoop hstop, if_pos rfl, skipFrom.eq_15 _ _ h1 h2 h3 h4 h5 h6]

end Cursor

/-! ## Scanning -/

theorem scan_eq_of_skip {source source' : String} {depth depth' above : Nat}
    (h : (Cursor.start source.toList depth).skip =
      Cursor.skip ⟨source'.toList, 1 + above, depth'⟩) :
    scan source depth = (scan source' depth').shift above := by
  have hunits := Cursor.units_congr h
  rw [units_scan] at hunits
  rw [scan, hunits]

theorem Scan.shift_zero (scan : Scan) : scan.shift 0 = scan := by
  have hunits : Located.shift 0 = id := rfl
  rw [shift, hunits, List.map_id]
  rfl

/-- Open comments are interchangeable with the text of their marks. -/
theorem scan_openings (source : String) (depth : Nat) :
    scan (String.ofList (textOf (List.replicate depth .opening) ++ source.toList)) 0 =
      scan source depth := by
  rw [← Scan.shift_zero (scan source depth)]
  refine scan_eq_of_skip ?_
  have h := Cursor.skipFrom_openings 0 depth 1 source.toList
  rw [Nat.zero_add] at h
  rw [String.toList_ofList]
  exact h

theorem scan_closings (source : String) (depth : Nat) :
    scan (String.ofList (textOf (List.replicate depth .closing) ++ source.toList)) depth =
      scan source 0 := by
  rw [← Scan.shift_zero (scan source 0)]
  refine scan_eq_of_skip ?_
  rw [String.toList_ofList]
  exact Cursor.skipFrom_closings depth 1 source.toList

theorem scan_of_balance_zero {source : String} {depth : Nat} {before behind : List Mark}
    (hm : marks source.toList = before ++ behind) (ho : StaysOpen depth before)
    (hz : balance depth before = 0) :
    scan source depth =
      (scan (String.ofList (textOf behind)) 0).shift (lineBreaks (textOf before)) := by
  obtain ⟨after, ha, hskip⟩ := Cursor.skipFrom_marks hm ho 1
  obtain rfl : after = 0 := by omega
  refine scan_eq_of_skip ?_
  rw [String.toList_ofList]
  exact hskip

theorem scan_of_staysOpen {source : String} {depth : Nat}
    (ho : StaysOpen depth (marks source.toList)) (hz : balance depth (marks source.toList) ≠ 0) :
    ∃ after : Nat, (after : Int) = balance depth (marks source.toList) ∧
      scan source depth = ⟨[], ⟨[], 1 + lineBreaks source.toList, after⟩⟩ := by
  obtain ⟨after, ha, hskip⟩ := Cursor.skipFrom_marks (List.append_nil _).symm ho 1
  obtain ⟨outer, rfl⟩ : ∃ outer, after = outer + 1 := Nat.exists_eq_succ_of_ne_zero (by omega)
  have hend : (Cursor.start source.toList depth).skip =
      ⟨[], 1 + lineBreaks source.toList, outer + 1⟩ := by
    rw [textOf_marks] at hskip
    exact hskip
  refine ⟨outer + 1, ha, ?_⟩
  rw [scan, Cursor.units_of_none (by rw [hend]; rfl), hend]

/-- Open comments and comment text are interchangeable. A text that continues open comments is
scanned from where the balance of its marks first comes to zero as if what is left stood alone; if
the balance never does, nothing is scanned and the balance is what is left open. No counter is
taken below zero. -/
theorem scan_openComments (source : String) (depth : Nat) :
    scan (String.ofList (textOf (List.replicate depth .opening) ++ source.toList)) 0 =
      scan source depth ∧
    scan (String.ofList (textOf (List.replicate depth .closing) ++ source.toList)) depth =
      scan source 0 ∧
    (∀ before behind, marks source.toList = before ++ behind → StaysOpen depth before →
      0 ≤ balance depth before ∧
      (balance depth before = 0 →
        let inner := scan source depth
        let rest := scan (String.ofList (textOf behind)) 0
        let lines := lineBreaks (textOf before)
        source.toList = textOf before ++ textOf behind ∧
        inner.tokens = rest.tokens.map (Token.shift lines) ∧
        inner.reports = rest.reports.map (Report.shift lines) ∧ inner.depth = rest.depth)) ∧
    (StaysOpen depth (marks source.toList) → balance depth (marks source.toList) ≠ 0 →
      (scan source depth).tokens = [.eof (1 + lineBreaks source.toList)] ∧
      (scan source depth).reports = [] ∧
      ((scan source depth).depth : Int) = balance depth (marks source.toList)) ∧
    ∀ cursor : Cursor, cursor.triviaLoop = some cursor.skip := by
  refine ⟨scan_openings source depth, scan_closings source depth, ?_, ?_,
    Cursor.triviaLoop_eq_skip⟩
  · intro before behind hm ho
    obtain ⟨after, ha, -⟩ := Cursor.skipFrom_marks hm ho 1
    refine ⟨by omega, fun hz => ?_⟩
    have htext : source.toList = textOf before ++ textOf behind := by
      rw [← textOf_append, ← hm, textOf_marks]
    have hscan := scan_of_balance_zero hm ho hz
    intro inner rest lines
    change inner = rest.shift lines at hscan
    rw [hscan, Scan.tokens_shift, Scan.reports_shift]
    exact ⟨htext, rfl, rfl, rfl⟩
  · intro ho hz
    obtain ⟨after, ha, hscan⟩ := scan_of_staysOpen ho hz
    rw [hscan]
    exact ⟨rfl, rfl, ha⟩

theorem scan_openComments_overlap :
    marks "/*/\n*/*/-".toList =
      [.opening, .plain '/', .plain '\n', .closing, .closing] ++ [.plain '-'] ∧
    StaysOpen 1 [.opening, .plain '/', .plain '\n', .closing, .closing] ∧
    balance 1 [.opening, .plain '/', .plain '\n', .closing, .closing] = 0 ∧
    (scan "/*/\n*/*/-" 1).tokens = [⟨.symbol .minus, "-", none, 2⟩, .eof 2] ∧
    (scan "/*/\n*/*/-" 1).depth = 0 ∧
    StaysOpen 2 (marks "*//*".toList) ∧ balance 2 (marks "*//*".toList) ≠ 0 ∧
    (scan "*//*" 2).tokens = [.eof 1] ∧ (scan "*//*" 2).depth = 2 := by
  have hmarks : marks "/*/\n*/*/-".toList =
      [.opening, .plain '/', .plain '\n', .closing, .closing] ++ [.plain '-'] := by decide
  have hopen : StaysOpen 1 [.opening, .plain '/', .plain '\n', .closing, .closing] := by
    unfold StaysOpen; decide
  have hzero : balance 1 [.opening, .plain '/', .plain '\n', .closing, .closing] = 0 := by decide
  have hrest : scan (String.ofList (textOf [.plain '-'])) 0 =
      ⟨[⟨1, .symbol .minus⟩], ⟨[], 1, 0⟩⟩ := by
    rw [scan, String.toList_ofList, Cursor.units_of_some rfl, Cursor.units_of_none rfl]
    rfl
  obtain ⟨-, -, hinner, -⟩ := scan_openComments "/*/\n*/*/-" 1
  obtain ⟨-, htokens, -, hdepth⟩ := (hinner _ _ hmarks hopen).2 hzero
  have hstays : StaysOpen 2 (marks "*//*".toList) := by unfold StaysOpen; decide
  have hnonzero : balance 2 (marks "*//*".toList) ≠ 0 := by decide
  obtain ⟨-, -, -, hnever, -⟩ := scan_openComments "*//*" 2
  obtain ⟨hend, -, hleft⟩ := hnever hstays hnonzero
  rw [hrest] at htokens hdepth
  exact ⟨hmarks, hopen, hzero, htokens, hdepth, hstays, hnonzero, hend, Int.ofNat_inj.1 hleft⟩

end LoxFrontEnd
