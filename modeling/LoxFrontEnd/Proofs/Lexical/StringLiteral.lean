import LoxFrontEnd.Proofs.Lexical.Shift

/-! # String literals

Every string can be written as a literal (`Quoted.Writes`), and is read back from it whatever
follows; what follows is scanned as if it stood alone. The value of a literal is read from left to
right (`Quoted.Denotes`), and a literal ends at the first quote that no backslash escapes
(`Quoted.close?_eq_none_iff`). One loop does both at once (`Cursor.next_eq_readLoop`). -/

namespace LoxFrontEnd
set_option autoImplicit false

namespace Quoted

/-! ## Values and bodies -/

/-- The characters that stand for another one behind a backslash, each with the one that it stands
for. -/
def escapes : List (Char × Char) :=
  [('"', '"'), ('\\', '\\'), ('n', '\n'), ('t', '\t'), ('r', '\r')]

/-- What the body of a string denotes. A backslash escapes exactly the next character; where the
two are no escape, both stand for themselves. -/
inductive Denotes : List Char → List Char → Prop
  | nil : Denotes [] []
  | plain {c : Char} {body value : List Char} :
      c ≠ '\\' → Denotes body value → Denotes (c :: body) (c :: value)
  | escape {d c : Char} {body value : List Char} :
      (d, c) ∈ escapes → Denotes body value → Denotes ('\\' :: d :: body) (c :: value)
  | unknown {d : Char} {body value : List Char} :
      (∀ c, (d, c) ∉ escapes) → Denotes body value →
      Denotes ('\\' :: d :: body) ('\\' :: d :: value)

/-- A value in writing. Quotes and backslashes are escaped; of the others those that have an escape
may be. -/
inductive Writes : List Char → List Char → Prop
  | nil : Writes [] []
  | plain {c : Char} {value body : List Char} :
      c ≠ '"' → c ≠ '\\' → Writes value body → Writes (c :: value) (c :: body)
  | escape {d c : Char} {value body : List Char} :
      (d, c) ∈ escapes → Writes value body → Writes (c :: value) ('\\' :: d :: body)

theorem escaped_of_mem {d c : Char} (h : (d, c) ∈ escapes) : escaped d = [c] := by
  simp only [escapes, List.mem_cons, Prod.mk.injEq, List.not_mem_nil, or_false] at h
  rcases h with ⟨rfl, rfl⟩ | ⟨rfl, rfl⟩ | ⟨rfl, rfl⟩ | ⟨rfl, rfl⟩ | ⟨rfl, rfl⟩ <;> rfl

theorem escaped_of_unknown {d : Char} (h : ∀ c, (d, c) ∉ escapes) : escaped d = ['\\', d] := by
  have hne {e c : Char} (hm : (e, c) ∈ escapes) : d = e → False := by
    rintro rfl
    exact h c hm
  exact escaped.eq_6 d (hne (c := '\n') (by decide)) (hne (c := '\t') (by decide))
    (hne (c := '\r') (by decide)) (hne (c := '"') (by decide)) (hne (c := '\\') (by decide))

theorem Denotes.unescape_eq {body value : List Char} (h : Denotes body value) :
    unescape body = value := by
  induction h with
  | nil => rfl
  | plain hc _ ih => rw [unescape_cons _ hc, ih]
  | escape hm _ ih => rw [unescape_escape, escaped_of_mem hm, ih, List.singleton_append]
  | unknown hm _ ih => rw [unescape_escape, escaped_of_unknown hm, ih]; rfl

theorem denotes_unescape {body : List Char} (h : StringBody body) :
    Denotes body (unescape body) := by
  induction h with
  | nil => exact .nil
  | plain _ hb _ ih =>
    rw [unescape_cons _ hb]
    exact .plain hb ih
  | @escape d body _ ih =>
    rw [unescape_escape]
    by_cases hd : ∃ c, (d, c) ∈ escapes
    · obtain ⟨c, hm⟩ := hd
      rw [escaped_of_mem hm]
      exact .escape hm ih
    · have hnone : ∀ c, (d, c) ∉ escapes := fun c hm => hd ⟨c, hm⟩
      rw [escaped_of_unknown hnone]
      exact .unknown hnone ih

namespace Writes
variable {value body : List Char}

theorem stringBody (h : Writes value body) : StringBody body := by
  induction h with
  | nil => exact .nil
  | plain hq hb _ ih => exact .plain hq hb ih
  | escape _ _ ih => exact .escape ih

theorem denotes (h : Writes value body) : Denotes body value := by
  induction h with
  | nil => exact .nil
  | plain _ hb _ ih => exact .plain hb ih
  | escape hm _ ih => exact .escape hm ih

end Writes

theorem exists_writes (value : List Char) : ∃ body, Writes value body := by
  induction value with
  | nil => exact ⟨[], .nil⟩
  | cons c value ih =>
    obtain ⟨body, hbody⟩ := ih
    by_cases hq : c = '"'
    · subst hq
      exact ⟨_, .escape (d := '"') (by decide) hbody⟩
    by_cases hb : c = '\\'
    · subst hb
      exact ⟨_, .escape (d := '\\') (by decide) hbody⟩
    · exact ⟨_, .plain hq hb hbody⟩

/-! ## The closing quote -/

/-- A text in a string escapes the character behind it: it ends with a backslash that is not
escaped itself. -/
def escapesNext (text : List Char) : Bool :=
  text.foldl (fun escaped c => !escaped && c = '\\') false

theorem escapesNext_cons {c : Char} (h : c ≠ '\\') (text : List Char) :
    escapesNext (c :: text) = escapesNext text := by
  simp [escapesNext, h]

theorem escapesNext_escape (c : Char) (text : List Char) :
    escapesNext ('\\' :: c :: text) = escapesNext text := by
  simp [escapesNext]

/-- Something holds of the text in front of every quote: of no text where a quote stands first,
and with the first character in front behind that. -/
theorem forall_quote_cons {P : List Char → Prop} {c : Char} {text : List Char} :
    (∀ before behind, c :: text = before ++ '"' :: behind → P before) ↔
      (c = '"' → P []) ∧ ∀ before behind, text = before ++ '"' :: behind → P (c :: before) := by
  constructor
  · intro h
    refine ⟨fun hc => h [] text (by rw [hc]; rfl), fun before behind ht => ?_⟩
    exact h (c :: before) behind (by rw [ht]; rfl)
  · rintro ⟨hfirst, hbehind⟩ before behind h
    cases before with
    | nil => exact hfirst (List.cons.inj h).1
    | cons b before =>
      obtain ⟨rfl, ht⟩ := List.cons.inj h
      exact hbehind before behind ht

/-- A string is never closed when every quote behind its opening one is escaped. -/
theorem close?_eq_none_iff {text : List Char} :
    close? text = none ↔ ∀ before behind, text = before ++ '"' :: behind → escapesNext before := by
  induction hn : text.length using Nat.strongRecOn generalizing text with
  | ind n ih =>
    match text with
    | [] => simp
    | c :: cs =>
      rw [forall_quote_cons]
      by_cases hq : c = '"'
      · subst hq
        simp [escapesNext]
      by_cases hb : c = '\\'
      · subst hb
        match cs with
        | [] => simp
        | d :: ds =>
          -- Two characters go at once, and the second may be a quote.
          have hds := @ih ds.length (by simp at hn; omega) ds rfl
          have hfirst : escapesNext ['\\'] = true := rfl
          rw [forall_quote_cons, close?_escape, Option.map_eq_none_iff, hds]
          simp only [escapesNext_escape, hfirst, hq, false_implies, implies_true, true_and]
      · have hcs := @ih cs.length (by simp at hn; omega) cs rfl
        rw [close?_cons cs hq hb, Option.map_eq_none_iff, hcs]
        simp only [escapesNext_cons hb, hq, false_implies, true_and]

-- Two backslashes leave a quote alone, a third one escapes it.
example : close? ['\\', '\\', '"'] = some (['\\', '\\'], []) := rfl

example : close? ['\\', '\\', '\\', '"'] = none := rfl

/-! ## Reading in one pass -/

/-- The loop behind an opening quote, one character at a time and two where the first is a
backslash. `value` is kept backwards. It yields the value, the line where the string ends and what
follows it, or the last line of a text that ends inside the string. -/
def readLoop (line : Nat) (value : List Char) :
    List Char → Except Nat (List Char × Nat × List Char)
  | [] => .error line
  | '"' :: cs => .ok (value.reverse, line, cs)
  | ['\\'] => .error line
  | '\\' :: c :: cs =>
    readLoop (if c = '\n' then line + 1 else line) ((escaped c).reverse ++ value) cs
  | '\n' :: cs => readLoop (line + 1) ('\n' :: value) cs
  | c :: cs => readLoop line (c :: value) cs

/-- Cutting a string out and then taking its value is reading it in one pass. -/
theorem readLoop_eq (line : Nat) (value text : List Char) :
    readLoop line value text =
      match close? text with
      | some (body, rest) => .ok (value.reverse ++ unescape body, line + lineBreaks body, rest)
      | none => .error (line + lineBreaks text) := by
  fun_induction readLoop line value text with
  | case1 line value => rfl
  | case2 line value cs => simp
  | case3 line value => rfl
  | case4 line value c cs ih =>
    have hbreaks (cs : List Char) : line + lineBreaks ('\\' :: c :: cs) =
        (if c = '\n' then line + 1 else line) + lineBreaks cs := by
      rw [lineBreaks_cons _ (by decide)]
      split
      · next hc => rw [hc, lineBreaks_newline]; omega
      · next hc => rw [lineBreaks_cons _ hc]
    rw [ih, close?_escape]
    cases close? cs with
    | none => simp [hbreaks]
    | some p => simp [hbreaks]
  | case5 line value cs ih =>
    rw [ih, close?_cons cs (by decide) (by decide)]
    cases close? cs with
    | none => simp; omega
    | some p => simp [unescape_cons]; omega
  | case6 line value c cs hq hlast hb hn ih =>
    have hslash : c ≠ '\\' := by
      rintro rfl
      cases cs with
      | nil => exact hlast rfl rfl
      | cons d cs => exact hb d cs rfl rfl
    rw [ih, close?_cons cs hq hslash]
    cases close? cs with
    | none => simp [lineBreaks_cons _ hn]
    | some p => simp [lineBreaks_cons _ hn, unescape_cons _ hslash]

end Quoted

namespace Cursor

theorem skip_quote (line : Nat) (text : List Char) :
    skip ⟨'"' :: text, line, 0⟩ = ⟨'"' :: text, line, 0⟩ := rfl

theorem next_quoted {text body rest : List Char} (line : Nat)
    (h : Quoted.close? text = some (body, rest)) :
    next ⟨'"' :: text, line, 0⟩ =
      ((Lexeme.quoted body).outcome line,
        ⟨rest, line + lineBreaks (Lexeme.quoted body).text, 0⟩) := by
  rw [next, skip_quote, lexeme?]
  simp only [Lexeme.split_quoted h]
  rfl

theorem next_unterminated {text : List Char} (line : Nat) (h : Quoted.close? text = none) :
    next ⟨'"' :: text, line, 0⟩ =
      ((Lexeme.unterminated text).outcome line,
        ⟨[], line + lineBreaks (Lexeme.unterminated text).text, 0⟩) := by
  rw [next, skip_quote, lexeme?]
  simp only [Lexeme.split_unterminated h]
  rfl

/-- A string is scanned by one loop over what follows its opening quote. -/
theorem next_eq_readLoop (line : Nat) (text : List Char) :
    next ⟨'"' :: text, line, 0⟩ =
      match Quoted.readLoop line [] text with
      | .ok (value, last, rest) =>
        let lexeme := '"' :: text.take (text.length - rest.length)
        (.ok ⟨.string, String.ofList lexeme, some (.string (String.ofList value)), line⟩,
          ⟨rest, last, 0⟩)
      | .error last => (.error (.unterminatedString last), ⟨[], last, 0⟩) := by
  have hquote (text : List Char) : lineBreaks ('"' :: text) = lineBreaks text :=
    lineBreaks_cons text (by decide)
  rw [Quoted.readLoop_eq]
  cases h : Quoted.close? text with
  | none =>
    rw [next_unterminated line h, Lexeme.text, hquote]
    rfl
  | some p =>
    obtain ⟨body, rest⟩ := p
    have htext := Quoted.append_of_close? h
    have htake : text.take (text.length - rest.length) = body ++ ['"'] := by
      have happend : text = (body ++ ['"']) ++ rest := by rw [htext]; simp
      rw [happend]
      exact List.take_left' (by simp; omega)
    have hbreaks : lineBreaks (body ++ ['"']) = lineBreaks body := by
      rw [lineBreaks_append, hquote, lineBreaks_nil, Nat.add_zero]
    rw [next_quoted line h, Lexeme.text, hquote, hbreaks]
    simp only [htake]
    rfl

/-! ## One call after another -/

/-- The cursor behind `n` calls. -/
def afterCalls : Nat → Cursor → Cursor
  | 0, cursor => cursor
  | n + 1, cursor => afterCalls n cursor.next.2

/-- What the call behind `n` others answers. -/
def answer (n : Nat) (cursor : Cursor) : Except ScanError Token := (cursor.afterCalls n).next.1

theorem afterCalls_shift (above n : Nat) (cursor : Cursor) :
    (cursor.shift above).afterCalls n = (cursor.afterCalls n).shift above := by
  induction n generalizing cursor with
  | zero => rfl
  | succ n ih =>
    show (cursor.shift above).next.2.afterCalls n = (cursor.next.2.afterCalls n).shift above
    rw [next_shift, ih]

theorem answer_shift (above n : Nat) (cursor : Cursor) :
    (cursor.shift above).answer n = shiftOutcome above (cursor.answer n) := by
  rw [answer, afterCalls_shift, next_shift]
  rfl

/-- A literal at the front of a source: the first call reads its value, and the calls after it are
those of what follows alone, further down by the line breaks in the literal. -/
theorem answers_literal {value : String} {body : List Char}
    (h : Quoted.Writes value.toList body) (rest : List Char) :
    let literal := '"' :: (body ++ ['"'])
    let cursor := start (literal ++ rest) 0
    cursor.answer 0 = .ok ⟨.string, String.ofList literal, some (.string value), 1⟩ ∧
    ∀ n, cursor.answer (n + 1) = shiftOutcome (lineBreaks literal) ((start rest 0).answer n) := by
  intro literal cursor
  have hclose : Quoted.close? (body ++ ['"'] ++ rest) = some (body, rest) := by
    rw [List.append_assoc]
    exact h.stringBody.close?_append rest
  have hvalue : String.ofList (Quoted.unescape body) = value := by
    rw [h.denotes.unescape_eq, String.ofList_toList]
  have hnext : cursor.next = (.ok ⟨.string, String.ofList literal, some (.string value), 1⟩,
      (start rest 0).shift (lineBreaks literal)) := by
    show next ⟨'"' :: (body ++ ['"'] ++ rest), 1, 0⟩ = _
    rw [next_quoted 1 hclose, ← hvalue]
    rfl
  refine ⟨congrArg Prod.fst hnext, fun n => ?_⟩
  show (cursor.next.2.afterCalls n).next.1 = _
  rw [hnext]
  exact answer_shift ..

/-- The first call on a text that starts with a quote finds no end of the string just when every
other quote is escaped. -/
theorem answer_unterminated_iff (text : List Char) :
    (∃ line, (start ('"' :: text) 0).answer 0 = .error (.unterminatedString line)) ↔
      ∀ before behind, text = before ++ '"' :: behind → Quoted.escapesNext before := by
  rw [← Quoted.close?_eq_none_iff]
  show (∃ line, (next ⟨'"' :: text, 1, 0⟩).1 = .error (.unterminatedString line)) ↔ _
  cases h : Quoted.close? text with
  | none =>
    rw [next_unterminated 1 h]
    exact iff_of_true ⟨_, rfl⟩ rfl
  | some p =>
    rw [next_quoted 1 h]
    simp [Lexeme.outcome]

end Cursor

/-! ## Scanning -/

theorem Lexeme.stringBody_of_split {c : Char} {cs body : List Char}
    (h : (split c cs).1 = quoted body) : StringBody body := by
  have hlexeme : IsLexeme (split c cs).1.text .string := isLexeme_split (by rw [h]; rfl)
  rw [h] at hlexeme
  generalize htext : (quoted body).text = text at hlexeme
  cases hlexeme with
  | @string body' hbody =>
    obtain rfl : body = body' := by simpa [text] using htext
    exact hbody

theorem Located.quoted_of_string {unit : Located} {token : Token} (h : unit.token? = some token)
    (hkind : token.kind = .string) : ∃ body, unit.lexeme = .quoted body := by
  obtain ⟨line, lexeme⟩ := unit
  cases lexeme with
  | quoted body => exact ⟨body, rfl⟩
  | stray c | unterminated body => cases h
  | word text =>
    obtain rfl := Option.some.inj h
    have hword : Kind.ofWord (String.ofList text) = .string := hkind
    unfold Kind.ofWord at hword
    split at hword <;> cases hword
  | number text | symbol s =>
    obtain rfl := Option.some.inj h
    cases hkind

/-- The value of a string in a scan is what the text between its quotes denotes. -/
theorem Scan.denotes_of_string {source : String} {depth : Nat} {token : Token}
    (hm : token ∈ (scan source depth).tokens) (hkind : token.kind = .string) :
    ∃ body value, token.lexeme.toList = '"' :: (body ++ ['"']) ∧
      token.literal = some (.string value) ∧ Quoted.Denotes body value.toList := by
  rcases List.mem_append.1 hm with hunits | heof
  · obtain ⟨⟨line, lexeme⟩, hunit, ht⟩ := List.mem_filterMap.1 hunits
    obtain ⟨body, rfl⟩ := Located.quoted_of_string ht hkind
    obtain ⟨c, cs, hsplit⟩ := Cursor.exists_split_of_mem_units hunit
    have hbody := Lexeme.stringBody_of_split hsplit.symm
    obtain rfl := Option.some.inj ht
    refine ⟨body, _, String.toList_ofList, rfl, ?_⟩
    rw [String.toList_ofList]
    exact Quoted.denotes_unescape hbody
  · rw [List.mem_singleton.1 heof] at hkind
    cases hkind

/-- Every string can be written as a literal, and every literal is read back whatever follows;
what follows is scanned as if it stood alone. Conversely the value of every string in a scan is
what the text between its quotes denotes, and a string never ends just when every quote behind its
first one is escaped. -/
theorem scan_stringLiterals :
    (∀ value : String, ∃ body, Quoted.Writes value.toList body) ∧
    (∀ (value : String) (body rest : List Char), Quoted.Writes value.toList body →
      let literal := '"' :: (body ++ ['"'])
      let cursor := Cursor.start (literal ++ rest) 0
      cursor.answer 0 = .ok ⟨.string, String.ofList literal, some (.string value), 1⟩ ∧
      ∀ n, cursor.answer (n + 1) =
        shiftOutcome (lineBreaks literal) ((Cursor.start rest 0).answer n)) ∧
    (∀ (source : String) (depth : Nat), ∀ token ∈ (scan source depth).tokens,
      token.kind = .string →
      ∃ body value, token.lexeme.toList = '"' :: (body ++ ['"']) ∧
        token.literal = some (.string value) ∧ Quoted.Denotes body value.toList) ∧
    ∀ text, (∃ line, (Cursor.start ('"' :: text) 0).answer 0 =
        .error (.unterminatedString line)) ↔
      ∀ before behind, text = before ++ '"' :: behind → Quoted.escapesNext before :=
  ⟨fun value => Quoted.exists_writes value.toList,
    fun _ _ rest h => Cursor.answers_literal h rest,
    fun _ _ _ hm hkind => Scan.denotes_of_string hm hkind,
    Cursor.answer_unterminated_iff⟩

end LoxFrontEnd
