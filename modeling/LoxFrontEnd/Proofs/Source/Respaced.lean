import LoxFrontEnd.Proofs.Lexical.Session
import LoxFrontEnd.Proofs.Source.Content

/-! # Writing a source again

The lexemes of a source can be written again with any other separators that start with a blank:
they are scanned to the same tokens and parsed to the same result, up to their lines
(`scan_respaced`). A lexeme is scanned whole in front of a blank, whatever stood behind it
before. -/

namespace LoxFrontEnd
set_option autoImplicit false

/-- The lexemes of tokens in their order, each with spacing behind it that starts with a blank. -/
inductive Respaced : List Token → List Char → Prop
  | nil : Respaced [] []
  | cons {token : Token} {tokens : List Token} {c : Char} {gap text : List Char} :
      IsBlank c → Spacing 0 gap → Respaced tokens text →
      Respaced (token :: tokens) (token.lexeme.toList ++ (c :: gap ++ text))

/-- A token of a scan is that of a whole lexeme. -/
theorem Scan.exists_whole_of_mem {source : String} {depth : Nat} {token : Token}
    (h : token ∈ (scan source depth).units.filterMap Located.token?) :
    ∃ unit : Located, unit.lexeme.Whole ∧ unit.token? = some token := by
  obtain ⟨unit, hm, ht⟩ := List.mem_filterMap.1 h
  obtain ⟨c, cs, hsplit⟩ := Cursor.exists_split_of_mem_units hm
  obtain ⟨⟨kind, hkind⟩, -⟩ := Located.lexeme_of_token? ht
  rw [hsplit] at hkind
  exact ⟨unit, hsplit ▸ Lexeme.whole_split hkind, ht⟩

theorem Respaced.arranged {tokens : List Token} {text : List Char} (h : Respaced tokens text)
    (ht : ∀ token ∈ tokens, ∃ unit : Located, unit.lexeme.Whole ∧ unit.token? = some token) :
    ∃ lexemes, Arranged lexemes text ∧
      lexemes.filterMap Lexeme.content? = tokens.map Token.content := by
  induction h with
  | nil => exact ⟨[], .nil, rfl⟩
  | @cons token tokens c gap text hc hgap _ ih =>
    obtain ⟨⟨unit, hwhole, htoken⟩, ht⟩ := List.forall_mem_cons.1 ht
    obtain ⟨lexemes, harranged, hcontents⟩ := ih ht
    obtain ⟨⟨kind, hkind⟩, htext⟩ := Located.lexeme_of_token? htoken
    have hcontent : unit.lexeme.content? = some token.content := by
      rw [← unit.content_token?, htoken]
      rfl
    have hcomplete (body : List Char) : unit.lexeme ≠ .unterminated body := by
      intro hb
      rw [hb] at hkind
      cases hkind
    have hstands : unit.lexeme.StandsBefore (c :: gap ++ text) := by
      refine StartsBlank.standsBefore (fun d hd => ?_) hcomplete
      obtain rfl : c = d := Option.some.inj hd
      exact hc
    refine ⟨unit.lexeme :: lexemes, ?_, ?_⟩
    · rw [htext]
      exact .cons hwhole (.blank hc hgap) hstands harranged
    · rw [List.filterMap_cons_some hcontent, hcontents, List.map_cons]

/-- Layout does not matter. Any source can be written again with other spacing: only the lines of
its tokens change, faults are gone and no comment is open, and parsing gives the same tree, or an
error with the same message and location. -/
theorem scan_respaced (source : String) (depth : Nat) (lead text : List Char)
    (hlead : Spacing 0 lead)
    (htext : Respaced ((scan source depth).tokens.filter fun token => !token.isEof) text) :
    let old := scan source depth
    let new := scan (String.ofList (lead ++ text)) 0
    new.tokens.map Token.content = old.tokens.map Token.content ∧ new.reports = [] ∧
      new.depth = 0 ∧
      (parse new.tokens).mapError ParseError.saying =
        (parse old.tokens).mapError ParseError.saying := by
  intro old new
  rw [Scan.filter_tokens] at htext
  obtain ⟨lexemes, harranged, hcontents⟩ := htext.arranged fun _ => Scan.exists_whole_of_mem
  obtain ⟨htokens, hreports, hdepth⟩ := scan_arranged harranged hlead
  have hsame : new.tokens.map Token.content = old.tokens.map Token.content := by
    rw [htokens, hcontents, Scan.tokens, List.map_append]
    rfl
  exact ⟨hsame, hreports, hdepth, parse_eq_of_content hsame⟩

theorem scan_respaced_commentMarks :
    Spacing 0 "//*\n".toList ∧
    Respaced ((scan "*/-.1\"/*\n\"@" 1).tokens.filter fun token => !token.isEof)
      "- /*\"*/.\n1\r\"/*\n\"\t//\n".toList ∧
    let new := scan (String.ofList ("//*\n".toList ++ "- /*\"*/.\n1\r\"/*\n\"\t//\n".toList)) 0
    new.tokens.map Token.content = [⟨.symbol .minus, "-", none⟩, ⟨.symbol .dot, ".", none⟩,
      ⟨.number, "1", (Double.ofText? ['1']).map .number⟩,
      ⟨.string, "\"/*\n\"", some (.string "/*\n")⟩, ⟨.eof, "", none⟩] ∧
    new.reports = [] ∧ new.depth = 0 ∧
    (parse new.tokens).mapError ParseError.saying = .error ("Expect expression.", " at '.'") := by
  have hscan : scan "*/-.1\"/*\n\"@" 1 = ⟨[⟨1, .symbol .minus⟩, ⟨1, .symbol .dot⟩,
      ⟨1, .number ['1']⟩, ⟨1, .quoted ['/', '*', '\n']⟩, ⟨2, .stray '@'⟩], ⟨[], 2, 0⟩⟩ := by
    rw [scan, show "*/-.1\"/*\n\"@".toList =
        ['*', '/', '-', '.', '1', '"', '/', '*', '\n', '"', '@'] from rfl, Cursor.units_of_some rfl, Cursor.units_of_some rfl, Cursor.units_of_some rfl,
      Cursor.units_of_some rfl, Cursor.units_of_some rfl, Cursor.units_of_none rfl]
    rfl
  have hlead : Spacing 0 "//*\n".toList := @Spacing.lineComment ['*'] [] (by decide) .nil
  have hcomment : Spacing 0 ['/', '*', '"', '*', '/'] :=
    .opening (.inside (by decide) (by decide) (.closing .nil))
  have hline : Spacing 0 ['/', '/', '\n'] := @Spacing.lineComment [] [] (by decide) .nil
  have htext : Respaced ((scan "*/-.1\"/*\n\"@" 1).tokens.filter fun token => !token.isEof)
      "- /*\"*/.\n1\r\"/*\n\"\t//\n".toList := by
    rw [hscan]
    exact .cons (c := ' ') (.inl rfl) hcomment (.cons (c := '\n') (.inr (.inr (.inr rfl))) .nil
      (.cons (c := '\r') (.inr (.inr (.inl rfl))) .nil
        (.cons (c := '\t') (.inr (.inl rfl)) hline .nil)))
  obtain ⟨htokens, hreports, hdepth, hparse⟩ := scan_respaced _ 1 _ _ hlead htext
  rw [hscan] at htokens hparse
  exact ⟨hlead, htext, htokens, hreports, hdepth, hparse⟩

end LoxFrontEnd
