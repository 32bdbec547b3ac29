import LoxFrontEnd.Scan.Lexeme

/-! # The lexemes of the language

`IsLexeme text kind` says that `text` is written as one token of a kind. The lexeme that is split
from the front of a text is in the language (`isLexeme_split`) and no longer one starts there
(`length_le_split`); where none starts, splitting finds a fault. -/

namespace LoxFrontEnd
set_option autoImplicit false

/-- What may stand between quotes: a backslash escapes exactly the next character. -/
inductive StringBody : List Char → Prop
  | nil : StringBody []
  | plain {c : Char} {text : List Char} :
      c ≠ '"' → c ≠ '\\' → StringBody text → StringBody (c :: text)
  | escape {c : Char} {text : List Char} : StringBody text → StringBody ('\\' :: c :: text)

/-- The shape of reserved words and identifiers. -/
def IsWord (text : List Char) : Prop :=
  ∃ c rest, text = c :: rest ∧ isWordStart c ∧ ∀ d ∈ rest, isWordPart d

def IsDigits (text : List Char) : Prop := text ≠ [] ∧ ∀ d ∈ text, d.isDigit

inductive IsLexeme : List Char → Kind → Prop
  | keyword (word : Keyword) : IsLexeme word.spelling.toList (.keyword word)
  | identifier {text : List Char} :
      IsWord text → (∀ word : Keyword, text ≠ word.spelling.toList) → IsLexeme text .identifier
  | whole {digits : List Char} : IsDigits digits → IsLexeme digits .number
  | fraction {digits decimals : List Char} :
      IsDigits digits → IsDigits decimals → IsLexeme (digits ++ '.' :: decimals) .number
  | string {body : List Char} : StringBody body → IsLexeme ('"' :: (body ++ ['"'])) .string
  | symbol (symbol : Symbol) : IsLexeme symbol.text.toList (.symbol symbol)

/-- No lexeme starts with the character, nor does a string that never ends. -/
structure StartsNothing (c : Char) : Prop where
  word : ¬ isWordStart c
  digit : ¬ c.isDigit
  quote : c ≠ '"'
  symbol : Symbol.single? c = none

/-- The longest lexeme in front of `rest`. -/
structure LongestLexeme (text rest : List Char) (kind : Kind) : Prop where
  isLexeme : IsLexeme text kind
  longest : ∀ longer kind', longer <+: text ++ rest → IsLexeme longer kind' →
    longer.length ≤ text.length

/-- No lexeme stands in front of a text. -/
def NoLexeme (text : List Char) : Prop := ∀ lexeme kind, lexeme <+: text → ¬ IsLexeme lexeme kind

/-! ## Classes of characters -/

theorem isWord_spelling (word : Keyword) : IsWord word.spelling.toList := by
  cases word <;> exact ⟨_, _, rfl, by decide, List.all_eq_true.1 (by decide)⟩

theorem not_isWordStart_of_isDigit {c : Char} (h : c.isDigit) : ¬ isWordStart c := by
  intro hw
  simp only [isWordStart, Bool.or_eq_true, decide_eq_true_eq] at hw
  rcases hw with hw | rfl
  · delta Char.isAlpha Char.isUpper Char.isLower at hw
    simp only [Char.isDigit, Bool.and_eq_true, Bool.or_eq_true, decide_eq_true_eq, ge_iff_le,
      UInt32.le_iff_toNat_le] at h hw
    change 48 ≤ c.val.toNat ∧ c.val.toNat ≤ 57 at h
    change 65 ≤ c.val.toNat ∧ c.val.toNat ≤ 90 ∨ 97 ≤ c.val.toNat ∧ c.val.toNat ≤ 122 at hw
    omega
  · exact absurd h (by decide)

theorem Symbol.single?_spec {c : Char} {symbol : Symbol} (h : Symbol.single? c = some symbol) :
    ¬ isWordStart c ∧ ¬ c.isDigit ∧ c ≠ '"' := by
  unfold Symbol.single? at h
  split at h <;> first | exact ⟨by decide, by decide, by decide⟩ | simp at h

theorem Symbol.text_cases (symbol : Symbol) :
    (∃ c, Symbol.single? c = some symbol ∧ symbol.text.toList = [c]) ∨
      ∃ c first, Symbol.single? c = some first ∧ first.withEqual? = some symbol ∧
        symbol.text.toList = [c, '='] := by
  cases symbol <;> first
    | exact .inl ⟨_, rfl, rfl⟩
    | exact .inr ⟨_, _, rfl, rfl, rfl⟩

theorem length_le_takeWhile {p : Char → Bool} {front text : List Char} (hp : front <+: text)
    (h : ∀ c ∈ front, p c) : front.length ≤ (text.takeWhile p).length := by
  obtain ⟨rest, rfl⟩ := hp
  rw [List.takeWhile_append_of_pos h, List.length_append]
  exact Nat.le_add_right ..

/-! ## Strings -/

theorem StringBody.close?_append {body : List Char} (h : StringBody body) (rest : List Char) :
    Quoted.close? (body ++ '"' :: rest) = some (body, rest) := by
  induction h with
  | nil => rw [List.nil_append, Quoted.close?_quote]
  | plain hq hb _ ih => rw [List.cons_append, Quoted.close?_cons _ hq hb, ih, Option.map_some]
  | escape _ ih =>
    rw [List.cons_append, List.cons_append, Quoted.close?_escape, ih, Option.map_some]

theorem stringBody_of_close? {text body rest : List Char}
    (h : Quoted.close? text = some (body, rest)) : StringBody body := by
  induction hn : text.length using Nat.strongRecOn generalizing text body with
  | ind n ih =>
    match text with
    | [] => simp at h
    | c :: cs =>
      by_cases hq : c = '"'
      · subst hq
        obtain ⟨rfl, rfl⟩ : [] = body ∧ cs = rest := by simpa using h
        exact .nil
      by_cases hb : c = '\\'
      · subst hb
        match cs with
        | [] => simp at h
        | d :: ds =>
          rw [Quoted.close?_escape, Option.map_eq_some_iff] at h
          obtain ⟨⟨inner, _⟩, hc, he⟩ := h
          obtain ⟨rfl, rfl⟩ : '\\' :: d :: inner = body ∧ _ = rest := by simpa using he
          exact .escape (ih ds.length (by simp at hn; omega) hc rfl)
      · rw [Quoted.close?_cons cs hq hb, Option.map_eq_some_iff] at h
        obtain ⟨⟨inner, _⟩, hc, he⟩ := h
        obtain ⟨rfl, rfl⟩ : c :: inner = body ∧ _ = rest := by simpa using he
        exact .plain hq hb (ih cs.length (by simp at hn; omega) hc rfl)

/-! ## Numbers -/

theorem isDigits_takeWhile {c : Char} (cs : List Char) (h : c.isDigit) :
    IsDigits (c :: cs.takeWhile Char.isDigit) := by
  refine ⟨by simp, fun d hm => ?_⟩
  rcases List.mem_cons.1 hm with rfl | hm
  · exact h
  · exact List.all_eq_true.1 List.all_takeWhile d hm

theorem isLexeme_splitNumber {c : Char} (cs : List Char) (h : c.isDigit) :
    IsLexeme (c :: (splitNumber cs).1) .number := by
  have hd := isDigits_takeWhile cs h
  unfold splitNumber
  split
  · next d rest hdrop =>
    split
    · next he => exact .fraction hd (isDigits_takeWhile rest he)
    · exact .whole hd
  · exact .whole hd

theorem takeWhile_prefix_splitNumber (cs : List Char) :
    cs.takeWhile Char.isDigit <+: (splitNumber cs).1 := by
  unfold splitNumber
  split
  · split
    · exact List.prefix_append ..
    · exact List.prefix_refl _
  · exact List.prefix_refl _

theorem splitNumber_fraction {digits decimals : List Char} (rest : List Char)
    (hd : ∀ d ∈ digits, d.isDigit) (he : IsDigits decimals) :
    digits ++ '.' :: decimals <+: (splitNumber (digits ++ '.' :: decimals ++ rest)).1 := by
  obtain ⟨hne, he⟩ := he
  obtain ⟨e, es, rfl⟩ := List.exists_cons_of_ne_nil hne
  have htake : (digits ++ '.' :: e :: es ++ rest).takeWhile Char.isDigit = digits := by
    rw [List.append_assoc, List.takeWhile_append_of_pos hd]
    simp
  have hdrop : (digits ++ '.' :: e :: es ++ rest).dropWhile Char.isDigit =
      '.' :: e :: (es ++ rest) := by
    rw [List.append_assoc, List.dropWhile_append_of_pos hd]
    simp
  have htail : (es ++ rest).takeWhile Char.isDigit = es ++ rest.takeWhile Char.isDigit :=
    List.takeWhile_append_of_pos fun d hm => he d (List.mem_cons_of_mem e hm)
  simp only [splitNumber, htake, hdrop, he e List.mem_cons_self, if_true, htail]
  exact ⟨rest.takeWhile Char.isDigit, by simp⟩

/-! ## Splitting -/

namespace Lexeme

theorem split_word {c : Char} (cs : List Char) (h : isWordStart c) :
    split c cs = (word (c :: cs.takeWhile isWordPart), cs.dropWhile isWordPart) := by
  rw [split, if_pos h]

theorem split_digit {c : Char} (cs : List Char) (h : c.isDigit) :
    split c cs = (number (c :: (splitNumber cs).1), (splitNumber cs).2) := by
  rw [split, if_neg (not_isWordStart_of_isDigit h), if_pos h]

theorem split_quoted {cs body rest : List Char} (h : Quoted.close? cs = some (body, rest)) :
    split '"' cs = (quoted body, rest) := by
  rw [split, if_neg (by decide), if_neg (by decide), if_pos rfl, h]

theorem split_unterminated {cs : List Char} (h : Quoted.close? cs = none) :
    split '"' cs = (unterminated cs, []) := by
  rw [split, if_neg (by decide), if_neg (by decide), if_pos rfl, h]

theorem split_symbol {c : Char} {s : Symbol} (cs : List Char) (h : Symbol.single? c = some s) :
    split c cs = (symbol (s.extend cs).1, (s.extend cs).2) := by
  obtain ⟨hw, hd, hq⟩ := Symbol.single?_spec h
  rw [split, if_neg hw, if_neg hd, if_neg hq, h]

theorem split_stray {c : Char} (cs : List Char) (h : StartsNothing c) :
    split c cs = (stray c, cs) := by
  rw [split, if_neg h.word, if_neg h.digit, if_neg h.quote, h.symbol]

theorem split_cases (c : Char) (cs : List Char) :
    isWordStart c ∨ c.isDigit ∨ c = '"' ∧ (∃ body rest, Quoted.close? cs = some (body, rest)) ∨
      c = '"' ∧ Quoted.close? cs = none ∨ (∃ s, Symbol.single? c = some s) ∨
      StartsNothing c := by
  by_cases hw : isWordStart c
  · exact .inl hw
  by_cases hd : c.isDigit
  · exact .inr (.inl hd)
  by_cases hq : c = '"'
  · cases hc : Quoted.close? cs with
    | none => exact .inr (.inr (.inr (.inl ⟨hq, rfl⟩)))
    | some p => exact .inr (.inr (.inl ⟨hq, p.1, p.2, rfl⟩))
  cases hs : Symbol.single? c with
  | none => exact .inr (.inr (.inr (.inr (.inr ⟨hw, hd, hq, hs⟩))))
  | some s => exact .inr (.inr (.inr (.inr (.inl ⟨s, rfl⟩))))

/-- The kind of token that a lexeme is; faults have none. -/
def kind? : Lexeme → Option Kind
  | word text => some (.ofWord (String.ofList text))
  | number _ => some .number
  | quoted _ => some .string
  | symbol s => some (.symbol s)
  | stray _ | unterminated _ => none

/-- There are two faults: a string that never ends, and a character that starts nothing. -/
theorem fault_cases {c : Char} {cs : List Char} (h : (split c cs).1.kind? = none) :
    c = '"' ∧ Quoted.close? cs = none ∨ StartsNothing c := by
  rcases split_cases c cs with hc | hc | ⟨rfl, body, rest, hc⟩ | hc | ⟨s, hc⟩ | hs
  · rw [split_word cs hc] at h
    cases h
  · rw [split_digit cs hc] at h
    cases h
  · rw [split_quoted hc] at h
    cases h
  · exact .inl hc
  · rw [split_symbol cs hc] at h
    cases h
  · exact .inr hs

theorem close?_of_unterminated {c : Char} {cs body : List Char}
    (h : (split c cs).1 = .unterminated body) : c = '"' ∧ Quoted.close? cs = none := by
  rcases fault_cases (by rw [h]; rfl) with hc | hs
  · exact hc
  · rw [split_stray cs hs] at h
    cases h

/-- A string that never ends takes all that is left. -/
theorem rest_of_unterminated {c : Char} {cs body : List Char}
    (h : (split c cs).1 = .unterminated body) : (split c cs).2 = [] := by
  obtain ⟨rfl, hc⟩ := close?_of_unterminated h
  rw [split_unterminated hc]

theorem startsNothing_of_stray {c d : Char} {cs : List Char} (h : (split c cs).1 = .stray d) :
    StartsNothing c := by
  rcases fault_cases (by rw [h]; rfl) with ⟨rfl, hc⟩ | hs
  · rw [split_unterminated hc] at h
    cases h
  · exact hs

theorem isLexeme_ofWord {text : List Char} (h : IsWord text) :
    IsLexeme text (.ofWord (String.ofList text)) := by
  unfold Kind.ofWord
  split
  · next word hk =>
    have hs := Keyword.spelling_of_ofSpelling? hk
    rw [← String.toList_ofList (l := text), ← hs]
    exact .keyword word
  · next hk =>
    refine .identifier h fun word ht => ?_
    rw [ht, String.ofList_toList, Keyword.ofSpelling?_spelling] at hk
    cases hk

theorem isLexeme_split {c : Char} {cs : List Char} {kind : Kind}
    (h : (split c cs).1.kind? = some kind) : IsLexeme (split c cs).1.text kind := by
  rcases split_cases c cs with hc | hc | ⟨rfl, body, rest, hc⟩ | ⟨rfl, hc⟩ | ⟨s, hc⟩ | hs
  · rw [split_word cs hc] at h ⊢
    obtain rfl := Option.some.inj h
    exact isLexeme_ofWord ⟨c, _, rfl, hc, List.all_eq_true.1 List.all_takeWhile⟩
  · rw [split_digit cs hc] at h ⊢
    obtain rfl := Option.some.inj h
    exact isLexeme_splitNumber cs hc
  · rw [split_quoted hc] at h ⊢
    obtain rfl := Option.some.inj h
    exact .string (stringBody_of_close? hc)
  · rw [split_unterminated hc] at h
    cases h
  · rw [split_symbol cs hc] at h ⊢
    obtain rfl := Option.some.inj h
    exact .symbol _
  · rw [split_stray cs hs] at h
    cases h

/-- Every lexeme that stands in front of a text is met by the lexeme that is split off: this one
is no fault, and at least as long. -/
theorem length_le_split {c : Char} {cs lexeme : List Char} {kind : Kind} (h : IsLexeme lexeme kind)
    (hp : lexeme <+: c :: cs) :
    (∃ kind', (split c cs).1.kind? = some kind') ∧
      lexeme.length ≤ (split c cs).1.text.length := by
  have hword {text : List Char} (hw : IsWord text) (ht : text <+: c :: cs) :
      (∃ kind', (split c cs).1.kind? = some kind') ∧
        text.length ≤ (split c cs).1.text.length := by
    obtain ⟨d, rest, rfl, hd, hrest⟩ := hw
    obtain ⟨rfl, hrp⟩ := List.cons_prefix_cons.1 ht
    rw [split_word cs hd]
    exact ⟨⟨_, rfl⟩, Nat.succ_le_succ (length_le_takeWhile hrp hrest)⟩
  cases h with
  | keyword word => exact hword (isWord_spelling word) hp
  | identifier hw => exact hword hw hp
  | whole hd =>
    obtain ⟨hne, hd⟩ := hd
    obtain ⟨d, rest, rfl⟩ := List.exists_cons_of_ne_nil hne
    obtain ⟨rfl, hrp⟩ := List.cons_prefix_cons.1 hp
    rw [split_digit cs (hd d List.mem_cons_self)]
    have htake := length_le_takeWhile hrp fun e hm => hd e (List.mem_cons_of_mem d hm)
    have hnum := (takeWhile_prefix_splitNumber cs).length_le
    exact ⟨⟨_, rfl⟩, Nat.succ_le_succ (Nat.le_trans htake hnum)⟩
  | @fraction digits decimals hd he =>
    obtain ⟨hne, hd⟩ := hd
    obtain ⟨d, rest, rfl⟩ := List.exists_cons_of_ne_nil hne
    obtain ⟨rfl, more, rfl⟩ := List.cons_prefix_cons.1 hp
    rw [split_digit _ (hd d List.mem_cons_self)]
    have hnum := splitNumber_fraction more (fun e hm => hd e (List.mem_cons_of_mem d hm)) he
    exact ⟨⟨_, rfl⟩, Nat.succ_le_succ hnum.length_le⟩
  | @string body hb =>
    obtain ⟨rfl, more, rfl⟩ := List.cons_prefix_cons.1 hp
    have hc := hb.close?_append more
    rw [← List.singleton_append, ← List.append_assoc] at hc
    rw [split_quoted hc]
    exact ⟨⟨_, rfl⟩, Nat.le_refl _⟩
  | symbol s =>
    rcases s.text_cases with ⟨d, hs, ht⟩ | ⟨d, first, hs, hw, ht⟩
    · rw [ht] at hp ⊢
      obtain ⟨rfl, -⟩ := List.cons_prefix_cons.1 hp
      rw [split_symbol cs hs]
      exact ⟨⟨_, rfl⟩, List.length_pos_iff.2 (Symbol.text_ne_nil _)⟩
    · rw [ht] at hp ⊢
      obtain ⟨rfl, more, rfl⟩ := List.cons_prefix_cons.1 hp
      rw [split_symbol _ hs, List.singleton_append, Symbol.extend, hw]
      exact ⟨⟨_, rfl⟩, Nat.le_of_eq (by rw [text, ht])⟩

end Lexeme
end LoxFrontEnd
