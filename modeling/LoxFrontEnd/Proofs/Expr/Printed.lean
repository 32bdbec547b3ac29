import LoxFrontEnd.Expr.Basic
import LoxFrontEnd.Proofs.Number.ReadBack

/-! # The printed tree determines the tree

A printed tree is words, blanks and parentheses. A word is over where a blank or a closing
parenthesis stands (`word_append_inj`), so a printed tree in front of such a place determines both
the tree and the place (`Expr.text_append_inj`). Trees with string literals are left out: a string
prints as it is, and may look like anything. -/

namespace LoxFrontEnd
set_option autoImplicit false

/-! ## Words -/

/-- Neither a blank nor a parenthesis. -/
def IsInk (c : Char) : Prop := c ≠ ' ' ∧ c ≠ '(' ∧ c ≠ ')'

instance (c : Char) : Decidable (IsInk c) := inferInstanceAs (Decidable (_ ∧ _))

/-- For single texts, so that only their own characters are looked at. -/
theorem isInk_of_all {word : List Char} (h : word.all fun c => decide (IsInk c)) :
    ∀ c ∈ word, IsInk c := by
  simpa using h

/-- A word is over in front of the text. -/
def EndsWord (rest : List Char) : Prop := ∀ c ∈ rest.head?, c = ' ' ∨ c = ')'

theorem endsWord_nil : EndsWord [] := nofun

theorem endsWord_blank (rest : List Char) : EndsWord (' ' :: rest) := by simp [EndsWord]

theorem endsWord_closing (rest : List Char) : EndsWord (')' :: rest) := by simp [EndsWord]

theorem takeWhile_word {word rest : List Char} (hw : ∀ c ∈ word, IsInk c) (hr : EndsWord rest) :
    (word ++ rest).takeWhile (fun c => decide (IsInk c)) = word := by
  have hhead : ∀ c ∈ rest.head?, ¬ decide (IsInk c) := by
    intro c hc
    rcases hr c hc with rfl | rfl <;> decide
  rw [takeWhile_append_of_head hhead, List.takeWhile_eq_self_iff.2 (by simpa using hw)]

theorem word_append_inj {word word' rest rest' : List Char} (hw : ∀ c ∈ word, IsInk c)
    (hw' : ∀ c ∈ word', IsInk c) (hr : EndsWord rest) (hr' : EndsWord rest')
    (h : word ++ rest = word' ++ rest') : word = word' ∧ rest = rest' := by
  have hword : word = word' := by rw [← takeWhile_word hw hr, h, takeWhile_word hw' hr']
  subst hword
  exact ⟨rfl, List.append_cancel_left h⟩

/-! ## The text of a number -/

theorem isInk_of_isDigit {c : Char} (h : c.isDigit) : IsInk c := by
  refine ⟨?_, ?_, ?_⟩ <;> rintro rfl <;> exact absurd h (by decide)

theorem isInk_toDigits (n : Nat) : ∀ c ∈ Nat.toDigits 10 n, IsInk c := fun c hc =>
  isInk_of_isDigit (Nat.isDigit_of_mem_toDigits (by decide) (by decide) hc)

theorem isInk_replicate (n : Nat) : ∀ c ∈ List.replicate n '0', IsInk c := by
  intro c hc
  rw [List.eq_of_mem_replicate hc]
  decide

namespace Decimal

theorem isInk_significant (n : Nat) : ∀ c ∈ significant (Nat.toDigits 10 n), IsInk c := by
  obtain ⟨zeros, hsplit⟩ := exists_significant_append (Nat.toDigits 10 n)
  intro c hc
  exact isInk_toDigits n c (hsplit ▸ List.mem_append_left _ hc)

theorem isInk_signed (exponent : Int) : ∀ c ∈ signed exponent, IsInk c := by
  cases exponent with
  | ofNat n => exact isInk_toDigits n
  | negSucc n => exact List.forall_mem_cons.2 ⟨by decide, isInk_toDigits (n + 1)⟩

section
variable {digits : List Char} (hd : ∀ d ∈ digits, IsInk d)
include hd

theorem isInk_positional (point : Int) : ∀ c ∈ positional digits point, IsInk c := by
  have hzero : ∀ c ∈ ['0'], IsInk c := isInk_of_all (by decide)
  cases point with
  | ofNat point =>
    have hwhole : ∀ c ∈ (digits ++ List.replicate (point - digits.length) '0').take point,
        IsInk c := fun c hc =>
      List.forall_mem_append.2 ⟨hd, isInk_replicate _⟩ c (List.mem_of_mem_take hc)
    have hfraction : ∀ c ∈ digits.drop point, IsInk c := fun c hc => hd c (List.mem_of_mem_drop hc)
    refine List.forall_mem_append.2 ⟨?_, List.forall_mem_cons.2 ⟨by decide, ?_⟩⟩
    · split <;> assumption
    · split <;> assumption
  | negSucc zeros =>
    exact List.forall_mem_cons.2 ⟨by decide, List.forall_mem_cons.2 ⟨by decide,
      List.forall_mem_append.2 ⟨isInk_replicate _, hd⟩⟩⟩

theorem isInk_scientific (exponent : Int) : ∀ c ∈ scientific digits exponent, IsInk c := by
  have hfirst : ∀ c ∈ digits.take 1, IsInk c := fun c hc => hd c (List.mem_of_mem_take hc)
  have hrest : ∀ c ∈ '.' :: digits.drop 1, IsInk c :=
    List.forall_mem_cons.2 ⟨by decide, fun c hc => hd c (List.mem_of_mem_drop hc)⟩
  refine List.forall_mem_append.2 ⟨List.forall_mem_append.2 ⟨hfirst, ?_⟩,
    List.forall_mem_cons.2 ⟨by decide, isInk_signed exponent⟩⟩
  split
  · exact nofun
  · exact hrest

end

theorem isInk_text (d : Decimal) : ∀ c ∈ d.text, IsInk c := by
  have hd := isInk_significant d.digits
  simp only [text]
  split
  · exact isInk_of_all (by decide)
  split
  · exact isInk_positional hd _
  · exact isInk_scientific hd _

end Decimal

theorem Double.isInk_text (value : Double) : ∀ c ∈ value.text, IsInk c := by
  have hsign (negative : Bool) : ∀ c ∈ sign negative, IsInk c := by
    cases negative <;> exact isInk_of_all (by decide)
  cases value with
  | nan => exact isInk_of_all (by decide)
  | infinite negative => cases negative <;> exact isInk_of_all (by decide)
  | finite negative rank =>
    refine List.forall_mem_append.2 ⟨hsign negative, ?_⟩
    split
    · exact isInk_of_all (by decide)
    · exact (shortest rank).isInk_text

/-- A text that cannot be read as a number is not the text of one. -/
theorem Double.text_ne_of_ofText?_eq_none {text : List Char} (h : ofText? text = none)
    (value : Double) : value.text ≠ text := by
  rintro rfl
  rw [ofText?_text] at h
  cases h

/-! ## Literals -/

namespace Value

def StringFree : Value → Prop
  | string _ => False
  | _ => True

def number? : Value → Option Double
  | number value => some value
  | _ => none

theorem toList_text_number (value : Double) : (number value).text.toList = value.text :=
  String.toList_ofList

/-- What a literal prints as can be read as a number only if the literal is one. -/
theorem ofText?_text {value : Value} (h : value.StringFree) :
    Double.ofText? value.text.toList = value.number? := by
  cases value with
  | bool value => cases value <;> decide +kernel
  | number value => rw [toList_text_number, Double.ofText?_text, number?]
  | string => exact h.elim
  | nil => decide +kernel

theorem text_injective {value value' : Value} (h : value.StringFree) (h' : value'.StringFree)
    (ht : value.text = value'.text) : value = value' := by
  have hread := ofText?_text h
  rw [ht, ofText?_text h'] at hread
  cases value with
  | number value =>
    cases value' with
    | number value' => exact congrArg number (Option.some.inj hread).symm
    | bool | nil => cases hread
    | string => exact h'.elim
  | string => exact h.elim
  | bool value =>
    cases value' with
    | bool value' => cases value <;> cases value' <;> first | rfl | exact absurd ht (by decide)
    | nil => cases value <;> exact absurd ht (by decide)
    | number => cases hread
    | string => exact h'.elim
  | nil =>
    cases value' with
    | bool value' => cases value' <;> exact absurd ht (by decide)
    | nil => rfl
    | number => cases hread
    | string => exact h'.elim

theorem isInk_text {value : Value} (h : value.StringFree) : ∀ c ∈ value.text.toList, IsInk c := by
  cases value with
  | bool value => cases value <;> exact isInk_of_all (by decide)
  | number value =>
    rw [toList_text_number]
    exact value.isInk_text
  | string => exact h.elim
  | nil => exact isInk_of_all (by decide)

theorem text_ne_nil {value : Value} (h : value.StringFree) : value.text.toList ≠ [] := by
  cases value with
  | bool value => cases value <;> decide
  | number value =>
    rw [toList_text_number]
    exact Double.text_ne_of_ofText?_eq_none (by decide +kernel) value
  | string => exact h.elim
  | nil => decide

end Value

/-! ## Trees -/

theorem UnaryOp.isInk_text (op : UnaryOp) : ∀ c ∈ op.symbol.text.toList, IsInk c := by
  cases op <;> exact isInk_of_all (by decide)

theorem UnaryOp.text_injective {op op' : UnaryOp}
    (h : op.symbol.text.toList = op'.symbol.text.toList) : op = op' := by
  cases op <;> cases op' <;> first | rfl | exact absurd h (by decide)

theorem BinaryOp.isInk_text (op : BinaryOp) : ∀ c ∈ op.symbol.text.toList, IsInk c := by
  cases op <;> exact isInk_of_all (by decide)

theorem BinaryOp.text_injective {op op' : BinaryOp}
    (h : op.symbol.text.toList = op'.symbol.text.toList) : op = op' := by
  cases op <;> cases op' <;> first | rfl | exact absurd h (by decide)

namespace Expr

/-- No string, whatever it looks like, is among the literals. -/
def StringFree : Expr → Prop
  | literal value => value.StringFree
  | grouping inner => inner.StringFree
  | unary _ operand => operand.StringFree
  | binary left _ right => left.StringFree ∧ right.StringFree

theorem text_grouping_append (inner : Expr) (rest : List Char) :
    (grouping inner).text.toList ++ rest =
      '(' :: ("group".toList ++ ' ' :: (inner.text.toList ++ ')' :: rest)) := by
  simp

theorem text_unary_append (op : UnaryOp) (operand : Expr) (rest : List Char) :
    (unary op operand).text.toList ++ rest =
      '(' :: (op.symbol.text.toList ++ ' ' :: (operand.text.toList ++ ')' :: rest)) := by
  simp

theorem text_binary_append (left : Expr) (op : BinaryOp) (right : Expr) (rest : List Char) :
    (binary left op right).text.toList ++ rest =
      '(' :: (op.symbol.text.toList ++ ' ' ::
        (left.text.toList ++ ' ' :: (right.text.toList ++ ')' :: rest))) := by
  simp

/-- The first words in two pairs of parentheses are the same if the pairs are. -/
theorem head_append_inj {word word' rest rest' : List Char} (hw : ∀ c ∈ word, IsInk c)
    (hw' : ∀ c ∈ word', IsInk c) (h : '(' :: (word ++ ' ' :: rest) = '(' :: (word' ++ ' ' :: rest')) :
    word = word' ∧ rest = rest' := by
  obtain ⟨hword, hrest⟩ :=
    word_append_inj hw hw' (endsWord_blank rest) (endsWord_blank rest') (List.cons.inj h).2
  exact ⟨hword, (List.cons.inj hrest).2⟩

theorem not_literal_of_cons {value : Value} (h : value.StringFree) {rest rest' : List Char}
    (heq : (literal value).text.toList ++ rest = '(' :: rest') : False := by
  obtain ⟨c, cs, hcons⟩ := List.exists_cons_of_ne_nil (Value.text_ne_nil h)
  have hink : IsInk c := Value.isInk_text h c (hcons ▸ List.mem_cons_self)
  rw [text_literal, hcons] at heq
  exact hink.2.1 (List.cons.inj heq).1

/-- A printed tree in front of a place where a word is over determines both. -/
theorem text_append_inj {first second : Expr} (hf : first.StringFree) (hs : second.StringFree)
    {rest rest' : List Char} (hr : EndsWord rest) (hr' : EndsWord rest')
    (h : first.text.toList ++ rest = second.text.toList ++ rest') :
    first = second ∧ rest = rest' := by
  have hgroup : ∀ c ∈ "group".toList, IsInk c := isInk_of_all (by decide)
  induction first generalizing second rest rest' with
  | literal value =>
    cases second with
    | literal value' =>
      rw [text_literal, text_literal] at h
      obtain ⟨ht, hrest⟩ :=
        word_append_inj (Value.isInk_text hf) (Value.isInk_text hs) hr hr' h
      exact ⟨congrArg literal (Value.text_injective hf hs (String.toList_injective ht)), hrest⟩
    | grouping inner => exact (not_literal_of_cons hf (h.trans (text_grouping_append ..))).elim
    | unary op operand => exact (not_literal_of_cons hf (h.trans (text_unary_append ..))).elim
    | binary left op right =>
      exact (not_literal_of_cons hf (h.trans (text_binary_append ..))).elim
  | grouping inner ih =>
    rw [text_grouping_append] at h
    cases second with
    | literal value => exact (not_literal_of_cons hs h.symm).elim
    | grouping inner' =>
      have hs' : inner'.StringFree := hs
      rw [text_grouping_append] at h
      obtain ⟨-, hbody⟩ := head_append_inj hgroup hgroup h
      obtain ⟨rfl, hrest⟩ := ih hf hs' (endsWord_closing rest) (endsWord_closing rest') hbody
      exact ⟨rfl, (List.cons.inj hrest).2⟩
    | unary op operand =>
      rw [text_unary_append] at h
      obtain ⟨hword, -⟩ := head_append_inj hgroup op.isInk_text h
      cases op <;> exact absurd hword (by decide)
    | binary left op right =>
      rw [text_binary_append] at h
      obtain ⟨hword, -⟩ := head_append_inj hgroup op.isInk_text h
      cases op <;> exact absurd hword (by decide)
  | unary op operand ih =>
    rw [text_unary_append] at h
    cases second with
    | literal value => exact (not_literal_of_cons hs h.symm).elim
    | grouping inner =>
      rw [text_grouping_append] at h
      obtain ⟨hword, -⟩ := head_append_inj op.isInk_text hgroup h
      cases op <;> exact absurd hword (by decide)
    | unary op' operand' =>
      have hs' : operand'.StringFree := hs
      rw [text_unary_append] at h
      obtain ⟨hword, hbody⟩ := head_append_inj op.isInk_text op'.isInk_text h
      obtain rfl := UnaryOp.text_injective hword
      obtain ⟨rfl, hrest⟩ := ih hf hs' (endsWord_closing rest) (endsWord_closing rest') hbody
      exact ⟨rfl, (List.cons.inj hrest).2⟩
    | binary left op' right =>
      -- The same symbol may stand in front of one operand or two: what follows the first tells.
      rw [text_binary_append] at h
      obtain ⟨-, hbody⟩ := head_append_inj op.isInk_text op'.isInk_text h
      obtain ⟨-, hrest⟩ := ih hf hs.1 (endsWord_closing rest) (endsWord_blank _) hbody
      exact absurd (List.cons.inj hrest).1 (by decide)
  | binary left op right ihl ihr =>
    rw [text_binary_append] at h
    cases second with
    | literal value => exact (not_literal_of_cons hs h.symm).elim
    | grouping inner =>
      rw [text_grouping_append] at h
      obtain ⟨hword, -⟩ := head_append_inj op.isInk_text hgroup h
      cases op <;> exact absurd hword (by decide)
    | unary op' operand =>
      have hs' : operand.StringFree := hs
      rw [text_unary_append] at h
      obtain ⟨-, hbody⟩ := head_append_inj op.isInk_text op'.isInk_text h
      obtain ⟨-, hrest⟩ := ihl hf.1 hs' (endsWord_blank _) (endsWord_closing rest') hbody
      exact absurd (List.cons.inj hrest).1 (by decide)
    | binary left' op' right' =>
      rw [text_binary_append] at h
      obtain ⟨hword, hbody⟩ := head_append_inj op.isInk_text op'.isInk_text h
      obtain rfl := BinaryOp.text_injective hword
      obtain ⟨rfl, hmore⟩ := ihl hf.1 hs.1 (endsWord_blank _) (endsWord_blank _) hbody
      obtain ⟨rfl, hrest⟩ := ihr hf.2 hs.2 (endsWord_closing rest) (endsWord_closing rest')
        (List.cons.inj hmore).2
      exact ⟨rfl, (List.cons.inj hrest).2⟩

/-- No two trees are printed alike. All NaNs being one number, they need not be left out. -/
theorem text_eq_iff {first second : Expr} (hf : first.StringFree) (hs : second.StringFree) :
    first.text = second.text ↔ first = second := by
  refine ⟨fun h => ?_, congrArg text⟩
  have happend : first.text.toList ++ [] = second.text.toList ++ [] := by rw [h]
  exact (text_append_inj hf hs endsWord_nil endsWord_nil happend).1

/-- Where the minus sign stands in front of one operand or two, the parentheses tell. -/
theorem text_eq_iff_minus :
    let zero : Expr := .literal (.number (.finite true ⟨0, by decide⟩))
    let first : Expr := .unary .negate (.binary zero .subtract (.literal .nil))
    let second : Expr := .binary (.unary .negate zero) .subtract (.literal .nil)
    first.StringFree ∧ second.StringFree ∧ first.text = "(- (- -0.0 nil))" ∧
      second.text = "(- (- -0.0) nil)" ∧ first.text ≠ second.text := by
  intro zero first second
  have hf : first.StringFree := ⟨trivial, trivial⟩
  have hs : second.StringFree := ⟨trivial, trivial⟩
  exact ⟨hf, hs, by decide +kernel, by decide +kernel, mt (text_eq_iff hf hs).1 (by decide)⟩

end Expr
end LoxFrontEnd
