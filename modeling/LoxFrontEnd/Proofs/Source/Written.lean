import LoxFrontEnd.Proofs.Grammar.Derivation
import LoxFrontEnd.Proofs.Lexical.Seam
import LoxFrontEnd.Proofs.Number.Numeral

/-! # Trees in writing

`Expr.Written expr source` says that `source` writes a tree as the concatenation of its lexemes,
with nothing between them. Numbers are written with digits and at most one point inside them
(`Numeral`) and read back as the nearest double (`Numeral.ofText?_text`); strings have a backslash
in front of every quote and backslash (`Quoted.encode`) and read back as they are
(`Quoted.unescape_encode`). -/

namespace LoxFrontEnd
set_option autoImplicit false

/-! ## Strings -/

namespace Quoted

/-- The body of the string with a value. -/
def encode : List Char → List Char
  | [] => []
  | c :: cs => if c = '"' ∨ c = '\\' then '\\' :: c :: encode cs else c :: encode cs

theorem stringBody_encode (value : List Char) : StringBody (encode value) := by
  induction value with
  | nil => exact .nil
  | cons c cs ih =>
    rw [encode]
    split
    · exact .escape ih
    · next h =>
      obtain ⟨hq, hb⟩ := not_or.1 h
      exact .plain hq hb ih

theorem unescape_encode (value : List Char) : unescape (encode value) = value := by
  induction value with
  | nil => rfl
  | cons c cs ih =>
    rw [encode]
    split
    · next h =>
      have hc : escaped c = [c] := by rcases h with rfl | rfl <;> rfl
      rw [unescape_escape, hc, ih, List.singleton_append]
    · next h => rw [unescape_cons _ fun hb => h (.inr hb), ih]

end Quoted

/-! ## Trees -/

inductive Value.Written : Value → String → Prop
  | true : Written (.bool true) "true"
  | false : Written (.bool false) "false"
  | nil : Written .nil "nil"
  | number (numeral : Numeral) : Written (.number numeral.value) (String.ofList numeral.text)
  | string (value : String) :
      Written (.string value) ("\"" ++ String.ofList (Quoted.encode value.toList) ++ "\"")

inductive Expr.Written : Expr → String → Prop
  | literal {value : Value} {source : String} :
      value.Written source → Written (.literal value) source
  | grouping {inner : Expr} {source : String} :
      Written inner source → Written (.grouping inner) ("(" ++ source ++ ")")
  | unary {op : UnaryOp} {operand : Expr} {source : String} :
      Written operand source → Written (.unary op operand) (op.symbol.text ++ source)
  | binary {op : BinaryOp} {left right : Expr} {before behind : String} :
      Written left before → Written right behind →
      Written (.binary left op right) (before ++ op.symbol.text ++ behind)

/-- Every number in the tree is the value of a numeral. -/
def Expr.HasNumerals : Expr → Prop
  | literal (.number value) => ∃ numeral : Numeral, numeral.value = value
  | literal _ => True
  | grouping inner => inner.HasNumerals
  | unary _ operand => operand.HasNumerals
  | binary left _ right => left.HasNumerals ∧ right.HasNumerals

theorem Expr.HasNumerals.exists_written {expr : Expr} (h : expr.HasNumerals) :
    ∃ source, expr.Written source := by
  induction expr with
  | literal value =>
    cases value with
    | bool value =>
      cases value with
      | true => exact ⟨_, .literal .true⟩
      | false => exact ⟨_, .literal .false⟩
    | number value =>
      obtain ⟨numeral, rfl⟩ := h
      exact ⟨_, .literal (.number numeral)⟩
    | string value => exact ⟨_, .literal (.string value)⟩
    | nil => exact ⟨_, .literal .nil⟩
  | grouping inner ih =>
    obtain ⟨source, hw⟩ := ih h
    exact ⟨_, .grouping hw⟩
  | unary op operand ih =>
    obtain ⟨source, hw⟩ := ih h
    exact ⟨_, .unary hw⟩
  | binary left op right ihl ihr =>
    obtain ⟨before, hl⟩ := ihl h.1
    obtain ⟨behind, hr⟩ := ihr h.2
    exact ⟨_, .binary hl hr⟩

end LoxFrontEnd
