/-! Quoted strings. Inside quotes a backslash escapes exactly the next character, so the closing
quote is the first one that no backslash escapes. Five escapes stand for one character each; any
other keeps its backslash. -/

namespace LoxFrontEnd.Quoted
set_option autoImplicit false

/-! ## The end of a string -/

/-- Moves characters of a string's body onto `body`, which is kept backwards. -/
def closeOnto (body : List Char) : List Char → Option (List Char × List Char)
  | [] => none
  | '"' :: cs => some (body.reverse, cs)
  | '\\' :: c :: cs => closeOnto (c :: '\\' :: body) cs
  | c :: cs => closeOnto (c :: body) cs

/-- Splits what follows an opening quote into the body of the string and what follows its closing
quote; none when no unescaped quote follows. -/
def close? (text : List Char) : Option (List Char × List Char) := closeOnto [] text

theorem closeOnto_eq (body text : List Char) :
    closeOnto body text = (close? text).map fun p => (body.reverse ++ p.1, p.2) := by
  have shift : ∀ (text front body : List Char),
      closeOnto (front ++ body) text =
        (closeOnto front text).map fun p => (body.reverse ++ p.1, p.2) := by
    intro text front body
    fun_induction closeOnto front text with
    | case1 => simp [closeOnto]
    | case2 => simp [closeOnto]
    | case3 front c cs ih => simpa [closeOnto] using ih
    | case4 front c cs h1 h2 ih => rw [closeOnto.eq_4 _ _ _ h1 h2]; simpa using ih
  simpa [close?] using shift text [] body

@[simp] theorem close?_nil : close? [] = none := rfl

@[simp] theorem close?_quote (cs : List Char) : close? ('"' :: cs) = some ([], cs) := rfl

@[simp] theorem close?_escape (c : Char) (cs : List Char) :
    close? ('\\' :: c :: cs) = (close? cs).map fun p => ('\\' :: c :: p.1, p.2) :=
  closeOnto_eq [c, '\\'] cs

@[simp] theorem close?_backslash : close? ['\\'] = none := rfl

theorem close?_cons {c : Char} (cs : List Char) (hq : c ≠ '"') (hb : c ≠ '\\') :
    close? (c :: cs) = (close? cs).map fun p => (c :: p.1, p.2) := by
  rw [close?, closeOnto.eq_4 _ _ _ hq (by simp [hb]), closeOnto_eq]; rfl

/-- No text is lost: body, closing quote and rest are what was read. -/
theorem append_of_close? {text body rest : List Char} (h : close? text = some (body, rest)) :
    text = body ++ '"' :: rest := by
  induction hn : text.length using Nat.strongRecOn generalizing text body with
  | ind n ih =>
    match text with
    | [] => simp at h
    | c :: cs =>
      by_cases hq : c = '"'
      · subst hq; simp at h; simp [h]
      by_cases hb : c = '\\'
      · subst hb
        match cs with
        | [] => simp at h
        | d :: ds =>
          simp only [close?_escape, Option.map_eq_some_iff, Prod.mk.injEq, Prod.exists] at h
          obtain ⟨b, r, hc, rfl, rfl⟩ := h
          rw [ih ds.length (by simp at hn; omega) hc rfl]; rfl
      · rw [close?_cons cs hq hb] at h
        simp only [Option.map_eq_some_iff, Prod.mk.injEq, Prod.exists] at h
        obtain ⟨b, r, hc, rfl, rfl⟩ := h
        rw [ih cs.length (by simp at hn; omega) hc rfl]; rfl

/-! ## The value of a string -/

def escaped : Char → List Char
  | 'n' => ['\n']
  | 't' => ['\t']
  | 'r' => ['\r']
  | '"' => ['"']
  | '\\' => ['\\']
  | c => ['\\', c]

/-- Moves the value of a body onto `value`, which is kept backwards. -/
def unescapeOnto (value : List Char) : List Char → List Char
  | [] => value.reverse
  | '\\' :: c :: cs => unescapeOnto ((escaped c).reverse ++ value) cs
  | c :: cs => unescapeOnto (c :: value) cs

def unescape (body : List Char) : List Char := unescapeOnto [] body

theorem unescapeOnto_eq (value body : List Char) :
    unescapeOnto value body = value.reverse ++ unescape body := by
  have shift : ∀ (body front value : List Char),
      unescapeOnto (front ++ value) body = value.reverse ++ unescapeOnto front body := by
    intro body front value
    fun_induction unescapeOnto front body with
    | case1 => simp [unescapeOnto]
    | case2 front c cs ih => simpa [unescapeOnto] using ih
    | case3 front c cs h ih => rw [unescapeOnto.eq_3 _ _ _ h]; simpa using ih
  simpa [unescape] using shift body [] value

@[simp] theorem unescape_nil : unescape [] = [] := rfl

@[simp] theorem unescape_escape (c : Char) (cs : List Char) :
    unescape ('\\' :: c :: cs) = escaped c ++ unescape cs :=
  (unescapeOnto_eq ((escaped c).reverse ++ []) cs).trans (by simp)

theorem unescape_cons {c : Char} (cs : List Char) (hb : c ≠ '\\') :
    unescape (c :: cs) = c :: unescape cs := by
  rw [unescape, unescapeOnto.eq_3 _ _ _ (by simp [hb]), unescapeOnto_eq]; rfl

end LoxFrontEnd.Quoted
