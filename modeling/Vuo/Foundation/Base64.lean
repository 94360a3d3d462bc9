import Mathlib.Tactic.Common

/-!
# Base64

The standard encoding with padding: three bytes become four letters of the
alphabet, and a last group of one or two bytes is filled up.
-/

namespace Vuo.Foundation.Base64

def alphabet : List Char :=
  "ABCDEFGHIJKLMNOPQRSTUVWXYZabcdefghijklmnopqrstuvwxyz0123456789+/".toList

/-- The letter of six bits. -/
def letter (n : ℕ) : Char :=
  alphabet.getD (n % 64) 'A'

def encode : List UInt8 → List Char
  | [] => []
  | [a] => [letter (a.toNat / 4), letter (a.toNat * 16), '=', '=']
  | [a, b] =>
      [letter (a.toNat / 4), letter (a.toNat * 16 + b.toNat / 16), letter (b.toNat * 4), '=']
  | a :: b :: c :: bytes =>
      [letter (a.toNat / 4), letter (a.toNat * 16 + b.toNat / 16),
        letter (b.toNat * 4 + c.toNat / 64), letter c.toNat] ++ encode bytes

theorem length_encode (bytes : List UInt8) :
    (encode bytes).length = 4 * ((bytes.length + 2) / 3) := by
  fun_induction encode bytes with
  | case1 => rfl
  | case2 a => simp
  | case3 a b => simp
  | case4 a b c bytes ih =>
      simp only [List.length_append, List.length_cons, List.length_nil, ih]
      omega

/-- What an encoding is written in. -/
def IsLetter (c : Char) : Prop :=
  c = '=' ∨ c ∈ alphabet

instance : DecidablePred IsLetter := fun _ =>
  inferInstanceAs (Decidable (_ ∨ _))

theorem isLetter_letter (n : ℕ) : IsLetter (letter n) := by
  have hlength : alphabet.length = 64 := by
    decide
  have hbound : n % 64 < alphabet.length := by
    omega
  rw [letter, List.getD_eq_getElem?_getD, List.getElem?_eq_getElem hbound, Option.getD_some]
  exact .inr (List.getElem_mem hbound)

theorem isLetter_of_mem {bytes : List UInt8} {c : Char} (h : c ∈ encode bytes) : IsLetter c := by
  fun_induction encode bytes with
  | case1 => cases h
  | case2 a =>
      simp only [List.mem_cons, List.not_mem_nil, or_false] at h
      rcases h with rfl | rfl | rfl | rfl
      · exact isLetter_letter _
      · exact isLetter_letter _
      · exact .inl rfl
      · exact .inl rfl
  | case3 a b =>
      simp only [List.mem_cons, List.not_mem_nil, or_false] at h
      rcases h with rfl | rfl | rfl | rfl
      · exact isLetter_letter _
      · exact isLetter_letter _
      · exact isLetter_letter _
      · exact .inl rfl
  | case4 a b d bytes ih =>
      simp only [List.mem_append, List.mem_cons, List.not_mem_nil, or_false] at h
      rcases h with (rfl | rfl | rfl | rfl) | h
      · exact isLetter_letter _
      · exact isLetter_letter _
      · exact isLetter_letter _
      · exact isLetter_letter _
      · exact ih h

example : encode [0x4D, 0x61] = "TWE=".toList := by
  decide

end Vuo.Foundation.Base64
