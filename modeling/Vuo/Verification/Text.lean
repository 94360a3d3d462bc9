import Mathlib.Data.List.DropRight
import Mathlib.Data.List.TakeWhile
import Vuo.Model.Primitives

/-!
# Trimming

What trimming leaves has no white space at its ends, so it is not trimmed again.
-/

namespace Vuo

theorem trimStart_trim (text : List Char) : trimStart (trim text) = trim text := by
  have hprefix : trim text <+: trimStart text := List.rdropWhile_prefix _ _
  have hhead := List.head?_dropWhile_not isWhitespace text
  obtain ⟨rest, hrest⟩ := hprefix
  cases htrim : trim text with
  | nil => rfl
  | cons c front =>
      rw [← trimStart, ← hrest, htrim] at hhead
      have hc : isWhitespace c = false := hhead
      rw [trimStart, List.dropWhile_cons_of_neg (by simp [hc])]

theorem trimEnd_trim (text : List Char) : trimEnd (trim text) = trim text := by
  change List.rdropWhile _ (List.rdropWhile _ _) = List.rdropWhile _ _
  rw [List.rdropWhile_eq_self_iff]
  intro hne
  exact List.rdropWhile_last_not _ _ hne

theorem trim_trim (text : List Char) : trim (trim text) = trim text := by
  have hstart := trimStart_trim text
  change trimEnd (trimStart (trim text)) = _
  rw [hstart, trimEnd_trim]

/-- A text without white space is not trimmed. -/
theorem trim_of_black {text : List Char} (h : ∀ c ∈ text, isWhitespace c = false) :
    trim text = text := by
  have hkeep {l : List Char} (hl : ∀ c ∈ l, isWhitespace c = false) :
      l.dropWhile isWhitespace = l :=
    List.dropWhile_eq_self_iff.2 fun hpos => by simp [hl _ (List.getElem_mem hpos)]
  rw [trim, trimStart, hkeep h, trimEnd, hkeep fun c hc => h c (List.mem_reverse.1 hc),
    List.reverse_reverse]

/-- White space at both ends of a text without any is trimmed off. -/
theorem trim_surrounded {lead text trail : List Char} (hlead : ∀ c ∈ lead, isWhitespace c = true)
    (htext : ∀ c ∈ text, isWhitespace c = false) (htrail : ∀ c ∈ trail, isWhitespace c = true) :
    trim (lead ++ (text ++ trail)) = text := by
  have hstart : trimStart (lead ++ (text ++ trail)) = trimStart (text ++ trail) :=
    List.dropWhile_append_of_pos hlead
  have hend (front : List Char) : trimEnd (front ++ trail) = trimEnd front := by
    unfold trimEnd
    rw [List.reverse_append,
      List.dropWhile_append_of_pos fun c hc => htrail c (List.mem_reverse.1 hc)]
  cases text with
  | nil =>
      have hnothing : trimStart trail = [] := List.dropWhile_eq_nil_iff.2 htrail
      rw [trim, hstart, List.nil_append, hnothing]
      rfl
  | cons c text =>
      have hfirst : trimStart (c :: text ++ trail) = c :: text ++ trail :=
        List.dropWhile_cons_of_neg (by simp [htext c List.mem_cons_self])
      have hkept := trim_of_black htext
      rw [trim, trimStart,
        List.dropWhile_cons_of_neg (by simp [htext c List.mem_cons_self])] at hkept
      rw [trim, hstart, hfirst, hend, hkept]

end Vuo
