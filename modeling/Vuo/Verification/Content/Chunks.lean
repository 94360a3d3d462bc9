import Vuo.Verification.Content.Caps
import Vuo.Verification.Content.Skip

/-!
# Text in pieces

The tokenizer cuts text wherever it likes. White space is collapsed piece by
piece, with the end of the last span for a memory, and comes out as it does for
the whole text.
-/

namespace Vuo.Content

/-! ## Collapsing -/

/-- Whether a text read so far ends in white space. -/
def spaceAfter (inSpace : Bool) : List Char → Bool
  | [] => inSpace
  | c :: text => spaceAfter (isWhitespace c) text

theorem collapseFrom_append (inSpace : Bool) (left right : List Char) :
    collapseFrom inSpace (left ++ right) =
      collapseFrom inSpace left ++ collapseFrom (spaceAfter inSpace left) right := by
  induction left generalizing inSpace with
  | nil => rfl
  | cons c left ih =>
      rw [List.cons_append, collapseFrom, collapseFrom, spaceAfter]
      cases hblank : isWhitespace c with
      | true =>
          cases inSpace with
          | true => simpa using ih true
          | false => simpa using ih true
      | false => simpa using ih false

/-- After white space none is left at the beginning. -/
theorem trimStart_collapseFrom (text : List Char) :
    trimStart (collapseFrom true text) = collapseFrom true text := by
  induction text with
  | nil => rfl
  | cons c text ih =>
      rw [collapseFrom]
      cases hblank : isWhitespace c with
      | true => simpa using ih
      | false => simp [trimStart, hblank]

/-- Dropping the space a collapsed text begins with is collapsing it after a
space. -/
theorem collapseFrom_true (text : List Char) :
    collapseFrom true text =
      if (collapseWhitespace text).head? = some ' ' then trimStart (collapseWhitespace text)
      else collapseWhitespace text := by
  have hspace : isWhitespace ' ' = true := by decide
  unfold collapseWhitespace
  cases text with
  | nil => rfl
  | cons c text =>
      rw [collapseFrom, collapseFrom]
      cases hblank : isWhitespace c with
      | true =>
          have hrest := trimStart_collapseFrom text
          simp only [trimStart] at hrest
          simp [trimStart, hspace, hrest]
      | false =>
          have hc : c ≠ ' ' := by
            rintro rfl
            rw [hspace] at hblank
            cases hblank
          simp [hc]

/-- What came out last tells what was read last. -/
theorem getLast?_collapseFrom (inSpace : Bool) (text : List Char) :
    (collapseFrom inSpace text).getLast?.elim inSpace (fun c => decide (c = ' ')) =
      spaceAfter inSpace text := by
  have hspace : isWhitespace ' ' = true := by decide
  induction text generalizing inSpace with
  | nil => rfl
  | cons c text ih =>
      rw [collapseFrom, spaceAfter]
      cases hblank : isWhitespace c with
      | true =>
          rw [← ih true]
          cases inSpace with
          | true => rfl
          | false =>
              simp only [if_true, Bool.false_eq_true, if_false, List.getLast?_cons]
              cases (collapseFrom true text).getLast? <;> simp
      | false =>
          have hc : c ≠ ' ' := by
            rintro rfl
            rw [hspace] at hblank
            cases hblank
          rw [← ih false]
          simp only [Bool.false_eq_true, if_false, List.getLast?_cons]
          cases (collapseFrom false text).getLast? <;> simp [hc]

theorem byteLength_collapseFrom_le (inSpace : Bool) (text : List Char) :
    byteLength (collapseFrom inSpace text) ≤ byteLength text := by
  induction text generalizing inSpace with
  | nil => exact Nat.le_refl _
  | cons c text ih =>
      have hc : 1 ≤ c.utf8Size := c.utf8Size_pos
      have hspace : (' ').utf8Size = 1 := by decide
      have htrue := ih true
      have hfalse := ih false
      rw [collapseFrom]
      split_ifs <;> simp only [byteLength] <;> omega

theorem clampToCharBoundary_of_fits {text : List Char} {budget : ℕ}
    (h : byteLength text ≤ budget) : clampToCharBoundary text budget = text := by
  induction text generalizing budget with
  | nil => rfl
  | cons c text ih =>
      rw [byteLength] at h
      rw [clampToCharBoundary, if_pos (by omega), ih (by omega)]

namespace Builder

variable {b : Builder}

/-! ## Text that fits -/

/-- Text that is taken whole. -/
def extend (b : Builder) (text : List Char) : Builder :=
  if text = [] then b
  else { b with spans := b.appendSpan text, textBytes := b.textBytes + byteLength text }

theorem collapsed_eq (b : Builder) (text : List Char) :
    b.collapsed text = collapseFrom b.trailingSpace text := by
  unfold collapsed
  cases b.trailingSpace with
  | true => simp [collapseFrom_true]
  | false => simp [collapseWhitespace]

/-- The last span, or a new one, takes the text at its end. -/
theorem exists_appendSpan (b : Builder) :
    ∃ front before, ∀ text, b.appendSpan text = front ++ [⟨before ++ text, b.style, b.link⟩] := by
  cases hlast : b.spans.getLast? with
  | none => exact ⟨b.spans, [], fun text => by simp [appendSpan, hlast]⟩
  | some prev =>
      by_cases halike : prev.style = b.style ∧ prev.link = b.link
      · refine ⟨b.spans.dropLast, prev.text, fun text => ?_⟩
        simp [appendSpan, hlast, ← halike.1, ← halike.2]
      · exact ⟨b.spans, [], fun text => by simp [appendSpan, hlast, halike]⟩

theorem trailingSpace_extend (b : Builder) (text : List Char) :
    (b.extend text).trailingSpace =
      text.getLast?.elim b.trailingSpace (fun c => decide (c = ' ')) := by
  unfold extend
  split_ifs with hempty
  · simp [hempty]
  · obtain ⟨front, before, hspans⟩ := b.exists_appendSpan
    simp only [trailingSpace, hspans, List.getLast?_append, List.getLast?_singleton,
      Option.some_or]
    rw [List.getLast?_eq_some_getLast hempty]
    simp

theorem appendSpan_append {b b' : Builder} (hstyle : b'.style = b.style) (hlink : b'.link = b.link)
    {left : List Char} (hspans : b'.spans = b.appendSpan left) (right : List Char) :
    b'.appendSpan right = b.appendSpan (left ++ right) := by
  obtain ⟨front, before, happend⟩ := b.exists_appendSpan
  rw [happend] at hspans ⊢
  simp [appendSpan, hspans, hstyle, hlink]

/-- Text taken in two steps is text taken in one. -/
theorem extend_extend (b : Builder) (left right : List Char) :
    (b.extend left).extend right = b.extend (left ++ right) := by
  by_cases hleft : left = []
  · simp [extend, hleft]
  · by_cases hright : right = []
    · simp [extend, hright]
    · have hspans :
          ({ b with
            spans := b.appendSpan left
            textBytes := b.textBytes + byteLength left } : Builder).appendSpan right =
          b.appendSpan (left ++ right) := by
        refine appendSpan_append ?_ ?_ ?_ right <;> rfl
      have hboth : left ++ right ≠ [] := by simp [hleft]
      simp only [extend, if_neg hleft, if_neg hright, if_neg hboth, hspans, byteLength_append,
        Nat.add_assoc]

theorem pushText_of_fits (hskip : b.skipFrom = none) (hpre : b.preDepth = 0)
    {text : List Char} (hfits : byteLength text ≤ b.budget) :
    b.pushText text = b.extend (collapseFrom b.trailingSpace text) := by
  have hle := byteLength_collapseFrom_le b.trailingSpace text
  unfold pushText
  rw [collapsed_eq, clampToCharBoundary_of_fits (Nat.le_trans hle hfits)]
  simp only [hskip, hpre, Option.isSome_none, Bool.false_eq_true, if_false, Nat.lt_irrefl, extend]
  split_ifs with hempty hfull
  · rfl
  · have hpos := byteLength_pos hempty
    omega
  · rfl

/-- The same inside a code block. -/
theorem pushText_of_fits_pre (hskip : b.skipFrom = none) (hpre : 0 < b.preDepth)
    {text : List Char} (hempty : text ≠ []) (hfits : byteLength text ≤ b.budget) :
    b.pushText text =
      { b with preText := b.preText ++ text, textBytes := b.textBytes + byteLength text } := by
  have hpos := byteLength_pos hempty
  unfold pushText
  rw [clampToCharBoundary_of_fits hfits]
  simp only [hskip, hpre, Option.isSome_none, Bool.false_eq_true, if_false, if_true]
  rw [if_neg (by omega)]

/-! ## Two pieces -/

theorem ctx_extend (b : Builder) (text : List Char) : (b.extend text).ctx = b.ctx := by
  unfold extend
  split_ifs <;> rfl

theorem textBytes_extend (b : Builder) (text : List Char) :
    (b.extend text).textBytes = b.textBytes + byteLength text := by
  unfold extend
  split_ifs with hempty
  · simp [hempty, byteLength]
  · rfl

/-- What is left of the budget covers what is left of the text. -/
theorem budget_pushText (hskip : b.skipFrom = none) {left right : List Char} (hleft : left ≠ [])
    (hfits : byteLength (left ++ right) ≤ b.budget) :
    byteLength right ≤ (b.pushText left).budget := by
  rw [byteLength_append] at hfits
  have hle := byteLength_collapseFrom_le b.trailingSpace left
  unfold budget at hfits ⊢
  by_cases hpre : 0 < b.preDepth
  · rw [pushText_of_fits_pre hskip hpre hleft (by unfold budget; omega)]
    dsimp only
    omega
  · rw [pushText_of_fits hskip (by omega) (by unfold budget; omega), ctx_extend,
      textBytes_extend]
    omega

theorem skipFrom_pushText (b : Builder) (text : List Char) :
    (b.pushText text).skipFrom = b.skipFrom := by
  unfold pushText
  split_ifs <;> rfl

theorem pushText_append (hskip : b.skipFrom = none) {left right : List Char} (hleft : left ≠ [])
    (hright : right ≠ []) (hfits : byteLength (left ++ right) ≤ b.budget) :
    (b.pushText left).pushText right = b.pushText (left ++ right) := by
  have hrest := budget_pushText hskip hleft hfits
  have hskip' := (skipFrom_pushText b left).trans hskip
  have hboth : left ++ right ≠ [] := by simp [hleft]
  have hfirst : byteLength left ≤ b.budget := by
    rw [byteLength_append] at hfits
    omega
  by_cases hpre : 0 < b.preDepth
  · rw [pushText_of_fits_pre hskip hpre hboth hfits]
    rw [pushText_of_fits_pre hskip hpre hleft hfirst] at hrest hskip' ⊢
    rw [pushText_of_fits_pre hskip' hpre hright hrest]
    simp [byteLength_append, Nat.add_assoc]
  · have hzero : b.preDepth = 0 := by omega
    have hzero' : (b.extend (collapseFrom b.trailingSpace left)).preDepth = 0 := by
      unfold extend
      split_ifs <;> exact hzero
    rw [pushText_of_fits hskip hzero hfits]
    rw [pushText_of_fits hskip hzero hfirst] at hrest hskip' ⊢
    rw [pushText_of_fits hskip' hzero' hrest, extend_extend, trailingSpace_extend,
      getLast?_collapseFrom, collapseFrom_append]

/-! ## Any number of pieces -/

theorem foldl_pushText (hskip : b.skipFrom = none) {piece : List Char}
    {pieces : List (List Char)} (hpieces : ∀ p ∈ piece :: pieces, p ≠ [])
    (hfits : byteLength (piece :: pieces).flatten ≤ b.budget) :
    (piece :: pieces).foldl pushText b = b.pushText (piece :: pieces).flatten := by
  induction pieces generalizing b piece with
  | nil => simp
  | cons next pieces ih =>
      have hpiece := hpieces piece List.mem_cons_self
      have hrest := fun p hp => hpieces p (List.mem_cons_of_mem piece hp)
      have hnext : (next :: pieces).flatten ≠ [] := by simp [hrest next List.mem_cons_self]
      have hleft := budget_pushText hskip hpiece (by simpa using hfits)
      rw [List.foldl_cons, ih ((skipFrom_pushText b piece).trans hskip) hrest hleft,
        pushText_append hskip hpiece hnext (by simpa using hfits)]
      simp

/-- Text that leaves room does not end the article. -/
theorem stopped_pushText (hskip : b.skipFrom = none) {text : List Char} (hempty : text ≠ [])
    (hfits : byteLength text < b.budget) : (b.pushText text).stopped = b.stopped := by
  have hle := byteLength_collapseFrom_le b.trailingSpace text
  have hroom : ¬b.ctx.limits.maxTextBytes ≤ b.textBytes := by
    unfold budget at hfits
    omega
  have hafter (n : ℕ) (hn : n ≤ byteLength text) :
      ¬b.ctx.limits.maxTextBytes ≤ b.textBytes + n := by
    unfold budget at hfits
    omega
  by_cases hpre : 0 < b.preDepth
  · rw [pushText_of_fits_pre hskip hpre hempty (Nat.le_of_lt hfits)]
    simp [stopped, atCapacity, hroom, hafter _ (Nat.le_refl _)]
  · rw [pushText_of_fits hskip (by omega) (Nat.le_of_lt hfits), extend]
    split_ifs
    · rfl
    · simp [stopped, atCapacity, hroom, hafter _ hle]

/-- What a builder holds of the text it has read. -/
structure SameText (b b' : Builder) : Prop where
  spans : b.spans = b'.spans
  preText : b.preText = b'.preText
  textBytes : b.textBytes = b'.textBytes

theorem sameText_pushText_nil (b : Builder) : SameText b (b.pushText []) := by
  unfold pushText
  rw [collapsed_eq]
  simp only [collapseFrom, if_true, clampToCharBoundary, List.append_nil, byteLength,
    Nat.add_zero]
  split_ifs <;> exact ⟨rfl, rfl, rfl⟩

section Tokens

variable [UrlLibrary]

/-- The tokens of the pieces do what the pieces do. -/
theorem run_pieces (hskip : b.skipFrom = none) (hlive : b.stopped = false)
    {pieces : List (List Char)} (hpieces : ∀ p ∈ pieces, p ≠ [])
    (hfits : byteLength pieces.flatten ≤ b.budget) :
    b.run (pieces.map Token.characters) = pieces.foldl pushText b := by
  induction pieces generalizing b with
  | nil => rfl
  | cons piece pieces ih =>
      have hpiece := hpieces piece List.mem_cons_self
      have hrest := fun p hp => hpieces p (List.mem_cons_of_mem piece hp)
      have hrun : b.run ((piece :: pieces).map Token.characters) =
          (b.processToken (.characters piece)).run (pieces.map Token.characters) := rfl
      rw [hrun, processToken_of_live hlive, List.foldl_cons]
      cases pieces with
      | nil => rfl
      | cons next pieces =>
          have hnext := byteLength_pos (hrest next List.mem_cons_self)
          have hroom : byteLength piece < b.budget := by
            simp only [List.flatten_cons, byteLength_append] at hfits
            omega
          exact ih ((skipFrom_pushText b piece).trans hskip)
            ((stopped_pushText hskip hpiece hroom).trans hlive) hrest
            (budget_pushText hskip hpiece (by simpa using hfits))

/-- Outside skipped elements it makes no difference into which pieces text is
cut, as long as it fits into the text budget. -/
theorem chunking_invisible (hskip : b.skipFrom = none) {pieces : List (List Char)}
    (hpieces : ∀ p ∈ pieces, p ≠ []) (hfits : byteLength pieces.flatten ≤ b.budget) :
    (SameText (pieces.foldl pushText b) (b.pushText pieces.flatten) ∧
      SameText (b.run (pieces.map Token.characters)) (b.run [.characters pieces.flatten])) ∧
    (pieces ≠ [] → pieces.foldl pushText b = b.pushText pieces.flatten ∧
      b.run (pieces.map Token.characters) = b.run [.characters pieces.flatten]) := by
  cases pieces with
  | nil =>
      have hempty := sameText_pushText_nil b
      refine ⟨⟨hempty, ?_⟩, fun h => absurd rfl h⟩
      cases hlive : b.stopped with
      | true => simpa [run, processToken, hlive] using SameText.mk rfl rfl rfl
      | false => simpa [run, processToken, hlive, handle] using hempty
  | cons piece pieces =>
      have hfold := foldl_pushText hskip hpieces hfits
      have hrun : b.run ((piece :: pieces).map Token.characters) =
          b.run [.characters (piece :: pieces).flatten] := by
        cases hlive : b.stopped with
        | true => rw [run_of_stopped hlive, run_of_stopped hlive]
        | false =>
            rw [run_pieces hskip hlive hpieces hfits, hfold]
            simp [run, processToken, hlive, handle]
      rw [hfold, hrun]
      exact ⟨⟨⟨rfl, rfl, rfl⟩, ⟨rfl, rfl, rfl⟩⟩, fun _ => ⟨rfl, rfl⟩⟩

end Tokens

section Plain

open scoped Plain

/-- A run of spaces cut in the middle. -/
theorem chunking_invisible_spaces :
    ([['a', ' '], ['\n', 'b']].foldl pushText (new shallow)).spans =
      [⟨['a', ' ', 'b'], {}, none⟩] := by
  have h := (@chunking_invisible (new shallow) _ rfl [['a', ' '], ['\n', 'b']]
    (by decide) (by decide)).1.1.spans
  rw [h]
  decide

end Plain

end Builder

end Vuo.Content
