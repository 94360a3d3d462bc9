import Mathlib.Data.List.Perm.Basic
import Vuo.Verification.Content.Caps

/-!
# The text a builder holds

The bytes of the span and code texts in the blocks, in the current spans, in an
open code block and in the cells of an open table. The text budget counts them
as they are read, but not the line breaks and the alt texts that come on top.
-/

namespace Vuo.Content

/-! ## Bytes -/

theorem byteLength_le_of_sublist {left right : List Char} (h : left.Sublist right) :
    byteLength left ≤ byteLength right := by
  induction h with
  | slnil => exact Nat.le_refl _
  | cons c _ ih =>
      rw [byteLength]
      omega
  | cons_cons c _ ih =>
      rw [byteLength, byteLength]
      omega

theorem byteLength_of_perm {left right : List Char} (h : left.Perm right) :
    byteLength left = byteLength right := by
  induction h with
  | nil => rfl
  | cons c _ ih => rw [byteLength, byteLength, ih]
  | swap c d text =>
      simp only [byteLength]
      omega
  | trans _ _ ih ih' => exact ih.trans ih'

/-! ## Texts -/

def cellsText (rows : List (List TableCell)) : List Char :=
  rows.flatMap fun row => row.flatMap fun cell => Span.renderPlainText cell.spans

/-- The span and code texts of a block. -/
def BlockKind.spanText : BlockKind → List Char
  | .heading _ spans => Span.renderPlainText spans
  | .paragraph spans => Span.renderPlainText spans
  | .listItem _ _ _ spans => Span.renderPlainText spans
  | .code _ text => text
  | .image _ _ _ _ _ _ => []
  | .table rows => cellsText rows
  | .rule => []

/-- The span and code texts of all blocks together. -/
def blocksText (blocks : List RenderBlock) : List Char :=
  blocks.flatMap fun block => block.kind.spanText

def TableBuild.text (table : TableBuild) : List Char :=
  cellsText (table.rows ++ table.currentRow.toList)

theorem cellsText_append (rows more : List (List TableCell)) :
    cellsText (rows ++ more) = cellsText rows ++ cellsText more :=
  List.flatMap_append

theorem blocksText_concat (blocks : List RenderBlock) (block : RenderBlock) :
    blocksText (blocks ++ [block]) = blocksText blocks ++ block.kind.spanText := by
  simp [blocksText]

theorem renderPlainText_append (spans more : List Span) :
    Span.renderPlainText (spans ++ more) =
      Span.renderPlainText spans ++ Span.renderPlainText more :=
  List.flatMap_append

/-! ## Trimming -/

theorem trimStart_sublist (text : List Char) : (trimStart text).Sublist text :=
  List.dropWhile_sublist _

theorem trimEnd_sublist (text : List Char) : (trimEnd text).Sublist text := by
  have h := (List.dropWhile_sublist isWhitespace (l := text.reverse)).reverse
  rwa [List.reverse_reverse] at h

theorem renderPlainText_trimFirst {trim : List Char → List Char}
    (htrim : ∀ text, (trim text).Sublist text) (spans : List Span) :
    (Span.renderPlainText (trimFirst trim spans)).Sublist (Span.renderPlainText spans) := by
  induction spans with
  | nil => exact .slnil
  | cons first rest ih =>
      rw [trimFirst]
      split_ifs
      · exact ih.trans (List.sublist_append_right _ _)
      · exact (htrim first.text).append_right _

theorem byteLength_reverse (spans : List Span) :
    byteLength (Span.renderPlainText spans.reverse) = byteLength (Span.renderPlainText spans) :=
  byteLength_of_perm ((List.reverse_perm spans).flatMap_right _)

theorem byteLength_trimSpans_le (spans : List Span) :
    byteLength (Span.renderPlainText (trimSpans spans)) ≤
      byteLength (Span.renderPlainText spans) := by
  have hstart := byteLength_le_of_sublist (renderPlainText_trimFirst trimStart_sublist spans)
  have hend := byteLength_le_of_sublist
    (renderPlainText_trimFirst trimEnd_sublist (trimFirst trimStart spans).reverse)
  rw [byteLength_reverse] at hend
  rw [trimSpans, byteLength_reverse]
  exact Nat.le_trans hend hstart

/-! ## Tables -/

namespace TableBuild

/-- A text given to the last cell adds its bytes, unless there is no cell. -/
theorem byteLength_extendCell (table : TableBuild) (spans : List Span) :
    byteLength (table.extendCell spans).text =
      byteLength table.text + if table.currentRow.getD [] = [] then 0 else
        byteLength (Span.renderPlainText spans) := by
  simp only [text, extendCell, cellsText_append, byteLength_append]
  cases table.currentRow with
  | none => rfl
  | some row =>
      rcases row.eq_nil_or_concat with rfl | ⟨front, last, rfl⟩
      · rfl
      · simp [List.concat_eq_append, List.modifyLast_concat, cellsText, renderPlainText_append,
          byteLength_append]
        omega

theorem byteLength_commitRow_le (table : TableBuild) (maxRows : ℕ) :
    byteLength (cellsText (table.commitRow maxRows).1.rows) ≤ byteLength table.text ∧
      (table.commitRow maxRows).1.currentRow = none := by
  simp only [text, cellsText_append, byteLength_append, commitRow]
  cases hrow : table.currentRow with
  | none => exact ⟨Nat.le_add_right _ _, hrow⟩
  | some row =>
      dsimp only
      split_ifs
      · exact ⟨Nat.le_add_right _ _, rfl⟩
      · simp only [cellsText_append, byteLength_append]
        exact ⟨Nat.le_refl _, trivial⟩
      · exact ⟨Nat.le_add_right _ _, rfl⟩

end TableBuild

namespace Builder

/-- The bytes of the texts the builder holds. -/
def held (b : Builder) : ℕ :=
  byteLength (blocksText b.blocks) + byteLength (Span.renderPlainText b.spans) +
    byteLength b.preText + b.table.elim 0 fun table => byteLength table.text

/-- The bytes that a picture's text adds to the cell it stands in. -/
def foldedBytes (b : Builder) (alt : List Char) : ℕ :=
  b.table.elim 0 fun table =>
    if trim alt = [] ∨ table.currentRow.getD [] = [] then 0 else byteLength alt

/-- What a text would add to the builder if there were no budget. -/
def wanted (b : Builder) (text : List Char) : List Char :=
  if 0 < b.preDepth then text else b.collapsed text

/-- What a text adds to the builder. -/
def taken (b : Builder) (text : List Char) : List Char :=
  clampToCharBoundary (b.wanted text) b.budget

variable {b : Builder}

theorem held_pushBlock_of_none (h : b.table = none) (kind : BlockKind) :
    (b.pushBlock kind).held ≤ b.held + byteLength kind.spanText := by
  rw [pushBlock_of_none h]
  split
  · exact Nat.le_add_right _ _
  · split
    · exact Nat.le_add_right _ _
    · simp only [held, blocksText_concat, byteLength_append]
      omega

theorem held_pushBlock_of_some {table : TableBuild} (h : b.table = some table)
    (kind : BlockKind) :
    (b.pushBlock kind).held = b.held + b.foldedBytes kind.plainText := by
  have hspan : Span.renderPlainText [⟨kind.plainText, {}, none⟩] = kind.plainText := by
    simp [Span.renderPlainText]
  rw [pushBlock_of_table h]
  by_cases htrim : trim kind.plainText = []
  · rw [if_pos htrim]
    simp [foldedBytes, h, htrim]
  · have hextend := table.byteLength_extendCell [⟨kind.plainText, {}, none⟩]
    rw [hspan] at hextend
    rw [if_neg htrim]
    simp only [held, foldedBytes, h, htrim, false_or, Option.elim_some, hextend]
    omega

/-! ## Text -/

theorem pushText_of_skip (h : b.skipFrom.isSome = true) (text : List Char) :
    b.pushText text = b := by
  rw [pushText, if_pos h]

theorem pushText_of_pre (hskip : b.skipFrom = none) (hpre : 0 < b.preDepth) (text : List Char) :
    b.pushText text =
      if b.budget = 0 then b.recordTruncation .tooMuchText
      else
        { b with
          preText := b.preText ++ b.taken text
          textBytes := b.textBytes + byteLength (b.taken text) } := by
  simp only [pushText, hskip, Option.isSome_none, Bool.false_eq_true, if_false, hpre, if_true,
    taken, wanted]

theorem pushText_of_flow (hskip : b.skipFrom = none) (hpre : b.preDepth = 0) (text : List Char) :
    b.pushText text =
      if b.wanted text = [] then b
      else if b.budget = 0 then b.recordTruncation .tooMuchText
      else
        { b with
          spans := b.appendSpan (b.taken text)
          textBytes := b.textBytes + byteLength (b.taken text) } := by
  simp only [pushText, hskip, Option.isSome_none, Bool.false_eq_true, if_false, hpre,
    Nat.lt_irrefl, taken, wanted]

theorem renderPlainText_appendSpan (b : Builder) (text : List Char) :
    Span.renderPlainText (b.appendSpan text) = Span.renderPlainText b.spans ++ text := by
  have hnew : Span.renderPlainText [⟨text, b.style, b.link⟩] = text := by
    simp [Span.renderPlainText]
  unfold appendSpan
  split
  · next last hlast =>
      obtain ⟨front, hspans⟩ := List.getLast?_eq_some_iff.1 hlast
      split_ifs
      · rw [hspans, List.dropLast_concat, renderPlainText_append, renderPlainText_append]
        simp [Span.renderPlainText]
      · rw [renderPlainText_append, hnew]
  · rw [renderPlainText_append, hnew]

/-! ## Each change -/

theorem held_flush (b : Builder) : b.flush.held ≤ b.held := by
  have htrim := byteLength_trimSpans_le b.spans
  have hemptied : held { b with spans := [] } + byteLength (Span.renderPlainText b.spans) =
      b.held := by
    simp only [held, Span.renderPlainText, List.flatMap_nil, byteLength]
    omega
  by_cases hblank : trimSpans b.spans = []
  · rw [flush_of_blank hblank]
    change held { b with spans := [] } ≤ b.held
    omega
  · cases htable : b.table with
    | some table =>
        have hextend := table.byteLength_extendCell (trimSpans b.spans)
        have hle : byteLength (table.extendCell (trimSpans b.spans)).text ≤
            byteLength table.text + byteLength (Span.renderPlainText b.spans) := by
          rw [hextend]
          split_ifs <;> omega
        rw [flush_of_table hblank htable]
        simp only [held, htable, Option.elim_some, Span.renderPlainText, List.flatMap_nil,
          byteLength] at hle ⊢
        omega
    | none =>
        have hpush := held_pushBlock_of_none (b := { b with spans := [] }) htable
          (b.pending.kind (trimSpans b.spans))
        have hkind : (b.pending.kind (trimSpans b.spans)).spanText =
            Span.renderPlainText (trimSpans b.spans) := by
          cases b.pending <;> rfl
        rw [hkind] at hpush
        rw [flush_of_none hblank htable]
        change held (pushBlock { b with spans := [] } _) ≤ b.held
        omega

theorem held_closeTable (b : Builder) : b.closeTable.held ≤ b.held := by
  unfold closeTable
  split
  · exact Nat.le_refl _
  · next table htable =>
      have hrows := (table.byteLength_commitRow_le b.ctx.limits.maxTableRows).1
      have hclosed : held { b with table := none } + byteLength table.text = b.held := by
        simp [held, htable]
      dsimp only
      split_ifs
      · omega
      · have hpush := held_pushBlock_of_none (b := { b with table := none }) rfl
          (.table (table.commitRow b.ctx.limits.maxTableRows).1.rows)
        rw [BlockKind.spanText] at hpush
        omega

theorem held_commitRow (b : Builder) : b.commitRow.held ≤ b.held := by
  unfold commitRow
  split
  · exact Nat.le_refl _
  · next table htable =>
      obtain ⟨hrows, hcurrent⟩ := table.byteLength_commitRow_le b.ctx.limits.maxTableRows
      have htext : byteLength (table.commitRow b.ctx.limits.maxTableRows).1.text ≤
          byteLength table.text := by
        rw [TableBuild.text, hcurrent]
        simpa using hrows
      have hfiled : held { b with
          table := some (table.commitRow b.ctx.limits.maxTableRows).1 } ≤ b.held := by
        simp only [held, htable, Option.elim_some]
        omega
      dsimp only
      split_ifs
      · exact hfiled
      · exact hfiled

theorem held_startCell (b : Builder) (header : Bool) : (b.startCell header).held ≤ b.held := by
  unfold startCell
  split
  · exact Nat.le_refl _
  · next table htable =>
      have hrow : cellsText [table.currentRow.getD []] = cellsText table.currentRow.toList := by
        cases table.currentRow <;> rfl
      have hcell : cellsText [table.currentRow.getD [] ++ [⟨[], header⟩]] =
          cellsText table.currentRow.toList := by
        rw [← hrow]
        simp [cellsText, Span.renderPlainText]
      dsimp only
      split_ifs
      · simp [held, htable, TableBuild.text, cellsText_append, hcell]
      · simp [held, htable, TableBuild.text, cellsText_append, hrow, recordTruncation]

/-- The text of an open code block, without the line breaks around it. -/
def codeText (b : Builder) : List Char :=
  (b.preText.reverse.dropWhile (· = '\n')).reverse.dropWhile (· = '\n')

/-- The builder after the outermost `pre`, but for its text. -/
def pastPre (b : Builder) : Builder :=
  { b with preDepth := 0, preText := [], preLanguage := none }

theorem closePre_of_inner (h : b.preDepth - 1 ≠ 0) :
    b.closePre = { b with preDepth := b.preDepth - 1 } := by
  simp [closePre, h]

theorem closePre_of_blank (h : b.preDepth - 1 = 0) (hblank : b.codeText = []) :
    b.closePre = { b.pastPre with spans := [] } := by
  unfold codeText at hblank
  simp [closePre, h, hblank, pastPre]

theorem closePre_of_outer (h : b.preDepth - 1 = 0) (hblank : b.codeText ≠ []) :
    b.closePre = { b.pastPre.pushBlock (.code b.preLanguage b.codeText) with spans := [] } := by
  unfold codeText at hblank
  simp [closePre, h, hblank, pastPre, codeText]

theorem codeText_sublist (b : Builder) : b.codeText.Sublist b.preText := by
  have hend := (List.dropWhile_sublist (· = '\n') (l := b.preText.reverse)).reverse
  rw [List.reverse_reverse] at hend
  exact (List.dropWhile_sublist _).trans hend

theorem foldedBytes_le (b : Builder) (text : List Char) : b.foldedBytes text ≤ byteLength text := by
  cases htable : b.table with
  | none => simp [foldedBytes, htable]
  | some table =>
      simp only [foldedBytes, htable, Option.elim_some]
      split_ifs
      · exact Nat.zero_le _
      · exact Nat.le_refl _

/-- An open code block moves its text into a block, or into a cell. -/
theorem held_closePre (b : Builder) : b.closePre.held ≤ b.held := by
  have hcleared (b' : Builder) : held { b' with spans := [] } ≤ b'.held := by
    simp only [held, Span.renderPlainText, List.flatMap_nil, byteLength]
    omega
  have hpast : b.pastPre.held + byteLength b.preText = b.held := by
    simp only [pastPre, held, byteLength]
    omega
  have htext := byteLength_le_of_sublist b.codeText_sublist
  by_cases hdepth : b.preDepth - 1 = 0
  · by_cases hblank : b.codeText = []
    · rw [closePre_of_blank hdepth hblank]
      refine Nat.le_trans (hcleared _) ?_
      omega
    · rw [closePre_of_outer hdepth hblank]
      refine Nat.le_trans (hcleared _) ?_
      cases htable : b.table with
      | none =>
          have hpush := held_pushBlock_of_none (b := b.pastPre) htable
            (.code b.preLanguage b.codeText)
          rw [BlockKind.spanText] at hpush
          omega
      | some table =>
          have hpush := held_pushBlock_of_some (b := b.pastPre) htable
            (.code b.preLanguage b.codeText)
          have hfold := b.pastPre.foldedBytes_le b.codeText
          rw [BlockKind.plainText] at hpush
          omega
  · rw [closePre_of_inner hdepth]
    exact Nat.le_refl _

/-- The change stays within the text cap although line breaks and folded alt
texts are not counted. -/
def Fits (b : Builder) : Edit → Prop
  | .text text =>
      b.held ≤ b.textBytes ∨ b.held + byteLength (b.taken text) ≤ b.ctx.limits.maxTextBytes
  | .lineBreak => (b.preDepth = 0 ∧ b.spans = []) ∨ b.held + 1 ≤ b.ctx.limits.maxTextBytes
  | .image _ alt _ _ _ _ => b.held + b.foldedBytes alt ≤ b.ctx.limits.maxTextBytes
  | _ => True

theorem held_pushText {limits : Limits} (hcapped : b.Capped limits)
    (hheld : b.held ≤ limits.maxTextBytes) {text : List Char} (hfits : b.Fits (.text text)) :
    (b.pushText text).held ≤ limits.maxTextBytes := by
  have htaken : b.held + byteLength (b.taken text) ≤ limits.maxTextBytes := by
    rcases hfits with hcounted | hfits
    · have hbudget := hcapped.budget
        (byteLength_clampToCharBoundary_le (b.wanted text) b.budget)
      rw [← taken] at hbudget
      omega
    · rwa [hcapped.ctx] at hfits
  cases hskip : b.skipFrom with
  | some depth =>
      rw [pushText_of_skip (by simp [hskip])]
      exact hheld
  | none =>
      by_cases hpre : 0 < b.preDepth
      · rw [pushText_of_pre hskip hpre]
        split
        · exact hheld
        · simp only [held, byteLength_append] at htaken ⊢
          omega
      · rw [pushText_of_flow hskip (by omega)]
        split
        · exact hheld
        · split
          · exact hheld
          · simp only [held, renderPlainText_appendSpan, byteLength_append] at htaken ⊢
            omega

/-- No change breaks the text cap, if it fits. -/
theorem held_apply {limits : Limits} (hcapped : b.Capped limits)
    (hheld : b.held ≤ limits.maxTextBytes) {edit : Edit} (hfits : b.Fits edit) :
    (b.apply edit).held ≤ limits.maxTextBytes := by
  cases edit with
  | flush => exact Nat.le_trans b.held_flush hheld
  | text text => exact held_pushText hcapped hheld hfits
  | lineBreak =>
      have hbreak : byteLength ['\n'] = 1 := by decide
      rw [Fits, hcapped.ctx] at hfits
      simp only [apply, breakLine]
      split_ifs with hpre hspans
      · simp only [held, byteLength_append, hbreak] at hfits ⊢
        omega
      · exact hheld
      · have hnew : Span.renderPlainText [⟨['\n'], b.style, b.link⟩] = ['\n'] := by
          simp [Span.renderPlainText]
        simp only [hspans, and_false, false_or] at hfits
        simp only [held, renderPlainText_append, hnew, byteLength_append, hbreak] at hfits ⊢
        omega
  | rule =>
      cases htable : b.table with
      | none =>
          have hpush := held_pushBlock_of_none htable .rule
          exact Nat.le_trans hpush hheld
      | some table =>
          have hpush := held_pushBlock_of_some htable .rule
          have hfold := b.foldedBytes_le (BlockKind.plainText .rule)
          simp only [BlockKind.plainText, byteLength, apply] at hpush hfold ⊢
          omega
  | image src alt title fetch intrinsic link =>
      rw [Fits, hcapped.ctx] at hfits
      cases htable : b.table with
      | none =>
          have hpush := held_pushBlock_of_none htable
            (.image src alt title fetch intrinsic link)
          exact Nat.le_trans hpush hheld
      | some table =>
          have hpush := held_pushBlock_of_some htable
            (.image src alt title fetch intrinsic link)
          rw [apply, hpush]
          exact hfits
  | openList ordered =>
      simp only [apply, openList]
      split_ifs <;> exact hheld
  | nextItem =>
      simp only [apply, nextItem]
      split <;> exact hheld
  | openPre tag =>
      simp only [apply, openPre]
      split_ifs
      · simp only [held, byteLength] at hheld ⊢
        omega
      · exact hheld
  | closePre => exact Nat.le_trans b.held_closePre hheld
  | openTable =>
      simp only [apply, openTable, held] at hheld ⊢
      cases htable : b.table with
      | none =>
          rw [htable] at hheld
          exact hheld
      | some table =>
          rw [htable] at hheld
          exact hheld
  | leaveTable =>
      simp only [apply, leaveTable]
      split_ifs
      · exact Nat.le_trans (held_closeTable _) hheld
      · exact hheld
  | openRow =>
      refine Nat.le_trans ?_ (Nat.le_trans b.held_commitRow hheld)
      simp only [apply, openRow, held]
      cases b.commitRow.table with
      | none => exact Nat.le_refl _
      | some table => simp [TableBuild.text, byteLength_append, cellsText, byteLength]
  | closeRow => exact Nat.le_trans b.held_commitRow hheld
  | openCell header => exact Nat.le_trans (b.held_startCell header) hheld
  | _ => exact hheld

end Builder

end Vuo.Content
