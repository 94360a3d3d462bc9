import Mathlib.Data.List.ModifyLast
import Vuo.Verification.Content.Edits

/-!
# The caps on structure

Whatever the tokens, the builder keeps the number of blocks, the bytes the text
budget has counted, the nesting of quotes and lists and the size of every table
within the limits.
-/

namespace Vuo.Content

/-! ## Within the limits -/

def BlockKind.Within (limits : Limits) : BlockKind → Prop
  | .listItem _ _ indent _ => indent ≤ limits.maxListIndent
  | .table rows =>
      rows.length ≤ limits.maxTableRows ∧
        ∀ row ∈ rows, row.length ≤ limits.maxTableCellsPerRow
  | _ => True

structure RenderBlock.Within (limits : Limits) (block : RenderBlock) : Prop where
  quoteDepth : block.quoteDepth ≤ limits.maxQuoteDepth
  kind : block.kind.Within limits

structure TableBuild.Within (limits : Limits) (table : TableBuild) : Prop where
  rows : table.rows.length ≤ limits.maxTableRows
  cells : ∀ row ∈ table.rows, row.length ≤ limits.maxTableCellsPerRow
  current : ∀ row ∈ table.currentRow, row.length ≤ limits.maxTableCellsPerRow

def Pending.Within (limits : Limits) : Pending → Prop
  | .listItem _ _ indent => indent ≤ limits.maxListIndent
  | _ => True

/-- Every cap on structure holds. -/
structure Builder.Capped (limits : Limits) (b : Builder) : Prop where
  ctx : b.ctx.limits = limits
  count : b.blocks.length ≤ limits.maxBlocks
  blocks : ∀ block ∈ b.blocks, block.Within limits
  text : b.textBytes ≤ limits.maxTextBytes
  pending : b.pending.Within limits
  quoteDepth : b.quoteDepth ≤ limits.maxQuoteDepth
  table : ∀ table ∈ b.table, table.Within limits

/-! ## Cells -/

theorem byteLength_clampToCharBoundary_le (text : List Char) (budget : ℕ) :
    byteLength (clampToCharBoundary text budget) ≤ budget := by
  induction text generalizing budget with
  | nil => exact Nat.zero_le _
  | cons c text ih =>
      rw [clampToCharBoundary]
      split_ifs with hfits
      · have hrest := ih (budget - c.utf8Size)
        rw [byteLength]
        omega
      · exact Nat.zero_le _

namespace TableBuild

variable (table : TableBuild)

/-- The last cell of a row takes the spans; an empty row takes nothing. -/
theorem extendCell_row (spans : List Span) (row : List TableCell) :
    (row.modifyLast fun cell => { cell with spans := cell.spans ++ spans }).length =
      row.length := by
  rcases row.eq_nil_or_concat with rfl | ⟨front, last, rfl⟩
  · rfl
  · rw [List.concat_eq_append, List.modifyLast_concat]
    simp only [List.length_append, List.length_singleton]

theorem within_extendCell {limits : Limits} {table : TableBuild} (h : table.Within limits)
    (spans : List Span) : (table.extendCell spans).Within limits where
  rows := h.rows
  cells := h.cells
  current := by
    intro row hrow
    obtain ⟨before, hbefore, rfl⟩ := Option.map_eq_some_iff.1 hrow
    rw [extendCell_row]
    exact h.current before hbefore

theorem within_commitRow {limits : Limits} {table : TableBuild} (h : table.Within limits) :
    (table.commitRow limits.maxTableRows).1.Within limits := by
  unfold commitRow
  split
  · exact h
  · next row hrow =>
      split_ifs with hempty hfits
      · exact ⟨h.rows, h.cells, fun _ hnone => nomatch hnone⟩
      · refine ⟨?_, ?_, fun _ hnone => nomatch hnone⟩
        · simp only [List.length_append, List.length_singleton]
          omega
        · intro other hother
          rcases List.mem_append.1 hother with hother | hother
          · exact h.cells other hother
          · rw [List.mem_singleton.1 hother]
            exact h.current row hrow
      · exact ⟨h.rows, h.cells, fun _ hnone => nomatch hnone⟩

end TableBuild

/-! ## The builder -/

namespace Builder

variable {limits : Limits} {b : Builder}

theorem listIndent_le : b.listIndent ≤ b.ctx.limits.maxListIndent :=
  Nat.min_le_right _ _

theorem within_defaultPending : b.defaultPending.Within b.ctx.limits := by
  unfold defaultPending
  split
  · trivial
  · exact listIndent_le

theorem Pending.within_kind {pending : Pending} (h : pending.Within limits)
    (spans : List Span) : (pending.kind spans).Within limits := by
  cases pending with
  | listItem ordered number indent => exact h
  | _ => trivial

namespace Capped

theorem recordTruncation (h : b.Capped limits) (why : Truncation) :
    (b.recordTruncation why).Capped limits :=
  ⟨h.ctx, h.count, h.blocks, h.text, h.pending, h.quoteDepth, h.table⟩

theorem pushBlock (h : b.Capped limits) {kind : BlockKind} (hkind : kind.Within limits) :
    (b.pushBlock kind).Capped limits := by
  cases htable : b.table with
  | some table =>
      rw [pushBlock_of_table htable]
      split_ifs
      · exact h
      · refine ⟨h.ctx, h.count, h.blocks, h.text, h.pending, h.quoteDepth, ?_⟩
        intro extended hextended
        obtain rfl := Option.some.inj hextended
        exact TableBuild.within_extendCell (h.table table htable) _
  | none =>
      rw [pushBlock_of_none htable]
      by_cases hblocks : b.ctx.limits.maxBlocks ≤ b.blocks.length
      · rw [if_pos hblocks]
        exact h.recordTruncation _
      · rw [if_neg hblocks]
        split
        · exact h.recordTruncation _
        refine ⟨h.ctx, ?_, ?_, h.text, h.pending, h.quoteDepth, ?_⟩
        · rw [h.ctx] at hblocks
          simp only [List.length_append, List.length_singleton]
          omega
        · intro block hblock
          rcases List.mem_append.1 hblock with hblock | hblock
          · exact h.blocks block hblock
          · rw [List.mem_singleton.1 hblock]
            exact ⟨h.quoteDepth, hkind⟩
        · intro table hsome
          rw [htable] at hsome
          cases hsome

theorem flush (h : b.Capped limits) : b.flush.Capped limits := by
  have hpending : b.defaultPending.Within limits := h.ctx ▸ within_defaultPending
  by_cases hblank : trimSpans b.spans = []
  · rw [flush_of_blank hblank]
    exact ⟨h.ctx, h.count, h.blocks, h.text, hpending, h.quoteDepth, h.table⟩
  · cases htable : b.table with
    | some table =>
        rw [flush_of_table hblank htable]
        refine ⟨h.ctx, h.count, h.blocks, h.text, hpending, h.quoteDepth, ?_⟩
        intro extended hextended
        obtain rfl := Option.some.inj hextended
        exact TableBuild.within_extendCell (h.table table htable) _
    | none =>
        have hemptied : Capped limits { b with spans := [] } :=
          ⟨h.ctx, h.count, h.blocks, h.text, h.pending, h.quoteDepth, h.table⟩
        have hpush := hemptied.pushBlock
          (Pending.within_kind h.pending (trimSpans b.spans))
        rw [flush_of_none hblank htable]
        exact ⟨hpush.ctx, hpush.count, hpush.blocks, hpush.text, hpending, hpush.quoteDepth,
          hpush.table⟩

theorem closeTable (h : b.Capped limits) : b.closeTable.Capped limits := by
  unfold Builder.closeTable
  split
  · exact h
  · next table htable =>
      have hclosed : Capped limits { b with table := none } :=
        ⟨h.ctx, h.count, h.blocks, h.text, h.pending, h.quoteDepth, fun _ hnone => nomatch hnone⟩
      have hwithin := TableBuild.within_commitRow (h.table table htable)
      dsimp only
      rw [h.ctx]
      split_ifs
      · exact hclosed
      · exact hclosed.pushBlock ⟨hwithin.rows, hwithin.cells⟩

theorem commitRow (h : b.Capped limits) : b.commitRow.Capped limits := by
  unfold Builder.commitRow
  split
  · exact h
  · next table htable =>
      have hfiled : Capped limits
          { b with table := some (table.commitRow b.ctx.limits.maxTableRows).1 } := by
        refine ⟨h.ctx, h.count, h.blocks, h.text, h.pending, h.quoteDepth, ?_⟩
        intro filed hsome
        obtain rfl := Option.some.inj hsome
        rw [h.ctx]
        exact TableBuild.within_commitRow (h.table table htable)
      dsimp only
      split_ifs
      · exact hfiled.recordTruncation _
      · exact hfiled

theorem startCell (h : b.Capped limits) (header : Bool) : (b.startCell header).Capped limits := by
  unfold Builder.startCell
  split
  · exact h
  · next table htable =>
      have htable := h.table table htable
      have hrow : (table.currentRow.getD []).length ≤ limits.maxTableCellsPerRow := by
        cases hcurrent : table.currentRow with
        | none => exact Nat.zero_le _
        | some row => exact htable.current row hcurrent
      dsimp only
      rw [h.ctx]
      split_ifs with hfits
      · refine ⟨h.ctx, h.count, h.blocks, h.text, h.pending, h.quoteDepth, ?_⟩
        intro grown hsome
        obtain rfl := Option.some.inj hsome
        refine ⟨htable.rows, htable.cells, ?_⟩
        intro row hsome
        obtain rfl := Option.some.inj hsome
        simp only [List.length_append, List.length_singleton]
        omega
      · refine Capped.recordTruncation ?_ _
        refine ⟨h.ctx, h.count, h.blocks, h.text, h.pending, h.quoteDepth, ?_⟩
        intro kept hsome
        obtain rfl := Option.some.inj hsome
        refine ⟨htable.rows, htable.cells, ?_⟩
        intro row hsome
        obtain rfl := Option.some.inj hsome
        exact hrow

/-- The budget is what the text may still take. -/
theorem budget (h : b.Capped limits) {taken : List Char} (htaken : byteLength taken ≤ b.budget) :
    b.textBytes + byteLength taken ≤ limits.maxTextBytes := by
  have htext := h.text
  rw [Builder.budget, h.ctx] at htaken
  omega

theorem pushText (h : b.Capped limits) (text : List Char) : (b.pushText text).Capped limits := by
  unfold Builder.pushText
  split_ifs
  · exact h
  · exact h.recordTruncation _
  · exact ⟨h.ctx, h.count, h.blocks, h.budget (byteLength_clampToCharBoundary_le _ _), h.pending,
      h.quoteDepth, h.table⟩
  · exact h
  · exact h.recordTruncation _
  · exact ⟨h.ctx, h.count, h.blocks, h.budget (byteLength_clampToCharBoundary_le _ _), h.pending,
      h.quoteDepth, h.table⟩

theorem closePre (h : b.Capped limits) : b.closePre.Capped limits := by
  unfold Builder.closePre
  dsimp only
  split_ifs
  · exact ⟨h.ctx, h.count, h.blocks, h.text, h.pending, h.quoteDepth, h.table⟩
  · have hemptied : Capped limits
        { b with preDepth := b.preDepth - 1, preText := [], preLanguage := none } :=
      ⟨h.ctx, h.count, h.blocks, h.text, h.pending, h.quoteDepth, h.table⟩
    have hkind : BlockKind.Within limits (.code b.preLanguage
        ((b.preText.reverse.dropWhile (· = '\n')).reverse.dropWhile (· = '\n'))) := trivial
    have hpush := hemptied.pushBlock hkind
    exact ⟨hpush.ctx, hpush.count, hpush.blocks, hpush.text, hpush.pending, hpush.quoteDepth,
      hpush.table⟩
  · exact ⟨h.ctx, h.count, h.blocks, h.text, h.pending, h.quoteDepth, h.table⟩

/-- No change breaks a cap on structure. -/
theorem apply (h : b.Capped limits) (edit : Edit) : (b.apply edit).Capped limits := by
  obtain ⟨hctx, hcount, hblocks, htext, hpending, hquote, htable⟩ := id h
  cases edit with
  | tooDeep => exact h.recordTruncation _
  | flush => exact h.flush
  | text text => exact h.pushText text
  | lineBreak =>
      simp only [Builder.apply, breakLine]
      split_ifs
      · exact ⟨hctx, hcount, hblocks, htext, hpending, hquote, htable⟩
      · exact h
      · exact ⟨hctx, hcount, hblocks, htext, hpending, hquote, htable⟩
  | rule => exact h.pushBlock trivial
  | image src alt title fetch intrinsic link => exact h.pushBlock trivial
  | restyle style link => exact ⟨hctx, hcount, hblocks, htext, hpending, hquote, htable⟩
  | stack opened skipFrom => exact ⟨hctx, hcount, hblocks, htext, hpending, hquote, htable⟩
  | heading level => exact ⟨hctx, hcount, hblocks, htext, trivial, hquote, htable⟩
  | openList ordered =>
      simp only [Builder.apply, openList]
      split_ifs
      · exact ⟨hctx, hcount, hblocks, htext, hpending, hquote, htable⟩
      · exact h
  | nextItem =>
      have hindent : b.listIndent ≤ limits.maxListIndent := hctx ▸ listIndent_le
      simp only [Builder.apply, nextItem]
      split
      · exact ⟨hctx, hcount, hblocks, htext, hindent, hquote, htable⟩
      · exact ⟨hctx, hcount, hblocks, htext, hindent, hquote, htable⟩
  | closeList => exact ⟨hctx, hcount, hblocks, htext, hpending, hquote, htable⟩
  | openQuote =>
      have hdepth : min (saturatingAdd8 b.quoteDepth 1) b.ctx.limits.maxQuoteDepth ≤
          limits.maxQuoteDepth := hctx ▸ Nat.min_le_right _ _
      exact ⟨hctx, hcount, hblocks, htext, hpending, hdepth, htable⟩
  | closeQuote =>
      exact ⟨hctx, hcount, hblocks, htext, hpending, Nat.le_trans (Nat.sub_le _ _) hquote, htable⟩
  | openPre tag =>
      simp only [Builder.apply, openPre]
      split_ifs <;> exact ⟨hctx, hcount, hblocks, htext, hpending, hquote, htable⟩
  | closePre => exact h.closePre
  | openTable =>
      refine ⟨hctx, hcount, hblocks, htext, hpending, hquote, ?_⟩
      intro table hsome
      obtain rfl := Option.some.inj hsome
      cases hbefore : b.table with
      | none =>
          refine ⟨Nat.zero_le _, ?_, ?_⟩
          · intro row hrow
            cases hrow
          · intro row hrow
            cases hrow
      | some table => exact htable table hbefore
  | leaveTable =>
      have hleft : Capped limits { b with tableDepth := b.tableDepth - 1 } :=
        ⟨hctx, hcount, hblocks, htext, hpending, hquote, htable⟩
      simp only [Builder.apply, leaveTable]
      split_ifs
      · exact hleft.closeTable
      · exact hleft
  | openRow =>
      have hrow := h.commitRow
      refine ⟨hrow.ctx, hrow.count, hrow.blocks, hrow.text, hrow.pending, hrow.quoteDepth, ?_⟩
      intro table hsome
      obtain ⟨before, hbefore, rfl⟩ := Option.map_eq_some_iff.1 hsome
      have hwithin := hrow.table before hbefore
      refine ⟨hwithin.rows, hwithin.cells, ?_⟩
      intro row hrow
      obtain rfl := Option.some.inj hrow
      exact Nat.zero_le _
  | closeRow => exact h.commitRow
  | openCell header => exact h.startCell header

theorem applyAll (h : b.Capped limits) (edits : List Edit) :
    (b.applyAll edits).Capped limits :=
  applyAll_induction h (along_true edits) fun _ edit _ h => h.apply edit

end Capped

/-- The start of every article. -/
theorem capped_new (ctx : TransformContext) (pre : Option Truncation) :
    Capped ctx.limits { Builder.new ctx with truncated := pre } where
  ctx := rfl
  count := Nat.zero_le _
  blocks _ hblock := nomatch hblock
  text := Nat.zero_le _
  pending := trivial
  quoteDepth := Nat.zero_le _
  table _ hnone := nomatch hnone

end Builder

end Vuo.Content
