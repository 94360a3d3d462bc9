import Vuo.Verification.Content.Held

/-!
# Cuts and their report

Something was cut if more room would have kept more of it. A builder with more
room does the same as long as nothing is cut, and what is cut shows in the
document: at once, or when the text that used up the budget is emitted.
-/

namespace Vuo.Content

/-- At least as much room for text, blocks, rows and cells. -/
structure Limits.Roomier (limits limits' : Limits) : Prop where
  depth : limits'.maxDepth = limits.maxDepth
  quoteDepth : limits'.maxQuoteDepth = limits.maxQuoteDepth
  listIndent : limits'.maxListIndent = limits.maxListIndent
  blocks : limits.maxBlocks ≤ limits'.maxBlocks
  textBytes : limits.maxTextBytes ≤ limits'.maxTextBytes
  rows : limits.maxTableRows ≤ limits'.maxTableRows
  cells : limits.maxTableCellsPerRow ≤ limits'.maxTableCellsPerRow

/-- The current row is not beyond the row cap. -/
def TableBuild.RowFits (table : TableBuild) (maxRows : ℕ) : Prop :=
  ∀ row ∈ table.currentRow, row = [] ∨ table.rows.length < maxRows

theorem TableBuild.commitRow_of_fits {table : TableBuild} {maxRows maxRows' : ℕ}
    (h : table.RowFits maxRows) (hle : maxRows ≤ maxRows') :
    table.commitRow maxRows' = table.commitRow maxRows := by
  unfold commitRow
  split
  · rfl
  · next row hrow =>
      rcases h row hrow with rfl | hfits
      · rfl
      · rw [if_pos hfits, if_pos (Nat.lt_of_lt_of_le hfits hle)]

theorem TableBuild.rowFits_of_commitRow {table : TableBuild} {maxRows : ℕ}
    (h : (table.commitRow maxRows).2 = false) : table.RowFits maxRows := by
  intro row hrow
  unfold commitRow at h
  rw [hrow] at h
  dsimp only at h
  split_ifs at h with hempty hfits
  · exact .inl hempty
  · exact .inr hfits

theorem clampToCharBoundary_of_le {text : List Char} {budget budget' : ℕ}
    (h : clampToCharBoundary text budget = text) (hle : budget ≤ budget') :
    clampToCharBoundary text budget' = text := by
  induction text generalizing budget budget' with
  | nil => rfl
  | cons c text ih =>
      rw [clampToCharBoundary] at h ⊢
      split_ifs at h with hfits
      rw [if_pos (Nat.le_trans hfits hle), ih (List.cons.inj h).2 (Nat.sub_le_sub_right hle _)]

namespace Builder

/-- The same builder under other limits. -/
def withLimits (b : Builder) (limits : Limits) : Builder :=
  { b with ctx := { b.ctx with limits := limits } }

/-- The text budget is used up. -/
def Full (b : Builder) : Prop :=
  b.ctx.limits.maxTextBytes ≤ b.textBytes

def RowFits (b : Builder) : Prop :=
  ∀ table ∈ b.table, table.RowFits b.ctx.limits.maxTableRows

/-- What the change cuts is going to be reported: the text budget is not left
with a part of a character, and the table closes without a row beyond its cap. -/
def Reports (b : Builder) : Edit → Prop
  | .text text =>
      b.truncated.isSome ∨ b.skipFrom.isSome ∨ b.taken text = b.wanted text ∨
        byteLength (b.taken text) = b.budget
  | .leaveTable => b.truncated.isSome ∨ 1 < b.tableDepth ∨ b.RowFits
  | _ => True

variable {b : Builder} {limits : Limits}

/-- A text that takes what is left of the budget, and would take more. -/
theorem full_pushText (hcapped : b.Capped b.ctx.limits) {text : List Char}
    (hskip : b.skipFrom = none) (hcut : b.taken text ≠ b.wanted text)
    (hbudget : byteLength (b.taken text) = b.budget)
    (hnone : (b.pushText text).truncated = none) : (b.pushText text).Full := by
  have htext := hcapped.text
  have htruncates (h : (b.recordTruncation .tooMuchText).truncated = none) : False := by
    cases htruncated : b.truncated <;> simp [recordTruncation, htruncated] at h
  by_cases hpre : 0 < b.preDepth
  · rw [pushText_of_pre hskip hpre] at hnone ⊢
    split_ifs at hnone ⊢
    · exact (htruncates hnone).elim
    · simp only [Full, hbudget, budget]
      omega
  · rw [pushText_of_flow hskip (by omega)] at hnone ⊢
    split_ifs at hnone ⊢ with hblank
    · rw [taken, hblank] at hcut
      exact (hcut rfl).elim
    · exact (htruncates hnone).elim
    · simp only [Full, hbudget, budget]
      omega

/-- A used up budget stays used up. -/
theorem Full.applyAll {b : Builder} (h : b.Full) (edits : List Edit) : (b.applyAll edits).Full := by
  have hgrows := b.grows_applyAll edits
  rw [Full, hgrows.ctx]
  exact Nat.le_trans h hgrows.textBytes

/-- Emitting text into a cell files no row. -/
theorem rowFits_flush (h : b.RowFits) : b.flush.RowFits := by
  intro table htable
  rw [b.emits_flush.ctx]
  by_cases hblank : trimSpans b.spans = []
  · rw [flush_of_blank hblank] at htable
    exact h table htable
  · cases hbefore : b.table with
    | some before =>
        rw [flush_of_table hblank hbefore] at htable
        obtain rfl := Option.some.inj htable
        intro row hrow
        obtain ⟨old, hold, rfl⟩ := Option.map_eq_some_iff.1 hrow
        rcases h before hbefore old hold with rfl | hfits
        · exact .inl rfl
        · exact .inr hfits
    | none =>
        have hpush : (pushBlock { b with spans := [] }
            (b.pending.kind (trimSpans b.spans))).table = none := by
          rw [pushBlock_of_none (b := { b with spans := [] }) hbefore]
          split
          · exact hbefore
          · split
            · exact hbefore
            · exact hbefore
        rw [flush_of_none hblank hbefore] at htable
        rw [show _ = none from hpush] at htable
        cases htable

section MoreRoom

variable (hroomy : b.ctx.limits.Roomier limits)

include hroomy

theorem pushBlock_withLimits {kind : BlockKind} (hnone : (b.pushBlock kind).truncated = none) :
    (b.withLimits limits).pushBlock kind = (b.pushBlock kind).withLimits limits := by
  cases htable : b.table with
  | some table =>
      rw [pushBlock_of_table htable, pushBlock_of_table (b := b.withLimits limits) htable]
      split <;> rfl
  | none =>
      obtain ⟨hblocks, htext, -⟩ := pushBlock_of_untruncated htable hnone
      rw [pushBlock_of_room htable hblocks htext,
        pushBlock_of_room (b := b.withLimits limits) htable
          (Nat.lt_of_lt_of_le hblocks hroomy.blocks)
          (Nat.lt_of_lt_of_le htext hroomy.textBytes)]
      rfl

theorem listIndent_withLimits : (b.withLimits limits).listIndent = b.listIndent := by
  simp only [listIndent, withLimits, hroomy.listIndent]

theorem defaultPending_withLimits : (b.withLimits limits).defaultPending = b.defaultPending := by
  simp only [defaultPending, listIndent_withLimits hroomy]
  rfl

theorem flush_withLimits (hnone : b.flush.truncated = none) :
    (b.withLimits limits).flush = b.flush.withLimits limits := by
  have hpending := defaultPending_withLimits hroomy
  by_cases hblank : trimSpans b.spans = []
  · rw [flush_of_blank hblank, flush_of_blank (b := b.withLimits limits) hblank, hpending]
    rfl
  · cases htable : b.table with
    | some table =>
        rw [flush_of_table hblank htable,
          flush_of_table (b := b.withLimits limits) hblank htable, hpending]
        rfl
    | none =>
        rw [flush_of_none hblank htable] at hnone ⊢
        have hpush := pushBlock_withLimits (b := { b with spans := [] }) hroomy hnone
        rw [flush_of_none (b := b.withLimits limits) hblank htable, hpending]
        change { pushBlock (withLimits { b with spans := [] } limits) _ with
          pending := b.defaultPending } = _
        change pushBlock (withLimits { b with spans := [] } limits) _ = _ at hpush
        rw [show (b.withLimits limits).pending.kind (trimSpans (b.withLimits limits).spans) =
          b.pending.kind (trimSpans b.spans) from rfl, hpush]
        rfl

theorem closeTable_withLimits (hfits : b.RowFits) (hnone : b.closeTable.truncated = none) :
    (b.withLimits limits).closeTable = b.closeTable.withLimits limits := by
  unfold closeTable at hnone ⊢
  cases htable : b.table with
  | none => simp [withLimits, htable]
  | some table =>
      have hrow := TableBuild.commitRow_of_fits (hfits table htable) hroomy.rows
      simp only [withLimits, htable, hrow] at hnone ⊢
      split_ifs with hrows
      · rfl
      · rw [if_neg hrows] at hnone
        exact pushBlock_withLimits (b := { b with table := none }) hroomy hnone

theorem commitRow_withLimits (hnone : b.commitRow.truncated = none) :
    (b.withLimits limits).commitRow = b.commitRow.withLimits limits := by
  unfold commitRow at hnone ⊢
  cases htable : b.table with
  | none => simp [withLimits, htable]
  | some table =>
      simp only [withLimits, htable] at hnone ⊢
      cases hcap : (table.commitRow b.ctx.limits.maxTableRows).2 with
      | true =>
          rw [hcap, if_pos rfl] at hnone
          cases htruncated : b.truncated <;> simp [recordTruncation, htruncated] at hnone
      | false =>
          have hrow := TableBuild.commitRow_of_fits (TableBuild.rowFits_of_commitRow hcap)
            hroomy.rows
          simp [hrow, hcap]

theorem startCell_withLimits {header : Bool} (hnone : (b.startCell header).truncated = none) :
    (b.withLimits limits).startCell header = (b.startCell header).withLimits limits := by
  unfold startCell at hnone ⊢
  cases htable : b.table with
  | none => simp [withLimits, htable]
  | some table =>
      simp only [withLimits, htable] at hnone ⊢
      split_ifs at hnone with hfits
      · rw [if_pos hfits, if_pos (Nat.lt_of_lt_of_le hfits hroomy.cells)]
      · cases htruncated : b.truncated <;> simp [recordTruncation, htruncated] at hnone

theorem closePre_withLimits (hnone : b.closePre.truncated = none) :
    (b.withLimits limits).closePre = b.closePre.withLimits limits := by
  by_cases hdepth : b.preDepth - 1 = 0
  · by_cases hblank : b.codeText = []
    · rw [closePre_of_blank hdepth hblank,
        closePre_of_blank (b := b.withLimits limits) hdepth hblank]
      rfl
    · rw [closePre_of_outer hdepth hblank] at hnone ⊢
      have hpush := pushBlock_withLimits (b := b.pastPre) hroomy hnone
      rw [closePre_of_outer (b := b.withLimits limits) hdepth hblank]
      change { pushBlock (b.pastPre.withLimits limits) (.code b.preLanguage b.codeText) with
        spans := [] } = _
      rw [hpush]
      rfl
  · rw [closePre_of_inner hdepth, closePre_of_inner (b := b.withLimits limits) hdepth]
    rfl

/-- A text that fits the budget fits a larger one. -/
theorem pushText_withLimits {text : List Char} (hfits : b.taken text = b.wanted text)
    (hnone : (b.pushText text).truncated = none) :
    (b.withLimits limits).pushText text = (b.pushText text).withLimits limits := by
  have hbudget : b.budget ≤ (b.withLimits limits).budget :=
    Nat.sub_le_sub_right hroomy.textBytes _
  have htaken : (b.withLimits limits).taken text = b.taken text := by
    rw [hfits]
    exact clampToCharBoundary_of_le hfits hbudget
  have htruncates (h : (b.recordTruncation .tooMuchText).truncated = none) : False := by
    cases htruncated : b.truncated <;> simp [recordTruncation, htruncated] at h
  cases hskip : b.skipFrom with
  | some depth =>
      have hsome : b.skipFrom.isSome = true := by rw [hskip, Option.isSome_some]
      rw [pushText_of_skip hsome, pushText_of_skip (b := b.withLimits limits) hsome]
  | none =>
      by_cases hpre : 0 < b.preDepth
      · rw [pushText_of_pre hskip hpre] at hnone ⊢
        rw [pushText_of_pre (b := b.withLimits limits) hskip hpre, htaken]
        split_ifs at hnone with hzero
        · exact (htruncates hnone).elim
        · rw [if_neg hzero, if_neg (by omega)]
          rfl
      · rw [pushText_of_flow hskip (by omega)] at hnone ⊢
        rw [pushText_of_flow (b := b.withLimits limits) hskip (by
          change b.preDepth = 0
          omega), htaken]
        have hwanted : (b.withLimits limits).wanted text = b.wanted text := rfl
        rw [hwanted]
        split_ifs at hnone with hblank hzero
        · rw [if_pos hblank, if_pos hblank]
        · exact (htruncates hnone).elim
        · rw [if_neg hblank, if_neg hblank, if_neg hzero, if_neg (by omega)]
          rfl

/-- More room changes nothing, or the text budget is used up. -/
theorem apply_withLimits (hcapped : b.Capped b.ctx.limits) {edit : Edit} (hreports : b.Reports edit)
    (hnone : (b.apply edit).truncated = none) :
    (b.apply edit).Full ∨
      (b.withLimits limits).apply edit = (b.apply edit).withLimits limits := by
  have hopen : b.truncated = none := (b.grows_apply edit).untruncated hnone
  cases edit with
  | tooDeep => simp [apply, recordTruncation, hopen] at hnone
  | flush => exact .inr (flush_withLimits hroomy hnone)
  | text text =>
      by_cases hfits : b.taken text = b.wanted text
      · exact .inr (pushText_withLimits hroomy hfits hnone)
      · rcases hreports with hsome | hskip | hwhole | hbudget
        · simp [hopen] at hsome
        · refine .inr ?_
          simp only [apply]
          rw [pushText_of_skip hskip, pushText_of_skip (b := b.withLimits limits) hskip]
        · exact (hfits hwhole).elim
        · cases hskip : b.skipFrom with
          | some depth =>
              have hsome : b.skipFrom.isSome = true := by rw [hskip, Option.isSome_some]
              refine .inr ?_
              simp only [apply]
              rw [pushText_of_skip hsome, pushText_of_skip (b := b.withLimits limits) hsome]
          | none => exact .inl (full_pushText hcapped hskip hfits hbudget hnone)
  | rule => exact .inr (pushBlock_withLimits hroomy hnone)
  | image src alt title fetch intrinsic link => exact .inr (pushBlock_withLimits hroomy hnone)
  | closePre => exact .inr (closePre_withLimits hroomy hnone)
  | openList ordered =>
      refine .inr ?_
      simp only [apply, openList, withLimits, hroomy.listIndent]
      split_ifs <;> rfl
  | nextItem =>
      have hindent := listIndent_withLimits hroomy
      refine .inr ?_
      simp only [apply, nextItem, hindent]
      cases hlast : b.lists.getLast? <;> simp [withLimits, hlast]
  | openQuote =>
      refine .inr ?_
      simp only [apply, withLimits, hroomy.quoteDepth]
  | openPre tag =>
      refine .inr ?_
      by_cases hfirst : saturatingAdd32 b.preDepth 1 = 1
      · simp [apply, openPre, withLimits, hfirst]
      · simp [apply, openPre, withLimits, hfirst]
  | leaveTable =>
      refine .inr ?_
      simp only [apply, leaveTable] at hnone ⊢
      split_ifs at hnone with hdepth
      · have hfits : RowFits { b with tableDepth := b.tableDepth - 1 } := by
          rcases hreports with hsome | hdeep | hfits
          · simp [hopen] at hsome
          · omega
          · exact hfits
        have hclose := closeTable_withLimits
          (b := { b with tableDepth := b.tableDepth - 1 }) hroomy hfits hnone
        have hdepth' : (b.withLimits limits).tableDepth - 1 = 0 := hdepth
        rw [if_pos hdepth, if_pos hdepth']
        exact hclose
      · have hdepth' : (b.withLimits limits).tableDepth - 1 ≠ 0 := hdepth
        rw [if_neg hdepth, if_neg hdepth']
        rfl
  | openRow =>
      refine .inr ?_
      simp only [apply, openRow] at hnone ⊢
      rw [commitRow_withLimits hroomy hnone]
      rfl
  | closeRow => exact .inr (commitRow_withLimits hroomy hnone)
  | openCell header => exact .inr (startCell_withLimits hroomy hnone)
  | lineBreak =>
      refine .inr ?_
      by_cases hpre : 0 < b.preDepth
      · simp [apply, breakLine, withLimits, hpre]
      · by_cases hspans : b.spans = [] <;> simp [apply, breakLine, withLimits, hpre, hspans]
  | _ => exact .inr rfl

theorem applyAll_withLimits (hcapped : b.Capped b.ctx.limits) {edits : List Edit}
    (hreports : Along Reports b edits) (hnone : (b.applyAll edits).truncated = none) :
    (b.applyAll edits).Full ∨
      (b.withLimits limits).applyAll edits = (b.applyAll edits).withLimits limits := by
  induction edits generalizing b with
  | nil => exact .inr rfl
  | cons edit edits ih =>
      have hctx := (b.grows_apply edit).ctx
      have hfirst : (b.apply edit).truncated = none :=
        ((b.apply edit).grows_applyAll edits).untruncated hnone
      rw [applyAll_cons] at hnone ⊢
      rcases apply_withLimits hroomy hcapped hreports.1 hfirst with hfull | hsame
      · exact .inl (hfull.applyAll edits)
      · rw [applyAll_cons, hsame]
        exact ih (hctx ▸ hroomy) (hctx ▸ hcapped.apply edit) hreports.2 hnone

theorem finish_withLimits (hfits : b.RowFits) (hnone : b.finish.truncated = none) :
    (b.withLimits limits).finish = b.finish := by
  have hctx := b.grows_flush.ctx
  have hflush : b.flush.truncated = none := b.flush.grows_closeTable.untruncated hnone
  have hclose := closeTable_withLimits (hctx ▸ hroomy) (rowFits_flush hfits) hnone
  simp only [finish]
  rw [flush_withLimits hroomy hflush, hclose]
  rfl

variable [UrlLibrary]

omit hroomy in
theorem elementEdits_withLimits (tag : Tag) :
    (b.withLimits limits).elementEdits tag = b.elementEdits tag := by
  unfold elementEdits
  dsimp only
  cases classify (lowercase tag.name) with
  | inline inline => cases inline <;> rfl
  | _ => rfl

theorem edits_withLimits (token : Token) : (b.withLimits limits).edits token = b.edits token := by
  cases token with
  | startTag tag =>
      have hdepth : (b.withLimits limits).ctx.limits.maxDepth = b.ctx.limits.maxDepth :=
        hroomy.depth
      simp only [edits, startEdits, skippedEdits, elementEdits_withLimits, hdepth]
      rfl
  | _ => rfl

end MoreRoom

end Builder

end Vuo.Content
