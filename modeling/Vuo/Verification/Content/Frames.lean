import Vuo.Model.Content.Transform

/-!
# What emitting text leaves alone

Most of the builder is out of reach of the functions that emit blocks.
-/

namespace Vuo.Content

/-- What opening or closing a block leaves alone. -/
structure Frame (b b' : Builder) : Prop where
  ctx : b'.ctx = b.ctx
  opened : b'.opened = b.opened
  skipFrom : b'.skipFrom = b.skipFrom
  style : b'.style = b.style
  link : b'.link = b.link
  textBytes : b'.textBytes = b.textBytes

/-- What emitting a block leaves alone. -/
structure Emits (b b' : Builder) : Prop extends Frame b b' where
  quoteDepth : b'.quoteDepth = b.quoteDepth
  lists : b'.lists = b.lists
  preDepth : b'.preDepth = b.preDepth
  preText : b'.preText = b.preText
  preLanguage : b'.preLanguage = b.preLanguage
  tableDepth : b'.tableDepth = b.tableDepth

section Frames

variable {b b' b'' : Builder}

theorem Frame.refl (b : Builder) : Frame b b :=
  ⟨rfl, rfl, rfl, rfl, rfl, rfl⟩

theorem Frame.trans (h : Frame b b') (h' : Frame b' b'') : Frame b b'' where
  ctx := h'.ctx.trans h.ctx
  opened := h'.opened.trans h.opened
  skipFrom := h'.skipFrom.trans h.skipFrom
  style := h'.style.trans h.style
  link := h'.link.trans h.link
  textBytes := h'.textBytes.trans h.textBytes

theorem Emits.refl (b : Builder) : Emits b b :=
  ⟨.refl b, rfl, rfl, rfl, rfl, rfl, rfl⟩

theorem Emits.trans (h : Emits b b') (h' : Emits b' b'') : Emits b b'' where
  toFrame := h.toFrame.trans h'.toFrame
  quoteDepth := h'.quoteDepth.trans h.quoteDepth
  lists := h'.lists.trans h.lists
  preDepth := h'.preDepth.trans h.preDepth
  preText := h'.preText.trans h.preText
  preLanguage := h'.preLanguage.trans h.preLanguage
  tableDepth := h'.tableDepth.trans h.tableDepth

end Frames

namespace Builder

variable (b : Builder)

/-! ## Computation rules -/

theorem pushBlock_of_table {b : Builder} {table : TableBuild} (h : b.table = some table)
    (kind : BlockKind) :
    b.pushBlock kind =
      if trim kind.plainText = [] then b
      else { b with table := some (table.extendCell [⟨kind.plainText, {}, none⟩]) } := by
  unfold pushBlock
  rw [h]

theorem pushBlock_of_none {b : Builder} (h : b.table = none) (kind : BlockKind) :
    b.pushBlock kind =
      if b.ctx.limits.maxBlocks ≤ b.blocks.length then b.recordTruncation .tooManyBlocks
      else if b.ctx.limits.maxTextBytes ≤ b.textBytes ∧ b.textBytes = b.textCommitted then
        b.recordTruncation .tooMuchText
      else
        { b with
          truncated :=
            if b.ctx.limits.maxTextBytes ≤ b.textBytes then b.truncated.or (some .tooMuchText)
            else b.truncated
          textCommitted := b.textBytes
          blocks := b.blocks ++ [⟨kind, b.quoteDepth⟩] } := by
  unfold pushBlock
  split
  · next table htable =>
      rw [h] at htable
      cases htable
  · by_cases hblocks : b.ctx.limits.maxBlocks ≤ b.blocks.length
    · simp only [hblocks, if_true]
    · by_cases htext : b.ctx.limits.maxTextBytes ≤ b.textBytes
      · simp only [hblocks, htext, if_true, if_false, true_and]
        rfl
      · simp only [hblocks, htext, if_false, false_and]

/-! ## Frames -/

theorem blocks_pushBlock_of_none (b : Builder) (htable : b.table = none) (kind : BlockKind) :
    (b.pushBlock kind).blocks =
      if b.ctx.limits.maxBlocks ≤ b.blocks.length ∨
          b.ctx.limits.maxTextBytes ≤ b.textBytes ∧ b.textBytes = b.textCommitted then b.blocks
      else b.blocks ++ [⟨kind, b.quoteDepth⟩] := by
  rw [pushBlock_of_none htable]
  by_cases hblocks : b.ctx.limits.maxBlocks ≤ b.blocks.length
  · rw [if_pos hblocks, if_pos (.inl hblocks)]
    rfl
  · by_cases hfull : b.ctx.limits.maxTextBytes ≤ b.textBytes ∧ b.textBytes = b.textCommitted
    · rw [if_neg hblocks, if_pos hfull, if_pos (.inr hfull)]
      rfl
    · have hroom : ¬ (b.ctx.limits.maxBlocks ≤ b.blocks.length ∨
          b.ctx.limits.maxTextBytes ≤ b.textBytes ∧ b.textBytes = b.textCommitted) :=
        not_or.2 ⟨hblocks, hfull⟩
      rw [if_neg hblocks, if_neg hfull, if_neg hroom]

theorem emits_recordTruncation (why : Truncation) : Emits b (b.recordTruncation why) :=
  ⟨⟨rfl, rfl, rfl, rfl, rfl, rfl⟩, rfl, rfl, rfl, rfl, rfl, rfl⟩

theorem emits_pushBlock (kind : BlockKind) : Emits b (b.pushBlock kind) := by
  cases htable : b.table with
  | some table =>
      rw [pushBlock_of_table htable]
      split
      · exact .refl b
      · exact ⟨⟨rfl, rfl, rfl, rfl, rfl, rfl⟩, rfl, rfl, rfl, rfl, rfl, rfl⟩
  | none =>
      rw [pushBlock_of_none htable]
      split_ifs <;> exact ⟨⟨rfl, rfl, rfl, rfl, rfl, rfl⟩, rfl, rfl, rfl, rfl, rfl, rfl⟩

/-- Nothing to emit. -/
theorem flush_of_blank {b : Builder} (h : trimSpans b.spans = []) :
    b.flush = { b with spans := [], pending := b.defaultPending } := by
  unfold flush
  dsimp only
  rw [if_pos h]
  rfl

theorem flush_of_table {b : Builder} {table : TableBuild} (h : trimSpans b.spans ≠ [])
    (htable : b.table = some table) :
    b.flush =
      { b with
        spans := []
        table := some (table.extendCell (trimSpans b.spans))
        pending := b.defaultPending } := by
  unfold flush
  dsimp only
  rw [if_neg h]
  split
  · next table' htable' =>
      obtain rfl : table = table' := Option.some.inj (htable.symm.trans htable')
      rfl
  · next htable' =>
      rw [htable] at htable'
      cases htable'

theorem flush_of_none {b : Builder} (h : trimSpans b.spans ≠ []) (htable : b.table = none) :
    b.flush =
      { pushBlock { b with spans := [] } (b.pending.kind (trimSpans b.spans)) with
        pending := b.defaultPending } := by
  have hemits := emits_pushBlock { b with spans := [] } (b.pending.kind (trimSpans b.spans))
  have hpending : (pushBlock { b with spans := [] }
      (b.pending.kind (trimSpans b.spans))).defaultPending = b.defaultPending := by
    simp only [defaultPending, listIndent, hemits.lists, hemits.ctx]
  unfold flush
  dsimp only
  rw [if_neg h]
  split
  · next table' htable' =>
      rw [htable] at htable'
      cases htable'
  · rw [hpending]

theorem emits_flush : Emits b b.flush := by
  by_cases hblank : trimSpans b.spans = []
  · rw [flush_of_blank hblank]
    exact ⟨⟨rfl, rfl, rfl, rfl, rfl, rfl⟩, rfl, rfl, rfl, rfl, rfl, rfl⟩
  · cases htable : b.table with
    | some table =>
        rw [flush_of_table hblank htable]
        exact ⟨⟨rfl, rfl, rfl, rfl, rfl, rfl⟩, rfl, rfl, rfl, rfl, rfl, rfl⟩
    | none =>
        have hpush := emits_pushBlock { b with spans := [] }
          (b.pending.kind (trimSpans b.spans))
        rw [flush_of_none hblank htable]
        exact ⟨⟨hpush.ctx, hpush.opened, hpush.skipFrom, hpush.style, hpush.link,
          hpush.textBytes⟩, hpush.quoteDepth, hpush.lists, hpush.preDepth, hpush.preText,
          hpush.preLanguage, hpush.tableDepth⟩

theorem emits_closeTable : Emits b b.closeTable := by
  unfold closeTable
  split
  · exact .refl b
  · have htable : Emits b { b with table := none } :=
      ⟨⟨rfl, rfl, rfl, rfl, rfl, rfl⟩, rfl, rfl, rfl, rfl, rfl, rfl⟩
    dsimp only
    split
    · exact htable
    · exact htable.trans (emits_pushBlock _ _)

theorem emits_commitRow : Emits b b.commitRow := by
  unfold commitRow
  split
  · exact .refl b
  · dsimp only
    split <;> exact ⟨⟨rfl, rfl, rfl, rfl, rfl, rfl⟩, rfl, rfl, rfl, rfl, rfl, rfl⟩

theorem emits_startCell (header : Bool) : Emits b (b.startCell header) := by
  unfold startCell
  split
  · exact .refl b
  · dsimp only
    split <;> exact ⟨⟨rfl, rfl, rfl, rfl, rfl, rfl⟩, rfl, rfl, rfl, rfl, rfl, rfl⟩

theorem frame_closePre : Frame b b.closePre := by
  unfold closePre
  dsimp only
  split_ifs
  · exact ⟨rfl, rfl, rfl, rfl, rfl, rfl⟩
  · have hpush := (emits_pushBlock
      { b with preDepth := b.preDepth - 1, preText := [], preLanguage := none }
      (.code b.preLanguage
        ((b.preText.reverse.dropWhile (· = '\n')).reverse.dropWhile (· = '\n')))).toFrame
    exact ⟨hpush.ctx, hpush.opened, hpush.skipFrom, hpush.style, hpush.link, hpush.textBytes⟩
  · exact ⟨rfl, rfl, rfl, rfl, rfl, rfl⟩

theorem frame_closeBlock (block : BlockTag) : Frame b (b.closeBlock block) := by
  have hflush := b.emits_flush.toFrame
  cases block with
  | heading level => exact hflush
  | paragraph => exact hflush
  | listItem => exact hflush
  | list ordered => exact hflush.trans ⟨rfl, rfl, rfl, rfl, rfl, rfl⟩
  | quote => exact hflush.trans ⟨rfl, rfl, rfl, rfl, rfl, rfl⟩
  | pre => exact b.frame_closePre
  | table =>
      have hdepth : Frame b { b.flush with tableDepth := b.flush.tableDepth - 1 } :=
        hflush.trans ⟨rfl, rfl, rfl, rfl, rfl, rfl⟩
      unfold closeBlock
      dsimp only
      split_ifs
      · exact hdepth.trans (emits_closeTable _).toFrame
      · exact hdepth
  | tableRow => exact hflush.trans (emits_commitRow _).toFrame
  | tableCell header => exact hflush

theorem frame_startBlock (block : BlockTag) (tag : Tag) : Frame b (b.startBlock block tag) := by
  have hflush := b.emits_flush.toFrame
  cases block with
  | paragraph => exact hflush
  | heading level => exact hflush.trans ⟨rfl, rfl, rfl, rfl, rfl, rfl⟩
  | list ordered =>
      unfold startBlock
      dsimp only
      split_ifs
      · exact hflush.trans ⟨rfl, rfl, rfl, rfl, rfl, rfl⟩
      · exact hflush
  | listItem =>
      unfold startBlock
      dsimp only
      split <;> exact hflush.trans ⟨rfl, rfl, rfl, rfl, rfl, rfl⟩
  | quote => exact hflush.trans ⟨rfl, rfl, rfl, rfl, rfl, rfl⟩
  | pre =>
      unfold startBlock
      dsimp only
      split_ifs <;> exact hflush.trans ⟨rfl, rfl, rfl, rfl, rfl, rfl⟩
  | table => exact hflush.trans ⟨rfl, rfl, rfl, rfl, rfl, rfl⟩
  | tableRow =>
      have hrow := hflush.trans (emits_commitRow b.flush).toFrame
      exact hrow.trans ⟨rfl, rfl, rfl, rfl, rfl, rfl⟩
  | tableCell header => exact hflush.trans (emits_startCell _ header).toFrame

/-! ## The context -/

theorem ctx_closeElement (element : OpenElement) : (b.closeElement element).ctx = b.ctx := by
  unfold closeElement
  split_ifs
  · rfl
  · split
    · exact (frame_closeBlock (b.restore element) _).ctx
    · rfl

theorem ctx_leaveSkip : b.leaveSkip.ctx = b.ctx := by
  unfold leaveSkip
  split
  · split_ifs <;> rfl
  · rfl

theorem ctx_closeDown (name : String) (elements : List OpenElement) :
    (closeDown name elements b).ctx = b.ctx := by
  induction elements generalizing b with
  | nil => rfl
  | cons element elements ih =>
      have hclosed := (ctx_leaveSkip _).trans
        (ctx_closeElement { b with opened := elements } element)
      rw [closeDown]
      split_ifs
      · exact hclosed
      · exact (ih _).trans hclosed

theorem ctx_pushText (text : List Char) : (b.pushText text).ctx = b.ctx := by
  unfold pushText
  split_ifs <;> rfl

variable [UrlLibrary]

theorem frame_image (tag : Tag) : Frame b (b.image tag) := by
  have hpush : ∀ kind, Frame b (b.flush.pushBlock kind) := fun kind =>
    b.emits_flush.toFrame.trans (emits_pushBlock _ kind).toFrame
  unfold image
  split
  · exact .refl b
  · split
    · exact hpush _
    · exact hpush _
    · exact .refl b

theorem frame_voidElement (void : VoidTag) (tag : Tag) : Frame b (b.voidElement void tag) := by
  cases void with
  | lineBreak =>
      unfold voidElement
      dsimp only
      split_ifs <;> exact ⟨rfl, rfl, rfl, rfl, rfl, rfl⟩
  | rule => exact b.emits_flush.toFrame.trans (emits_pushBlock _ _).toFrame
  | image => exact b.frame_image tag

theorem ctx_startElement (tag : Tag) : (b.startElement tag).ctx = b.ctx := by
  unfold startElement
  dsimp only
  cases classify (lowercase tag.name) with
  | void void => exact (b.frame_voidElement void tag).ctx
  | inline inline =>
      dsimp only
      split_ifs
      · rfl
      · cases inline <;> rfl
      · cases inline <;> rfl
  | block block =>
      dsimp only
      split_ifs <;> exact (b.frame_startBlock block tag).ctx
  | skip =>
      dsimp only
      split_ifs <;> rfl
  | flatten =>
      dsimp only
      split_ifs <;> rfl

theorem ctx_startTag (tag : Tag) : (b.startTag tag).ctx = b.ctx := by
  unfold startTag
  split_ifs
  · unfold startSkipped
    split_ifs <;> rfl
  · unfold startSkip
    dsimp only
    split_ifs <;> exact b.emits_flush.ctx
  · rfl
  · exact b.ctx_startElement tag

theorem ctx_processToken (token : Token) : (b.processToken token).ctx = b.ctx := by
  unfold processToken
  split_ifs
  · rfl
  · cases token with
    | startTag tag => exact b.ctx_startTag tag
    | endTag tag =>
        change (b.endTag tag).ctx = b.ctx
        unfold endTag
        split_ifs
        · exact b.ctx_closeDown _ _
        · rfl
    | characters text => exact b.ctx_pushText text
    | ignored => rfl

end Builder

end Vuo.Content
