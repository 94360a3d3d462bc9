import Vuo.Verification.Content.Frames

/-!
# The changes a token makes

What a token does is decided on the stack of open elements and carried out on
the rest of the builder. `steps` is the first half: the changes a token makes,
in order. An invariant then has to be shown for one change at a time.
-/

namespace Vuo.Content

/-- One change to the builder. -/
inductive Edit
  | tooDeep
  | flush
  | text (text : List Char)
  | lineBreak
  | rule
  | image (src : MediaUrl) (alt : List Char) (title : Option (List Char)) (fetch : MediaFetch)
      (intrinsic : Option (ℕ × ℕ)) (link : Option MediaUrl)
  | restyle (style : Option SpanStyle) (link : Option (Option MediaUrl))
  | stack (opened : List OpenElement) (skipFrom : Option ℕ)
  | heading (level : ℕ)
  | openList (ordered : Bool)
  | nextItem
  | closeList
  | openQuote
  | closeQuote
  | openPre (tag : Tag)
  | closePre
  | openTable
  | leaveTable
  | openRow
  | closeRow
  | openCell (header : Bool)

namespace Builder

variable (b : Builder)

/-! ## Changes of blocks, without the flush before them -/

def breakLine : Builder :=
  if 0 < b.preDepth then { b with preText := b.preText ++ ['\n'] }
  else if b.spans = [] then b
  else { b with spans := b.spans ++ [⟨['\n'], b.style, b.link⟩] }

def openList (ordered : Bool) : Builder :=
  if b.lists.length < b.ctx.limits.maxListIndent then
    { b with lists := b.lists ++ [⟨ordered, 0⟩] }
  else b

def nextItem : Builder :=
  match b.lists.getLast? with
  | some list =>
      let counter := saturatingAdd32 list.counter 1
      { b with
        lists := b.lists.dropLast ++ [{ list with counter := counter }]
        pending := .listItem list.ordered (if list.ordered then some counter else none)
          b.listIndent }
  | none => { b with pending := .listItem false none b.listIndent }

def openPre (tag : Tag) : Builder :=
  if saturatingAdd32 b.preDepth 1 = 1 then
    { b with
      preDepth := saturatingAdd32 b.preDepth 1
      preText := []
      preLanguage := classLanguage tag }
  else { b with preDepth := saturatingAdd32 b.preDepth 1 }

def openTable : Builder :=
  { b with
    tableDepth := saturatingAdd32 b.tableDepth 1
    table := some (b.table.getD ⟨[], none, false⟩) }

/-- Only the outermost table closes. -/
def leaveTable : Builder :=
  if b.tableDepth - 1 = 0 then closeTable { b with tableDepth := b.tableDepth - 1 }
  else { b with tableDepth := b.tableDepth - 1 }

def openRow : Builder :=
  { b.commitRow with
    table := b.commitRow.table.map fun table => { table with currentRow := some [] } }

def apply : Edit → Builder
  | .tooDeep => b.recordTruncation .tooDeep
  | .flush => b.flush
  | .text text => b.pushText text
  | .lineBreak => b.breakLine
  | .rule => b.pushBlock .rule
  | .image src alt title fetch intrinsic link =>
      b.pushBlock (.image src alt title fetch intrinsic link)
  | .restyle style link => { b with style := style.getD b.style, link := link.getD b.link }
  | .stack opened skipFrom => { b with opened := opened, skipFrom := skipFrom }
  | .heading level => { b with pending := .heading level }
  | .openList ordered => b.openList ordered
  | .nextItem => b.nextItem
  | .closeList => { b with lists := b.lists.dropLast }
  | .openQuote =>
      { b with quoteDepth := min (saturatingAdd8 b.quoteDepth 1) b.ctx.limits.maxQuoteDepth }
  | .closeQuote => { b with quoteDepth := b.quoteDepth - 1 }
  | .openPre tag => b.openPre tag
  | .closePre => b.closePre
  | .openTable => b.openTable
  | .leaveTable => b.leaveTable
  | .openRow => b.openRow
  | .closeRow => b.commitRow
  | .openCell header => b.startCell header

def applyAll (edits : List Edit) : Builder :=
  edits.foldl apply b

@[simp] theorem applyAll_nil : b.applyAll [] = b := rfl

@[simp] theorem applyAll_cons (edit : Edit) (edits : List Edit) :
    b.applyAll (edit :: edits) = (b.apply edit).applyAll edits := rfl

theorem applyAll_append (edits more : List Edit) :
    b.applyAll (edits ++ more) = (b.applyAll edits).applyAll more :=
  List.foldl_append

end Builder

/-! ## Blocks -/

/-- What opening a block changes. -/
def BlockTag.opening (block : BlockTag) (tag : Tag) : List Edit :=
  match block with
  | .paragraph => [.flush]
  | .heading level => [.flush, .heading level]
  | .list ordered => [.flush, .openList ordered]
  | .listItem => [.flush, .nextItem]
  | .quote => [.flush, .openQuote]
  | .pre => [.flush, .openPre tag]
  | .table => [.flush, .openTable]
  | .tableRow => [.flush, .openRow]
  | .tableCell header => [.flush, .openCell header]

/-- What closing a block changes. -/
def BlockTag.closing : BlockTag → List Edit
  | .heading _ => [.flush]
  | .paragraph => [.flush]
  | .listItem => [.flush]
  | .list _ => [.flush, .closeList]
  | .quote => [.flush, .closeQuote]
  | .pre => [.closePre]
  | .table => [.flush, .leaveTable]
  | .tableRow => [.flush, .closeRow]
  | .tableCell _ => [.flush]

namespace Builder

variable (b : Builder)

theorem startBlock_eq (block : BlockTag) (tag : Tag) :
    b.startBlock block tag = b.applyAll (block.opening tag) := by
  cases block with
  | pre => simp only [startBlock, BlockTag.opening, applyAll_cons, applyAll_nil, apply, openPre]
  | _ => rfl

theorem closeBlock_eq (block : BlockTag) :
    b.closeBlock block = b.applyAll block.closing := by
  cases block with
  | table =>
      simp only [closeBlock, BlockTag.closing, applyAll_cons, applyAll_nil, apply, leaveTable]
  | _ => rfl

end Builder

/-! ## Start tags -/

/-- What closing an element outside skipped ones changes. -/
def OpenElement.closing (element : OpenElement) : List Edit :=
  .restyle element.savedStyle element.savedLink ::
    match element.disposition with
    | .block block => block.closing
    | _ => []

namespace Builder

variable [UrlLibrary] (b : Builder)

def imageEdits (tag : Tag) : List Edit :=
  let shown (src : MediaUrl) (fetch : MediaFetch) : List Edit :=
    [.flush, .image src ((attr tag "alt").getD []) ((attr tag "title").filter fun t => t ≠ [])
      fetch (intrinsicSize tag) b.link]
  match (nonEmptyAttr tag "src").bind b.resolve with
  | none => []
  | some src =>
      match b.ctx.media.decideWithConsent src [] with
      | .fetch src => shown src .allowed
      | .needsConsent src => shown src .needsConsent
      | .drop => []

def voidEdits (void : VoidTag) (tag : Tag) : List Edit :=
  match void with
  | .lineBreak => [.lineBreak]
  | .rule => [.flush, .rule]
  | .image => b.imageEdits tag

/-- Put an element on the stack, unless it has no children. -/
def openEdits (tag : Tag) (element : OpenElement) : List Edit :=
  if childless tag then [] else [.stack (element :: b.opened) b.skipFrom]

def elementEdits (tag : Tag) : List Edit :=
  let name := lowercase tag.name
  match classify name with
  | .void void => b.voidEdits void tag
  | .inline inline =>
      if childless tag then []
      else
        [.restyle (some (b.applyInline inline tag).style) (some (b.applyInline inline tag).link),
          .stack (⟨name, .inline inline, some b.style,
            if inline = .anchor then some b.link else none⟩ :: b.opened) b.skipFrom]
  | .block block => block.opening tag ++ b.openEdits tag ⟨name, .block block, none, none⟩
  | disposition => b.openEdits tag ⟨name, disposition, none, none⟩

/-- A start tag inside a skipped element. -/
def skippedEdits (tag : Tag) : List Edit :=
  if !childless tag && b.opened.length < b.ctx.limits.maxDepth then
    [.stack (⟨lowercase tag.name, .skip, none, none⟩ :: b.opened) b.skipFrom]
  else []

/-- The start tag of a skipped element. -/
def skipEdits (tag : Tag) : List Edit :=
  .flush :: if childless tag then [] else
    [.stack (⟨lowercase tag.name, .skip, none, none⟩ :: b.opened) (some b.opened.length)]

def startEdits (tag : Tag) : List Edit :=
  if b.skipFrom.isSome then b.skippedEdits tag
  else if classify (lowercase tag.name) = .skip then b.skipEdits tag
  else if b.ctx.limits.maxDepth ≤ b.opened.length then [.tooDeep]
  else b.elementEdits tag

end Builder

/-! ## End tags -/

/-- The skipping that goes on with fewer elements open. -/
def skipLeft (opened : List OpenElement) (skipFrom : Option ℕ) : Option ℕ :=
  skipFrom.filter fun depth => depth < opened.length

/-- What closing elements down to one of the name changes. -/
def closeEdits (name : String) : List OpenElement → Option ℕ → List Edit
  | [], _ => []
  | element :: rest, skipFrom =>
      .stack rest skipFrom :: (if skipFrom.isSome then [] else element.closing) ++
        .stack rest (skipLeft rest skipFrom) ::
          if element.name = name then [] else closeEdits name rest (skipLeft rest skipFrom)

namespace Builder

variable [UrlLibrary] (b : Builder)

def edits : Token → List Edit
  | .startTag tag => b.startEdits tag
  | .endTag tag =>
      if b.opened.any fun element => element.name = lowercase tag.name then
        closeEdits (lowercase tag.name) b.opened b.skipFrom
      else []
  | .characters text => [.text text]
  | .ignored => []

/-- The changes of a token, none once the article has ended. -/
def steps (token : Token) : List Edit :=
  if b.stopped then [] else b.edits token

/-- The changes of a whole article. -/
def script : Builder → List Token → List Edit
  | _, [] => []
  | b, token :: tokens => b.steps token ++ script (b.processToken token) tokens

/-! ## The changes are what the token does -/

theorem image_eq (tag : Tag) : b.image tag = b.applyAll (b.imageEdits tag) := by
  have hlink := b.emits_flush.link
  unfold image imageEdits
  cases (nonEmptyAttr tag "src").bind b.resolve with
  | none => rfl
  | some src =>
      cases hdecide : b.ctx.media.decideWithConsent src [] with
      | fetch shown => simp only [hdecide, hlink, applyAll_cons, applyAll_nil, apply]
      | needsConsent shown => simp only [hdecide, hlink, applyAll_cons, applyAll_nil, apply]
      | drop => simp only [hdecide, applyAll_nil]

theorem voidElement_eq (void : VoidTag) (tag : Tag) :
    b.voidElement void tag = b.applyAll (b.voidEdits void tag) := by
  cases void with
  | lineBreak => rfl
  | rule => rfl
  | image => exact b.image_eq tag

omit [UrlLibrary] in
theorem openEdits_eq {b' : Builder} (hopened : b'.opened = b.opened)
    (hskip : b'.skipFrom = b.skipFrom) (tag : Tag) (element : OpenElement) :
    (if childless tag then b' else b'.openElement element) =
      b'.applyAll (b.openEdits tag element) := by
  unfold openEdits
  split_ifs
  · rfl
  · simp only [applyAll_cons, applyAll_nil, apply, openElement, hopened, ← hskip]

theorem startElement_eq (tag : Tag) :
    b.startElement tag = b.applyAll (b.elementEdits tag) := by
  unfold startElement elementEdits
  dsimp only
  cases classify (lowercase tag.name) with
  | void void => exact b.voidElement_eq void tag
  | inline inline =>
      dsimp only
      split_ifs
      · rfl
      · cases inline <;> rfl
      · cases inline <;> rfl
  | block block =>
      have hframe := b.frame_startBlock block tag
      dsimp only
      rw [applyAll_append, ← startBlock_eq]
      exact b.openEdits_eq hframe.opened hframe.skipFrom tag _
  | skip => exact b.openEdits_eq rfl rfl tag _
  | flatten => exact b.openEdits_eq rfl rfl tag _

omit [UrlLibrary] in
theorem startSkipped_eq (tag : Tag) :
    b.startSkipped tag = b.applyAll (b.skippedEdits tag) := by
  unfold startSkipped skippedEdits
  split_ifs <;> rfl

omit [UrlLibrary] in
theorem startSkip_eq (tag : Tag) : b.startSkip tag = b.applyAll (b.skipEdits tag) := by
  have hopened := b.emits_flush.opened
  unfold startSkip skipEdits
  dsimp only
  split_ifs
  · rfl
  · simp only [applyAll_cons, applyAll_nil, apply, hopened]

theorem startTag_eq (tag : Tag) : b.startTag tag = b.applyAll (b.startEdits tag) := by
  unfold startTag startEdits
  split_ifs with hskip hskipped hdepth
  · exact b.startSkipped_eq tag
  · exact b.startSkip_eq tag
  · rfl
  · exact b.startElement_eq tag

omit [UrlLibrary] in
theorem closeElement_eq (element : OpenElement) :
    b.closeElement element =
      b.applyAll (if b.skipFrom.isSome then [] else element.closing) := by
  unfold closeElement OpenElement.closing
  split_ifs
  · rfl
  · cases element.disposition with
    | block block => exact closeBlock_eq _ _
    | _ => rfl

omit [UrlLibrary] in
theorem leaveSkip_eq : b.leaveSkip = { b with skipFrom := skipLeft b.opened b.skipFrom } := by
  unfold leaveSkip skipLeft
  cases hskip : b.skipFrom with
  | none =>
      simp only [Option.filter]
      rw [← hskip]
  | some depth =>
      by_cases hdepth : b.opened.length ≤ depth
      · simp [hdepth, Nat.not_lt.2 hdepth, Option.filter]
      · simp [hdepth, Nat.lt_of_not_le hdepth, Option.filter, ← hskip]

omit [UrlLibrary] in
theorem frame_closeElement (element : OpenElement) :
    (b.closeElement element).opened = b.opened ∧
      (b.closeElement element).skipFrom = b.skipFrom := by
  unfold closeElement
  split_ifs
  · exact ⟨rfl, rfl⟩
  · split
    · have hframe := frame_closeBlock (b.restore element)
      exact ⟨(hframe _).opened, (hframe _).skipFrom⟩
    · exact ⟨rfl, rfl⟩

omit [UrlLibrary] in
theorem closeDown_eq (name : String) (elements : List OpenElement) :
    closeDown name elements b = b.applyAll (closeEdits name elements b.skipFrom) := by
  induction elements generalizing b with
  | nil => rfl
  | cons element rest ih =>
      -- One element closes; the rest of the script starts from what it leaves.
      have hclosed := closeElement_eq { b with opened := rest } element
      have hframe := frame_closeElement { b with opened := rest } element
      have hleave := leaveSkip_eq (closeElement { b with opened := rest } element)
      rw [hframe.1, hframe.2] at hleave
      have hstack : (closeElement { b with opened := rest } element).leaveSkip =
          (closeElement { b with opened := rest } element).apply
            (.stack rest (skipLeft rest b.skipFrom)) := by
        rw [hleave]
        simp only [apply]
      have hskip : (closeElement { b with opened := rest } element).leaveSkip.skipFrom =
          skipLeft rest b.skipFrom := by
        rw [hleave]
      rw [closeDown, closeEdits, List.cons_append, applyAll_cons, applyAll_append, applyAll_cons]
      change (if element.name = name then _ else _) =
        (((applyAll { b with opened := rest } _).apply _).applyAll _)
      rw [← hclosed, ← hstack]
      split_ifs
      · rfl
      · rw [ih, hskip]

theorem handle_eq (token : Token) : b.handle token = b.applyAll (b.edits token) := by
  cases token with
  | startTag tag => exact b.startTag_eq tag
  | endTag tag =>
      change b.endTag tag = _
      unfold endTag
      simp only [edits]
      split_ifs
      · exact b.closeDown_eq _ _
      · rfl
  | characters text => rfl
  | ignored => rfl

theorem processToken_eq (token : Token) : b.processToken token = b.applyAll (b.steps token) := by
  unfold processToken steps
  split_ifs
  · rfl
  · exact b.handle_eq token

theorem run_eq (tokens : List Token) : b.run tokens = b.applyAll (b.script tokens) := by
  induction tokens generalizing b with
  | nil => rfl
  | cons token tokens ih =>
      have hrun : b.run (token :: tokens) = (b.processToken token).run tokens := rfl
      rw [hrun, ih, script, applyAll_append, ← processToken_eq]

end Builder

/-! ## Properties of every change -/

namespace Builder

variable {b : Builder}

/-- A property of every change and of the builder it is made to. -/
def Along (P : Builder → Edit → Prop) : Builder → List Edit → Prop
  | _, [] => True
  | b, edit :: edits => P b edit ∧ Along P (b.apply edit) edits

variable {P : Builder → Edit → Prop}

theorem along_append {edits more : List Edit} :
    Along P b (edits ++ more) ↔ Along P b edits ∧ Along P (b.applyAll edits) more := by
  induction edits generalizing b with
  | nil => simp [Along]
  | cons edit edits ih =>
      rw [List.cons_append, Along, Along, ih, applyAll_cons, and_assoc]

/-- An invariant of every change is one of all of them. -/
theorem applyAll_induction {I : Builder → Prop} {edits : List Edit} (h : I b)
    (halong : Along P b edits)
    (hstep : ∀ b edit, P b edit → I b → I (b.apply edit)) : I (b.applyAll edits) := by
  induction edits generalizing b with
  | nil => exact h
  | cons edit edits ih => exact ih (hstep b edit halong.1 h) halong.2

theorem along_true (edits : List Edit) : Along (fun _ _ => True) b edits := by
  induction edits generalizing b with
  | nil => trivial
  | cons edit edits ih => exact ⟨trivial, ih⟩

/-- The changes before a token, those of the token, and those after it. -/
theorem script_append [UrlLibrary] (before after : List Token) :
    b.script (before ++ after) = b.script before ++ (b.run before).script after := by
  induction before generalizing b with
  | nil => rfl
  | cons token before ih =>
      rw [List.cons_append, script, script, ih, List.append_assoc]
      rfl

end Builder

/-! ## What no change undoes -/

/-- The context stays, the text budget is only ever used up, and a truncation
is never taken back. -/
structure Grows (b b' : Builder) : Prop where
  ctx : b'.ctx = b.ctx
  textBytes : b.textBytes ≤ b'.textBytes
  untruncated : b'.truncated = none → b.truncated = none

theorem Grows.refl (b : Builder) : Grows b b :=
  ⟨rfl, Nat.le_refl _, id⟩

theorem Grows.trans {b b' b'' : Builder} (h : Grows b b') (h' : Grows b' b'') : Grows b b'' where
  ctx := h'.ctx.trans h.ctx
  textBytes := Nat.le_trans h.textBytes h'.textBytes
  untruncated hnone := h.untruncated (h'.untruncated hnone)

/-- A change that leaves the truncation alone. -/
theorem Frame.grows {b b' : Builder} (h : Frame b b') (hsame : b'.truncated = b.truncated) :
    Grows b b' :=
  ⟨h.ctx, Nat.le_of_eq h.textBytes.symm, fun hnone => hsame ▸ hnone⟩

namespace Builder

theorem grows_recordTruncation (b : Builder) (why : Truncation) :
    Grows b (b.recordTruncation why) := by
  refine ⟨rfl, Nat.le_refl _, fun hnone => ?_⟩
  cases htruncated : b.truncated with
  | none => rfl
  | some why => simp [recordTruncation, htruncated] at hnone

/-- A block that is emitted without a truncation had room in every budget. -/
theorem pushBlock_of_untruncated {b : Builder} {kind : BlockKind} (htable : b.table = none)
    (h : (b.pushBlock kind).truncated = none) :
    b.blocks.length < b.ctx.limits.maxBlocks ∧ b.textBytes < b.ctx.limits.maxTextBytes ∧
      b.truncated = none := by
  rw [pushBlock_of_none htable] at h
  by_cases hblocks : b.ctx.limits.maxBlocks ≤ b.blocks.length
  · rw [if_pos hblocks] at h
    cases htruncated : b.truncated <;> simp [recordTruncation, htruncated] at h
  · rw [if_neg hblocks] at h
    by_cases hfull : b.ctx.limits.maxTextBytes ≤ b.textBytes
    · split at h
      · cases htruncated : b.truncated <;> simp [recordTruncation, htruncated] at h
      · cases htruncated : b.truncated <;> simp [htruncated] at h
    · rw [if_neg fun hand => hfull hand.1] at h
      simp only [hfull, if_false] at h
      exact ⟨by omega, by omega, h⟩

theorem pushBlock_of_room {b : Builder} (htable : b.table = none)
    (hblocks : b.blocks.length < b.ctx.limits.maxBlocks)
    (htext : b.textBytes < b.ctx.limits.maxTextBytes) (kind : BlockKind) :
    b.pushBlock kind =
      { b with textCommitted := b.textBytes, blocks := b.blocks ++ [⟨kind, b.quoteDepth⟩] } := by
  rw [pushBlock_of_none htable, if_neg (by omega), if_neg fun hand => by omega]
  simp only [Nat.not_le.2 htext, if_false]

theorem grows_pushBlock (b : Builder) (kind : BlockKind) : Grows b (b.pushBlock kind) := by
  have hframe := (b.emits_pushBlock kind).toFrame
  refine ⟨hframe.ctx, Nat.le_of_eq hframe.textBytes.symm, fun hnone => ?_⟩
  cases htable : b.table with
  | none => exact (pushBlock_of_untruncated htable hnone).2.2
  | some table =>
      rw [pushBlock_of_table htable] at hnone
      split at hnone <;> exact hnone

theorem grows_flush (b : Builder) : Grows b b.flush := by
  have hframe := b.emits_flush.toFrame
  by_cases hblank : trimSpans b.spans = []
  · rw [flush_of_blank hblank] at hframe ⊢
    exact hframe.grows rfl
  · cases htable : b.table with
    | some table =>
        rw [flush_of_table hblank htable] at hframe ⊢
        exact hframe.grows rfl
    | none =>
        have hpush := grows_pushBlock { b with spans := [] }
          (b.pending.kind (trimSpans b.spans))
        rw [flush_of_none hblank htable]
        exact ⟨hpush.ctx, hpush.textBytes, hpush.untruncated⟩

theorem grows_closeTable (b : Builder) : Grows b b.closeTable := by
  unfold closeTable
  split
  · exact .refl b
  · dsimp only
    split_ifs
    · exact ⟨rfl, Nat.le_refl _, id⟩
    · have hpush := grows_pushBlock { b with table := none }
      exact ⟨(hpush _).ctx, (hpush _).textBytes, (hpush _).untruncated⟩

theorem grows_commitRow (b : Builder) : Grows b b.commitRow := by
  unfold commitRow
  split
  · exact .refl b
  · dsimp only
    split_ifs
    · refine Grows.trans ?_ (grows_recordTruncation _ _)
      exact ⟨rfl, Nat.le_refl _, id⟩
    · exact ⟨rfl, Nat.le_refl _, id⟩

theorem grows_startCell (b : Builder) (header : Bool) : Grows b (b.startCell header) := by
  unfold startCell
  split
  · exact .refl b
  · dsimp only
    split_ifs
    · exact ⟨rfl, Nat.le_refl _, id⟩
    · refine Grows.trans ?_ (grows_recordTruncation _ _)
      exact ⟨rfl, Nat.le_refl _, id⟩

theorem grows_pushText (b : Builder) (text : List Char) : Grows b (b.pushText text) := by
  unfold pushText
  split_ifs
  · exact .refl b
  · exact b.grows_recordTruncation _
  · exact ⟨rfl, Nat.le_add_right _ _, id⟩
  · exact .refl b
  · exact b.grows_recordTruncation _
  · exact ⟨rfl, Nat.le_add_right _ _, id⟩

theorem grows_closePre (b : Builder) : Grows b b.closePre := by
  unfold closePre
  dsimp only
  split_ifs
  · exact ⟨rfl, Nat.le_refl _, id⟩
  · have hpush := grows_pushBlock
      { b with preDepth := b.preDepth - 1, preText := [], preLanguage := none }
    exact ⟨(hpush _).ctx, (hpush _).textBytes, (hpush _).untruncated⟩
  · exact ⟨rfl, Nat.le_refl _, id⟩

theorem grows_apply (b : Builder) (edit : Edit) : Grows b (b.apply edit) := by
  cases edit with
  | tooDeep => exact b.grows_recordTruncation _
  | flush => exact b.grows_flush
  | text text => exact b.grows_pushText text
  | lineBreak =>
      simp only [apply, breakLine]
      split_ifs <;> exact ⟨rfl, Nat.le_refl _, id⟩
  | rule => exact b.grows_pushBlock _
  | image src alt title fetch intrinsic link => exact b.grows_pushBlock _
  | openList ordered =>
      simp only [apply, openList]
      split_ifs <;> exact ⟨rfl, Nat.le_refl _, id⟩
  | nextItem =>
      simp only [apply, nextItem]
      split <;> exact ⟨rfl, Nat.le_refl _, id⟩
  | openPre tag =>
      simp only [apply, openPre]
      split_ifs <;> exact ⟨rfl, Nat.le_refl _, id⟩
  | closePre => exact b.grows_closePre
  | leaveTable =>
      have hleft : Grows b { b with tableDepth := b.tableDepth - 1 } :=
        ⟨rfl, Nat.le_refl _, id⟩
      simp only [apply, leaveTable]
      split_ifs
      · exact hleft.trans (grows_closeTable _)
      · exact hleft
  | openRow => exact b.grows_commitRow.trans ⟨rfl, Nat.le_refl _, id⟩
  | closeRow => exact b.grows_commitRow
  | openCell header => exact b.grows_startCell header
  | _ => exact ⟨rfl, Nat.le_refl _, id⟩

theorem grows_applyAll (b : Builder) (edits : List Edit) : Grows b (b.applyAll edits) := by
  induction edits generalizing b with
  | nil => exact .refl b
  | cons edit edits ih => exact (b.grows_apply edit).trans (ih _)

/-- Nothing but a change of the stack moves it. -/
theorem stack_apply (b : Builder) {edit : Edit}
    (h : ∀ opened skipFrom, edit ≠ .stack opened skipFrom) :
    (b.apply edit).opened = b.opened ∧ (b.apply edit).skipFrom = b.skipFrom := by
  have hframe {b b' : Builder} (h : Frame b b') :
      b'.opened = b.opened ∧ b'.skipFrom = b.skipFrom := ⟨h.opened, h.skipFrom⟩
  cases edit with
  | stack opened skipFrom => exact (h opened skipFrom rfl).elim
  | flush => exact hframe b.emits_flush.toFrame
  | text text =>
      simp only [apply, pushText]
      split_ifs <;> exact ⟨rfl, rfl⟩
  | lineBreak =>
      simp only [apply, breakLine]
      split_ifs <;> exact ⟨rfl, rfl⟩
  | rule => exact hframe (b.emits_pushBlock _).toFrame
  | image src alt title fetch intrinsic link => exact hframe (b.emits_pushBlock _).toFrame
  | openList ordered =>
      simp only [apply, openList]
      split_ifs <;> exact ⟨rfl, rfl⟩
  | nextItem =>
      simp only [apply, nextItem]
      split <;> exact ⟨rfl, rfl⟩
  | openPre tag =>
      simp only [apply, openPre]
      split_ifs <;> exact ⟨rfl, rfl⟩
  | closePre => exact hframe b.frame_closePre
  | leaveTable =>
      simp only [apply, leaveTable]
      split_ifs
      · have hclose := (emits_closeTable { b with tableDepth := b.tableDepth - 1 }).toFrame
        exact ⟨hclose.opened, hclose.skipFrom⟩
      · exact ⟨rfl, rfl⟩
  | openRow => exact ⟨b.emits_commitRow.opened, b.emits_commitRow.skipFrom⟩
  | closeRow => exact hframe b.emits_commitRow.toFrame
  | openCell header => exact hframe (b.emits_startCell header).toFrame
  | _ => exact ⟨rfl, rfl⟩

theorem grows_run [UrlLibrary] (b : Builder) (tokens : List Token) : Grows b (b.run tokens) :=
  b.run_eq tokens ▸ b.grows_applyAll _

end Builder

end Vuo.Content
