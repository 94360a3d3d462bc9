import Vuo.Verification.Content.Limits

/-!
# No text is lost

White space apart, the text a builder holds is the text it has read, as long as
no truncation is recorded: in blocks, in the current spans and in an open code
block. Each change that drops some of it is named.
-/

namespace Vuo.Content

/-! ## Ink -/

/-- The text without its white space. -/
def ink (text : List Char) : List Char :=
  text.filter fun c => !isWhitespace c

@[simp] theorem ink_nil : ink [] = [] := rfl

@[simp] theorem ink_append (left right : List Char) : ink (left ++ right) = ink left ++ ink right :=
  List.filter_append ..

@[simp] theorem renderPlainText_nil : Span.renderPlainText [] = [] := rfl

theorem ink_trimStart (text : List Char) : ink (trimStart text) = ink text := by
  induction text with
  | nil => rfl
  | cons c text ih =>
      rw [trimStart, List.dropWhile_cons] at *
      split_ifs with hblank
      · rw [ih]
        simp [ink, hblank]
      · rfl

theorem ink_reverse (text : List Char) : ink text.reverse = (ink text).reverse :=
  List.filter_reverse ..

theorem ink_trimEnd (text : List Char) : ink (trimEnd text) = ink text := by
  have h := ink_trimStart text.reverse
  rw [trimStart] at h
  rw [trimEnd, ink_reverse, h, ink_reverse, List.reverse_reverse]

theorem ink_collapseFrom (inSpace : Bool) (text : List Char) :
    ink (collapseFrom inSpace text) = ink text := by
  have hspace : isWhitespace ' ' = true := by decide
  induction text generalizing inSpace with
  | nil => rfl
  | cons c text ih =>
      rw [collapseFrom]
      split_ifs with hblank hin
      · rw [ih]
        simp [ink, hblank]
      · have hrest := ih true
        simp only [ink, List.filter_cons, hspace, hblank] at hrest ⊢
        exact hrest
      · have hrest := ih false
        simp only [ink, List.filter_cons] at hrest ⊢
        rw [hrest]

theorem ink_trimFirst {trim : List Char → List Char} (htrim : ∀ text, ink (trim text) = ink text)
    (spans : List Span) :
    ink (Span.renderPlainText (trimFirst trim spans)) = ink (Span.renderPlainText spans) ∧
      ink (Span.renderPlainText (trimFirst trim spans).reverse) =
        ink (Span.renderPlainText spans.reverse) := by
  have hrender (first : Span) (rest : List Span) :
      Span.renderPlainText (first :: rest) = first.text ++ Span.renderPlainText rest := rfl
  induction spans with
  | nil => exact ⟨rfl, rfl⟩
  | cons first rest ih =>
      have hfirst := htrim first.text
      rw [trimFirst]
      split_ifs with hempty
      · rw [hempty, ink_nil] at hfirst
        simp only [List.reverse_cons, renderPlainText_append, hrender, renderPlainText_nil,
          ink_append, ← hfirst, List.nil_append, List.append_nil]
        exact ih
      · simp only [List.reverse_cons, renderPlainText_append, hrender, ink_append, hfirst,
          and_self]

theorem ink_trimSpans (spans : List Span) :
    ink (Span.renderPlainText (trimSpans spans)) = ink (Span.renderPlainText spans) := by
  have hstart := (ink_trimFirst ink_trimStart spans).2
  have hend := (ink_trimFirst ink_trimEnd (trimFirst trimStart spans).reverse).2
  rw [List.reverse_reverse] at hend
  rw [trimSpans, hend, (ink_trimFirst ink_trimStart spans).1]

theorem ink_dropWhile_newline (text : List Char) :
    ink (text.dropWhile (· = '\n')) = ink text := by
  have hblank : isWhitespace '\n' = true := by decide
  induction text with
  | nil => rfl
  | cons c text ih =>
      rw [List.dropWhile_cons]
      split_ifs with hline
      · rw [ih]
        have hc : c = '\n' := by simpa using hline
        simp [ink, hc, hblank]
      · rfl

theorem clampToCharBoundary_isPrefix (text : List Char) (budget : ℕ) :
    clampToCharBoundary text budget <+: text := by
  induction text generalizing budget with
  | nil => exact List.prefix_rfl
  | cons c text ih =>
      rw [clampToCharBoundary]
      split_ifs
      · exact List.cons_prefix_cons.2 ⟨rfl, ih _⟩
      · exact List.nil_prefix

namespace Builder

variable {b : Builder}

theorem ink_codeText (b : Builder) : ink b.codeText = ink b.preText := by
  rw [codeText, ink_dropWhile_newline, ink_reverse, ink_dropWhile_newline, ink_reverse,
    List.reverse_reverse]

theorem ink_wanted (b : Builder) (text : List Char) : ink (b.wanted text) = ink text := by
  unfold wanted collapsed
  dsimp only
  split_ifs
  · rfl
  · rw [ink_trimStart, collapseWhitespace, ink_collapseFrom]
  · rw [collapseWhitespace, ink_collapseFrom]

/-! ## The account -/

/-- The text of all blocks. -/
def blocksPlainText (blocks : List RenderBlock) : List Char :=
  blocks.flatMap RenderBlock.plainText

/-- The text the builder holds, in the order it will show. -/
def account (b : Builder) : List Char :=
  ink (blocksPlainText b.blocks) ++ ink (Span.renderPlainText b.spans) ++ ink b.preText

/-- The text a change reads. -/
def gained (b : Builder) : Edit → List Char
  | .text text => if b.skipFrom.isSome then [] else ink text
  | _ => []

/-- The text a change drops: what the budget cuts off, and the spans at the end
of a `pre` that the builder does not count as open. -/
def lost (b : Builder) : Edit → List Char
  | .text text =>
      if b.skipFrom.isSome then [] else ink ((b.wanted text).drop (b.taken text).length)
  | .closePre => if b.preDepth = 0 then ink (Span.renderPlainText b.spans) else []
  | _ => []

/-- Outside tables, text is kept in one place at a time. -/
structure Plain (b : Builder) : Prop where
  table : b.table = none
  preText : b.preDepth = 0 → b.preText = []
  spans : 0 < b.preDepth → b.spans = []

/-- No table, no picture, and a code block that begins after a flush. -/
def AllowsPlain (b : Builder) : Edit → Prop
  | .openTable => False
  | .image _ _ _ _ _ _ => False
  | .openPre _ => b.spans = []
  | _ => True

theorem blocksPlainText_concat (blocks : List RenderBlock) (block : RenderBlock) :
    blocksPlainText (blocks ++ [block]) = blocksPlainText blocks ++ block.plainText := by
  simp [blocksPlainText]

theorem ink_taken (b : Builder) (text : List Char) :
    ink (b.taken text) ++ ink ((b.wanted text).drop (b.taken text).length) = ink text := by
  have hsplit : b.taken text ++ (b.wanted text).drop (b.taken text).length = b.wanted text := by
    obtain ⟨rest, hrest⟩ := clampToCharBoundary_isPrefix (b.wanted text) b.budget
    change b.taken text ++ rest = b.wanted text at hrest
    rw [← hrest, List.drop_left]
  rw [← ink_append, hsplit, ink_wanted]

/-- A block that is not reported as cut takes its text along. -/
theorem account_pushBlock (htable : b.table = none) {kind : BlockKind}
    (hnone : (b.pushBlock kind).truncated = none) :
    (b.pushBlock kind).table = none ∧ (b.pushBlock kind).spans = b.spans ∧
      blocksPlainText (b.pushBlock kind).blocks =
        blocksPlainText b.blocks ++ kind.plainText := by
  obtain ⟨hblocks, htext, -⟩ := pushBlock_of_untruncated htable hnone
  rw [pushBlock_of_room htable hblocks htext]
  exact ⟨htable, rfl, blocksPlainText_concat _ _⟩

theorem plain_flush (h : b.Plain) (hnone : b.flush.truncated = none) :
    b.flush.Plain ∧ b.flush.spans = [] ∧ b.flush.account = b.account := by
  have hemits := b.emits_flush
  have htrim := ink_trimSpans b.spans
  by_cases hblank : trimSpans b.spans = []
  · have hink : ink (Span.renderPlainText b.spans) = [] := by
      rw [← htrim, hblank]
      rfl
    rw [flush_of_blank hblank]
    refine ⟨⟨h.table, h.preText, fun _ => rfl⟩, rfl, ?_⟩
    simp [account, hink]
  · rw [flush_of_none hblank h.table] at hnone ⊢
    obtain ⟨htable, hspans, hblocks⟩ :=
      account_pushBlock (b := { b with spans := [] }) h.table hnone
    have hpush := emits_pushBlock { b with spans := [] } (b.pending.kind (trimSpans b.spans))
    have hkind : (b.pending.kind (trimSpans b.spans)).plainText =
        Span.renderPlainText (trimSpans b.spans) := by
      cases b.pending <;> rfl
    refine ⟨⟨htable, ?_, fun _ => hspans⟩, hspans, ?_⟩
    · intro hdepth
      exact hpush.preText.trans (h.preText (hpush.preDepth ▸ hdepth))
    · simp only [account, hblocks, hspans, hpush.preText, hkind, ink_append, htrim]
      simp

theorem plain_pushText (h : b.Plain) {text : List Char}
    (hnone : (b.pushText text).truncated = none) :
    (b.pushText text).Plain ∧
      (b.pushText text).account ++ b.lost (.text text) = b.account ++ b.gained (.text text) := by
  have htaken := b.ink_taken text
  have htruncates (h : (b.recordTruncation .tooMuchText).truncated = none) : False := by
    cases htruncated : b.truncated <;> simp [recordTruncation, htruncated] at h
  cases hskip : b.skipFrom with
  | some depth =>
      rw [pushText_of_skip (by rw [hskip, Option.isSome_some])]
      refine ⟨h, ?_⟩
      simp [lost, gained, hskip]
  | none =>
      by_cases hpre : 0 < b.preDepth
      · rw [pushText_of_pre hskip hpre] at hnone ⊢
        split_ifs at hnone ⊢
        · exact (htruncates hnone).elim
        · refine ⟨⟨h.table, fun hzero => absurd hzero (Nat.pos_iff_ne_zero.1 hpre), h.spans⟩, ?_⟩
          simp only [account, lost, gained, hskip, h.spans hpre, ink_append, List.append_assoc]
          simp [htaken]
      · have hzero : b.preDepth = 0 := Nat.eq_zero_of_not_pos hpre
        rw [pushText_of_flow hskip hzero] at hnone ⊢
        split_ifs at hnone ⊢ with hblank
        · have hink : ink text = [] := by
            rw [← b.ink_wanted text, hblank, ink_nil]
          refine ⟨h, ?_⟩
          simp [lost, gained, hskip, hblank, hink]
        · exact (htruncates hnone).elim
        · refine ⟨⟨h.table, h.preText, fun hpos => absurd hpos hpre⟩, ?_⟩
          simp only [account, lost, gained, hskip, h.preText hzero, renderPlainText_appendSpan,
            ink_append, List.append_assoc]
          simp [htaken]

theorem plain_closePre (h : b.Plain) (hnone : b.closePre.truncated = none) :
    b.closePre.Plain ∧ b.closePre.account ++ b.lost .closePre = b.account := by
  have hcode := b.ink_codeText
  by_cases hdepth : b.preDepth - 1 = 0
  · have hspans : ink (Span.renderPlainText b.spans) = b.lost .closePre := by
      simp only [lost]
      split_ifs with hzero
      · rfl
      · rw [h.spans (Nat.pos_of_ne_zero hzero)]
        rfl
    by_cases hblank : b.codeText = []
    · have hpre : ink b.preText = [] := by
        rw [← hcode, hblank, ink_nil]
      rw [closePre_of_blank hdepth hblank]
      refine ⟨⟨h.table, fun _ => rfl, fun _ => rfl⟩, ?_⟩
      simp [account, pastPre, hpre, hspans]
    · have hpos : 0 < b.preDepth := by
        by_contra hnot
        have hempty := h.preText (Nat.eq_zero_of_not_pos hnot)
        exact hblank (List.eq_nil_of_sublist_nil (hempty ▸ b.codeText_sublist))
      rw [closePre_of_outer hdepth hblank] at hnone ⊢
      obtain ⟨htable, -, hblocks⟩ := account_pushBlock (b := b.pastPre) h.table hnone
      have hpush := emits_pushBlock b.pastPre (.code b.preLanguage b.codeText)
      refine ⟨⟨htable, fun _ => hpush.preText, fun _ => rfl⟩, ?_⟩
      rw [h.spans hpos] at hspans
      simp only [account, hblocks, hpush.preText, BlockKind.plainText, ink_append, hcode,
        ← hspans, h.spans hpos]
      simp [pastPre]
  · rw [closePre_of_inner hdepth]
    have hpos : b.preDepth ≠ 0 := by omega
    refine ⟨⟨h.table, fun hzero => absurd hzero hdepth, fun _ => h.spans (by omega)⟩, ?_⟩
    simp [account, lost, hpos]

/-- What each change does to the account. -/
theorem plain_apply (h : b.Plain) {edit : Edit} (hallows : b.AllowsPlain edit)
    (hnone : (b.apply edit).truncated = none) :
    (b.apply edit).Plain ∧
      (b.apply edit).account ++ b.lost edit = b.account ++ b.gained edit := by
  have hopen : b.truncated = none := (b.grows_apply edit).untruncated hnone
  have hsame {b' : Builder} (hplain : b'.Plain) (haccount : b'.account = b.account) :
      b'.Plain ∧ b'.account ++ [] = b.account ++ [] := ⟨hplain, by rw [haccount]⟩
  cases edit with
  | tooDeep => simp [apply, recordTruncation, hopen] at hnone
  | flush =>
      obtain ⟨hplain, -, haccount⟩ := plain_flush h hnone
      exact hsame hplain haccount
  | text text => exact plain_pushText h hnone
  | lineBreak =>
      have hblank : ink ['\n'] = [] := by decide
      simp only [apply, breakLine]
      split_ifs with hpre hspans
      · refine hsame ⟨h.table, fun hzero => absurd hzero (Nat.pos_iff_ne_zero.1 hpre), h.spans⟩ ?_
        simp [account, hblank]
      · exact hsame h rfl
      · have hnew : Span.renderPlainText [⟨['\n'], b.style, b.link⟩] = ['\n'] := by
          simp [Span.renderPlainText]
        refine hsame ⟨h.table, h.preText, fun hpos => absurd hpos hpre⟩ ?_
        simp [account, renderPlainText_append, hnew, hblank]
  | rule =>
      obtain ⟨htable, hspans, hblocks⟩ := account_pushBlock h.table hnone
      have hemits := b.emits_pushBlock .rule
      refine hsame ⟨htable, ?_, ?_⟩ ?_
      · intro hzero
        exact hemits.preText.trans (h.preText (hemits.preDepth ▸ hzero))
      · intro hpos
        exact hspans.trans (h.spans (hemits.preDepth ▸ hpos))
      · have hpre := hemits.preText
        simp only [apply, account, hblocks, hspans, hpre, BlockKind.plainText, List.append_nil]
  | image src alt title fetch intrinsic link => exact hallows.elim
  | openTable => exact hallows.elim
  | openList ordered =>
      simp only [apply, openList]
      split_ifs
      · exact hsame ⟨h.table, h.preText, h.spans⟩ rfl
      · exact hsame h rfl
  | nextItem =>
      simp only [apply, nextItem]
      split <;> exact hsame ⟨h.table, h.preText, h.spans⟩ rfl
  | openPre tag =>
      have hdepth : saturatingAdd32 b.preDepth 1 ≠ 0 := by
        unfold saturatingAdd32
        omega
      simp only [apply, openPre]
      split_ifs with hfirst
      · have hzero : b.preDepth = 0 := by
          unfold saturatingAdd32 at hfirst
          omega
        refine hsame ⟨h.table, fun _ => rfl, fun _ => hallows⟩ ?_
        simp [account, h.preText hzero]
      · exact hsame ⟨h.table, fun hzero => absurd hzero hdepth, fun _ => hallows⟩ rfl
  | closePre =>
      obtain ⟨hplain, haccount⟩ := plain_closePre h hnone
      exact ⟨hplain, haccount.trans (List.append_nil _).symm⟩
  | leaveTable =>
      have hclosed : (b.apply .leaveTable) = { b with tableDepth := b.tableDepth - 1 } := by
        have htable := h.table
        simp only [apply, leaveTable, closeTable, htable, ite_self]
      rw [hclosed]
      exact hsame ⟨h.table, h.preText, h.spans⟩ rfl
  | openRow =>
      have hrow : b.apply .openRow = b := by
        have htable := h.table
        simp only [apply, openRow, commitRow, htable, Option.map_none]
        rw [← htable]
      rw [hrow]
      exact hsame h rfl
  | closeRow =>
      have hrow : b.apply .closeRow = b := by simp [apply, commitRow, h.table]
      rw [hrow]
      exact hsame h rfl
  | openCell header =>
      have hcell : b.apply (.openCell header) = b := by simp [apply, startCell, h.table]
      rw [hcell]
      exact hsame h rfl
  | _ => exact hsame ⟨h.table, h.preText, h.spans⟩ rfl

end Builder

/-! ## Articles in pieces -/

/-- An article: tokens, and skipped elements with what is inside them. -/
inductive Piece
  | plain (token : Token)
  | skipped (start : Tag) (inner : List Token) (stop : Tag)

namespace Piece

def tokens : Piece → List Token
  | .plain token => [token]
  | .skipped start inner stop => .startTag start :: inner ++ [.endTag stop]

/-- The text outside skipped elements. -/
def text : Piece → List Char
  | .plain (.characters text) => text
  | _ => []

/-- No table and no picture, and skipped elements that are well nested. -/
def Valid : Piece → Prop
  | .plain (.startTag tag) =>
      (classify (lowercase tag.name) = .skip → childless tag) ∧
        classify (lowercase tag.name) ≠ .block .table ∧
        classify (lowercase tag.name) ≠ .void .image
  | .plain _ => True
  | .skipped start inner stop =>
      classify (lowercase start.name) = .skip ∧ childless start = false ∧
        lowercase stop.name = lowercase start.name ∧ WellNested inner

end Piece

/-- The change is no text, no picture and no table. -/
def Edit.Structural : Edit → Prop
  | .text _ => False
  | .image _ _ _ _ _ _ => False
  | .openTable => False
  | .stack _ skipFrom => skipFrom = none
  | .openPre _ => False
  | _ => True

theorem structural_closing (element : OpenElement) : ∀ edit ∈ element.closing, edit.Structural := by
  unfold OpenElement.closing
  cases element.disposition with
  | block block => cases block <;> simp [BlockTag.closing, Edit.Structural]
  | _ => simp [Edit.Structural]

theorem structural_closeEdits (name : String) (elements : List OpenElement) :
    ∀ edit ∈ closeEdits name elements none, edit.Structural := by
  induction elements with
  | nil => simp [closeEdits]
  | cons element rest ih =>
      have hleft : skipLeft rest none = none := rfl
      intro edit hmem
      rw [closeEdits, List.cons_append, List.mem_cons, List.mem_append, List.mem_cons,
        hleft] at hmem
      rcases hmem with rfl | hmem | rfl | hmem
      · rfl
      · exact structural_closing element edit hmem
      · rfl
      · split_ifs at hmem
        · cases hmem
        · exact ih edit hmem

namespace Builder

variable {b : Builder}

theorem along_of_forall {P : Builder → Edit → Prop} {edits : List Edit}
    (h : ∀ edit ∈ edits, ∀ b, P b edit) : Along P b edits := by
  induction edits generalizing b with
  | nil => trivial
  | cons edit edits ih =>
      exact ⟨h edit List.mem_cons_self b, ih fun edit hmem => h edit (List.mem_cons_of_mem _ hmem)⟩

theorem spans_pushBlock (kind : BlockKind) : (b.pushBlock kind).spans = b.spans := by
  cases htable : b.table with
  | some table =>
      rw [pushBlock_of_table htable]
      split <;> rfl
  | none =>
      rw [pushBlock_of_none htable]
      split
      · rfl
      · split <;> rfl

theorem spans_flush : b.flush.spans = [] := by
  by_cases hblank : trimSpans b.spans = []
  · rw [flush_of_blank hblank]
  · cases htable : b.table with
    | some table => rw [flush_of_table hblank htable]
    | none =>
        rw [flush_of_none hblank htable]
        exact spans_pushBlock (b := { b with spans := [] }) _

/-- A change outside tables, pictures and skipped elements. -/
def Ordinary (b : Builder) (edit : Edit) : Prop :=
  b.AllowsPlain edit ∧ (∀ text, edit ≠ .text text) ∧
    ∀ opened skipFrom, edit = .stack opened skipFrom → skipFrom = none

theorem ordinary_of_structural (edit : Edit) (h : edit.Structural) (b : Builder) :
    b.Ordinary edit := by
  cases edit with
  | text text => exact h.elim
  | image src alt title fetch intrinsic link => exact h.elim
  | openTable => exact h.elim
  | openPre tag => exact h.elim
  | stack opened skipFrom =>
      refine ⟨trivial, by simp, fun opened' skipFrom' heq => ?_⟩
      cases heq
      exact h
  | _ => exact ⟨trivial, by simp, by simp⟩

variable [UrlLibrary]

omit [UrlLibrary] in
theorem structural_openEdits (hskip : b.skipFrom = none) (tag : Tag) (element : OpenElement) :
    ∀ edit ∈ b.openEdits tag element, edit.Structural := by
  unfold openEdits
  split_ifs <;> simp [Edit.Structural, hskip]

/-- A start tag of an article without tables and pictures. -/
theorem ordinary_startEdits (hskip : b.skipFrom = none) {tag : Tag}
    (hvalid : Piece.Valid (.plain (.startTag tag))) : Along Ordinary b (b.startEdits tag) := by
  obtain ⟨hchild, htable, himage⟩ := hvalid
  have hstructural {edits : List Edit} {b : Builder} (h : ∀ edit ∈ edits, edit.Structural) :
      Along Ordinary b edits :=
    along_of_forall fun edit hmem => ordinary_of_structural edit (h edit hmem)
  have hopen := structural_openEdits hskip tag
  unfold startEdits
  rw [hskip, Option.isSome_none, if_neg (by simp)]
  split_ifs with hskipped hdepth
  · simp only [skipEdits, hchild hskipped, if_true]
    exact hstructural (by simp [Edit.Structural])
  · exact hstructural (by simp [Edit.Structural])
  · unfold elementEdits
    dsimp only
    cases hclass : classify (lowercase tag.name) with
    | void void =>
        cases void with
        | lineBreak => exact hstructural (by simp [voidEdits, Edit.Structural])
        | rule => exact hstructural (by simp [voidEdits, Edit.Structural])
        | image => exact (himage hclass).elim
    | inline inline =>
        dsimp only
        split_ifs <;> exact hstructural (by simp [Edit.Structural, hskip])
    | block block =>
        refine along_append.2 ⟨?_, hstructural (hopen _)⟩
        cases block with
        | table => exact (htable hclass).elim
        | pre =>
            exact ⟨ordinary_of_structural .flush trivial _, ⟨spans_flush, by simp, by simp⟩,
              trivial⟩
        | _ => exact hstructural (by simp [BlockTag.opening, Edit.Structural])
    | skip => exact hstructural (hopen _)
    | flatten => exact hstructural (hopen _)

/-- Any token but text. -/
theorem ordinary_edits (hskip : b.skipFrom = none) {token : Token}
    (hvalid : Piece.Valid (.plain token)) (htext : ∀ text, token ≠ .characters text) :
    Along Ordinary b (b.edits token) := by
  cases token with
  | startTag tag => exact ordinary_startEdits hskip hvalid
  | endTag tag =>
      simp only [edits]
      split_ifs
      · rw [hskip]
        exact along_of_forall fun edit hmem =>
          ordinary_of_structural edit (structural_closeEdits _ _ edit hmem)
      · trivial
  | characters text => exact (htext text rfl).elim
  | ignored => trivial

omit [UrlLibrary] in
/-- Changes that are no text keep the account, unless they drop something. -/
theorem plain_applyAll (h : b.Plain) (hskip : b.skipFrom = none) {edits : List Edit}
    (hordinary : Along Ordinary b edits) (hnone : (b.applyAll edits).truncated = none) :
    (b.applyAll edits).Plain ∧ (b.applyAll edits).skipFrom = none ∧
      ∃ dropped, (b.applyAll edits).account.length + dropped = b.account.length ∧
        (dropped = 0 ↔ Along (fun b edit => b.lost edit = []) b edits) ∧
        (dropped = 0 → (b.applyAll edits).account = b.account) := by
  induction edits generalizing b with
  | nil => exact ⟨h, hskip, 0, rfl, by simp [Along], fun _ => rfl⟩
  | cons edit edits ih =>
      obtain ⟨⟨hallows, htext, hstack⟩, hrest⟩ := hordinary
      rw [applyAll_cons] at hnone
      have hopen := (grows_applyAll (b.apply edit) edits).untruncated hnone
      obtain ⟨hplain, haccount⟩ := plain_apply h hallows hopen
      have hgained : b.gained edit = [] := by
        cases edit with
        | text text => exact (htext text rfl).elim
        | _ => rfl
      have hskip' : (b.apply edit).skipFrom = none := by
        by_cases hmoves : ∃ opened skipFrom, edit = .stack opened skipFrom
        · obtain ⟨opened, skipFrom, rfl⟩ := hmoves
          exact hstack opened skipFrom rfl
        · rw [(b.stack_apply fun opened skipFrom heq => hmoves ⟨opened, skipFrom, heq⟩).2]
          exact hskip
      obtain ⟨hfinal, hoff, dropped, hcount, hiff, hsame⟩ := ih hplain hskip' hrest hnone
      rw [hgained, List.append_nil] at haccount
      have hlength := congrArg List.length haccount
      rw [List.length_append] at hlength
      refine ⟨hfinal, hoff, (b.lost edit).length + dropped, ?_, ?_, ?_⟩
      · rw [applyAll_cons]
        omega
      · rw [Nat.add_eq_zero_iff, List.length_eq_zero_iff, hiff]
        exact Iff.rfl
      · intro hzero
        have hlost : b.lost edit = [] := List.length_eq_zero_iff.1 (by omega)
        rw [applyAll_cons, hsame (by omega), ← haccount, hlost, List.append_nil]

/-! ## What is dropped -/

/-- The end tags inside a skipped element find what was opened inside it. -/
def ContainsPiece (b : Builder) : Piece → Prop
  | .plain _ => True
  | .skipped start inner _ =>
      StaysInside b.ctx.limits.maxDepth (lowercase start.name :: b.openedNames) inner

/-- No change of the piece drops text. -/
def KeepsPiece (b : Builder) : Piece → Prop
  | .plain token => Along (fun b edit => b.lost edit = []) b (b.steps token)
  | .skipped _ _ _ => True

/-- A property of every piece and of the builder that reads it. -/
def EachPiece (P : Builder → Piece → Prop) : Builder → List Piece → Prop
  | _, [] => True
  | b, piece :: pieces => P b piece ∧ EachPiece P (b.run piece.tokens) pieces

/-- Between two pieces of an article that is not truncated so far. -/
structure Between (b : Builder) : Prop extends Plain b where
  skipFrom : b.skipFrom = none

/-- What the account gains and what the piece drops add up to its text. -/
def Accounts (b b' : Builder) (text : List Char) (keeps : Prop) : Prop :=
  ∃ dropped, b'.account.length + dropped = b.account.length + text.length ∧
    (dropped = 0 ↔ keeps) ∧ (dropped = 0 → b'.account = b.account ++ text)

theorem accounts_piece (h : b.Between) {piece : Piece} (hvalid : piece.Valid)
    (hcontains : b.ContainsPiece piece) (hnone : (b.run piece.tokens).truncated = none) :
    (b.run piece.tokens).Between ∧
      Accounts b (b.run piece.tokens) (ink piece.text) (b.KeepsPiece piece) := by
  have hopen := (b.grows_run piece.tokens).untruncated hnone
  have hlive : b.stopped = false := by simp [stopped, hopen]
  cases piece with
  | plain token =>
      have hrun : b.run (Piece.tokens (.plain token)) = b.processToken token := rfl
      have hsteps : b.steps token = b.edits token := by simp [steps, hlive]
      rw [hrun, processToken_eq] at hnone ⊢
      by_cases htext : ∃ text, token = .characters text
      · obtain ⟨text, rfl⟩ := htext
        have htextNone : (b.pushText text).truncated = none := by
          rw [hsteps] at hnone
          exact hnone
        obtain ⟨hplain, haccount⟩ := plain_pushText h.toPlain htextNone
        have hgained : b.gained (.text text) = ink text := by simp [gained, h.skipFrom]
        have hno : ∀ opened skipFrom, Edit.text text ≠ .stack opened skipFrom := by simp
        have hstack := b.stack_apply hno
        have hlength := congrArg List.length haccount
        rw [hgained, List.length_append, List.length_append] at hlength
        have hkeeps : b.KeepsPiece (.plain (.characters text)) ↔ b.lost (.text text) = [] := by
          simp only [KeepsPiece, hsteps, edits, Along, and_true]
        simp only [hsteps]
        refine ⟨⟨hplain, hstack.2.trans h.skipFrom⟩, (b.lost (.text text)).length, hlength, ?_, ?_⟩
        · rw [hkeeps, List.length_eq_zero_iff]
        · intro hzero
          rw [List.length_eq_zero_iff] at hzero
          rw [hgained, hzero, List.append_nil] at haccount
          exact haccount
      · have htext' (text : List Char) : token ≠ .characters text := fun heq => htext ⟨text, heq⟩
        have hpiece : Piece.text (.plain token) = [] := by
          cases token with
          | characters text => exact (htext' text rfl).elim
          | _ => rfl
        have hordinary := ordinary_edits h.skipFrom hvalid htext'
        rw [hsteps] at hnone
        obtain ⟨hplain, hoff, dropped, hcount, hiff, hsame⟩ :=
          plain_applyAll h.toPlain h.skipFrom hordinary hnone
        simp only [hpiece, ink_nil, hsteps]
        refine ⟨⟨hplain, hoff⟩, dropped, hcount, ?_, ?_⟩
        · simp only [KeepsPiece, hsteps]
          exact hiff
        · rw [List.append_nil]
          exact hsame
  | skipped start inner stop =>
      obtain ⟨hskip, hchild, hname, hinner⟩ := hvalid
      have hstart : Grows (b.processToken (.startTag start))
          (b.run (Piece.tokens (.skipped start inner stop))) :=
        grows_run (b.processToken (.startTag start)) (inner ++ [Token.endTag stop])
      have hopened := hstart.untruncated hnone
      rw [processToken_startSkip hlive h.skipFrom hskip hchild] at hopened
      have hflush : b.flush.truncated = none := hopened
      have hrun : b.run (Piece.tokens (.skipped start inner stop)) = b.flush :=
        run_skipped hlive h.skipFrom hskip hchild hname hinner (by simp [stopped, hflush])
          hcontains
      obtain ⟨hplain, -, haccount⟩ := plain_flush h.toPlain hflush
      rw [hrun]
      refine ⟨⟨hplain, b.emits_flush.skipFrom.trans h.skipFrom⟩, 0, ?_, ?_, ?_⟩
      · rw [haccount]
        rfl
      · exact ⟨fun _ => trivial, fun _ => rfl⟩
      · intro _
        exact haccount.trans (List.append_nil _).symm

theorem accounts_pieces (h : b.Between) {pieces : List Piece}
    (hvalid : ∀ piece ∈ pieces, piece.Valid)
    (hcontains : EachPiece ContainsPiece b pieces)
    (hnone : (b.run (pieces.flatMap Piece.tokens)).truncated = none) :
    (b.run (pieces.flatMap Piece.tokens)).Between ∧
      Accounts b (b.run (pieces.flatMap Piece.tokens)) (ink (pieces.flatMap Piece.text))
        (EachPiece KeepsPiece b pieces) := by
  induction pieces generalizing b with
  | nil =>
      refine ⟨h, 0, rfl, ?_, fun _ => (List.append_nil _).symm⟩
      exact ⟨fun _ => trivial, fun _ => rfl⟩
  | cons piece pieces ih =>
      have hrun : b.run ((piece :: pieces).flatMap Piece.tokens) =
          (b.run piece.tokens).run (pieces.flatMap Piece.tokens) := by
        rw [List.flatMap_cons, run_append]
      rw [hrun] at hnone ⊢
      have hopen := (grows_run (b.run piece.tokens) _).untruncated hnone
      obtain ⟨hbetween, first, hfirst, hkeeps, hsame⟩ := accounts_piece h
        (hvalid piece List.mem_cons_self) hcontains.1 hopen
      obtain ⟨hend, rest, hrest, hkeepsRest, hsameRest⟩ := ih hbetween
        (fun other hmem => hvalid other (List.mem_cons_of_mem _ hmem)) hcontains.2 hnone
      rw [List.flatMap_cons, ink_append]
      refine ⟨hend, first + rest, ?_, ?_, ?_⟩
      · rw [List.length_append]
        omega
      · rw [Nat.add_eq_zero_iff, hkeeps, hkeepsRest]
        exact Iff.rfl
      · intro hzero
        rw [hsameRest (by omega), hsame (by omega), List.append_assoc]

omit [UrlLibrary] in
/-- The document shows what the builder holds, but for an open code block. -/
theorem account_finish (h : b.Plain) (hnone : b.finish.truncated = none) :
    ink (blocksPlainText b.finish.blocks) ++ ink b.preText = b.account := by
  have hflush := b.flush.grows_closeTable.untruncated hnone
  obtain ⟨hplain, hspans, haccount⟩ := plain_flush h hflush
  have hclose : b.flush.closeTable = b.flush := by simp [closeTable, hplain.table]
  have hfinish : b.finish.blocks = b.flush.blocks := congrArg Builder.blocks hclose
  rw [← haccount, account, hfinish, hspans, b.emits_flush.preText]
  simp

end Builder

section Plain

open scoped Plain

end Plain

end Vuo.Content
