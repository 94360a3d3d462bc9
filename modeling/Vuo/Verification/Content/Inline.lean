import Mathlib.Data.List.Flatten
import Vuo.Verification.Content.PlainText

/-!
# Style and link

The builder saves and restores the style and the link beside its stack. They
are at every moment what the open elements make of them, and inline text is
put into spans that carry them.
-/

namespace Vuo.Content

/-! ## The elements that are open -/

section Effects

variable [UrlLibrary] (ctx : TransformContext)

/-- What an open element does to the style and the link. -/
def inlineEffect (tag : Tag) (now : SpanStyle × Option MediaUrl) :
    SpanStyle × Option MediaUrl :=
  match classify (lowercase tag.name) with
  | .inline .bold => ({ now.1 with bold := true }, now.2)
  | .inline .italic => ({ now.1 with italic := true }, now.2)
  | .inline .code => ({ now.1 with code := true }, now.2)
  | .inline .strike => ({ now.1 with strike := true }, now.2)
  | .inline .superscript => ({ now.1 with superscript := true }, now.2)
  | .inline .subscript => ({ now.1 with subscript := true }, now.2)
  | .inline .anchor => (now.1, (nonEmptyAttr tag "href").bind (Builder.new ctx).resolve)
  | _ => now

/-- The style and the link of text inside elements, innermost first. -/
def inlineFold : List Tag → SpanStyle × Option MediaUrl
  | [] => ({}, none)
  | tag :: outer => inlineEffect ctx tag (inlineFold outer)

/-- What is on the stack for an element inside others. -/
def elementOf (tag : Tag) (outer : List Tag) : OpenElement where
  name := lowercase tag.name
  disposition := classify (lowercase tag.name)
  savedStyle :=
    match classify (lowercase tag.name) with
    | .inline _ => some (inlineFold ctx outer).1
    | _ => none
  savedLink :=
    if classify (lowercase tag.name) = .inline .anchor then some (inlineFold ctx outer).2 else none

def stackOf : List Tag → List OpenElement
  | [] => []
  | tag :: outer => elementOf ctx tag outer :: stackOf outer

end Effects

namespace Builder

section OpenTags

variable [UrlLibrary]

/-- The start tags of the open elements after a token: its own, if it was put on
the stack, and otherwise those that are left. -/
def tagsAfter (b : Builder) (tags : List Tag) : Token → List Tag
  | .startTag tag =>
      if b.opened.length < (b.processToken (.startTag tag)).opened.length then tag :: tags
      else tags
  | token => tags.drop (tags.length - (b.processToken token).opened.length)

/-- The start tags of the elements that are open after the tokens. -/
def openTags : Builder → List Tag → List Token → List Tag
  | _, tags, [] => tags
  | b, tags, token :: tokens => openTags (b.processToken token) (b.tagsAfter tags token) tokens

/-- The stack, the style and the link are what the tags make of them; the
elements inside a skipped one come on top. -/
structure Follows (b : Builder) (inside outer : List Tag) : Prop where
  opened : b.opened =
    inside.map (fun tag => skipElement (lowercase tag.name)) ++ stackOf b.ctx outer
  skipFrom : b.skipFrom = if inside = [] then none else some outer.length
  style : b.style = (inlineFold b.ctx outer).1
  link : b.link = (inlineFold b.ctx outer).2

end OpenTags

section Follow

variable [UrlLibrary] {b b' : Builder} {tag : Tag} {inside outer : List Tag}

theorem length_stackOf (ctx : TransformContext) (tags : List Tag) :
    (stackOf ctx tags).length = tags.length := by
  induction tags with
  | nil => rfl
  | cons tag tags ih => rw [stackOf, List.length_cons, List.length_cons, ih]

theorem names_stackOf (ctx : TransformContext) (tags : List Tag) :
    (stackOf ctx tags).map OpenElement.name = tags.map fun tag => lowercase tag.name := by
  induction tags with
  | nil => rfl
  | cons tag tags ih =>
      rw [stackOf, List.map_cons, List.map_cons, ih]
      rfl

theorem Follows.length (h : b.Follows inside outer) :
    b.opened.length = (inside ++ outer).length := by
  rw [h.opened, List.length_append, List.length_map, length_stackOf, List.length_append]

/-- What leaves the stack, the style and the link alone. -/
theorem Follows.frame (h : b.Follows inside outer) (hframe : Frame b b') :
    b'.Follows inside outer := by
  obtain ⟨hctx, hopened, hskip, hstyle, hlink, -⟩ := hframe
  exact ⟨by rw [hopened, hctx, h.opened], hskip.trans h.skipFrom, by rw [hstyle, hctx, h.style],
    by rw [hlink, hctx, h.link]⟩

theorem follows_start (ctx : TransformContext) (pre : Option Truncation) :
    (Builder.start ctx pre).Follows [] [] :=
  ⟨rfl, rfl, rfl, rfl⟩

/-! ## Closing -/

/-- An element that closes gives back the style and the link around it. -/
theorem restore_elementOf (hstyle : b.style = (inlineEffect b.ctx tag (inlineFold b.ctx outer)).1)
    (hlink : b.link = (inlineEffect b.ctx tag (inlineFold b.ctx outer)).2) :
    b.restore (elementOf b.ctx tag outer) =
      { b with style := (inlineFold b.ctx outer).1, link := (inlineFold b.ctx outer).2 } := by
  unfold inlineEffect at hstyle hlink
  unfold restore elementOf
  cases hclass : classify (lowercase tag.name) with
  | inline inline =>
      rw [hclass] at hstyle hlink
      cases inline with
      | anchor => simp
      | _ => simp [hlink]
  | _ =>
      rw [hclass] at hstyle hlink
      simp [hstyle, hlink]

/-- An element inside a skipped one closes, or the skipped one itself. -/
theorem follows_close_inside (h : b.Follows (tag :: inside) outer) {element : OpenElement}
    {rest : List OpenElement} (hopened : b.opened = element :: rest) :
    (closeElement { b with opened := rest } element).leaveSkip.Follows inside outer := by
  have hrest : rest =
      inside.map (fun tag => skipElement (lowercase tag.name)) ++ stackOf b.ctx outer :=
    (List.cons.inj (hopened.symm.trans h.opened)).2
  have hlength : rest.length = inside.length + outer.length := by
    rw [hrest, List.length_append, List.length_map, length_stackOf]
  have hskip : b.skipFrom = some outer.length := by
    rw [h.skipFrom, if_neg (List.cons_ne_nil _ _)]
  have hclosed : closeElement { b with opened := rest } element = { b with opened := rest } := by
    simp [closeElement, hskip]
  rw [hclosed]
  cases inside with
  | nil =>
      have hleave : leaveSkip { b with opened := rest } =
          { b with opened := rest, skipFrom := none } := by
        simp [leaveSkip, hskip, hlength]
      rw [hleave]
      exact ⟨hrest, rfl, h.style, h.link⟩
  | cons other inside =>
      have hleave : leaveSkip { b with opened := rest } = { b with opened := rest } := by
        simp [leaveSkip, hskip, hlength]
      rw [hleave]
      exact ⟨hrest, by rw [hskip, if_neg (List.cons_ne_nil _ _)], h.style, h.link⟩

/-- An element outside skipped ones closes. -/
theorem follows_close_outer (h : b.Follows [] (tag :: outer)) {element : OpenElement}
    {rest : List OpenElement} (hopened : b.opened = element :: rest) :
    (closeElement { b with opened := rest } element).leaveSkip.Follows [] outer := by
  obtain ⟨helement, hrest⟩ := List.cons.inj (hopened.symm.trans h.opened)
  have hskip : b.skipFrom = none := h.skipFrom
  have hrestore := restore_elementOf (b := { b with opened := rest }) h.style h.link
  have hrestored : Follows { b with
      opened := rest
      style := (inlineFold b.ctx outer).1
      link := (inlineFold b.ctx outer).2 } [] outer :=
    ⟨hrest, hskip, rfl, rfl⟩
  have hclosed : (closeElement { b with opened := rest } element).Follows [] outer := by
    unfold closeElement
    rw [if_neg (by simp [hskip]), helement, hrestore]
    split
    · exact hrestored.frame (frame_closeBlock _ _)
    · exact hrestored
  have hoff := hclosed.skipFrom
  have hleave : (closeElement { b with opened := rest } element).leaveSkip =
      closeElement { b with opened := rest } element := by
    simp [leaveSkip, hoff]
  rw [hleave]
  exact hclosed

/-- An end tag closes a number of elements, innermost first. -/
theorem follows_closeDown (name : String) {elements : List OpenElement}
    (hopened : b.opened = elements) (h : b.Follows inside outer) :
    ∃ inside' outer', (closeDown name elements b).Follows inside' outer' ∧
      inside' ++ outer' <:+ inside ++ outer := by
  induction elements generalizing b inside outer with
  | nil => exact ⟨inside, outer, h, List.suffix_rfl⟩
  | cons element rest ih =>
      have hnext : ∃ inside' outer',
          (closeElement { b with opened := rest } element).leaveSkip.Follows inside' outer' ∧
            inside' ++ outer' <:+ inside ++ outer := by
        cases inside with
        | cons tag inside =>
            exact ⟨inside, outer, follows_close_inside h hopened, List.suffix_cons _ _⟩
        | nil =>
            cases outer with
            | cons tag outer =>
                exact ⟨[], outer, follows_close_outer h hopened, List.suffix_cons _ _⟩
            | nil =>
                have hempty := h.opened
                rw [hopened] at hempty
                cases hempty
      obtain ⟨inside', outer', hfollows, hsuffix⟩ := hnext
      have hleft : (closeElement { b with opened := rest } element).leaveSkip.opened = rest := by
        rw [leaveSkip_eq]
        exact (frame_closeElement { b with opened := rest } element).1
      rw [closeDown]
      split_ifs
      · exact ⟨inside', outer', hfollows, hsuffix⟩
      · obtain ⟨inside'', outer'', hend, hsuffix'⟩ := ih hleft hfollows
        exact ⟨inside'', outer'', hend, hsuffix'.trans hsuffix⟩

/-! ## Opening -/

theorem follows_inline (h : b.Follows [] outer) {inline : InlineTag}
    (hclass : classify (lowercase tag.name) = .inline inline) :
    ((b.applyInline inline tag).openElement ⟨lowercase tag.name, .inline inline, some b.style,
      if inline = .anchor then some b.link else none⟩).Follows [] (tag :: outer) := by
  have hopened : b.opened = stackOf b.ctx outer := h.opened
  have hstyle := h.style
  have hlink := h.link
  have hskip := h.skipFrom
  refine ⟨?_, ?_, ?_, ?_⟩
  · cases inline <;>
      simp [openElement, applyInline, stackOf, elementOf, hclass, hopened, hstyle, hlink]
  · cases inline <;> exact hskip
  · cases inline <;> simp [openElement, applyInline, inlineFold, inlineEffect, hclass, hstyle]
  · cases inline with
    | anchor =>
        simp only [openElement, applyInline, inlineFold, inlineEffect, hclass]
        rfl
    | _ => simp [openElement, applyInline, inlineFold, inlineEffect, hclass, hlink]

/-- A start tag outside skipped elements puts itself on the stack, or nothing. -/
theorem follows_startElement (h : b.Follows [] outer) (tag : Tag) :
    (b.startElement tag).Follows [] outer ∨ (b.startElement tag).Follows [] (tag :: outer) := by
  have hpush {b' : Builder} (hframe : Frame b b') (helement : OpenElement)
      (heffect : inlineEffect b.ctx tag (inlineFold b.ctx outer) = inlineFold b.ctx outer)
      (hsame : helement = elementOf b.ctx tag outer) :
      (b'.openElement helement).Follows [] (tag :: outer) := by
    have hfollows := h.frame hframe
    have hctx := hframe.ctx
    refine ⟨?_, hfollows.skipFrom, ?_, ?_⟩
    · simp only [openElement, hfollows.opened, hsame, stackOf, hctx, List.map_nil, List.nil_append]
    · simp only [openElement, inlineFold, hctx, heffect]
      rw [← hctx]
      exact hfollows.style
    · simp only [openElement, inlineFold, hctx, heffect]
      rw [← hctx]
      exact hfollows.link
  unfold startElement
  dsimp only
  cases hclass : classify (lowercase tag.name) with
  | void void =>
      exact .inl (h.frame (b.frame_voidElement void tag))
  | inline inline =>
      dsimp only
      by_cases hchild : childless tag
      · rw [if_pos hchild]
        exact .inl h
      · rw [if_neg hchild]
        exact .inr (follows_inline h hclass)
  | block block =>
      dsimp only
      split_ifs
      · exact .inl (h.frame (b.frame_startBlock block tag))
      · exact .inr (hpush (b.frame_startBlock block tag) _ (by simp [inlineEffect, hclass])
          (by simp [elementOf, hclass]))
  | skip =>
      dsimp only
      split_ifs
      · exact .inl h
      · exact .inr (hpush (.refl b) _ (by simp [inlineEffect, hclass])
          (by simp [elementOf, hclass]))
  | flatten =>
      dsimp only
      split_ifs
      · exact .inl h
      · exact .inr (hpush (.refl b) _ (by simp [inlineEffect, hclass])
          (by simp [elementOf, hclass]))

theorem follows_startTag (h : b.Follows inside outer) (tag : Tag) :
    ∃ inside' outer', (b.startTag tag).Follows inside' outer' ∧
      (inside' ++ outer' = inside ++ outer ∨ inside' ++ outer' = tag :: (inside ++ outer)) := by
  cases inside with
  | cons first inside =>
      have hskip : b.skipFrom = some outer.length := by
        rw [h.skipFrom, if_neg (List.cons_ne_nil _ _)]
      unfold startTag startSkipped
      rw [if_pos (by rw [hskip, Option.isSome_some])]
      split_ifs
      · refine ⟨tag :: first :: inside, outer, ⟨?_, ?_, h.style, h.link⟩, .inr rfl⟩
        · simp only [h.opened]
          rfl
        · rw [if_neg (List.cons_ne_nil _ _)]
          exact hskip
      · exact ⟨first :: inside, outer, h, .inl rfl⟩
  | nil =>
      have hskip : b.skipFrom = none := h.skipFrom
      unfold startTag
      rw [if_neg (by simp [hskip])]
      split_ifs with hskipped hdepth
      · have hflush := h.frame b.emits_flush.toFrame
        unfold startSkip
        dsimp only
        split_ifs
        · exact ⟨[], outer, hflush, .inl rfl⟩
        · refine ⟨[tag], outer, ⟨?_, ?_, hflush.style, hflush.link⟩, .inr rfl⟩
          · simp only [hflush.opened]
            rfl
          · simp only [hflush.length]
            rfl
      · exact ⟨[], outer, h.frame ⟨rfl, rfl, rfl, rfl, rfl, rfl⟩, .inl rfl⟩
      · rcases follows_startElement h tag with hsame | hpushed
        · exact ⟨[], outer, hsame, .inl rfl⟩
        · exact ⟨[], tag :: outer, hpushed, .inr rfl⟩

theorem follows_pushText (h : b.Follows inside outer) (text : List Char) :
    (b.pushText text).Follows inside outer := by
  unfold pushText
  split_ifs <;> exact ⟨h.opened, h.skipFrom, h.style, h.link⟩

/-- Each token keeps the style and the link what the open elements make of them. -/
theorem follows_processToken (h : b.Follows inside outer) (token : Token) :
    ∃ inside' outer', (b.processToken token).Follows inside' outer' ∧
      inside' ++ outer' = b.tagsAfter (inside ++ outer) token := by
  have hlength := h.length
  -- Tokens but start tags leave a part of the stack.
  have hsuffix {inside' outer' : List Tag} (hnot : ∀ tag, token ≠ .startTag tag)
      (hfollows : (b.processToken token).Follows inside' outer')
      (hpart : inside' ++ outer' <:+ inside ++ outer) :
      inside' ++ outer' = b.tagsAfter (inside ++ outer) token := by
    have hdrop := List.suffix_iff_eq_drop.1 hpart
    rw [← hfollows.length] at hdrop
    cases token with
    | startTag tag => exact (hnot tag rfl).elim
    | _ => exact hdrop
  cases hstop : b.stopped with
  | true =>
      have hsame : b.processToken token = b := processToken_of_stopped hstop token
      refine ⟨inside, outer, hsame.symm ▸ h, ?_⟩
      cases token with
      | startTag tag => simp [tagsAfter, hsame]
      | _ => exact hsuffix (by simp) (hsame.symm ▸ h) List.suffix_rfl
  | false =>
      have hlive := processToken_of_live hstop token
      cases token with
      | startTag tag =>
          obtain ⟨inside', outer', hfollows, htags⟩ := follows_startTag h tag
          rw [show b.startTag tag = b.processToken (.startTag tag) from hlive.symm] at hfollows
          have hlength' := hfollows.length
          refine ⟨inside', outer', hfollows, ?_⟩
          simp only [tagsAfter]
          rcases htags with htags | htags
          · rw [htags] at hlength' ⊢
            rw [if_neg (by omega)]
          · rw [htags, List.length_cons] at hlength'
            rw [htags, if_pos (by omega)]
      | endTag tag =>
          have hend : ∃ inside' outer', (b.endTag tag).Follows inside' outer' ∧
              inside' ++ outer' <:+ inside ++ outer := by
            unfold endTag
            split_ifs
            · exact follows_closeDown _ rfl h
            · exact ⟨inside, outer, h, List.suffix_rfl⟩
          obtain ⟨inside', outer', hfollows, hpart⟩ := hend
          rw [show b.endTag tag = b.processToken (.endTag tag) from hlive.symm] at hfollows
          exact ⟨inside', outer', hfollows, hsuffix (by simp) hfollows hpart⟩
      | characters text =>
          have hfollows := follows_pushText h text
          rw [show b.pushText text = b.processToken (.characters text) from hlive.symm] at hfollows
          exact ⟨inside, outer, hfollows, hsuffix (by simp) hfollows List.suffix_rfl⟩
      | ignored =>
          have hfollows : (b.processToken .ignored).Follows inside outer := by
            rw [hlive]
            exact h
          exact ⟨inside, outer, hfollows, hsuffix (by simp) hfollows List.suffix_rfl⟩

theorem follows_run (h : b.Follows inside outer) (tokens : List Token) :
    ∃ inside' outer', (b.run tokens).Follows inside' outer' ∧
      inside' ++ outer' = b.openTags (inside ++ outer) tokens := by
  induction tokens generalizing b inside outer with
  | nil => exact ⟨inside, outer, h, rfl⟩
  | cons token tokens ih =>
      obtain ⟨inside', outer', hfollows, htags⟩ := follows_processToken h token
      obtain ⟨inside'', outer'', hend, htags'⟩ := ih hfollows
      refine ⟨inside'', outer'', hend, ?_⟩
      rw [openTags, ← htags, htags']

end Follow

end Builder

/-! ## Characters and their style -/

/-- The characters of a text in one style and one link. -/
def dressed (text : List Char) (now : SpanStyle × Option MediaUrl) :
    List (Char × SpanStyle × Option MediaUrl) :=
  text.map fun c => (c, now)

def Span.styled (span : Span) : List (Char × SpanStyle × Option MediaUrl) :=
  dressed span.text (span.style, span.link)

def styledChars (spans : List Span) : List (Char × SpanStyle × Option MediaUrl) :=
  spans.flatMap Span.styled

def cellSpans (rows : List (List TableCell)) : List Span :=
  rows.flatMap fun row => row.flatMap TableCell.spans

def BlockKind.spans : BlockKind → List Span
  | .heading _ spans => spans
  | .paragraph spans => spans
  | .listItem _ _ _ spans => spans
  | .table rows => cellSpans rows
  | _ => []

def TableBuild.spans (table : TableBuild) : List Span :=
  cellSpans (table.rows ++ table.currentRow.toList)

def blockSpans (blocks : List RenderBlock) : List Span :=
  blocks.flatMap fun block => block.kind.spans

/-- The characters of all spans of a document. -/
def Document.styled (doc : Document) : List (Char × SpanStyle × Option MediaUrl) :=
  styledChars (blockSpans doc.blocks)

theorem styledChars_append (spans more : List Span) :
    styledChars (spans ++ more) = styledChars spans ++ styledChars more :=
  List.flatMap_append

theorem styledChars_sublist {spans more : List Span} (h : spans.Sublist more) :
    (styledChars spans).Sublist (styledChars more) :=
  h.flatMap _

theorem dressed_append (text more : List Char) (now : SpanStyle × Option MediaUrl) :
    dressed (text ++ more) now = dressed text now ++ dressed more now :=
  List.map_append

theorem cellSpans_append (rows more : List (List TableCell)) :
    cellSpans (rows ++ more) = cellSpans rows ++ cellSpans more :=
  List.flatMap_append

/-- Trimming leaves out characters and changes no style. -/
theorem styledChars_trimFirst {trim : List Char → List Char}
    (htrim : ∀ text, (trim text).Sublist text) (spans : List Span) :
    (styledChars (trimFirst trim spans)).Sublist (styledChars spans) ∧
      (styledChars (trimFirst trim spans).reverse).Sublist (styledChars spans.reverse) := by
  induction spans with
  | nil => exact ⟨.slnil, .slnil⟩
  | cons first rest ih =>
      rw [trimFirst]
      split_ifs
      · refine ⟨ih.1.trans (List.sublist_append_right _ _), ?_⟩
        rw [List.reverse_cons, styledChars_append]
        exact ih.2.trans (List.sublist_append_left _ _)
      · have hfirst : (Span.styled { first with text := trim first.text }).Sublist first.styled :=
          (htrim first.text).map _
        refine ⟨hfirst.append_right _, ?_⟩
        rw [List.reverse_cons, List.reverse_cons, styledChars_append, styledChars_append]
        refine .append_left ?_ _
        simpa [styledChars] using hfirst

theorem styledChars_trimSpans (spans : List Span) :
    (styledChars (trimSpans spans)).Sublist (styledChars spans) := by
  have hstart := (styledChars_trimFirst trimStart_sublist spans).1
  have hend := (styledChars_trimFirst trimEnd_sublist (trimFirst trimStart spans).reverse).2
  rw [List.reverse_reverse] at hend
  exact hend.trans hstart

namespace TableBuild

/-- Spans given to the last cell come last, or nowhere. -/
theorem spans_extendCell (table : TableBuild) (spans : List Span) :
    (table.extendCell spans).spans.Sublist (table.spans ++ spans) := by
  simp only [TableBuild.spans, extendCell, cellSpans_append, List.append_assoc]
  refine .append_left ?_ _
  cases table.currentRow with
  | none => exact List.nil_sublist _
  | some row =>
      rcases row.eq_nil_or_concat with rfl | ⟨front, last, rfl⟩
      · exact List.nil_sublist _
      · simp [List.concat_eq_append, List.modifyLast_concat, cellSpans]

theorem spans_commitRow (table : TableBuild) (maxRows : ℕ) :
    (cellSpans (table.commitRow maxRows).1.rows).Sublist table.spans ∧
      (table.commitRow maxRows).1.currentRow = none := by
  simp only [TableBuild.spans, cellSpans_append, commitRow]
  cases hrow : table.currentRow with
  | none => exact ⟨List.sublist_append_left _ _, hrow⟩
  | some row =>
      dsimp only
      split_ifs
      · exact ⟨List.sublist_append_left _ _, rfl⟩
      · rw [cellSpans_append]
        exact ⟨List.Sublist.refl _, rfl⟩
      · exact ⟨List.sublist_append_left _ _, rfl⟩

end TableBuild

namespace Builder

variable {b : Builder}

/-- The characters of the blocks and of the cells of an open table. -/
def filed (b : Builder) : List (Char × SpanStyle × Option MediaUrl) :=
  styledChars (blockSpans b.blocks ++ b.table.elim [] TableBuild.spans)

/-- The characters of all spans of the builder, in the order they will show. -/
def styled (b : Builder) : List (Char × SpanStyle × Option MediaUrl) :=
  b.filed ++ styledChars b.spans

/-- The text that a change gives to a cell of the table without a style. -/
def folded (b : Builder) : Edit → List Char
  | .image _ alt _ _ _ _ => if b.table.isSome then alt else []
  | .closePre => if b.table.isSome ∧ b.preDepth - 1 = 0 then b.codeText else []
  | _ => []

/-- The characters that a change puts into spans. -/
def arrives (b : Builder) : Edit → List (Char × SpanStyle × Option MediaUrl)
  | .text text =>
      if b.skipFrom.isSome ∨ 0 < b.preDepth then [] else dressed (b.taken text) (b.style, b.link)
  | .lineBreak => if 0 < b.preDepth then [] else dressed ['\n'] (b.style, b.link)
  | edit => dressed (b.folded edit) ({}, none)

theorem styledChars_appendSpan (b : Builder) (text : List Char) :
    styledChars (b.appendSpan text) =
      styledChars b.spans ++ dressed text (b.style, b.link) := by
  have hnew : styledChars [⟨text, b.style, b.link⟩] = dressed text (b.style, b.link) := by
    simp [styledChars, Span.styled]
  unfold appendSpan
  split
  · next last hlast =>
      obtain ⟨front, hspans⟩ := List.getLast?_eq_some_iff.1 hlast
      split_ifs with hsame
      · rw [hspans, List.dropLast_concat, styledChars_append, styledChars_append,
          List.append_assoc]
        simp [styledChars, Span.styled, dressed_append, hsame]
      · rw [styledChars_append, hnew]
  · rw [styledChars_append, hnew]

/-- A block takes its spans along, unless it is left out. -/
theorem filed_pushBlock_of_none (htable : b.table = none) (kind : BlockKind) :
    (b.pushBlock kind).filed.Sublist (b.filed ++ styledChars kind.spans) := by
  have hblock : styledChars (blockSpans (b.blocks ++ [⟨kind, b.quoteDepth⟩])) =
      styledChars (blockSpans b.blocks) ++ styledChars kind.spans := by
    simp [blockSpans, styledChars_append]
  rw [pushBlock_of_none htable]
  split_ifs
  · exact List.sublist_append_left _ _
  · exact List.sublist_append_left _ _
  all_goals
    simp only [filed, htable, Option.elim_none, List.append_nil, hblock]
    exact .refl _

/-- A block that holds no spans gives its text to the cell it stands in. -/
theorem filed_pushBlock (b : Builder) (kind : BlockKind) (hkind : kind.spans = []) :
    (b.pushBlock kind).filed.Sublist
      (b.filed ++ dressed (if b.table.isSome then kind.plainText else []) ({}, none)) := by
  cases htable : b.table with
  | none =>
      have hpush := filed_pushBlock_of_none htable kind
      rw [hkind] at hpush
      exact hpush
  | some table =>
      have hcell := styledChars_sublist (table.spans_extendCell [⟨kind.plainText, {}, none⟩])
      have hspan : styledChars [⟨kind.plainText, {}, none⟩] =
          dressed kind.plainText ({}, none) := by
        simp [styledChars, Span.styled]
      rw [styledChars_append, hspan] at hcell
      rw [pushBlock_of_table htable]
      by_cases hblank : trim kind.plainText = []
      · rw [if_pos hblank]
        exact List.sublist_append_left _ _
      · rw [if_neg hblank]
        simp only [filed, htable, Option.elim_some, Option.isSome_some, if_true,
          styledChars_append, List.append_assoc]
        exact .append_left hcell _

theorem styled_flush (b : Builder) : b.flush.styled.Sublist b.styled := by
  have htrim := styledChars_trimSpans b.spans
  rw [styled, spans_flush]
  change (b.flush.filed ++ []).Sublist _
  rw [List.append_nil]
  by_cases hblank : trimSpans b.spans = []
  · rw [flush_of_blank hblank]
    exact List.sublist_append_left _ _
  · cases htable : b.table with
    | some table =>
        have hcell := styledChars_sublist (table.spans_extendCell (trimSpans b.spans))
        rw [styledChars_append] at hcell
        rw [flush_of_table hblank htable]
        simp only [styled, filed, htable, Option.elim_some, styledChars_append,
          List.append_assoc]
        exact .append_left (hcell.trans (htrim.append_left _)) _
    | none =>
        have hpush := filed_pushBlock_of_none (b := { b with spans := [] }) htable
          (b.pending.kind (trimSpans b.spans))
        have hkind : (b.pending.kind (trimSpans b.spans)).spans = trimSpans b.spans := by
          cases b.pending <;> rfl
        rw [hkind] at hpush
        rw [flush_of_none hblank htable]
        exact hpush.trans (htrim.append_left _)

theorem styled_closeTable (b : Builder) : b.closeTable.styled.Sublist b.styled := by
  unfold closeTable
  split
  · exact .refl _
  · next table htable =>
      have hrows := styledChars_sublist (table.spans_commitRow b.ctx.limits.maxTableRows).1
      have hfiled : b.filed =
          filed { b with table := none } ++ styledChars table.spans := by
        simp [filed, htable, styledChars_append]
      dsimp only
      split_ifs
      · rw [styled, styled, hfiled]
        exact .append_right (List.sublist_append_left _ _) _
      · have hpush := filed_pushBlock_of_none (b := { b with table := none }) rfl
          (.table (table.commitRow b.ctx.limits.maxTableRows).1.rows)
        rw [styled, styled, hfiled, spans_pushBlock]
        exact .append_right (hpush.trans (hrows.append_left _)) _

theorem styled_commitRow (b : Builder) : b.commitRow.styled.Sublist b.styled := by
  unfold commitRow
  split
  · exact .refl _
  · next table htable =>
      obtain ⟨hrows, hcurrent⟩ := table.spans_commitRow b.ctx.limits.maxTableRows
      have hspans : (TableBuild.spans (table.commitRow b.ctx.limits.maxTableRows).1).Sublist
          table.spans := by
        rw [TableBuild.spans, hcurrent]
        simpa using hrows
      have hfiled : (styled { b with
          table := some (table.commitRow b.ctx.limits.maxTableRows).1 }).Sublist b.styled := by
        refine .append_right (styledChars_sublist ?_) _
        simp only [htable, Option.elim_some]
        exact hspans.append_left _
      dsimp only
      split_ifs <;> exact hfiled

theorem styled_startCell (b : Builder) (header : Bool) :
    (b.startCell header).styled = b.styled := by
  unfold startCell
  split
  · rfl
  · next table htable =>
      dsimp only
      split_ifs
      · cases hrow : table.currentRow <;>
          simp [styled, filed, htable, TableBuild.spans, cellSpans, hrow]
      · cases hrow : table.currentRow <;>
          simp [styled, filed, htable, TableBuild.spans, cellSpans, hrow, recordTruncation]

theorem styled_pushText (b : Builder) (text : List Char) :
    (b.pushText text).styled.Sublist (b.styled ++ b.arrives (.text text)) := by
  have hsame {b' : Builder} (h : b'.styled = b.styled) :
      b'.styled.Sublist (b.styled ++ b.arrives (.text text)) :=
    h ▸ List.sublist_append_left _ _
  cases hskip : b.skipFrom with
  | some depth =>
      rw [pushText_of_skip (by rw [hskip, Option.isSome_some])]
      exact hsame rfl
  | none =>
      by_cases hpre : 0 < b.preDepth
      · rw [pushText_of_pre hskip hpre]
        split_ifs <;> exact hsame rfl
      · rw [pushText_of_flow hskip (Nat.eq_zero_of_not_pos hpre)]
        split_ifs
        · exact hsame rfl
        · exact hsame rfl
        · simp [styled, filed, styledChars_appendSpan, arrives, hskip, hpre]

theorem styled_closePre (b : Builder) :
    b.closePre.styled.Sublist (b.styled ++ b.arrives .closePre) := by
  have hdropped : b.filed.Sublist (b.styled ++ b.arrives .closePre) :=
    (List.sublist_append_left _ _).trans (List.sublist_append_left _ _)
  by_cases hdepth : b.preDepth - 1 = 0
  · by_cases hblank : b.codeText = []
    · rw [closePre_of_blank hdepth hblank, styled]
      exact (List.append_nil b.filed).symm ▸ hdropped
    · have hpush := b.pastPre.filed_pushBlock (.code b.preLanguage b.codeText) rfl
      rw [closePre_of_outer hdepth hblank, styled]
      change (filed _ ++ []).Sublist _
      rw [List.append_nil]
      refine hpush.trans ?_
      simp only [arrives, folded, hdepth, and_true]
      exact .append_right (List.sublist_append_left _ _) _
  · rw [closePre_of_inner hdepth]
    exact List.sublist_append_left _ _

/-- A picture comes after a flush. -/
def Settled (b : Builder) : Edit → Prop
  | .image _ _ _ _ _ _ => b.spans = []
  | _ => True

/-- What each change does to the spans. -/
theorem styled_apply {edit : Edit} (h : b.Settled edit) :
    (b.apply edit).styled.Sublist (b.styled ++ b.arrives edit) := by
  have hsame {b' : Builder} (h : b'.styled.Sublist b.styled) :
      b'.styled.Sublist (b.styled ++ b.arrives edit) :=
    h.trans (List.sublist_append_left _ _)
  cases edit with
  | flush => exact hsame b.styled_flush
  | text text => exact b.styled_pushText text
  | lineBreak =>
      have hnew : styledChars [⟨['\n'], b.style, b.link⟩] =
          dressed ['\n'] (b.style, b.link) := by
        simp [styledChars, Span.styled]
      simp only [apply, breakLine]
      split_ifs with hpre
      · exact hsame (.refl _)
      · exact hsame (.refl _)
      · simp [styled, filed, styledChars_append, arrives, hnew, hpre]
  | rule =>
      have hpush := b.filed_pushBlock .rule rfl
      simp only [BlockKind.plainText, ite_self, dressed, List.map_nil, List.append_nil] at hpush
      refine hsame ?_
      rw [apply, styled, spans_pushBlock]
      exact hpush.append_right _
  | image src alt title fetch intrinsic link =>
      have hpush := b.filed_pushBlock (.image src alt title fetch intrinsic link) rfl
      have hspans : styledChars b.spans = [] := by
        rw [show b.spans = [] from h]
        rfl
      rw [apply, styled, styled, spans_pushBlock, hspans, List.append_nil, List.append_nil]
      exact hpush
  | openList ordered =>
      simp only [apply, openList]
      split_ifs <;> exact hsame (.refl _)
  | nextItem =>
      simp only [apply, nextItem]
      split <;> exact hsame (.refl _)
  | openPre tag =>
      simp only [apply, openPre]
      split_ifs <;> exact hsame (.refl _)
  | closePre => exact b.styled_closePre
  | openTable =>
      refine hsame (Eq.subst ?_ (.refl _))
      cases htable : b.table <;>
        simp [styled, filed, apply, openTable, htable, TableBuild.spans, cellSpans]
  | leaveTable =>
      have hclose := styled_closeTable { b with tableDepth := b.tableDepth - 1 }
      simp only [apply, leaveTable]
      split_ifs
      · exact hsame hclose
      · exact hsame (.refl _)
  | openRow =>
      refine hsame (.trans (.append_right (styledChars_sublist ?_) _) b.styled_commitRow)
      simp only [apply, openRow]
      refine .append_left ?_ _
      cases htable : b.commitRow.table <;>
        simp [TableBuild.spans, cellSpans]
  | closeRow => exact hsame b.styled_commitRow
  | openCell header => exact hsame (b.styled_startCell header ▸ .refl _)
  | _ => exact hsame (.refl _)

/-! ## Each token -/

/-- The characters that the changes put into spans. -/
def arriving : Builder → List Edit → List (Char × SpanStyle × Option MediaUrl)
  | _, [] => []
  | b, edit :: edits => b.arrives edit ++ arriving (b.apply edit) edits

theorem styled_applyAll {edits : List Edit} (h : Along Settled b edits) :
    (b.applyAll edits).styled.Sublist (b.styled ++ b.arriving edits) := by
  induction edits generalizing b with
  | nil => exact List.sublist_append_left _ _
  | cons edit edits ih =>
      rw [applyAll_cons, arriving, ← List.append_assoc]
      exact (ih h.2).trans (.append_right (styled_apply h.1) _)

end Builder

/-- The change puts no characters into spans. -/
def Edit.Silent : Edit → Prop
  | .text _ => False
  | .lineBreak => False
  | .image _ _ _ _ _ _ => False
  | .closePre => False
  | _ => True

/-- The change is one of those that closing makes. -/
def Edit.Closes : Edit → Prop
  | .stack _ _ => True
  | .restyle _ _ => True
  | .flush => True
  | .closeList => True
  | .closeQuote => True
  | .closePre => True
  | .leaveTable => True
  | .closeRow => True
  | _ => False

theorem closes_closing (element : OpenElement) : ∀ edit ∈ element.closing, edit.Closes := by
  unfold OpenElement.closing
  cases element.disposition with
  | block block => cases block <;> simp [BlockTag.closing, Edit.Closes]
  | _ => simp [Edit.Closes]

theorem closes_closeEdits (name : String) (elements : List OpenElement) (skipFrom : Option ℕ) :
    ∀ edit ∈ closeEdits name elements skipFrom, edit.Closes := by
  induction elements generalizing skipFrom with
  | nil => simp [closeEdits]
  | cons element rest ih =>
      intro edit hmem
      rw [closeEdits, List.cons_append, List.mem_cons, List.mem_append, List.mem_cons] at hmem
      rcases hmem with rfl | hmem | rfl | hmem
      · trivial
      · split_ifs at hmem
        · cases hmem
        · exact closes_closing element edit hmem
      · trivial
      · split_ifs at hmem
        · cases hmem
        · exact ih _ edit hmem

namespace Builder

variable {b : Builder}

theorem arriving_of_silent {edits : List Edit} (h : ∀ edit ∈ edits, edit.Silent) :
    b.arriving edits = [] := by
  induction edits generalizing b with
  | nil => rfl
  | cons edit edits ih =>
      have hnone : b.arrives edit = [] := by
        have hsilent := h edit List.mem_cons_self
        cases edit with
        | text _ => exact hsilent.elim
        | lineBreak => exact hsilent.elim
        | image _ _ _ _ _ _ => exact hsilent.elim
        | closePre => exact hsilent.elim
        | _ => rfl
      rw [arriving, hnone, ih fun edit hmem => h edit (List.mem_cons_of_mem _ hmem)]
      rfl

theorem table_pushBlock_of_none (htable : b.table = none) (kind : BlockKind) :
    (b.pushBlock kind).table = none := by
  rw [pushBlock_of_none htable]
  split_ifs <;> exact htable

theorem isSome_table_pushBlock (b : Builder) (kind : BlockKind) :
    (b.pushBlock kind).table.isSome = b.table.isSome := by
  cases htable : b.table with
  | none => rw [table_pushBlock_of_none htable]
  | some table =>
      rw [pushBlock_of_table htable]
      split_ifs
      · rw [htable]
      · rfl

theorem isSome_table_flush (b : Builder) : b.flush.table.isSome = b.table.isSome := by
  by_cases hblank : trimSpans b.spans = []
  · rw [flush_of_blank hblank]
  · cases htable : b.table with
    | some table =>
        rw [flush_of_table hblank htable]
        rfl
    | none =>
        have hpush := isSome_table_pushBlock { b with spans := [] }
          (b.pending.kind (trimSpans b.spans))
        rw [flush_of_none hblank htable]
        exact hpush.trans (congrArg Option.isSome htable)

/-- A table that is closed is open before. -/
theorem isSome_table_of_closes {edit : Edit} (h : edit.Closes)
    (hsome : (b.apply edit).table.isSome = true) : b.table.isSome = true := by
  cases edit with
  | flush => exact b.isSome_table_flush ▸ hsome
  | closePre =>
      by_cases hdepth : b.preDepth - 1 = 0
      · by_cases hblank : b.codeText = []
        · rwa [apply, closePre_of_blank hdepth hblank] at hsome
        · rw [apply, closePre_of_outer hdepth hblank] at hsome
          rwa [isSome_table_pushBlock] at hsome
      · rwa [apply, closePre_of_inner hdepth] at hsome
  | leaveTable =>
      cases htable : b.table with
      | some table => rfl
      | none => simp [apply, leaveTable, closeTable, htable] at hsome
  | closeRow =>
      cases htable : b.table with
      | some table => rfl
      | none => simp [apply, commitRow, htable] at hsome
  | _ => first | exact hsome | exact h.elim

/-- Closing gives the text of the code block to a cell once. -/
theorem arrives_of_closes {edit : Edit} (h : edit.Closes) :
    b.arrives edit = [] ∧ (b.apply edit).preText = b.preText ∨
      b.arrives edit = dressed (if b.table.isSome then b.codeText else []) ({}, none) ∧
        (b.apply edit).preText = [] := by
  cases edit with
  | flush => exact .inl ⟨rfl, b.emits_flush.preText⟩
  | closePre =>
      by_cases hdepth : b.preDepth - 1 = 0
      · refine .inr ⟨by simp [arrives, folded, hdepth], ?_⟩
        by_cases hblank : b.codeText = []
        · rw [apply, closePre_of_blank hdepth hblank]
          rfl
        · rw [apply, closePre_of_outer hdepth hblank]
          exact (b.pastPre.emits_pushBlock _).preText
      · refine .inl ⟨by simp [arrives, folded, hdepth, dressed], ?_⟩
        rw [apply, closePre_of_inner hdepth]
  | leaveTable =>
      refine .inl ⟨rfl, ?_⟩
      simp only [apply, leaveTable]
      split_ifs
      · exact (emits_closeTable { b with tableDepth := b.tableDepth - 1 }).preText
      · rfl
  | closeRow => exact .inl ⟨rfl, b.emits_commitRow.preText⟩
  | _ => first | exact .inl ⟨rfl, rfl⟩ | exact h.elim

theorem arriving_of_closes {edits : List Edit} (h : ∀ edit ∈ edits, edit.Closes) :
    (b.arriving edits).Sublist
      (dressed (if b.table.isSome then b.codeText else []) ({}, none)) := by
  induction edits generalizing b with
  | nil => exact List.nil_sublist _
  | cons edit edits ih =>
      have hedit := h edit List.mem_cons_self
      have hrest := ih (b := b.apply edit) fun edit hmem => h edit (List.mem_cons_of_mem _ hmem)
      have htable := isSome_table_of_closes (b := b) hedit
      rw [arriving]
      rcases arrives_of_closes (b := b) hedit with ⟨hnone, hpre⟩ | ⟨hcode, hpre⟩
      · rw [hnone]
        refine hrest.trans ?_
        by_cases hsome : (b.apply edit).table.isSome = true
        · rw [if_pos hsome, if_pos (htable hsome), codeText, codeText, hpre]
        · rw [if_neg hsome]
          exact List.nil_sublist _
      · have hblank : (b.apply edit).codeText = [] := by
          rw [codeText, hpre]
          rfl
        rw [hblank, ite_self] at hrest
        rw [hcode, List.sublist_nil.1 hrest, List.append_nil]

section Tokens

variable [UrlLibrary]

/-- The characters that a token puts into spans, where the elements around it
make them look like `now`. -/
def arrived (b : Builder) (now : SpanStyle × Option MediaUrl) :
    Token → List (Char × SpanStyle × Option MediaUrl)
  | .characters text =>
      if b.skipFrom.isSome ∨ 0 < b.preDepth then [] else dressed (b.taken text) now
  | .startTag tag =>
      if b.skipFrom.isSome then []
      else
        match classify (lowercase tag.name) with
        | .void .lineBreak => if 0 < b.preDepth then [] else dressed ['\n'] now
        -- Text that folds into a cell has no style.
        | .void .image =>
            dressed (if b.table.isSome then (attr tag "alt").getD [] else []) ({}, none)
        | _ => []
  | .endTag _ => dressed (if b.table.isSome then b.codeText else []) ({}, none)
  | .ignored => []

/-- The characters that the tokens put into spans. -/
def arrivals : Builder → List Tag → List Token → List (Char × SpanStyle × Option MediaUrl)
  | _, _, [] => []
  | b, tags, token :: tokens =>
      (if b.stopped then [] else b.arrived (inlineFold b.ctx tags) token) ++
        arrivals (b.processToken token) (b.tagsAfter tags token) tokens

theorem settled_imageEdits (tag : Tag) : Along Settled b (b.imageEdits tag) := by
  unfold imageEdits
  cases (nonEmptyAttr tag "src").bind b.resolve with
  | none => trivial
  | some src =>
      dsimp only
      cases b.ctx.media.decideWithConsent src [] with
      | fetch shown => exact ⟨trivial, spans_flush, trivial⟩
      | needsConsent shown => exact ⟨trivial, spans_flush, trivial⟩
      | drop => trivial

theorem arriving_imageEdits (tag : Tag) :
    (b.arriving (b.imageEdits tag)).Sublist
      (dressed (if b.table.isSome then (attr tag "alt").getD [] else []) ({}, none)) := by
  have hshown (src : MediaUrl) (fetch : MediaFetch) :
      b.arriving [.flush, .image src ((attr tag "alt").getD [])
        ((attr tag "title").filter fun t => t ≠ []) fetch (intrinsicSize tag) b.link] =
      dressed (if b.table.isSome then (attr tag "alt").getD [] else []) ({}, none) := by
    simp [arriving, arrives, folded, apply, isSome_table_flush, dressed]
  unfold imageEdits
  cases (nonEmptyAttr tag "src").bind b.resolve with
  | none => exact List.nil_sublist _
  | some src =>
      dsimp only
      cases b.ctx.media.decideWithConsent src [] with
      | fetch shown => exact hshown shown .allowed ▸ .refl _
      | needsConsent shown => exact hshown shown .needsConsent ▸ .refl _
      | drop => exact List.nil_sublist _

/-- A start tag puts no characters into spans, but for a line break and a picture. -/
theorem startEdits_cases (b : Builder) (tag : Tag) :
    (∀ edit ∈ b.startEdits tag, edit.Silent) ∨ b.skipFrom = none ∧
      (classify (lowercase tag.name) = .void .lineBreak ∧ b.startEdits tag = [.lineBreak] ∨
        classify (lowercase tag.name) = .void .image ∧ b.startEdits tag = b.imageEdits tag) := by
  have hopen (element : OpenElement) : ∀ edit ∈ b.openEdits tag element, edit.Silent := by
    unfold openEdits
    split_ifs <;> simp [Edit.Silent]
  unfold startEdits
  split_ifs with hskip hskipped hdepth
  · left
    unfold skippedEdits
    split_ifs <;> simp [Edit.Silent]
  · left
    unfold skipEdits
    split_ifs <;> simp [Edit.Silent]
  · left
    simp [Edit.Silent]
  · have hnone : b.skipFrom = none := by
      simpa using hskip
    unfold elementEdits
    dsimp only
    cases classify (lowercase tag.name) with
    | void void =>
        cases void with
        | lineBreak => exact .inr ⟨hnone, .inl ⟨rfl, rfl⟩⟩
        | rule =>
            left
            simp [voidEdits, Edit.Silent]
        | image => exact .inr ⟨hnone, .inr ⟨rfl, rfl⟩⟩
    | inline inline =>
        left
        dsimp only
        split_ifs <;> simp [Edit.Silent]
    | block block =>
        left
        intro edit hmem
        rcases List.mem_append.1 hmem with hopening | hstack
        · cases block <;> simp only [BlockTag.opening, List.mem_cons, List.not_mem_nil, or_false]
            at hopening
          all_goals
            first
            | obtain rfl := hopening
            | obtain rfl | rfl := hopening
            all_goals trivial
        · exact hopen _ edit hstack
    | skip => exact .inl (hopen _)
    | flatten => exact .inl (hopen _)

omit [UrlLibrary] in
theorem settled_of_silent {edits : List Edit} (h : ∀ edit ∈ edits, edit.Silent) :
    Along Settled b edits := by
  refine along_of_forall fun edit hmem b => ?_
  have hsilent := h edit hmem
  cases edit with
  | image _ _ _ _ _ _ => exact hsilent.elim
  | _ => trivial

omit [UrlLibrary] in
theorem settled_of_closes {edits : List Edit} (h : ∀ edit ∈ edits, edit.Closes) :
    Along Settled b edits := by
  refine along_of_forall fun edit hmem b => ?_
  have hcloses := h edit hmem
  cases edit with
  | image _ _ _ _ _ _ => exact hcloses.elim
  | _ => trivial

/-- The spans after a token are those before it and what the token puts there. -/
theorem styled_processToken {inside outer : List Tag} (h : b.Follows inside outer)
    (token : Token) :
    (b.processToken token).styled.Sublist
      (b.styled ++ if b.stopped then [] else
        b.arrived (inlineFold b.ctx (inside ++ outer)) token) := by
  rw [processToken_eq, steps]
  split_ifs
  · exact List.sublist_append_left _ _
  -- Outside skipped elements the style and the link are those of the open elements.
  have hnow (hskip : b.skipFrom = none) :
      (b.style, b.link) = inlineFold b.ctx (inside ++ outer) := by
    have hinside : inside = [] := by
      by_contra hnot
      rw [h.skipFrom, if_neg hnot] at hskip
      cases hskip
    rw [hinside, h.style, h.link]
    rfl
  cases token with
  | startTag tag =>
      rcases b.startEdits_cases tag with hsilent | ⟨hskip, ⟨hclass, hedits⟩ | ⟨hclass, hedits⟩⟩
      · have hstyled := styled_applyAll (b := b) (settled_of_silent hsilent)
        rw [arriving_of_silent hsilent, List.append_nil] at hstyled
        exact hstyled.trans (List.sublist_append_left _ _)
      · have hsettled : b.Settled .lineBreak := trivial
        have hbreak := styled_apply hsettled
        simp only [edits, hedits, applyAll_cons, applyAll_nil, arrived, hskip, hclass, ← hnow hskip]
        exact hbreak
      · have himage := styled_applyAll (b.settled_imageEdits tag)
        simp only [edits, hedits, arrived, hskip, hclass]
        exact himage.trans (.append_left (b.arriving_imageEdits tag) _)
  | endTag tag =>
      by_cases hmatch : b.opened.any fun element => element.name = lowercase tag.name
      · have hcloses := closes_closeEdits (lowercase tag.name) b.opened b.skipFrom
        simp only [edits, arrived, if_pos hmatch]
        exact (styled_applyAll (settled_of_closes hcloses)).trans
          (.append_left (arriving_of_closes hcloses) _)
      · simp only [edits, if_neg hmatch]
        exact List.sublist_append_left _ _
  | characters text =>
      have hsettled : b.Settled (.text text) := trivial
      have htext := styled_apply hsettled
      refine htext.trans (.append_left ?_ _)
      simp only [arrives, arrived]
      split_ifs with hquiet
      · exact .refl _
      · have hskip : b.skipFrom = none := by
          simpa using fun hsome => hquiet (.inl hsome)
        rw [hnow hskip]
  | ignored => exact List.sublist_append_left _ _

theorem styled_run {inside outer : List Tag} (h : b.Follows inside outer)
    (tokens : List Token) :
    (b.run tokens).styled.Sublist (b.styled ++ b.arrivals (inside ++ outer) tokens) := by
  induction tokens generalizing b inside outer with
  | nil => exact List.sublist_append_left _ _
  | cons token tokens ih =>
      obtain ⟨inside', outer', hfollows, htags⟩ := follows_processToken h token
      have hrest := ih hfollows
      rw [htags] at hrest
      rw [arrivals, ← List.append_assoc]
      exact hrest.trans (.append_right (styled_processToken h token) _)

omit [UrlLibrary] in
theorem styled_finish (b : Builder) : b.finish.styled.Sublist b.styled := by
  have hblocks : b.finish.styled.Sublist b.flush.closeTable.styled := by
    simp only [styled, filed, styledChars_append, List.append_assoc]
    exact List.sublist_append_left _ _
  exact hblocks.trans (b.flush.styled_closeTable.trans b.styled_flush)

end Tokens

end Builder

/-- The style and the link are at every moment outside skipped elements what the
elements on the stack make of them. Every character of a span has the style and
the link of the elements that were open when it was read; only the texts of code
blocks and pictures that fold into a cell of a table have none. -/
theorem inline_follows_elements [UrlLibrary] (ctx : TransformContext) (pre : Option Truncation)
    (tokens : List Token) :
    ((Builder.start ctx pre).run tokens).opened.map OpenElement.name =
        ((Builder.start ctx pre).openTags [] tokens).map (fun tag => lowercase tag.name) ∧
      (((Builder.start ctx pre).run tokens).skipFrom = none →
        (((Builder.start ctx pre).run tokens).style, ((Builder.start ctx pre).run tokens).link) =
          inlineFold ctx ((Builder.start ctx pre).openTags [] tokens)) ∧
      (transform ctx pre tokens).styled.Sublist ((Builder.start ctx pre).arrivals [] tokens) := by
  have hstart := Builder.follows_start ctx pre
  obtain ⟨inside, outer, hfollows, htags⟩ := Builder.follows_run hstart tokens
  have hctx : ((Builder.start ctx pre).run tokens).ctx = ctx :=
    ((Builder.start ctx pre).grows_run tokens).ctx
  rw [List.nil_append] at htags
  refine ⟨?_, fun hskip => ?_, ?_⟩
  · rw [hfollows.opened, ← htags, List.map_append, List.map_append, List.map_map, hctx]
    exact congrArg _ (Builder.names_stackOf ctx outer)
  · have hinside : inside = [] := by
      by_contra hnot
      rw [hfollows.skipFrom, if_neg hnot] at hskip
      cases hskip
    rw [← htags, hfollows.style, hfollows.link, hctx, hinside]
    rfl
  · have hstyled := Builder.styled_run hstart tokens
    have hfinish := ((Builder.start ctx pre).run tokens).styled_finish
    exact hfinish.trans hstyled

section Plain

open scoped Plain

/-- Caps that allow eight open elements. -/
def deep : TransformContext where
  baseUrl := none
  media := .direct
  limits := ⟨8, 100, 1000, 8, 8, 512, 64⟩

/-- A code block in bold text in a cell: the cell holds its text in no style. -/
theorem folded_text_is_plain :
    inlineFold deep ((Builder.start deep none).openTags []
        [.startTag (plainTag "b"), .startTag (plainTag "table"), .startTag (plainTag "td"),
          .startTag (plainTag "pre")]) = ({ bold := true }, none) ∧
      (transform deep none
        [.startTag (plainTag "b"), .startTag (plainTag "table"), .startTag (plainTag "td"),
          .startTag (plainTag "pre"), .characters ['x'], .endTag (plainTag "pre")]).styled =
        [('x', {}, none)] := by
  decide

end Plain

end Vuo.Content
