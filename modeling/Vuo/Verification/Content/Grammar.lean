import Vuo.Verification.Content.Inline

/-!
# What an article says

The blocks an article stands for, given rule by rule along its markup: inline
markup stands for characters with a style and a link, and headings, paragraphs,
lists, quotes, code, rules and pictures for blocks. No rule mentions a stack, a
budget or a token before it.
-/

namespace Vuo.Content

/-! ## Inline markup -/

/-- A character or a line break, with its style and link. -/
inductive Glyph
  | char (c : Char) (now : SpanStyle × Option MediaUrl)
  | lineBreak (now : SpanStyle × Option MediaUrl)

/-- A glyph inside a code block. -/
def Glyph.plain : Glyph → Char
  | .char c _ => c
  | .lineBreak _ => '\n'

/-- The text so far ends in a space, or there is none. -/
def endsInSpace (spans : List Span) : Bool :=
  match spans.getLast? with
  | some prev => prev.text.getLast? = some ' '
  | none => true

/-- A character joins the span before it if it looks alike. -/
def joinChar (spans : List Span) (c : Char) (now : SpanStyle × Option MediaUrl) : List Span :=
  match spans.getLast? with
  | some prev =>
      if prev.style = now.1 ∧ prev.link = now.2 then
        spans.dropLast ++ [{ prev with text := prev.text ++ [c] }]
      else spans ++ [⟨[c], now.1, now.2⟩]
  | none => spans ++ [⟨[c], now.1, now.2⟩]

/-- White space is one space, and none after a space or at the beginning; no
line breaks at the beginning. -/
def setGlyph (spans : List Span) : Glyph → List Span
  | .char c now =>
      if isWhitespace c then if endsInSpace spans then spans else joinChar spans ' ' now
      else joinChar spans c now
  | .lineBreak now => if spans = [] then spans else spans ++ [⟨['\n'], now.1, now.2⟩]

/-- The spans of a run of glyphs. -/
def spansOf (glyphs : List Glyph) : List Span :=
  glyphs.foldl setGlyph []

/-- The text of a code block, without the line breaks around it. -/
def codeOf (glyphs : List Glyph) : List Char :=
  ((glyphs.map Glyph.plain).reverse.dropWhile (· = '\n')).reverse.dropWhile (· = '\n')

/-- The block of a `pre`, unless it is empty. -/
def codeBlock (start : Tag) (glyphs : List Glyph) : List BlockKind :=
  if codeOf glyphs = [] then [] else [.code (classLanguage start) (codeOf glyphs)]

/-- The block of a table, unless it is empty. -/
def tableBlock (rows : List (List TableCell)) : List BlockKind :=
  if rows = [] then [] else [.table rows]

section Phrases

variable [UrlLibrary] (ctx : TransformContext)

/-- The picture an `img` shows inside a link, if it shows one. -/
def picture (tag : Tag) (link : Option MediaUrl) : Option BlockKind :=
  let kind (src : MediaUrl) (fetch : MediaFetch) : BlockKind :=
    .image src ((attr tag "alt").getD []) ((attr tag "title").filter fun t => t ≠ []) fetch
      (intrinsicSize tag) link
  ((nonEmptyAttr tag "src").bind (Builder.new ctx).resolve).bind fun src =>
    match ctx.media.decideWithConsent src [] with
    | .fetch src => some (kind src .allowed)
    | .needsConsent src => some (kind src .needsConsent)
    | .drop => none

/-- An element that adds at most a style or a link to its contents. -/
def Inline (tag : Tag) : Prop :=
  (∃ inline, classify (lowercase tag.name) = .inline inline) ∨
    classify (lowercase tag.name) = .flatten

/-- Inline markup with `room` for elements inside each other, and what it stands
for. -/
inductive Phrase : ℕ → SpanStyle × Option MediaUrl → List Token → List Glyph → Prop
  | nil {room now} : Phrase room now [] []
  | text {room now rest more} (text : List Char) (hrest : Phrase room now rest more) :
      Phrase room now (.characters text :: rest) (text.map (.char · now) ++ more)
  | ignored {room now rest more} (hrest : Phrase room now rest more) :
      Phrase room now (.ignored :: rest) more
  | lineBreak {room now rest more tag} (hclass : classify (lowercase tag.name) = .void .lineBreak)
      (hrest : Phrase (room + 1) now rest more) :
      Phrase (room + 1) now (.startTag tag :: rest) (.lineBreak now :: more)
  | hiddenPicture {room now rest more tag} (hclass : classify (lowercase tag.name) = .void .image)
      (hnone : picture ctx tag now.2 = none) (hrest : Phrase (room + 1) now rest more) :
      Phrase (room + 1) now (.startTag tag :: rest) more
  | empty {room now rest more tag} (hinline : Inline tag) (hchild : childless tag = true)
      (hrest : Phrase (room + 1) now rest more) :
      Phrase (room + 1) now (.startTag tag :: rest) more
  | element {room now inner glyphs rest more tag stop} (hinline : Inline tag)
      (hchild : childless tag = false) (hname : lowercase stop.name = lowercase tag.name)
      (hinner : Phrase room (inlineEffect ctx tag now) inner glyphs)
      (hrest : Phrase (room + 1) now rest more) :
      Phrase (room + 1) now (.startTag tag :: (inner ++ .endTag stop :: rest)) (glyphs ++ more)

end Phrases

/-! ## Blocks -/

/-- Where a block stands: the quotes and the lists around it, and the kind of
block loose text becomes. -/
structure Place where
  quoteDepth : ℕ
  lists : List ListState
  pending : Pending

namespace Place

def outset : Place where
  quoteDepth := 0
  lists := []
  pending := .paragraph

/-- The block of loose text, if there is any. -/
def emit (place : Place) (spans : List Span) : List RenderBlock :=
  if trimSpans spans = [] then []
  else [⟨place.pending.kind (trimSpans spans), place.quoteDepth⟩]

variable (limits : Limits)

def indent (lists : List ListState) : ℕ :=
  min (min (lists.length - 1) 255) limits.maxListIndent

/-- Loose text inside lists continues the item before it. -/
def continuing (lists : List ListState) : Pending :=
  match lists.getLast? with
  | none => .paragraph
  | some list => .listItem list.ordered none (indent limits lists)

/-- The place after a block boundary. -/
def settled (place : Place) : Place :=
  { place with pending := continuing limits place.lists }

/-- The place at the beginning of an item, which counts it. -/
def item (place : Place) : Place :=
  match place.lists.getLast? with
  | some list =>
      let counter := saturatingAdd32 list.counter 1
      { place with
        lists := place.lists.dropLast ++ [{ list with counter := counter }]
        pending := .listItem list.ordered (if list.ordered then some counter else none)
          (indent limits place.lists) }
  | none => { place with pending := .listItem false none (indent limits place.lists) }

/-- The place inside a block element, if the caps allow it there. -/
def enter (place : Place) : BlockTag → Option Place
  | .paragraph => some (place.settled limits)
  | .heading level => some { place with pending := .heading level }
  | .list ordered =>
      if place.lists.length < limits.maxListIndent then
        some { place.settled limits with lists := place.lists ++ [⟨ordered, 0⟩] }
      else none
  | .listItem => some (place.item limits)
  | .quote =>
      if place.quoteDepth < limits.maxQuoteDepth ∧ place.quoteDepth < 255 then
        some { place.settled limits with quoteDepth := place.quoteDepth + 1 }
      else none
  | _ => none

/-- The place after a block element with these lists at its end. Loose text
right after a list still continues its last item. -/
def leave (place : Place) (block : BlockTag) (lists : List ListState) : Place where
  quoteDepth := place.quoteDepth
  lists :=
    match block with
    | .list _ => lists.dropLast
    | _ => lists
  pending := continuing limits lists

end Place

section Flows

variable [UrlLibrary] (ctx : TransformContext)

/-- The cells of a row. -/
inductive Cells : ℕ → List Token → List TableCell → Prop
  | nil {room} : Cells room [] []
  | blank {room rest cells} (text : List Char) (htext : ∀ c ∈ text, isWhitespace c = true)
      (hrest : Cells room rest cells) : Cells room (.characters text :: rest) cells
  | ignored {room rest cells} (hrest : Cells room rest cells) : Cells room (.ignored :: rest) cells
  | cell {room start header inner glyphs stop rest cells}
      (hclass : classify (lowercase start.name) = .block (.tableCell header))
      (hchild : childless start = false) (hname : lowercase stop.name = lowercase start.name)
      (hinner : Phrase ctx room ({}, none) inner glyphs) (hrest : Cells (room + 1) rest cells) :
      Cells (room + 1) (.startTag start :: (inner ++ .endTag stop :: rest))
        (⟨trimSpans (spansOf glyphs), header⟩ :: cells)

/-- The rows of a table, also in groups. -/
inductive Rows : ℕ → List Token → List (List TableCell) → Prop
  | nil {room} : Rows room [] []
  | blank {room rest rows} (text : List Char) (htext : ∀ c ∈ text, isWhitespace c = true)
      (hrest : Rows room rest rows) : Rows room (.characters text :: rest) rows
  | ignored {room rest rows} (hrest : Rows room rest rows) : Rows room (.ignored :: rest) rows
  | row {room start inner cells stop rest rows}
      (hclass : classify (lowercase start.name) = .block .tableRow)
      (hchild : childless start = false) (hname : lowercase stop.name = lowercase start.name)
      (hcells : cells.length ≤ ctx.limits.maxTableCellsPerRow)
      (hinner : Cells ctx room inner cells)
      (hrest : Rows (room + 1) rest rows) :
      Rows (room + 1) (.startTag start :: (inner ++ .endTag stop :: rest))
        ((if cells = [] then [] else [cells]) ++ rows)
  | group {room start inner rows stop rest more}
      (hclass : classify (lowercase start.name) = .block .paragraph)
      (hchild : childless start = false) (hname : lowercase stop.name = lowercase start.name)
      (hinner : Rows room inner rows) (hrest : Rows (room + 1) rest more) :
      Rows (room + 1) (.startTag start :: (inner ++ .endTag stop :: rest)) (rows ++ more)

/-- Markup that ends the text before it and holds no blocks of others. -/
inductive Solid : ℕ → List Token → List BlockKind → Prop
  | rule {room tag} (hclass : classify (lowercase tag.name) = .void .rule) :
      Solid (room + 1) [.startTag tag] [.rule]
  | picture {room tag kind} (hclass : classify (lowercase tag.name) = .void .image)
      (hpicture : picture ctx tag none = some kind) : Solid (room + 1) [.startTag tag] [kind]
  | code {room start inner glyphs stop} (hclass : classify (lowercase start.name) = .block .pre)
      (hchild : childless start = false) (hname : lowercase stop.name = lowercase start.name)
      (hinner : Phrase ctx room ({}, none) inner glyphs) :
      Solid (room + 1) (.startTag start :: (inner ++ [.endTag stop])) (codeBlock start glyphs)
  | table {room start inner rows stop} (hclass : classify (lowercase start.name) = .block .table)
      (hchild : childless start = false) (hname : lowercase stop.name = lowercase start.name)
      (hrows : rows.length ≤ ctx.limits.maxTableRows) (hinner : Rows ctx room inner rows) :
      Solid (room + 1) (.startTag start :: (inner ++ [.endTag stop])) (tableBlock rows)
  | skipped {room start inner stop} (hclass : classify (lowercase start.name) = .skip)
      (hchild : childless start = false) (hname : lowercase stop.name = lowercase start.name)
      (hinner : ∀ token ∈ inner, Leaf token) :
      Solid room (.startTag start :: (inner ++ [.endTag stop])) []
  | skippedVoid {room tag} (hclass : classify (lowercase tag.name) = .skip)
      (hchild : childless tag = true) : Solid room [.startTag tag] []

/-- The contents of an article or of a block element at a place, the blocks they
stand for, and the lists at their end. -/
inductive Flow : ℕ → Place → List Token → List RenderBlock → List ListState → Prop
  | text {room place tokens glyphs} (htext : Phrase ctx room ({}, none) tokens glyphs) :
      Flow room place tokens (place.emit (spansOf glyphs)) place.lists
  | solid {room place before glyphs tokens kinds rest more lists}
      (hbefore : Phrase ctx room ({}, none) before glyphs) (hsolid : Solid ctx room tokens kinds)
      (hrest : Flow room (place.settled ctx.limits) rest more lists) :
      Flow room place (before ++ (tokens ++ rest))
        (place.emit (spansOf glyphs) ++ (kinds.map (⟨·, place.quoteDepth⟩) ++ more)) lists
  | element {room place before glyphs start block inside inner blocks lists stop rest more lists'}
      (hbefore : Phrase ctx (room + 1) ({}, none) before glyphs)
      (hclass : classify (lowercase start.name) = .block block)
      (hchild : childless start = false) (hname : lowercase stop.name = lowercase start.name)
      (henter : place.enter ctx.limits block = some inside)
      (hinner : Flow room inside inner blocks lists)
      (hrest : Flow (room + 1) (place.leave ctx.limits block lists) rest more lists') :
      Flow (room + 1) place (before ++ (.startTag start :: (inner ++ .endTag stop :: rest)))
        (place.emit (spansOf glyphs) ++ (blocks ++ more)) lists'

end Flows

end Vuo.Content
