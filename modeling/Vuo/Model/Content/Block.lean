import Vuo.Model.Url

/-!
# Render blocks

An article is a flat list of blocks. Inline text is a list of spans, each with
one style and at most one link.
-/

namespace Vuo.Content

/-- The size of a text in bytes. -/
def byteLength : List Char → ℕ
  | [] => 0
  | c :: text => c.utf8Size + byteLength text

theorem byteLength_append (left right : List Char) :
    byteLength (left ++ right) = byteLength left + byteLength right := by
  induction left with
  | nil => simp [byteLength]
  | cons c left ih =>
      rw [List.cons_append, byteLength, byteLength, ih]
      omega

theorem byteLength_pos {text : List Char} (h : text ≠ []) : 0 < byteLength text := by
  cases text with
  | nil => exact absurd rfl h
  | cons c text =>
      have hc := c.utf8Size_pos
      rw [byteLength]
      omega

/-! ## Spans -/

structure SpanStyle where
  bold : Bool := false
  italic : Bool := false
  code : Bool := false
  strike : Bool := false
  superscript : Bool := false
  subscript : Bool := false
  deriving DecidableEq

structure Span where
  text : List Char
  style : SpanStyle
  link : Option MediaUrl
  deriving DecidableEq

/-- A character as markup shows it. -/
def escapeChar (c : Char) : List Char :=
  if c = '&' then ['&', 'a', 'm', 'p', ';']
  else if c = '<' then ['&', 'l', 't', ';']
  else if c = '>' then ['&', 'g', 't', ';']
  else if c = '"' then ['&', 'q', 'u', 'o', 't', ';']
  else if c = '\'' then ['&', '#', '3', '9', ';']
  else [c]

def escape (raw : List Char) : List Char :=
  raw.flatMap escapeChar

namespace SpanStyle

/-- The tags a style is rendered with, outermost first. -/
def tags (style : SpanStyle) : List (List Char) :=
  (if style.bold then [['b']] else []) ++ (if style.italic then [['i']] else []) ++
    (if style.strike then [['s']] else []) ++
    (if style.superscript then [['s', 'u', 'p']] else []) ++
    (if style.subscript then [['s', 'u', 'b']] else [])

end SpanStyle

namespace Span

/-- The opening tag of a link. -/
def openLink (link : MediaUrl) : List Char :=
  ['<', 'a', ' ', 'h', 'r', 'e', 'f', '=', '"'] ++ escape link.asStr.toList ++ ['"', '>']

def openTag (tag : List Char) : List Char :=
  '<' :: tag ++ ['>']

def closeTag (tag : List Char) : List Char :=
  '<' :: '/' :: tag ++ ['>']

def renderOne (span : Span) : List Char :=
  let opened := (if span.link.isSome then [['a']] else []) ++ span.style.tags
  (span.link.elim [] openLink) ++ span.style.tags.flatMap openTag ++ escape span.text ++
    opened.reverse.flatMap closeTag

/-- The spans as markup for a rich text view. -/
def renderStyledText (spans : List Span) : List Char :=
  spans.flatMap renderOne

/-- The text of the spans. -/
def renderPlainText (spans : List Span) : List Char :=
  spans.flatMap Span.text

end Span

/-! ## Blocks -/

/-- Whether a picture may be loaded without asking the reader. -/
inductive MediaFetch
  | allowed
  | needsConsent
  deriving DecidableEq

structure TableCell where
  spans : List Span
  header : Bool
  deriving DecidableEq

inductive BlockKind
  | heading (level : ℕ) (spans : List Span)
  | paragraph (spans : List Span)
  | listItem (ordered : Bool) (number : Option ℕ) (indent : ℕ) (spans : List Span)
  | code (language : Option (List Char)) (text : List Char)
  | image (src : MediaUrl) (alt : List Char) (title : Option (List Char)) (fetch : MediaFetch)
      (intrinsic : Option (ℕ × ℕ)) (link : Option MediaUrl)
  | table (rows : List (List TableCell))
  | rule
  deriving DecidableEq

structure RenderBlock where
  kind : BlockKind
  quoteDepth : ℕ
  deriving DecidableEq

/-- A row of a table as text, with tabs between its cells. -/
def rowText (row : List TableCell) : List Char :=
  List.intercalate ['\t'] (row.map fun cell => Span.renderPlainText cell.spans) ++ ['\n']

/-- The text of a block, without markup. -/
def BlockKind.plainText : BlockKind → List Char
  | .heading _ spans => Span.renderPlainText spans
  | .paragraph spans => Span.renderPlainText spans
  | .listItem _ _ _ spans => Span.renderPlainText spans
  | .code _ text => text
  | .image _ alt _ _ _ _ => alt
  | .table rows => rows.flatMap rowText
  | .rule => []

def RenderBlock.plainText (block : RenderBlock) : List Char :=
  block.kind.plainText

/-- The cap that cut an article short. -/
inductive Truncation
  | inputTooLarge
  | tooManyBlocks
  | tooMuchText
  | tooDeep
  deriving DecidableEq

structure Document where
  blocks : List RenderBlock
  truncated : Option Truncation
  deriving DecidableEq

end Vuo.Content
