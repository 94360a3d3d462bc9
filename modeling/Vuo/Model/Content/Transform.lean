import Vuo.Model.Content.Block

/-!
# From tokens to blocks

The transform reads an article as a stream of tokens, with a stack of the
elements that are open. It builds no tree.
-/

namespace Vuo.Content

structure Limits where
  maxDepth : ℕ
  maxBlocks : ℕ
  maxTextBytes : ℕ
  maxQuoteDepth : ℕ
  maxListIndent : ℕ
  maxTableRows : ℕ
  maxTableCellsPerRow : ℕ
  deriving DecidableEq

def Limits.default : Limits where
  maxDepth := 128
  maxBlocks := 4096
  maxTextBytes := 1048576
  maxQuoteDepth := 8
  maxListIndent := 8
  maxTableRows := 512
  maxTableCellsPerRow := 64

structure TransformContext where
  baseUrl : Option Url
  media : MediaPolicy
  limits : Limits

/-! ## Tokens -/

structure Attribute where
  name : String
  value : String

structure Tag where
  name : String
  selfClosing : Bool
  attrs : List Attribute

/-- What the tokenizer reports. -/
inductive Token
  | startTag (tag : Tag)
  | endTag (tag : Tag)
  | characters (text : List Char)
  /-- A comment, a document type, a null character, a parse error or the end. -/
  | ignored

/-- The name in lower case, ASCII letters only. -/
def lowercase (name : String) : String :=
  String.ofList (name.toList.map Char.toLower)

def attr (tag : Tag) (wanted : String) : Option (List Char) :=
  (tag.attrs.find? fun a => lowercase a.name = wanted).map fun a => a.value.toList

/-- An attribute that is present but blank counts as absent. -/
def nonEmptyAttr (tag : Tag) (wanted : String) : Option (List Char) :=
  (attr tag wanted).filter fun v => trim v ≠ []

/-! ## What happens to an element -/

inductive BlockTag
  | paragraph
  | heading (level : ℕ)
  | list (ordered : Bool)
  | listItem
  | quote
  | pre
  | table
  | tableRow
  | tableCell (header : Bool)
  deriving DecidableEq

inductive InlineTag
  | bold
  | italic
  | code
  | strike
  | superscript
  | subscript
  | anchor
  deriving DecidableEq

inductive VoidTag
  | lineBreak
  | rule
  | image
  deriving DecidableEq

inductive Disposition
  /-- Drop the element and everything inside it. -/
  | skip
  /-- Drop the tag and keep the contents. -/
  | flatten
  | block (tag : BlockTag)
  | inline (tag : InlineTag)
  | void (tag : VoidTag)
  deriving DecidableEq

/-- Elements whose text is no part of an article. -/
def skipped : List String :=
  ["script", "style", "noscript", "iframe", "object", "embed", "applet", "svg", "math",
    "template", "form", "button", "input", "select", "option", "textarea", "canvas", "map",
    "area", "audio", "video", "source", "track", "param", "head", "meta", "link", "title",
    "base"]

/-- Containers that end the paragraph before them. -/
def containers : List String :=
  ["div", "section", "article", "aside", "main", "header", "footer", "nav", "figure",
    "figcaption", "dl", "dt", "dd", "address", "fieldset", "details", "summary", "hgroup",
    "thead", "tbody", "tfoot", "caption", "colgroup", "col"]

/-- The allowlist: a name that is not on it is flattened. -/
def classify (name : String) : Disposition :=
  if name ∈ skipped then .skip
  else if name = "p" then .block .paragraph
  else if name = "h1" then .block (.heading 1)
  else if name = "h2" then .block (.heading 2)
  else if name = "h3" then .block (.heading 3)
  else if name = "h4" then .block (.heading 4)
  else if name = "h5" then .block (.heading 5)
  else if name = "h6" then .block (.heading 6)
  else if name ∈ ["ul", "menu"] then .block (.list false)
  else if name = "ol" then .block (.list true)
  else if name = "li" then .block .listItem
  else if name = "blockquote" then .block .quote
  else if name = "pre" then .block .pre
  else if name = "table" then .block .table
  else if name = "tr" then .block .tableRow
  else if name = "td" then .block (.tableCell false)
  else if name = "th" then .block (.tableCell true)
  else if name ∈ containers then .block .paragraph
  else if name ∈ ["b", "strong"] then .inline .bold
  else if name ∈ ["i", "em", "cite", "dfn", "var"] then .inline .italic
  else if name ∈ ["code", "kbd", "samp", "tt"] then .inline .code
  else if name ∈ ["s", "del", "strike"] then .inline .strike
  else if name = "sup" then .inline .superscript
  else if name = "sub" then .inline .subscript
  else if name = "a" then .inline .anchor
  else if name = "br" then .void .lineBreak
  else if name = "hr" then .void .rule
  else if name = "img" then .void .image
  else .flatten

/-- The elements that never have an end tag. -/
def isVoid (name : String) : Bool :=
  name ∈ ["area", "base", "br", "col", "embed", "hr", "img", "input", "link", "meta", "param",
    "source", "track", "wbr"]

/-- The tag opens an element that has no children. -/
def childless (tag : Tag) : Bool :=
  isVoid (lowercase tag.name) || tag.selfClosing

/-! ## Reading text and attributes -/

def collapseFrom (inSpace : Bool) : List Char → List Char
  | [] => []
  | c :: text =>
      if isWhitespace c then
        if inSpace then collapseFrom true text else ' ' :: collapseFrom true text
      else c :: collapseFrom false text

/-- Every run of white space becomes one space. -/
def collapseWhitespace (text : List Char) : List Char :=
  collapseFrom false text

/-- The longest beginning of whole characters that fits into the budget. -/
def clampToCharBoundary : List Char → ℕ → List Char
  | [], _ => []
  | c :: text, budget =>
      if c.utf8Size ≤ budget then c :: clampToCharBoundary text (budget - c.utf8Size) else []

/-- The spans after trimming at their beginning, emptied spans gone. -/
def trimFirst (trim : List Char → List Char) : List Span → List Span
  | [] => []
  | first :: rest =>
      if trim first.text = [] then trimFirst trim rest
      else { first with text := trim first.text } :: rest

/-- A run of spans without white space around it. -/
def trimSpans (spans : List Span) : List Span :=
  (trimFirst trimEnd (trimFirst trimStart spans).reverse).reverse

/-- A width or height that says something about the shape of a picture. -/
def dimension (tag : Tag) (name : String) : Option ℕ :=
  (attr tag name).bind fun value =>
    (parseU32 (trim value)).filter fun n => 0 < n ∧ n ≤ 20000

def intrinsicSize (tag : Tag) : Option (ℕ × ℕ) :=
  (dimension tag "width").bind fun width =>
    (dimension tag "height").map fun height => (width, height)

/-- The language a class of a code block names. -/
def languageOf (word : List Char) : Option (List Char) :=
  ["language-", "lang-", "highlight-", "brush:"].findSome? fun start =>
    if start.toList <+: word.map Char.toLower ∧ word.length ≠ start.length then
      some ((word.map Char.toLower).drop start.length)
    else none

def classLanguage (tag : Tag) : Option (List Char) :=
  (attr tag "class").bind fun value => (splitWhitespace value).findSome? languageOf

/-! ## The builder -/

/-- An element on the stack, with what to restore when it closes. -/
structure OpenElement where
  name : String
  disposition : Disposition
  savedStyle : Option SpanStyle
  savedLink : Option (Option MediaUrl)

structure ListState where
  ordered : Bool
  counter : ℕ

/-- The kind of block the current spans belong to. -/
inductive Pending
  | paragraph
  | heading (level : ℕ)
  | listItem (ordered : Bool) (number : Option ℕ) (indent : ℕ)

def Pending.kind : Pending → List Span → BlockKind
  | .paragraph, spans => .paragraph spans
  | .heading level, spans => .heading level spans
  | .listItem ordered number indent, spans => .listItem ordered number indent spans

structure TableBuild where
  rows : List (List TableCell)
  currentRow : Option (List TableCell)
  currentHeader : Bool

structure Builder where
  ctx : TransformContext
  blocks : List RenderBlock
  truncated : Option Truncation
  /-- The open elements, innermost first. -/
  opened : List OpenElement
  /-- The depth where a skipped element opened, while inside it. -/
  skipFrom : Option ℕ
  spans : List Span
  style : SpanStyle
  link : Option MediaUrl
  pending : Pending
  quoteDepth : ℕ
  lists : List ListState
  preDepth : ℕ
  preText : List Char
  preLanguage : Option (List Char)
  table : Option TableBuild
  tableDepth : ℕ
  textBytes : ℕ
  /-- `textBytes` when the last block was emitted. -/
  textCommitted : ℕ

/-- Addition in an unsigned 8-bit counter. -/
def saturatingAdd8 (a b : ℕ) : ℕ :=
  min (a + b) 255

/-- Addition in an unsigned 32-bit counter. -/
def saturatingAdd32 (a b : ℕ) : ℕ :=
  min (a + b) 4294967295

namespace TableBuild

/-- Append spans to the last cell; without one they are dropped. -/
def extendCell (table : TableBuild) (spans : List Span) : TableBuild :=
  { table with
    currentRow := table.currentRow.map
      (List.modifyLast fun cell => { cell with spans := cell.spans ++ spans }) }

/-- File the current row. The flag says that the row cap was in the way. -/
def commitRow (table : TableBuild) (maxRows : ℕ) : TableBuild × Bool :=
  match table.currentRow with
  | none => (table, false)
  | some row =>
      if row = [] then ({ table with currentRow := none }, false)
      else if table.rows.length < maxRows then
        ({ table with rows := table.rows ++ [row], currentRow := none }, false)
      else ({ table with currentRow := none }, true)

end TableBuild

namespace Builder

def new (ctx : TransformContext) : Builder where
  ctx := ctx
  blocks := []
  truncated := none
  opened := []
  skipFrom := none
  spans := []
  style := {}
  link := none
  pending := .paragraph
  quoteDepth := 0
  lists := []
  preDepth := 0
  preText := []
  preLanguage := none
  table := none
  tableDepth := 0
  textBytes := 0
  textCommitted := 0

def atCapacity (b : Builder) : Bool :=
  b.ctx.limits.maxBlocks ≤ b.blocks.length || b.ctx.limits.maxTextBytes ≤ b.textBytes

/-- Keep the first cause: it explains the rest. -/
def recordTruncation (b : Builder) (why : Truncation) : Builder :=
  { b with truncated := b.truncated.or (some why) }

def pushBlock (b : Builder) (kind : BlockKind) : Builder :=
  match b.table with
  | some table =>
      -- A block inside a table gives its text to the current cell.
      if trim kind.plainText = [] then b
      else
        { b with table := some (table.extendCell [⟨kind.plainText, {}, none⟩]) }
  | none =>
      if b.ctx.limits.maxBlocks ≤ b.blocks.length then b.recordTruncation .tooManyBlocks
      else
        let full := b.ctx.limits.maxTextBytes ≤ b.textBytes
        let b := if full then b.recordTruncation .tooMuchText else b
        -- The block that reaches the text cap is still emitted.
        if full ∧ b.textBytes = b.textCommitted then b
        else
          { b with
            textCommitted := b.textBytes
            blocks := b.blocks ++ [⟨kind, b.quoteDepth⟩] }

def listIndent (b : Builder) : ℕ :=
  min (min (b.lists.length - 1) 255) b.ctx.limits.maxListIndent

/-- What a fresh block is, given the lists around it. -/
def defaultPending (b : Builder) : Pending :=
  match b.lists.getLast? with
  | none => .paragraph
  | some list => .listItem list.ordered none b.listIndent

/-- Emit the current spans as a block, or into the current cell. -/
def flush (b : Builder) : Builder :=
  let spans := trimSpans b.spans
  let emptied := { b with spans := [] }
  let emitted :=
    if spans = [] then emptied
    else
      match b.table with
      | some table => { emptied with table := some (table.extendCell spans) }
      | none => emptied.pushBlock (b.pending.kind spans)
  { emitted with pending := emitted.defaultPending }

/-- What is left of the text budget. -/
def budget (b : Builder) : ℕ :=
  b.ctx.limits.maxTextBytes - b.textBytes

/-- The text so far ends in a space, or there is none. -/
def trailingSpace (b : Builder) : Bool :=
  match b.spans.getLast? with
  | some prev => prev.text.getLast? = some ' '
  | none => true

/-- The text with its white space collapsed, also across the tokens before. -/
def collapsed (b : Builder) (text : List Char) : List Char :=
  let collapsed := collapseWhitespace text
  if b.trailingSpace ∧ collapsed.head? = some ' ' then trimStart collapsed else collapsed

/-- Add to the current spans, merging with the last one where it looks alike. -/
def appendSpan (b : Builder) (text : List Char) : List Span :=
  match b.spans.getLast? with
  | some prev =>
      if prev.style = b.style ∧ prev.link = b.link then
        b.spans.dropLast ++ [{ prev with text := prev.text ++ text }]
      else b.spans ++ [⟨text, b.style, b.link⟩]
  | none => b.spans ++ [⟨text, b.style, b.link⟩]

def pushText (b : Builder) (text : List Char) : Builder :=
  if b.skipFrom.isSome then b
  else if 0 < b.preDepth then
    if b.budget = 0 then b.recordTruncation .tooMuchText
    else
      let taken := clampToCharBoundary text b.budget
      { b with preText := b.preText ++ taken, textBytes := b.textBytes + byteLength taken }
  else if b.collapsed text = [] then b
  else if b.budget = 0 then b.recordTruncation .tooMuchText
  else
    let taken := clampToCharBoundary (b.collapsed text) b.budget
    { b with spans := b.appendSpan taken, textBytes := b.textBytes + byteLength taken }

/-- The table is complete. A last row beyond the cap is left out. -/
def closeTable (b : Builder) : Builder :=
  match b.table with
  | none => b
  | some table =>
      let rows := (table.commitRow b.ctx.limits.maxTableRows).1.rows
      let b := { b with table := none }
      if rows = [] then b else b.pushBlock (.table rows)

/-- File the current row of the table, recording a row that is cut. -/
def commitRow (b : Builder) : Builder :=
  match b.table with
  | none => b
  | some table =>
      let (table, hitCap) := table.commitRow b.ctx.limits.maxTableRows
      let b := { b with table := some table }
      if hitCap then b.recordTruncation .tooManyBlocks else b

/-- Begin a cell of the current row. -/
def startCell (b : Builder) (header : Bool) : Builder :=
  match b.table with
  | none => b
  | some table =>
      let row := table.currentRow.getD []
      if row.length < b.ctx.limits.maxTableCellsPerRow then
        { b with
          table := some { table with currentRow := some (row ++ [⟨[], header⟩]),
                                     currentHeader := header } }
      else
        { b with
          table := some { table with currentRow := some row, currentHeader := header }
        }.recordTruncation .tooManyBlocks

def startBlock (b : Builder) (block : BlockTag) (tag : Tag) : Builder :=
  let b := b.flush
  match block with
  | .paragraph => b
  | .heading level => { b with pending := .heading level }
  | .list ordered =>
      if b.lists.length < b.ctx.limits.maxListIndent then
        { b with lists := b.lists ++ [⟨ordered, 0⟩] }
      else b
  | .listItem =>
      match b.lists.getLast? with
      | some list =>
          let counter := saturatingAdd32 list.counter 1
          { b with
            lists := b.lists.dropLast ++ [{ list with counter := counter }]
            pending := .listItem list.ordered (if list.ordered then some counter else none)
              b.listIndent }
      | none => { b with pending := .listItem false none b.listIndent }
  | .quote =>
      { b with quoteDepth := min (saturatingAdd8 b.quoteDepth 1) b.ctx.limits.maxQuoteDepth }
  | .pre =>
      let b := { b with preDepth := saturatingAdd32 b.preDepth 1 }
      if b.preDepth = 1 then { b with preText := [], preLanguage := classLanguage tag } else b
  | .table =>
      { b with
        tableDepth := saturatingAdd32 b.tableDepth 1
        table := some (b.table.getD ⟨[], none, false⟩) }
  | .tableRow =>
      let b := b.commitRow
      { b with table := b.table.map fun table => { table with currentRow := some [] } }
  | .tableCell header => b.startCell header

/-- An attribute as an address of the web. -/
def resolve [UrlLibrary] (b : Builder) (raw : List Char) : Option MediaUrl :=
  match b.ctx.baseUrl with
  | some base => MediaUrl.parseRelative (String.ofList raw) base
  | none => MediaUrl.parse (String.ofList raw)

section Tokens

variable [UrlLibrary]

/-- The decision is made here, before the address reaches anything that could
load it. -/
def image (b : Builder) (tag : Tag) : Builder :=
  let emit (src : MediaUrl) (fetch : MediaFetch) : Builder :=
    b.flush.pushBlock (.image src ((attr tag "alt").getD [])
      ((attr tag "title").filter fun t => t ≠ []) fetch (intrinsicSize tag) b.flush.link)
  match (nonEmptyAttr tag "src").bind b.resolve with
  | none => b
  | some src =>
      match b.ctx.media.decideWithConsent src [] with
      | .fetch src => emit src .allowed
      | .needsConsent src => emit src .needsConsent
      | .drop => b

def voidElement (b : Builder) (void : VoidTag) (tag : Tag) : Builder :=
  match void with
  | .lineBreak =>
      if 0 < b.preDepth then { b with preText := b.preText ++ ['\n'] }
      else if b.spans = [] then b
      else { b with spans := b.spans ++ [⟨['\n'], b.style, b.link⟩] }
  | .rule => b.flush.pushBlock .rule
  | .image => b.image tag

/-- Inside a skipped element only the stack is kept. -/
def startSkipped (b : Builder) (tag : Tag) : Builder :=
  if !childless tag && b.opened.length < b.ctx.limits.maxDepth then
    { b with opened := ⟨lowercase tag.name, .skip, none, none⟩ :: b.opened }
  else b

/-- A skipped element opens, whatever the depth. -/
def startSkip (b : Builder) (tag : Tag) : Builder :=
  let b := b.flush
  if childless tag then b
  else
    { b with
      skipFrom := some b.opened.length
      opened := ⟨lowercase tag.name, .skip, none, none⟩ :: b.opened }

def applyInline (b : Builder) (inline : InlineTag) (tag : Tag) : Builder :=
  match inline with
  | .bold => { b with style := { b.style with bold := true } }
  | .italic => { b with style := { b.style with italic := true } }
  | .code => { b with style := { b.style with code := true } }
  | .strike => { b with style := { b.style with strike := true } }
  | .superscript => { b with style := { b.style with superscript := true } }
  | .subscript => { b with style := { b.style with subscript := true } }
  | .anchor => { b with link := (nonEmptyAttr tag "href").bind b.resolve }

/-- Put the element on the stack. -/
def openElement (b : Builder) (element : OpenElement) : Builder :=
  { b with opened := element :: b.opened }

/-- An element that is not skipped opens below the depth cap. -/
def startElement (b : Builder) (tag : Tag) : Builder :=
  let name := lowercase tag.name
  match classify name with
  | .void void => b.voidElement void tag
  | .inline inline =>
      -- A childless inline element styles nothing.
      if childless tag then b
      else
        (b.applyInline inline tag).openElement
          ⟨name, .inline inline, some b.style, if inline = .anchor then some b.link else none⟩
  | .block block =>
      let b := b.startBlock block tag
      if childless tag then b else b.openElement ⟨name, .block block, none, none⟩
  | disposition => if childless tag then b else b.openElement ⟨name, disposition, none, none⟩

def startTag (b : Builder) (tag : Tag) : Builder :=
  if b.skipFrom.isSome then b.startSkipped tag
  -- Before the depth cap, or a script beyond it would be shown as text.
  else if classify (lowercase tag.name) = .skip then b.startSkip tag
  else if b.ctx.limits.maxDepth ≤ b.opened.length then b.recordTruncation .tooDeep
  else b.startElement tag

end Tokens

/-- The code block is complete once the outermost `pre` closes. -/
def closePre (b : Builder) : Builder :=
  let b := { b with preDepth := b.preDepth - 1 }
  if b.preDepth = 0 then
    let text := (b.preText.reverse.dropWhile (· = '\n')).reverse.dropWhile (· = '\n')
    let emptied := { b with preText := [], preLanguage := none }
    let emitted := if text = [] then emptied else emptied.pushBlock (.code b.preLanguage text)
    { emitted with spans := [] }
  else b

def closeBlock (b : Builder) (block : BlockTag) : Builder :=
  match block with
  | .heading _ => b.flush
  | .paragraph => b.flush
  | .listItem => b.flush
  | .list _ => { b.flush with lists := b.flush.lists.dropLast }
  | .quote => { b.flush with quoteDepth := b.flush.quoteDepth - 1 }
  | .pre => b.closePre
  | .table =>
      let b := { b.flush with tableDepth := b.flush.tableDepth - 1 }
      if b.tableDepth = 0 then b.closeTable else b
  | .tableRow => b.flush.commitRow
  | .tableCell _ => b.flush

/-- The style and the link go back to what they were before the element. -/
def restore (b : Builder) (element : OpenElement) : Builder :=
  { b with
    style := element.savedStyle.getD b.style
    link := element.savedLink.getD b.link }

def closeElement (b : Builder) (element : OpenElement) : Builder :=
  if b.skipFrom.isSome then b
  else
    match element.disposition with
    | .block block => (b.restore element).closeBlock block
    | _ => b.restore element

/-- Skipping ends once the stack is back to where it began. -/
def leaveSkip (b : Builder) : Builder :=
  match b.skipFrom with
  | some depth => if b.opened.length ≤ depth then { b with skipFrom := none } else b
  | none => b

/-- Close open elements, innermost first, until one of the name is closed. -/
def closeDown (name : String) : List OpenElement → Builder → Builder
  | [], b => b
  | element :: rest, b =>
      let b := (closeElement { b with opened := rest } element).leaveSkip
      if element.name = name then b else closeDown name rest b

/-- An end tag that matches no open element is ignored. -/
def endTag (b : Builder) (tag : Tag) : Builder :=
  if b.opened.any fun element => element.name = lowercase tag.name then
    closeDown (lowercase tag.name) b.opened b
  else b

/-- Every cap is spent: the rest of the article is not looked at. -/
def stopped (b : Builder) : Bool :=
  b.atCapacity && b.truncated.isSome

variable [UrlLibrary]

/-- What a token does while the article has not ended. -/
def handle (b : Builder) : Token → Builder
  | .startTag tag => b.startTag tag
  | .endTag tag => b.endTag tag
  | .characters text => b.pushText text
  | .ignored => b

def processToken (b : Builder) (token : Token) : Builder :=
  if b.stopped then b else b.handle token

def run (b : Builder) (tokens : List Token) : Builder :=
  tokens.foldl processToken b

def finish (b : Builder) : Document :=
  let b := b.flush.closeTable
  ⟨b.blocks, b.truncated⟩

end Builder

/-- The document of a stream of tokens, cut before it was read or not. -/
def transform [UrlLibrary] (ctx : TransformContext) (preTruncated : Option Truncation)
    (tokens : List Token) : Document :=
  (({ Builder.new ctx with truncated := preTruncated }).run tokens).finish

end Vuo.Content
