import Vuo.Foundation.Intervals
import Vuo.Model.Content.Block
import Vuo.Model.Search

/-!
# Marks and excerpts

Where the terms of a query are in a text, the text with its terms bold, and a
few words around the first of them. Positions are byte offsets.
-/

namespace Vuo.Search

open Foundation
open Content (byteLength escape)

/-! ## Slices -/

/-- `str::char_indices` -/
def charIndicesFrom (start : ℕ) : List Char → List (ℕ × Char)
  | [] => []
  | c :: s => (start, c) :: charIndicesFrom (start + c.utf8Size) s

def charIndices (s : List Char) : List (ℕ × Char) :=
  charIndicesFrom 0 s

/-- What is left after the first `n` bytes, when they end between two
characters. -/
def dropBytes : List Char → ℕ → Option (List Char)
  | s, 0 => some s
  | [], _ + 1 => none
  | c :: s, n + 1 => if c.utf8Size ≤ n + 1 then dropBytes s (n + 1 - c.utf8Size) else none

/-- `str::get` with a range. -/
def slice (s : List Char) (first last : ℕ) : Option (List Char) :=
  (dropBytes s first).bind fun rest =>
    if first ≤ last then takeBytes rest (last - first) else none

section Marks

variable [Unicode]

/-! ## Where the terms are -/

/-- For every byte of the folded text, where its character begins in the text;
and the end of the text. -/
def origin (text : List Char) : List ℕ :=
  ((charIndices text).flatMap fun p =>
    List.replicate (byteLength (Unicode.toLower p.2)) p.1) ++ [byteLength text]

/-- Where the term begins in a text that is itself at `start`. A search goes on
with the next character after a hit, so that hits may overlap. -/
def hits (term : List Char) (start : ℕ) : List Char → List ℕ
  | [] => if term = [] then [start] else []
  | c :: rest =>
      (if term <+: c :: rest then [start] else []) ++ hits term (start + c.utf8Size) rest

/-- A hit in the folded text, as a range of the text. A hit that ends inside the
folding of a character stops short of it. -/
def original (origin : List ℕ) (term : List Char) (start : ℕ) : Option (ℕ × ℕ) :=
  origin[start]?.bind fun a => origin[start + byteLength term]?.bind fun b =>
    if a < b then some (a, b) else none

namespace SearchQuery

/-- The ranges of the terms, sorted, overlapping and touching ones merged. -/
def spans (q : SearchQuery) (text : List Char) : List (ℕ × ℕ) :=
  let folded := fold text
  let origin := origin text
  if origin.length ≠ byteLength folded + 1 then []
  else
    let found := q.terms.flatMap fun term =>
      (hits term 0 folded).filterMap (original origin term)
    mergeSpans (found.insertionSort spanLe)

/-! ## Marked text -/

/-- One marked range: what was written before, and how far the text is copied. -/
def mark (text : List Char) (state : List Char × ℕ) (span : ℕ × ℕ) : List Char × ℕ :=
  (state.1 ++ escape ((slice text state.2 span.1).getD []) ++ ['<', 'b', '>'] ++
    escape ((slice text span.1 span.2).getD []) ++ ['<', '/', 'b', '>'], span.2)

/-- The text as markup, the terms bold. -/
def highlight (q : SearchQuery) (text : List Char) : List Char :=
  let marked := (q.spans text).foldl (mark text) ([], 0)
  marked.1 ++ escape ((dropBytes text marked.2).getD [])

/-! ## Excerpts -/

def excerptLead : ℕ := 40

def excerptLength : ℕ := 200

def ellipsis : Char := Char.ofNat 0x2026

/-- The text with one space for each stretch of white space inside it. -/
def collapse (text : List Char) : List Char :=
  [' '].intercalate (splitWhitespace text)

def isSpaceAt (chars : List (ℕ × Char)) (i : ℕ) : Bool :=
  (chars[i]?.map Prod.snd) = some ' '

/-- Where the excerpt begins: a little before the match, at the beginning of a
word, and never past the match. -/
def excerptFrom (chars : List (ℕ × Char)) (at' : ℕ) : ℕ :=
  let first := at' - excerptLead
  if 0 < first then
    ((List.range' first (at' - first)).find? fun i => isSpaceAt chars (i - 1)).getD at'
  else first

/-- Where it ends: at the end of a word, unless that loses the match. -/
def excerptTo (chars : List (ℕ × Char)) (at' first : ℕ) : ℕ :=
  let last := min (first + excerptLength) chars.length
  if last < chars.length then
    ((List.range' (at' + 1) (last - (at' + 1))).reverse.find? (isSpaceAt chars)).getD last
  else last

/-- The text around the first match, none when no term is in it. -/
def excerpt (q : SearchQuery) (contentHtml : List Char) : Option (List Char) :=
  let text := collapse (htmlText contentHtml)
  (q.spans text).head?.bind fun span =>
    let chars := charIndices text
    (chars.findIdx? fun p => p.1 = span.1).bind fun at' =>
      let first := excerptFrom chars at'
      let last := excerptTo chars at' first
      let byte (i : ℕ) := (chars[i]?.map Prod.fst).getD (byteLength text)
      (slice text (byte first) (byte last)).map fun piece =>
        (if 0 < first then [ellipsis] else []) ++ trim piece ++
          if last < chars.length then [ellipsis] else []

end SearchQuery

end Marks

end Vuo.Search
