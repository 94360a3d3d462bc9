import Mathlib.Data.List.Infix
import Vuo.Model.Primitives

/-!
# Searching

The search looks at what a reader sees of an article: its text without tags,
references decoded. Every term has to be in the title or in that text, its case
aside.
-/

namespace Vuo.Search

/-- Elements whose tags do not end a word. -/
def inlineNames : List (List Char) :=
  ["a", "abbr", "b", "bdi", "bdo", "cite", "code", "data", "dfn", "em", "i", "kbd", "mark", "q",
    "s", "samp", "small", "span", "strike", "strong", "sub", "sup", "time", "u", "var",
    "wbr"].map String.toList

/-- The tag text, between the angle brackets, names an inline element. -/
def isInline (tag : List Char) : Bool :=
  let tag := match tag with
    | '/' :: rest => rest
    | _ => tag
  (tag.takeWhile Char.isAlphanum).map Char.toLower ∈ inlineNames

def hexDigit (c : Char) : Option ℕ :=
  if '0' ≤ c ∧ c ≤ '9' then some (c.toNat - 48)
  else if 'a' ≤ c ∧ c ≤ 'f' then some (c.toNat - 87)
  else if 'A' ≤ c ∧ c ≤ 'F' then some (c.toNat - 55)
  else none

/-- `u32::from_str_radix` with radix 16. -/
def parseHex (s : List Char) : Option ℕ :=
  let digits := match s with
    | '+' :: rest => rest
    | _ => s
  if digits = [] then none
  else
    (digits.foldl (fun acc c => acc.bind fun n => (hexDigit c).map fun d => 16 * n + d)
      (some 0)).filter fun n => n < 4294967296

/-- `char::from_u32`. -/
def fromU32 (code : ℕ) : Option Char :=
  if code.isValidChar then some (Char.ofNat code) else none

/-- The character a reference names. -/
def entity (name : List Char) : Option Char :=
  match name with
  | '#' :: num =>
      (match num with
        | 'x' :: hex => parseHex hex
        | 'X' :: hex => parseHex hex
        | _ => parseU32 num).bind fromU32
  | _ =>
      if name = ['a', 'm', 'p'] then some '&'
      else if name = ['l', 't'] then some '<'
      else if name = ['g', 't'] then some '>'
      else if name = ['q', 'u', 'o', 't'] then some '"'
      else if name = ['a', 'p', 'o', 's'] then some '\''
      else if name = ['n', 'b', 's', 'p'] then some ' '
      else none

/-- The first `n` bytes, when they end between two characters. -/
def takeBytes : List Char → ℕ → Option (List Char)
  | _, 0 => some []
  | [], _ + 1 => none
  | c :: s, n + 1 =>
      if c.utf8Size ≤ n + 1 then (takeBytes s (n + 1 - c.utf8Size)).map (c :: ·) else none

/-- Where a reference has to end. -/
def window (s : List Char) : List Char :=
  (takeBytes s 11).getD s

/-- Decode the reference at the beginning, with the number of characters used. -/
def decodeEntity (s : List Char) : Option (Char × ℕ) :=
  if ';' ∈ window s then
    let name := (window s).takeWhile (· ≠ ';')
    (entity name).map fun c => (c, name.length + 1)
  else none

/-- The text of what follows the next `skip` characters. -/
def htmlTextFrom : ℕ → List Char → List Char
  | _, [] => []
  | skip + 1, _ :: rest => htmlTextFrom skip rest
  | 0, c :: rest =>
      if c = '<' then
        -- A tag without an end ends the text.
        if '>' ∈ rest then
          let tag := rest.takeWhile (· ≠ '>')
          (if isInline tag then [] else [' ']) ++ htmlTextFrom (tag.length + 1) rest
        else []
      else if c = '&' then
        match decodeEntity rest with
        | some (decoded, used) => decoded :: htmlTextFrom used rest
        | none => '&' :: htmlTextFrom 0 rest
      else c :: htmlTextFrom 0 rest

/-- The text of a fragment. -/
def htmlText (html : List Char) : List Char :=
  htmlTextFrom 0 html

/-! ## Case -/

/-- The tables of Unicode that `str::to_lowercase` reads. -/
class Unicode where
  toLower : Char → List Char
  cased : Char → Bool
  caseIgnorable : Char → Bool

section Fold

variable [Unicode]

def capitalSigma : Char :=
  Char.ofNat 0x3a3

def caseIgnorableThenCased (s : List Char) : Bool :=
  ((s.dropWhile Unicode.caseIgnorable).head?.map Unicode.cased).getD false

/-- A capital sigma between `before`, read backwards, and `rest`: another letter
at the end of a word than inside it. -/
def mapUppercaseSigma (before rest : List Char) : Char :=
  if caseIgnorableThenCased before && !caseIgnorableThenCased rest then Char.ofNat 0x3c2
  else Char.ofNat 0x3c3

def toLowercaseFrom (before : List Char) : List Char → List Char
  | [] => []
  | c :: rest =>
      (if c = capitalSigma then [mapUppercaseSigma before rest] else Unicode.toLower c) ++
        toLowercaseFrom (c :: before) rest

/-- `str::to_lowercase` -/
def fold (s : List Char) : List Char :=
  toLowercaseFrom [] s

/-- `str::make_ascii_lowercase` -/
def asciiLowercase (s : List Char) : List Char :=
  s.map Char.toLower

def isAscii (s : List Char) : Bool :=
  s.all fun c => c.toNat < 128

def contains (text term : List Char) : Bool :=
  term <:+: text

/-! ## Queries -/

/-- Where a result matched: the group it is listed in. -/
inductive MatchKind
  | title
  | feed
  | text
  deriving DecidableEq

namespace MatchKind

def toSql : MatchKind → ℤ
  | title => 1
  | feed => 2
  | text => 3

/-- Never a feed: those are found another way. -/
def fromSql (value : ℤ) : Option MatchKind :=
  if value = 1 then some title
  else if value = 3 then some text
  else none

end MatchKind

/-- The folded terms of a query, at least one. -/
structure SearchQuery where
  terms : List (List Char)
  terms_ne : terms ≠ []

namespace SearchQuery

def parse (raw : List Char) : Option SearchQuery :=
  let terms := (splitWhitespace raw).map fold
  if h : terms = [] then none else some ⟨terms, h⟩

/-- The body is looked at only for the terms that are not in the title. -/
def classify (q : SearchQuery) (title contentHtml : List Char) : Option MatchKind :=
  let title := fold title
  let rest := q.terms.filter fun t => !contains title t
  let body := htmlText contentHtml
  let body := if rest.all isAscii then asciiLowercase body else fold body
  if rest ≠ [] ∧ rest.all (contains body) = false then none
  else if rest.length < q.terms.length then some .title
  else some .text

end SearchQuery

/-- The function the statements call: the kind of match as a number. -/
def sqlMatch (raw title content : List Char) : ℤ :=
  match SearchQuery.parse raw with
  | none => 0
  | some query => ((query.classify title content).map MatchKind.toSql).getD 0

end Fold

end Vuo.Search
