import Vuo.Model.Url

/-!
# Domain types

Validated entries, feeds, categories and icons, and the server's version.
-/

namespace Vuo

/-! ## Identifiers

The server assigns them; nothing is assumed of them but their order. -/

abbrev EntryId := ℤ

abbrev FeedId := ℤ

abbrev CategoryId := ℤ

abbrev IconId := ℤ

/-! ## Articles and feeds -/

inductive EntryStatus
  | unread
  | read
  deriving DecidableEq

namespace EntryStatus

def asApiStr : EntryStatus → String
  | unread => "unread"
  | read => "read"

theorem asApiStr_injective : Function.Injective asApiStr := by
  intro s t h
  cases s <;> cases t <;> first | rfl | simp [asApiStr] at h

end EntryStatus

structure Enclosure where
  id : ℤ
  entryId : EntryId
  url : Option MediaUrl
  mimeType : String
  size : ℤ
  deriving DecidableEq

structure Entry where
  id : EntryId
  feedId : FeedId
  status : EntryStatus
  starred : Bool
  title : String
  url : Option MediaUrl
  commentsUrl : Option MediaUrl
  author : String
  content : String
  publishedAt : Option DateTime
  createdAt : Option DateTime
  changedAt : Option DateTime
  readingTime : ℤ
  tags : List String
  enclosures : List Enclosure

structure Feed where
  id : FeedId
  categoryId : Option CategoryId
  title : String
  siteUrl : Option MediaUrl
  feedUrl : Option MediaUrl
  iconId : Option IconId
  checkedAt : Option DateTime
  parsingErrorMessage : String
  parsingErrorCount : ℤ
  disabled : Bool
  hideGlobally : Bool
  crawler : Bool

structure Category where
  id : CategoryId
  title : String
  hideGlobally : Bool

inductive ImageFormat
  | png
  | jpeg
  | gif
  | webP
  | bmp
  | ico
  | svg
  deriving DecidableEq

namespace ImageFormat

def mimeType : ImageFormat → String
  | png => "image/png"
  | jpeg => "image/jpeg"
  | gif => "image/gif"
  | webP => "image/webp"
  | bmp => "image/bmp"
  | ico => "image/x-icon"
  | svg => "image/svg+xml"

end ImageFormat

structure Icon where
  id : IconId
  format : ImageFormat
  bytes : List UInt8
  dimensions : Option (ℕ × ℕ)

/-! ## The server's version -/

structure ServerVersion where
  raw : String
  major : ℕ
  minor : ℕ
  patch : ℕ
  deriving DecidableEq

namespace ServerVersion

/-- A version string, with suffixes and a leading `v` tolerated. -/
def parse (raw : String) : Option ServerVersion :=
  let trimmed := (trim raw.toList).dropWhile fun c => c = 'v'
  let core := trimmed.takeWhile fun c => !(c = '-' || c = '+' || c = ' ')
  let parts := core.splitOn '.'
  let part (i : ℕ) : ℕ := (parseU32 (parts[i]?.getD ['0'])).getD 0
  (parts.head?.bind parseU32).map fun major =>
    { raw := String.ofList (trim raw.toList)
      major := major
      minor := part 1
      patch := part 2 }

def atLeast (v : ServerVersion) (major minor patch : ℕ) : Bool :=
  major < v.major ||
    (v.major = major && (minor < v.minor ||
      (v.minor = minor && patch ≤ v.patch)))

def hasEntryIdsEndpoint (v : ServerVersion) : Bool :=
  v.atLeast 2 3 2

def enforcesEntryLimitCap (v : ServerVersion) : Bool :=
  v.atLeast 2 3 0

def supportsEntryStateWrites (v : ServerVersion) : Bool :=
  v.atLeast 2 3 2

/-- What a server that will not say is taken for: the oldest supported one. -/
def default : ServerVersion where
  raw := "unknown"
  major := 2
  minor := 0
  patch := 0

example : (parse " v2.3.2-beta.1 ").map (fun v => (v.major, v.minor, v.patch)) =
    some (2, 3, 2) := by
  decide

end ServerVersion

end Vuo
