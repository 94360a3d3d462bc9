import Mathlib.Data.List.Dedup
import Mathlib.Data.List.Sort
import Vuo.Model.Domain
import Vuo.Model.Error

/-!
# Wire types and their validation

What the server's answers decode to, and the conversion of each item into the
domain type it stands for. An item that does not convert costs only itself.
-/

namespace Vuo

namespace Wire

structure Enclosure where
  id : ℤ
  url : String
  mimeType : String
  size : ℤ

structure Entry where
  id : ℤ
  feedId : ℤ
  status : String
  title : String
  url : String
  commentsUrl : String
  publishedAt : Option DateTime
  createdAt : Option DateTime
  changedAt : Option DateTime
  content : String
  author : String
  starred : Bool
  readingTime : ℤ
  enclosures : List Enclosure
  tags : List String

structure EntriesResponse where
  entries : List Entry

structure EntryIdsResponse where
  total : ℤ
  entryIds : List ℤ

structure Category where
  id : ℤ
  title : String
  hideGlobally : Bool

structure FeedIconRef where
  iconId : ℤ

structure Feed where
  id : ℤ
  feedUrl : String
  siteUrl : String
  title : String
  checkedAt : Option DateTime
  parsingErrorMessage : String
  parsingErrorCount : ℤ
  crawler : Bool
  disabled : Bool
  hideGlobally : Bool
  category : Option Category
  icon : Option FeedIconRef

structure Icon where
  id : ℤ
  mimeType : String
  data : String

structure FeedCounters where
  reads : List (String × ℤ)
  unreads : List (String × ℤ)

structure VersionResponse where
  version : String

/-- The body of `PUT /v1/entries`. -/
structure EntriesUpdateRequest where
  entryIds : List ℤ
  status : Option String
  starred : Option Bool
  deriving DecidableEq

end Wire

/-! ## Conversion -/

namespace Convert

section Urls

variable [UrlLibrary]

def lenientUrl (raw : String) : Option MediaUrl :=
  if trim raw.toList = [] then none else MediaUrl.parse raw

def enclosure (w : Wire.Enclosure) (entryId : EntryId) : Enclosure where
  id := w.id
  entryId := entryId
  url := lenientUrl w.url
  mimeType := w.mimeType
  size := max w.size 0

/-- The read state a wire status names. -/
def status (w : Wire.Entry) : Except Error EntryStatus :=
  if w.status = "unread" then .ok .unread
  else if w.status = "read" then .ok .read
  else if w.status = "removed" then
    .error (.item "entry" (some w.id) "server reports it as removed")
  else
    .error (.item "entry" (some w.id) ("unrecognised status " ++ debugStr w.status))

/-- Only the status can cost the entry. -/
def entry (w : Wire.Entry) : Except Error Entry := do
  let status ← status w
  return {
    id := w.id
    feedId := w.feedId
    status := status
    starred := w.starred
    title := w.title
    url := lenientUrl w.url
    commentsUrl := lenientUrl w.commentsUrl
    author := w.author
    content := w.content
    publishedAt := w.publishedAt
    createdAt := w.createdAt
    changedAt := w.changedAt
    readingTime := max w.readingTime 0
    tags := w.tags
    enclosures := w.enclosures.map fun e => enclosure e w.id }

def feed (w : Wire.Feed) : Except Error Feed :=
  .ok {
    id := w.id
    categoryId := w.category.map fun c => c.id
    title := w.title
    siteUrl := lenientUrl w.siteUrl
    feedUrl := lenientUrl w.feedUrl
    iconId := (w.icon.map fun i => i.iconId).filter fun id => id ≠ 0
    checkedAt := w.checkedAt
    parsingErrorMessage := w.parsingErrorMessage
    parsingErrorCount := max w.parsingErrorCount 0
    disabled := w.disabled
    hideGlobally := w.hideGlobally
    crawler := w.crawler }

end Urls

def category (w : Wire.Category) : Except Error Category :=
  .ok { id := w.id, title := w.title, hideGlobally := w.hideGlobally }

/-- What a page of entries decodes into. -/
structure Page where
  valid : List Entry
  removed : List EntryId
  rejected : List Error

/-- Whether a row reports its entry removed. -/
def isRemoved (w : Wire.Entry) : Bool :=
  w.status = "removed"

/-- The ids a page reports removed, ascending and without repetition. -/
def removedIds (page : List Wire.Entry) : List EntryId :=
  (((page.filter isRemoved).map fun w => w.id).insertionSort (· ≤ ·)).dedup

theorem mem_removedIds {page : List Wire.Entry} {id : EntryId} :
    id ∈ removedIds page ↔ ∃ w ∈ page, w.status = "removed" ∧ w.id = id := by
  simp [removedIds, isRemoved, and_assoc]

variable [UrlLibrary]

/-- A page of entries: the usable, the deleted and the bad. An id that one row
reports removed is removed, whatever the other rows say of it. -/
def entries (page : List Wire.Entry) : Page :=
  let removed := removedIds page
  let kept := page.filter fun w => !removed.contains w.id
  { valid := kept.filterMap fun w => (entry w).toOption
    removed := removed
    rejected := kept.filterMap fun w =>
      match entry w with
      | .ok _ => none
      | .error e => some e }

/-! ### What conversion keeps -/

theorem entry_eq_ok {w : Wire.Entry} {e : Entry} (h : entry w = .ok e) :
    e.id = w.id ∧ e.starred = w.starred ∧ e.status.asApiStr = w.status := by
  unfold entry status at h
  split_ifs at h with hu hr hd <;> cases h
  · exact ⟨rfl, rfl, hu.symm⟩
  · exact ⟨rfl, rfl, hr.symm⟩

theorem mem_valid {page : List Wire.Entry} {e : Entry} :
    e ∈ (entries page).valid ↔
      ∃ w ∈ page, w.id ∉ removedIds page ∧ entry w = .ok e := by
  simp only [entries, List.mem_filterMap, List.mem_filter]
  constructor
  · rintro ⟨w, ⟨hw, hkept⟩, he⟩
    refine ⟨w, hw, by simpa using hkept, ?_⟩
    cases hentry : entry w with
    | error err => simp [hentry, Except.toOption] at he
    | ok e' => simp_all [Except.toOption]
  · rintro ⟨w, hw, hkept, he⟩
    exact ⟨w, ⟨hw, by simpa using hkept⟩, by simp [he, Except.toOption]⟩

/-- Nothing a page carries is both usable and deleted. -/
theorem notMem_removed_of_mem_valid {page : List Wire.Entry} {e : Entry}
    (h : e ∈ (entries page).valid) : e.id ∉ (entries page).removed := by
  obtain ⟨w, -, hkept, he⟩ := mem_valid.1 h
  rw [(entry_eq_ok he).1]
  exact hkept

end Convert

end Vuo
