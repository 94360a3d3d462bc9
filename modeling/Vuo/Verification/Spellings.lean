import Vuo.Foundation.Skew
import Vuo.Model.Decoding

/-!
# Servers of other versions

Two servers may spell the same answer differently: members in another order,
members this client has no field for, a default written out or left out, `null`
for an empty list, the zero time for no time. What a request is answered with
is the same for the client, however deep in the answer the difference is.
-/

namespace Vuo

open Foundation
open Decoder (Slot Blind Apart RecordAlike ListAlike orDefault nullable int bool text list record)
open Decoder.Field (Reads of skip reads_of reads_skip commute_of commute_skip commute_of_skip)

namespace Wire

/-! ## What may be written -/

section Slots

def number (name : String) : Slot :=
  .scalar name (.num (some 0))

def flag (name : String) : Slot :=
  .scalar name (.bool false)

def word (name : String) : Slot :=
  .scalar name (.str (some ""))

variable [Timestamps]

/-- The ways to write that there is no time. -/
inductive NoTime : Json → Prop
  | null : NoTime .null
  | zero {s : String} {t : DateTime} (h : Timestamps.parse s = some t) (hzero : isZeroTime t) :
      NoTime (.str (some s))

def time (name : String) : Slot where
  name := name
  absent := NoTime
  alike j j' := j = j'

def listed (name : String) (alike : Json → Json → Prop) : Slot :=
  .orZero name (· = .arr []) (ListAlike alike)

def mapped (name : String) : Slot :=
  .orZero name (· = .obj []) (· = ·)

end Slots

def Category.slots : List Slot :=
  [number "id", number "user_id", word "title", flag "hide_globally",
    .orNull "feed_count" (· = ·), .orNull "total_unread" (· = ·)]

def FeedIconRef.slots : List Slot :=
  [number "feed_id", number "icon_id", word "external_icon_id"]

def Enclosure.slots : List Slot :=
  [number "id", number "user_id", number "entry_id", word "url", word "mime_type",
    number "size", number "media_progression"]

def EntryIdsResponse.slots : List Slot :=
  [number "total", listed "entry_ids" (· = ·)]

def Icon.slots : List Slot :=
  [number "id", word "mime_type", word "data"]

def FeedCounters.slots : List Slot :=
  [mapped "reads", mapped "unreads"]

def VersionResponse.slots : List Slot :=
  [word "version", word "commit", word "build_date", word "go_version", word "compiler",
    word "arch", word "os"]

def User.slots : List Slot :=
  [number "id", word "username", flag "is_admin", word "theme", word "language",
    word "timezone", word "entry_sorting_field", word "entry_sorting_direction"]

def EntryContentResponse.slots : List Slot :=
  [word "content", number "reading_time"]

def ApiError.slots : List Slot :=
  [word "error_message"]

def CreateFeedResponse.slots : List Slot :=
  [number "feed_id"]

section Slots

variable [Timestamps]

def Feed.slots : List Slot :=
  [number "id", number "user_id", word "feed_url", word "site_url", word "title",
    word "description", word "language", time "checked_at", time "next_check_at",
    word "etag_header", word "last_modified_header", word "parsing_error_message",
    number "parsing_error_count", word "scraper_rules", word "rewrite_rules", flag "crawler",
    word "blocklist_rules", word "keeplist_rules", word "urlrewrite_rules", word "user_agent",
    word "cookie", word "username", word "password", flag "disabled", flag "no_media_player",
    flag "ignore_http_cache", flag "allow_self_signed_certificates", flag "fetch_via_proxy",
    flag "hide_globally", .orNull "category" (RecordAlike Category.slots),
    .orNull "icon" (RecordAlike FeedIconRef.slots)]

def Entry.slots : List Slot :=
  [number "id", number "user_id", number "feed_id", word "status", word "hash", word "title",
    word "url", word "comments_url", word "language", time "published_at", time "created_at",
    time "changed_at", word "content", word "author", word "share_code", flag "starred",
    number "reading_time", listed "enclosures" (RecordAlike Enclosure.slots),
    .orNull "feed" (RecordAlike Feed.slots), listed "tags" (· = ·)]

def EntriesResponse.slots : List Slot :=
  [number "total", listed "entries" (RecordAlike Entry.slots)]

end Slots

/-! ## Reading past the spelling -/

section Reads

variable {α ρ : Type} {default : ρ} {n : String}

@[simp]
theorem reads_i64 {put : ℤ → ρ → ρ} (h : put 0 default = default) :
    Reads default (of n i64 put) (number n) :=
  reads_of rfl (fun _ hj => hj ▸ rfl) h (Decoder.blind_eq i64)

@[simp]
theorem reads_i32 {put : ℤ → ρ → ρ} (h : put 0 default = default) :
    Reads default (of n i32 put) (number n) :=
  reads_of rfl (fun _ hj => hj ▸ rfl) h (Decoder.blind_eq i32)

@[simp]
theorem reads_bool {put : Bool → ρ → ρ} (h : put false default = default) :
    Reads default (of n bool put) (flag n) :=
  reads_of rfl (fun _ hj => hj ▸ rfl) h (Decoder.blind_eq bool)

@[simp]
theorem reads_text {put : String → ρ → ρ} (h : put "" default = default) :
    Reads default (of n text put) (word n) :=
  reads_of rfl (fun _ hj => hj ▸ rfl) h (Decoder.blind_eq text)

@[simp]
theorem skips_i64 : Reads default (skip n i64) (number n) :=
  reads_skip rfl (fun _ hj => hj ▸ rfl) (Decoder.blind_eq i64)

@[simp]
theorem skips_i32 : Reads default (skip n i32) (number n) :=
  reads_skip rfl (fun _ hj => hj ▸ rfl) (Decoder.blind_eq i32)

@[simp]
theorem skips_bool : Reads default (skip n bool) (flag n) :=
  reads_skip rfl (fun _ hj => hj ▸ rfl) (Decoder.blind_eq bool)

@[simp]
theorem skips_text : Reads default (skip n text) (word n) :=
  reads_skip rfl (fun _ hj => hj ▸ rfl) (Decoder.blind_eq text)

theorem reads_nullable {d : Decoder α} {put : Option α → ρ → ρ} {alike : Json → Json → Prop}
    (h : put none default = default) (hd : Blind d alike) :
    Reads default (of n (nullable d) put) (.orNull n alike) :=
  reads_of rfl (fun _ hj => hj ▸ rfl) h hd.nullable

theorem skips_nullable {d : Decoder α} {alike : Json → Json → Prop} (hd : Blind d alike) :
    Reads default (skip n (nullable d)) (.orNull n alike) :=
  reads_skip rfl (fun _ hj => hj ▸ rfl) hd.nullable

theorem reads_listed {d : Decoder α} {put : List α → ρ → ρ} {alike : Json → Json → Prop}
    (h : put [] default = default) (hd : Blind d alike) :
    Reads default (of n (deNullDefault (list d)) put) (listed n alike) :=
  reads_of rfl (fun _ hj => hj.elim (fun hj => hj ▸ rfl) fun hj => hj ▸ rfl) h
    (hd.list.orDefault [])

@[simp]
theorem reads_mapped {put : List (String × ℤ) → ρ → ρ} (h : put [] default = default) :
    Reads default (of n (deNullDefault (Decoder.map i64)) put) (mapped n) :=
  reads_of rfl (fun _ hj => hj.elim (fun hj => hj ▸ rfl) fun hj => hj ▸ rfl) h
    ((Decoder.blind_eq (Decoder.map i64)).orDefault [])

variable [Timestamps]

theorem deOptTime_of_noTime {j : Json} (h : NoTime j) : deOptTime j = some none := by
  cases h with
  | null => rfl
  | zero h hzero =>
      simp [deOptTime, nullable, Decoder.parsed, text, h, Option.filter, hzero]

@[simp]
theorem reads_time {put : Option DateTime → ρ → ρ} (h : put none default = default) :
    Reads default (of n deOptTime put) (time n) :=
  reads_of rfl (fun _ hj => deOptTime_of_noTime hj) h (Decoder.blind_eq deOptTime)

@[simp]
theorem skips_time : Reads default (skip n deOptTime) (time n) :=
  reads_skip rfl (fun _ hj => by rw [deOptTime_of_noTime hj]; rfl) (Decoder.blind_eq deOptTime)

end Reads

/-! ## Every record -/

theorem Category.blind : Blind Category.decode (RecordAlike Category.slots) :=
  .record ⟨by decide, by simp [fields, commute_of, commute_skip, commute_of_skip]⟩
    (by simp [fields, slots, skips_nullable, Decoder.blind_eq, default])

theorem FeedIconRef.blind : Blind FeedIconRef.decode (RecordAlike FeedIconRef.slots) :=
  .record ⟨by decide, by simp [fields, commute_skip, commute_of_skip]⟩
    (by simp [fields, slots, default])

theorem Enclosure.blind : Blind Enclosure.decode (RecordAlike Enclosure.slots) :=
  .record ⟨by decide, by simp [fields, commute_of, commute_skip, commute_of_skip]⟩
    (by simp [fields, slots, default])

theorem EntryIdsResponse.blind :
    Blind EntryIdsResponse.decode (RecordAlike EntryIdsResponse.slots) :=
  .record ⟨by decide, by simp [fields, commute_of]⟩
    (by simp [fields, slots, default, reads_listed, Decoder.blind_eq])

theorem Icon.blind : Blind Icon.decode (RecordAlike Icon.slots) :=
  .record ⟨by decide, by simp [fields, commute_of]⟩ (by simp [fields, slots, default])

theorem FeedCounters.blind : Blind FeedCounters.decode (RecordAlike FeedCounters.slots) :=
  .record ⟨by decide, by simp [fields, commute_of]⟩ (by simp [fields, slots, default])

theorem VersionResponse.blind :
    Blind VersionResponse.decode (RecordAlike VersionResponse.slots) :=
  .record ⟨by decide, by simp [fields, commute_skip, commute_of_skip]⟩
    (by simp [fields, slots, default])

theorem User.blind : Blind User.decode (RecordAlike User.slots) :=
  .record ⟨by decide, by simp [fields, commute_skip, commute_of_skip]⟩
    (by simp [fields, slots, default])

theorem EntryContentResponse.blind :
    Blind EntryContentResponse.decode (RecordAlike EntryContentResponse.slots) :=
  .record ⟨by decide, by simp [fields, commute_of_skip]⟩ (by simp [fields, slots, default])

theorem ApiError.blind : Blind ApiError.decode (RecordAlike ApiError.slots) :=
  .record ⟨by decide, by simp [fields]⟩ (by simp [fields, slots, default])

theorem CreateFeedResponse.blind :
    Blind CreateFeedResponse.decode (RecordAlike CreateFeedResponse.slots) :=
  .record ⟨by decide, by simp [fields]⟩ (by simp [fields, slots, default])

variable [Timestamps]

theorem Feed.blind : Blind Feed.decode (RecordAlike Feed.slots) :=
  .record ⟨by simp [fields, of, skip], by simp [fields, commute_of, commute_skip, commute_of_skip]⟩
    (by simp [fields, slots, default, reads_nullable, Category.blind, FeedIconRef.blind])

theorem Entry.blind : Blind Entry.decode (RecordAlike Entry.slots) :=
  .record ⟨by simp [fields, of, skip], by simp [fields, commute_of, commute_skip, commute_of_skip]⟩
    (by simp [fields, slots, default, reads_listed, skips_nullable, Enclosure.blind, Feed.blind,
      Decoder.blind_eq])

theorem EntriesResponse.blind :
    Blind EntriesResponse.decode (RecordAlike EntriesResponse.slots) :=
  .record ⟨by simp [fields, of, skip], by simp [fields, commute_skip]⟩
    (by simp [fields, slots, default, reads_listed, Entry.blind])

end Wire

/-! ## Every answer -/

open Wire

variable [Timestamps]

/-- Two spellings of what a request is answered with. -/
def Request.Alike : Request → Json → Json → Prop
  | .version => RecordAlike VersionResponse.slots
  | .me => RecordAlike User.slots
  | .categories => ListAlike (RecordAlike Category.slots)
  | .feeds => ListAlike (RecordAlike Feed.slots)
  | .entries _ => RecordAlike EntriesResponse.slots
  | .entryIds _ _ => RecordAlike EntryIdsResponse.slots
  | .feedIcon _ => RecordAlike Icon.slots
  | .counters => RecordAlike FeedCounters.slots
  | .fetchOriginalContent _ => RecordAlike EntryContentResponse.slots
  | .createFeed _ _ => RecordAlike CreateFeedResponse.slots
  | .updateEntries _ | .updateFeed _ _ | .deleteFeed _ => fun _ _ => True

theorem Request.blind (request : Request) : Blind request.decode request.Alike := by
  cases request with
  | version => exact VersionResponse.blind
  | me => exact User.blind.map _
  | categories => exact Category.blind.list
  | feeds => exact Feed.blind.list
  | entries query => exact EntriesResponse.blind
  | entryIds query offset => exact EntryIdsResponse.blind
  | feedIcon feedId => exact Icon.blind
  | counters => exact FeedCounters.blind
  | fetchOriginalContent id => exact EntryContentResponse.blind.map _
  | createFeed feedUrl categoryId => exact CreateFeedResponse.blind.map _
  | updateEntries body => exact fun _ _ _ => rfl
  | updateFeed feedId update => exact fun _ _ _ => rfl
  | deleteFeed feedId => exact fun _ _ _ => rfl

/-- Two spellings of the body of an answer of this status. -/
def Request.AlikeAt (request : Request) (status : ℕ) : Json → Json → Prop :=
  if 200 ≤ status ∧ status < 300 then request.Alike else RecordAlike ApiError.slots

namespace MinifluxClient

omit [Timestamps] in
/-- The outcome of a successful answer is that of decoding its body. -/
theorem decode_of_success {α : Type} {response : BoundedResponse α}
    (h : 200 ≤ response.status ∧ response.status < 300) (endpoint : String) :
    (∃ a, response.body = .ok a ∧ decode response endpoint = .ok a) ∨
      response.body.toOption = none ∧ ∃ m, decode response endpoint = .error (.protocol m) := by
  cases hbody : response.body with
  | ok a =>
      refine .inl ⟨a, rfl, ?_⟩
      simp only [decode, checkStatus, h, and_self, if_true, hbody]
      rfl
  | error position =>
      refine .inr ⟨rfl, "could not decode the response at line " ++ position.1.repr ++
        " column " ++ position.2.repr, ?_⟩
      simp only [decode, checkStatus, h, and_self, if_true, hbody]
      rfl

/-- The zero time and no other. -/
@[reducible]
def zeroTimes : Timestamps :=
  ⟨fun s => if s = "0001-01-01T00:00:00Z" then
    some ⟨goZeroTimeSecs, by decide, by decide⟩ else none⟩

def pageBody : Json :=
  .obj [(some "total", .num (some 0)), (some "entries", .arr [
    .obj [(some "id", .num (some 7)), (some "feed_id", .num (some 0)),
      (some "status", .str (some "read")), (some "tags", .arr [])]])]

/-- The entry with its members in another order and one of them new, the feed
of 0 left out, `null` for no tags, the zero time for no time. -/
def respelledBody : Json :=
  .obj [(some "entries", .arr [
    .obj [(some "status", .str (some "read")), (some "tags", .null),
      (some "votes", .num (some 3)), (some "id", .num (some 7)),
      (some "published_at", .str (some "0001-01-01T00:00:00Z"))]])]

def pageAnswer (serverDate : Option DateTime) : BoundedResponse Wire.EntriesResponse where
  status := 200
  body := .ok ⟨[{ @Entry.default with id := 7, status := "read" }]⟩
  errorMessage := some ""
  serverDate := serverDate

end MinifluxClient

end Vuo
