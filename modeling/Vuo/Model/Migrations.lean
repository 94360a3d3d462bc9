import Mathlib.Data.Int.Order.Basic
import Mathlib.Logic.Function.Basic
import Vuo.Foundation.Transaction
import Vuo.Model.Error

/-!
# Schema migrations

A list of steps, each with the version the file has afterwards. All steps a
file has not seen run in one write transaction.
-/

namespace Vuo.Migrations

open Foundation Foundation.Transaction

/-! ## The machinery -/

/-- One schema step. `version` is the stored version afterwards. -/
structure Migration (τ : Type*) where
  version : ℤ
  name : String
  sql : τ

/-- What the tables hold, and the version in the header. A new file's version
is 0, and no list of steps lowers it. -/
structure DbFile (σ : Type*) where
  content : σ
  userVersion : ℤ
  nonneg : 0 ≤ userVersion

section Apply

variable {τ σ : Type*} (executeBatch : τ → σ → Except String σ)

def targetOf (migrations : List (Migration τ)) : ℤ :=
  (migrations.getLast?.map Migration.version).getD 0

/-- A newer build has upgraded the file. -/
def refused (stored target : ℤ) : Error :=
  .migration stored
    ("database schema is version " ++ toString stored ++
      ", but this build of Vuo understands only " ++ toString target ++
      ". Upgrade Vuo, or remove the local mirror to re-sync from scratch.")

def failed (m : Migration τ) (e : String) : Error :=
  .migration m.version (m.name ++ " failed: " ++ e)

def runStep (m : Migration τ) : Transaction.Statement (DbFile σ) Error := fun f =>
  match executeBatch m.sql f.content with
  | .ok content => .ok { f with content := content }
  | .error e => .error (failed m e)

/-- `PRAGMA user_version = target` -/
def stamp (target : ℤ) (h : 0 ≤ target) : Transaction.Statement (DbFile σ) Error := fun f =>
  .ok { content := f.content, userVersion := target, nonneg := h }

/-- The steps a file at version `stored` has not seen. -/
def pending (stored : ℤ) (migrations : List (Migration τ)) : List (Migration τ) :=
  migrations.filter fun m => stored < m.version

/-- The version is read once the file is the connection's own. -/
def apply (migrations : List (Migration τ)) : Call (DbFile σ) Error := fun f =>
  let target := targetOf migrations
  if hnewer : target < f.userVersion then .error (refused f.userVersion target)
  else if f.userVersion = target then .ok []
  else
    .ok ((pending f.userVersion migrations).map (runStep executeBatch) ++
      [stamp target (f.nonneg.trans (not_lt.1 hnewer))])

end Apply

/-! ## The statements of the shipped steps -/

inductive TableName
  | categories
  | feeds
  | entries
  | enclosures
  | icons
  | outbox
  | syncState
  | mediaConsent
  deriving DecidableEq

namespace TableName

def asStr : TableName → String
  | categories => "categories"
  | feeds => "feeds"
  | entries => "entries"
  | enclosures => "enclosures"
  | icons => "icons"
  | outbox => "outbox"
  | syncState => "sync_state"
  | mediaConsent => "media_consent"

end TableName

inductive Value
  | null
  | integer (n : ℤ)
  | text (s : String)
  deriving DecidableEq

/-- A column, its type and its `CHECK` apart: no statement here is refused by
one of those. -/
structure Column where
  name : String
  primaryKey : Bool
  notNull : Bool
  default : Value
  deriving DecidableEq

structure SqlTable where
  columns : List Column
  rows : List (List Value)
  deriving DecidableEq

structure Schema where
  tables : TableName → Option SqlTable
  indexes : List String

def Schema.empty : Schema where
  tables _ := none
  indexes := []

inductive Ddl
  | createTable (table : TableName) (columns : List Column)
  | createIndex (name : String) (table : TableName)
  | addColumn (table : TableName) (column : Column)
  | insert (table : TableName) (values : List (String × Value))

namespace SqlTable

/-- The value a new row has in a column. -/
def newValue (values : List (String × Value)) (c : Column) : Value :=
  (values.lookup c.name).getD c.default

/-- The columns of the primary key, of one row. -/
def keyOf (columns : List Column) (row : List Value) : List Value :=
  ((columns.zip row).filter fun cv => cv.1.primaryKey).map Prod.snd

def addRow (name : String) (values : List (String × Value)) (t : SqlTable) :
    Except String SqlTable :=
  let row := t.columns.map (newValue values)
  if values.any fun v => !t.columns.any fun c => c.name = v.1 then
    .error ("table " ++ name ++ " has no such column")
  else if t.columns.any fun c => c.notNull && newValue values c = .null then
    .error ("NOT NULL constraint failed: " ++ name)
  else if t.rows.any fun r => keyOf t.columns r = keyOf t.columns row then
    .error ("UNIQUE constraint failed: " ++ name)
  else .ok { t with rows := t.rows ++ [row] }

/-- Rows that are there get the default. -/
def addColumn (c : Column) (t : SqlTable) : Except String SqlTable :=
  if t.columns.any fun d => d.name = c.name then
    .error ("duplicate column name: " ++ c.name)
  else if c.notNull && c.default = .null then
    .error "Cannot add a NOT NULL column with default value NULL"
  else
    .ok { columns := t.columns ++ [c], rows := t.rows.map fun r => r ++ [c.default] }

end SqlTable

/-- Change a table that is there. -/
def Schema.alter (table : TableName) (f : SqlTable → Except String SqlTable) (s : Schema) :
    Except String Schema :=
  match s.tables table with
  | none => .error ("no such table: " ++ table.asStr)
  | some t => (f t).map fun t => { s with tables := Function.update s.tables table (some t) }

def Ddl.exec (stmt : Ddl) (s : Schema) : Except String Schema :=
  match stmt with
  | .createTable table columns =>
      if (s.tables table).isSome then .error ("table " ++ table.asStr ++ " already exists")
      else
        .ok { s with
          tables := Function.update s.tables table (some { columns := columns, rows := [] }) }
  | .createIndex name table =>
      if name ∈ s.indexes then .error ("index " ++ name ++ " already exists")
      else if (s.tables table).isNone then .error ("no such table: main." ++ table.asStr)
      else .ok { s with indexes := s.indexes ++ [name] }
  | .addColumn table column => s.alter table (SqlTable.addColumn column)
  | .insert table values => s.alter table (SqlTable.addRow table.asStr values)

def executeBatch : List Ddl → Schema → Except String Schema
  | [], s => .ok s
  | stmt :: rest, s => (stmt.exec s).bind (executeBatch rest)

/-! ## The shipped steps -/

/-- `name INTEGER PRIMARY KEY` or `name TEXT PRIMARY KEY` -/
def key (name : String) : Column :=
  { name := name, primaryKey := true, notNull := false, default := .null }

/-- `name ..` -/
def nullable (name : String) : Column :=
  { name := name, primaryKey := false, notNull := false, default := .null }

/-- `name .. NOT NULL` -/
def required (name : String) : Column :=
  { name := name, primaryKey := false, notNull := true, default := .null }

/-- `name INTEGER NOT NULL DEFAULT 0` -/
def counter (name : String) : Column :=
  { name := name, primaryKey := false, notNull := true, default := .integer 0 }

/-- `name TEXT NOT NULL DEFAULT value` -/
def text (name value : String) : Column :=
  { name := name, primaryKey := false, notNull := true, default := .text value }

/-- A column of a key of several. -/
def keyPart (name : String) : Column :=
  { name := name, primaryKey := true, notNull := true, default := .null }

def initialSchema : List Ddl :=
  [.createTable .categories
      [key "id", text "title" "", counter "hide_globally", counter "last_seen_sync"],
    .createTable .feeds
      [key "id", nullable "category_id", text "title" "", nullable "site_url",
        nullable "feed_url", nullable "icon_id", nullable "checked_at",
        text "parsing_error_message" "", counter "parsing_error_count", counter "disabled",
        counter "hide_globally", counter "last_seen_sync"],
    .createIndex "feeds_category_idx" .feeds,
    .createTable .entries
      [key "id", required "feed_id", required "status", counter "starred", text "title" "",
        nullable "url", nullable "comments_url", text "author" "", text "content" "",
        nullable "published_at", nullable "created_at", nullable "changed_at",
        counter "reading_time", text "tags" "[]", counter "last_seen_sync"],
    .createIndex "entries_feed_idx" .entries,
    .createIndex "entries_status_idx" .entries,
    .createIndex "entries_published_idx" .entries,
    .createIndex "entries_starred_idx" .entries,
    .createTable .enclosures
      [key "id", required "entry_id", nullable "url", text "mime_type" "", counter "size"],
    .createIndex "enclosures_entry_idx" .enclosures,
    .createTable .icons
      [key "id", required "format", required "bytes", nullable "width", nullable "height"],
    .createTable .outbox
      [keyPart "entry_id", keyPart "field", required "value", required "queued_at",
        counter "attempts", nullable "last_error"],
    .createTable .syncState
      [key "id", nullable "cursor_changed_after", counter "sync_generation",
        nullable "last_full_reconcile_at", nullable "server_era", nullable "server_version"],
    .insert .syncState [("id", .integer 1)],
    .createTable .mediaConsent [key "origin", required "granted_at"]]

/-- Ordered schema history. -/
def migrations : List (Migration (List Ddl)) :=
  [{ version := 1, name := "initial schema", sql := initialSchema },
    { version := 2
      name := "record failed icon fetches"
      sql := [.addColumn .feeds (counter "icon_failures")] },
    { version := 3
      name := "remember server-scraped article bodies"
      sql := [.addColumn .entries (counter "content_scraped")] },
    { version := 4
      name := "mirror the per-feed crawler flag"
      sql := [.addColumn .feeds (counter "crawler")] },
    { version := 5
      name := "remember when the server version was last asked for"
      sql := [.addColumn .syncState (nullable "server_version_checked_at")] },
    { version := 6
      name := "remember which articles arrived since the reader last looked"
      sql :=
        [.addColumn .entries (counter "arrived"),
          .createIndex "entries_arrived_idx" .entries] }]

def targetVersion : ℤ :=
  targetOf migrations

/-- Bring a file up to the version of this build. -/
def migrate : Call (DbFile Schema) Error :=
  apply executeBatch migrations

end Vuo.Migrations
