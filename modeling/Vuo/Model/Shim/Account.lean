import Vuo.Foundation.Program
import Vuo.Foundation.Serde
import Vuo.Model.Error

/-!
# The stored account

The account is a file of JSON that only its owner may read. Saving it takes
several steps of the file system, any of which may fail, and be the last one the
process gets to take.
-/

namespace Vuo.Shim

open Foundation

/-! ## The account -/

def mediaAsk : Int32 := 1

def syncIntervalDefaultIndex : Int32 := 3

def markReadDefaultIndex : Int32 := 2

def retentionDefaultIndex : Int32 := 0

structure Account where
  serverUrl : String
  token : String
  useCustomCa : Bool
  mediaPolicy : Int32
  syncIntervalIndex : Int32
  wifiOnly : Bool
  markReadDelayIndex : Int32
  retentionIndex : Int32
  notifyNewArticles : Bool
  deriving DecidableEq

namespace Account

def default : Account where
  serverUrl := ""
  token := ""
  useCustomCa := false
  mediaPolicy := mediaAsk
  syncIntervalIndex := syncIntervalDefaultIndex
  wifiOnly := false
  markReadDelayIndex := markReadDefaultIndex
  retentionIndex := retentionDefaultIndex
  notifyNewArticles := false

open Decoder (bool text) in
open Decoder.Field (of) in
/-- A member left out keeps its default. -/
def fields : List (Decoder.Field Account) :=
  let i32 : Decoder Int32 := fun j => (Decoder.int (-2147483648) 2147483647 j).map Int32.ofInt
  [of "server_url" text fun x a => { a with serverUrl := x },
    of "token" text fun x a => { a with token := x },
    of "use_custom_ca" bool fun x a => { a with useCustomCa := x },
    of "media_policy" i32 fun x a => { a with mediaPolicy := x },
    of "sync_interval_index" i32 fun x a => { a with syncIntervalIndex := x },
    of "wifi_only" bool fun x a => { a with wifiOnly := x },
    of "mark_read_delay_index" i32 fun x a => { a with markReadDelayIndex := x },
    of "retention_index" i32 fun x a => { a with retentionIndex := x },
    of "notify_new_articles" bool fun x a => { a with notifyNewArticles := x }]

def decode : Decoder Account :=
  Decoder.record fields default

def toJson (a : Account) : Json :=
  .obj
    [(some "server_url", .str (some a.serverUrl)),
      (some "token", .str (some a.token)),
      (some "use_custom_ca", .bool a.useCustomCa),
      (some "media_policy", .num (some a.mediaPolicy.toInt)),
      (some "sync_interval_index", .num (some a.syncIntervalIndex.toInt)),
      (some "wifi_only", .bool a.wifiOnly),
      (some "mark_read_delay_index", .num (some a.markReadDelayIndex.toInt)),
      (some "retention_index", .num (some a.retentionIndex.toInt)),
      (some "notify_new_articles", .bool a.notifyNewArticles)]

theorem int_toInt (n : Int32) :
    Decoder.int (-2147483648) 2147483647 (.num (some n.toInt)) = some n.toInt := by
  have hlow := n.le_toInt
  have hhigh := n.toInt_lt
  rw [Decoder.int, if_pos]
  omega

/-- What is written reads back. -/
theorem decode_toJson (a : Account) : decode a.toJson = some a := by
  simp [decode, toJson, Decoder.record, Decoder.ofMembers, Decoder.named, fields,
    Decoder.Field.of, Decoder.text, Decoder.bool, int_toInt]

end Account

/-! ## The file -/

/-- A file, with its permission bits. -/
structure AccountFile where
  bytes : List UInt8
  mode : ℕ
  deriving DecidableEq

/-- The file as the file system has it, or nothing at its path. -/
abbrev Disk := Option AccountFile

/-- Where and what kind a fault in a text is. -/
structure JsonFault where
  category : String
  line : ℕ
  column : ℕ

/-- JSON texts and their bytes. `dataFault` is the fault of a text that is JSON, and no
account. -/
class JsonText where
  toVecPretty : Json → Except String (List UInt8)
  fromUtf8 : List UInt8 → Except String String
  fromStr : String → Except JsonFault Json
  dataFault : String → JsonFault

def malformed (fault : JsonFault) : Error :=
  .config ("the account file is malformed (" ++ fault.category ++ " at line " ++
    fault.line.repr ++ ", column " ++ fault.column.repr ++ ")")

section Files

variable [JsonText]

/-- `std::fs::read_to_string`, by the owner of the file. -/
def readToString : Disk → Except String String
  | none => .error "No such file or directory (os error 2)"
  | some file =>
      if file.mode &&& 0o400 = 0 then .error "Permission denied (os error 13)"
      else JsonText.fromUtf8 file.bytes

def loadAccount (disk : Disk) : Except Error Account :=
  match readToString disk with
  | .error e => .error (.config ("could not read the account file: " ++ e))
  | .ok raw =>
      match JsonText.fromStr raw with
      | .error fault => .error (malformed fault)
      | .ok json =>
          match Account.decode json with
          | none => .error (malformed (JsonText.dataFault raw))
          | some account => .ok account

/-! ## Saving -/

/-- A step of the file system. `openFile` is for writing, creates a file that is
missing with the mode given, and empties one that is there. -/
inductive FileOp
  | createDirAll
  | openFile (mode : ℕ)
  | setPermissions (mode : ℕ)
  | write (buf : List UInt8)

/-- Each may fail; a write says how much of the buffer it took. -/
def FileOp.Ans : FileOp → Type
  | write _ => Except String ℕ
  | _ => Except String Unit

abbrev FileAction := ExceptT Error (Program FileOp FileOp.Ans)

/-- A step, whose failure is reported as `what` did not work. -/
def attemptTo (what : String) (step : Program FileOp FileOp.Ans (Except String Unit)) :
    FileAction Unit :=
  ExceptT.mk (step >>= fun r => pure (r.mapError fun e => Error.config (what ++ ": " ++ e)))

/-- `write_all`: what a write did not take is written again. -/
def writeAll (buf : List UInt8) : Program FileOp FileOp.Ans (Except String Unit) :=
  if _ : buf = [] then .done (.ok ())
  else
    .call (.write buf) fun r =>
      match r with
      | .error e => .done (.error e)
      | .ok 0 => .done (.error "failed to write whole buffer")
      | .ok (n + 1) => writeAll (buf.drop (n + 1))
termination_by buf.length
decreasing_by
  have hpos := List.length_pos_iff.2 ‹_›
  rw [List.length_drop]
  omega

def saveAccount (account : Account) : FileAction Unit := do
  attemptTo "could not create the data directory" (Program.perform FileOp.createDirAll)
  attemptTo "could not write the account file" (Program.perform (FileOp.openFile 0o600))
  -- the file is empty here
  attemptTo "could not secure the account file" (Program.perform (FileOp.setPermissions 0o600))
  let json ← ExceptT.mk (pure ((JsonText.toVecPretty account.toJson).mapError fun e =>
    Error.config ("could not encode the account: " ++ e)))
  attemptTo "could not write the account file" (writeAll json)

end Files

end Vuo.Shim
