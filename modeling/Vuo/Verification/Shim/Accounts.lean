import Vuo.Model.Shim.Account

/-!
# What a save leaves behind

A save is followed through every step it takes, each of which may fail or be the
last. What the account file holds then is read back.
-/

namespace Vuo.Shim

open Foundation

/-! ## The file system -/

/-- What a step does to the file. A new file gets the mode asked for, less what the
process masks. -/
def fileAct : (op : FileOp) → Disk → op.Ans → Disk → Prop
  | .createDirAll, disk, _, disk' => disk' = disk
  | .openFile mode, disk, .ok _, disk' =>
      (∃ file, disk = some file ∧ disk' = some { file with bytes := [] }) ∨
        (disk = none ∧ ∃ masked, masked &&& mode = masked ∧ disk' = some ⟨[], masked⟩)
  | .openFile _, disk, .error _, disk' => disk' = disk
  | .setPermissions mode, disk, .ok _, disk' =>
      disk' = disk.map fun file => { file with mode := mode }
  | .setPermissions _, disk, .error _, disk' => disk' = disk
  | .write buf, disk, .ok n, disk' =>
      n ≤ buf.length ∧
        disk' = disk.map fun file => { file with bytes := file.bytes ++ buf.take n }
  | .write _, disk, .error _, disk' => disk' = disk

/-- Nobody else touches the file. -/
def fileSystem : Setting FileOp FileOp.Ans Disk where
  act := fileAct
  env _ _ := False

theorem stable_disk (P : Disk → Prop) : fileSystem.Stable P :=
  fun _ _ h => h.elim

section Saves

variable [JsonText]

/-! ## The stages of a save -/

/-- The file as it was, emptied, or with some of the new account in it. -/
inductive Stage (old : Disk) (account : Account) : Disk → Prop
  | before : Stage old account old
  | emptied (mode : ℕ) : Stage old account (some ⟨[], mode⟩)
  | written {json written : List UInt8}
      (hjson : JsonText.toVecPretty account.toJson = .ok json) (hwritten : written <+: json) :
      Stage old account (some ⟨written, 0o600⟩)

def staged (old : Disk) (account : Account) : Setting.Guarantee FileOp FileOp.Ans Disk :=
  fun _ _ _ disk => Stage old account disk

/-- The whole account is in the file. -/
def Written (account : Account) (disk : Disk) : Prop :=
  ∃ json, JsonText.toVecPretty account.toJson = .ok json ∧ disk = some ⟨json, 0o600⟩

variable {old : Disk} {account : Account}

theorem wp_writeAll {json : List UInt8} (hjson : JsonText.toVecPretty account.toJson = .ok json)
    {buf written : List UInt8} (hrest : written ++ buf = json) :
    fileSystem.wp (staged old account) (writeAll buf)
      (Setting.ends (fun _ => Written account) fun _ _ => True) (some ⟨written, 0o600⟩) := by
  induction hleft : buf.length using Nat.strongRecOn generalizing buf written with
  | ind left ih =>
      rw [writeAll]
      split
      · next hdone =>
          subst hdone
          rw [List.append_nil] at hrest
          exact Setting.wp_done' (stable_disk _) ⟨json, hjson, by rw [hrest]⟩
      · next hsome =>
          refine Setting.wp_call (stable_disk fun disk => disk = some ⟨written, 0o600⟩) rfl ?_
          rintro _ rfl r disk hact
          cases r with
          | error e =>
              obtain rfl : disk = _ := hact
              refine ⟨.written hjson ⟨buf, hrest⟩, Setting.wp_done' (stable_disk _) trivial⟩
          | ok n =>
              obtain ⟨hn, rfl⟩ := hact
              have htaken : (written ++ buf.take n) ++ buf.drop n = json := by
                rw [List.append_assoc, List.take_append_drop, hrest]
              refine ⟨.written hjson ⟨_, htaken⟩, ?_⟩
              cases n with
              | zero => exact Setting.wp_done' (stable_disk _) trivial
              | succ n =>
                  have hpos := List.length_pos_iff.2 hsome
                  refine ih _ ?_ htaken rfl
                  rw [List.length_drop]
                  omega

omit [JsonText] in
/-- A step whose failure ends the save. -/
theorem wpe_attemptTo {G : Setting.Guarantee FileOp FileOp.Ans Disk} {what : String}
    {step : Program FileOp FileOp.Ans (Except String Unit)} {Q : Unit → Disk → Prop}
    {disk : Disk} (h : fileSystem.wp G step (Setting.ends Q fun _ _ => True) disk) :
    fileSystem.wpe G (attemptTo what step) Q (fun _ _ => True) disk := by
  refine Setting.wp_bind.2 (Setting.wp_mono ?_ h)
  rintro (e | u) disk' h'
  · exact Setting.wp_done' (stable_disk _) trivial
  · exact Setting.wp_done' (stable_disk _) h'

omit [JsonText] in
theorem wp_perform {G : Setting.Guarantee FileOp FileOp.Ans Disk} {op : FileOp}
    {Q : op.Ans → Disk → Prop} {disk : Disk}
    (h : ∀ r disk', fileAct op disk r disk' → G op disk r disk' ∧ Q r disk') :
    fileSystem.wp G (Program.perform op) Q disk := by
  refine Setting.wp_call (stable_disk fun disk' => disk' = disk) rfl ?_
  rintro _ rfl r disk' hact
  exact ⟨(h r disk' hact).1, Setting.wp_done' (stable_disk _) (h r disk' hact).2⟩

/-- A save goes through its stages, and leaves the whole account when it succeeds. -/
theorem wpe_saveAccount (old : Disk) (account : Account) :
    fileSystem.wpe (staged old account) (saveAccount account) (fun _ => Written account)
      (fun _ _ => True) old := by
  have hfailed (e : Error) : fileSystem.Stable ((fun _ _ => True : Error → Disk → Prop) e) :=
    stable_disk _
  refine Setting.wpe_bind hfailed (wpe_attemptTo (wp_perform ?_))
  intro r disk hact
  obtain rfl : old = disk := hact.symm
  refine ⟨.before, ?_⟩
  cases r with
  | error e => trivial
  | ok u => ?_
  refine Setting.wpe_bind hfailed (wpe_attemptTo (wp_perform ?_))
  intro r emptied hact
  cases r with
  | error e =>
      obtain rfl : old = emptied := hact.symm
      exact ⟨.before, trivial⟩
  | ok u => ?_
  obtain ⟨mode, rfl⟩ : ∃ mode, emptied = some ⟨[], mode⟩ := by
    rcases hact with ⟨file, -, rfl⟩ | ⟨-, masked, -, rfl⟩
    · exact ⟨file.mode, rfl⟩
    · exact ⟨masked, rfl⟩
  refine ⟨.emptied mode, ?_⟩
  refine Setting.wpe_bind hfailed (wpe_attemptTo (wp_perform ?_))
  intro r secured hact
  cases r with
  | error e =>
      obtain rfl : secured = some ⟨[], mode⟩ := hact
      exact ⟨.emptied mode, trivial⟩
  | ok u => ?_
  obtain rfl : secured = some ⟨[], 0o600⟩ := hact
  refine ⟨.emptied 0o600, ?_⟩
  refine Setting.wpe_bind hfailed (Setting.wp_done' (stable_disk _) ?_)
  cases hjson : JsonText.toVecPretty account.toJson with
  | error e => trivial
  | ok json => exact wpe_attemptTo (wp_writeAll hjson (List.nil_append json))

/-- Whatever a save gets to, it is at one of its stages. -/
theorem stage_of_reaches {p : Program FileOp FileOp.Ans (Except Error Unit)} {disk : Disk}
    (h : fileSystem.Reaches ((saveAccount account).run, old) (p, disk)) :
    Stage old account disk :=
  Setting.invariant_of_wp (wpe_saveAccount old account) (stable_disk _)
    (fun _ _ _ _ hstage => hstage) .before h

/-! ## Reading the file back -/

/-- The texts of an account: they read back, and cut short they are no JSON. -/
structure ReadsBack (account : Account) : Prop where
  whole : ∀ json, JsonText.toVecPretty account.toJson = .ok json →
    ∃ text, JsonText.fromUtf8 json = .ok text ∧ JsonText.fromStr text = .ok account.toJson
  cut : ∀ json, JsonText.toVecPretty account.toJson = .ok json → ∀ written, written <+: json →
    written ≠ json → ∀ text, JsonText.fromUtf8 written = .ok text →
      ∃ fault, JsonText.fromStr text = .error fault
  /-- Neither is an empty text. -/
  empty : ∀ text, JsonText.fromUtf8 [] = .ok text → ∃ fault, JsonText.fromStr text = .error fault

/-- Others than the owner may read what is in the file. -/
def Exposed (disk : Disk) : Prop :=
  ∃ file, disk = some file ∧ file.bytes ≠ [] ∧ file.mode &&& 0o044 ≠ 0

theorem loadAccount_of_no_json {bytes : List UInt8} {mode : ℕ}
    (h : ∀ text, JsonText.fromUtf8 bytes = .ok text →
      ∃ fault, JsonText.fromStr text = .error fault) :
    ∃ e, loadAccount (some ⟨bytes, mode⟩) = .error e := by
  unfold loadAccount readToString
  dsimp only
  split_ifs
  · exact ⟨_, rfl⟩
  · cases hread : JsonText.fromUtf8 bytes with
    | error e => exact ⟨_, rfl⟩
    | ok text =>
        obtain ⟨fault, hfault⟩ := h text hread
        exact ⟨malformed fault, by simp only [hfault]⟩

theorem loadAccount_of_written (hreads : ReadsBack account) {disk : Disk}
    (h : Written account disk) : loadAccount disk = .ok account := by
  obtain ⟨json, hjson, rfl⟩ := h
  obtain ⟨text, hread, hparse⟩ := hreads.whole json hjson
  have howner : ¬(0o600 &&& 0o400 = 0) := by
    decide
  unfold loadAccount readToString
  simp only [if_neg howner, hread, hparse, Account.decode_toJson]

/-- Wherever a save ends, the stored account is the old or the new one and nobody else can
read it exactly if the file was not yet opened, and was not exposed, or is completely
written. -/
theorem account_kept_iff {stored : Account} (hreads : ReadsBack account)
    (hold : loadAccount old = .ok stored)
    {p : Program FileOp FileOp.Ans (Except Error Unit)} {disk : Disk}
    (hreach : fileSystem.Reaches ((saveAccount account).run, old) (p, disk)) :
    (loadAccount disk = .ok stored ∨ loadAccount disk = .ok account) ∧ ¬Exposed disk ↔
      disk = old ∧ ¬Exposed old ∨ Written account disk := by
  constructor
  · rintro ⟨hload, hsecret⟩
    have hlost : (∃ e, loadAccount disk = .error e) → False := by
      rintro ⟨e, he⟩
      rcases hload with h | h <;> rw [he] at h <;> cases h
    cases stage_of_reaches hreach with
    | before => exact .inl ⟨rfl, hsecret⟩
    | emptied mode => exact (hlost (loadAccount_of_no_json hreads.empty)).elim
    | @written json written hjson hwritten =>
        by_cases hall : written = json
        · exact .inr ⟨json, hjson, by rw [hall]⟩
        · exact (hlost (loadAccount_of_no_json (hreads.cut json hjson written hwritten
            hall))).elim
  · rintro (⟨rfl, hsecret⟩ | hwritten)
    · exact ⟨.inl hold, hsecret⟩
    · refine ⟨.inr (loadAccount_of_written hreads hwritten), ?_⟩
      obtain ⟨json, -, rfl⟩ := hwritten
      have howner : 0o600 &&& 0o044 = 0 := by
        decide
      rintro ⟨file, hfile, -, hothers⟩
      cases hfile
      exact hothers howner

/-- Every save that gets to open a stored file leaves it empty at first. -/
theorem reaches_emptied (account : Account) (file : AccountFile) :
    ∃ p, fileSystem.Reaches ((saveAccount account).run, some file)
      (p, some { file with bytes := [] }) := by
  have hdirectory : fileSystem.act .createDirAll (some file) (.ok ()) (some file) := rfl
  have hopened : fileSystem.act (.openFile 0o600) (some file) (.ok ())
      (some { file with bytes := [] }) := .inl ⟨file, rfl, rfl⟩
  exact ⟨_, .call hdirectory (.call hopened .refl)⟩

end Saves

/-! ## A save cut short -/

section Secret

/-- A new account, and what it is written as. -/
def secretAccount : Account :=
  { Account.default with serverUrl := "https://h.example/", token := "secret" }

def secretText : String :=
  "\x7b\n  \"server_url\": \"https://h.example/\",\n  \"token\": \"secret\",\n" ++
    "  \"use_custom_ca\": false,\n  \"media_policy\": 1,\n  \"sync_interval_index\": 3,\n" ++
    "  \"wifi_only\": false,\n  \"mark_read_delay_index\": 2,\n  \"retention_index\": 0,\n" ++
    "  \"notify_new_articles\": false\n\x7d"

def decodeUtf8 (bytes : List UInt8) : Except String String :=
  match String.fromUTF8? ⟨bytes.toArray⟩ with
  | some text => .ok text
  | none => .error "stream did not contain valid UTF-8"

theorem decodeUtf8_eq_ok {bytes : List UInt8} {text : String} :
    decodeUtf8 bytes = .ok text ↔ text.toUTF8.data.toList = bytes := by
  constructor
  · intro h
    unfold decodeUtf8 String.fromUTF8? at h
    split at h
    · next hvalid =>
        split at hvalid
        · cases h
          cases hvalid
          rfl
        · cases hvalid
    · cases h
  · rintro rfl
    have hvalid : String.fromUTF8? text.toUTF8 = some text := dif_pos text.isValidUTF8
    unfold decodeUtf8
    rw [Array.toArray_toList, hvalid]

/-- The texts of that account and of an object without members. -/
abbrev secretJson : JsonText where
  toVecPretty _ := .ok secretText.toUTF8.data.toList
  fromUtf8 := decodeUtf8
  fromStr text :=
    if text = secretText then .ok secretAccount.toJson
    else if text = "\x7b\x7d" then .ok (.obj [])
    else .error ⟨"Eof", 1, 0⟩
  dataFault _ := ⟨"Data", 1, 0⟩

attribute [local instance] secretJson

theorem readsBack_secretAccount : ReadsBack secretAccount := by
  have hstart : secretText.toUTF8.data.toList.take 2 = [123, 10] := by
    decide
  have hcut (text : String) (htext : text.toUTF8.data.toList ≠ secretText.toUTF8.data.toList)
      (hempty : text.toUTF8.data.toList ≠ [123, 125]) :
      ∃ fault, secretJson.fromStr text = .error fault := by
    refine ⟨⟨"Eof", 1, 0⟩, (if_neg ?_).trans (if_neg ?_)⟩
    · rintro rfl
      exact htext rfl
    · rintro rfl
      exact hempty rfl
  refine ⟨?_, ?_, ?_⟩
  · rintro json ⟨⟩
    exact ⟨secretText, decodeUtf8_eq_ok.2 rfl, if_pos rfl⟩
  · rintro json ⟨⟩ written hprefix hshort text hread
    rw [← decodeUtf8_eq_ok.1 hread] at hprefix hshort
    refine hcut text hshort fun hbraces => ?_
    obtain ⟨rest, hrest⟩ := hprefix
    rw [hbraces] at hrest
    rw [← hrest] at hstart
    cases hstart
  · intro text hread
    have hnone := decodeUtf8_eq_ok.1 hread
    refine hcut text (fun hall => ?_) fun hbraces => ?_
    · rw [← hall, hnone] at hstart
      cases hstart
    · rw [hnone] at hbraces
      cases hbraces

/-- The file of an account that keeps every default. -/
def bareFile : AccountFile where
  bytes := "\x7b\x7d".toUTF8.data.toList
  mode := 0o600

theorem loadAccount_bareFile : loadAccount (some bareFile) = .ok Account.default := by
  have howner : ¬(bareFile.mode &&& 0o400 = 0) := by
    decide
  have hbytes : decodeUtf8 bareFile.bytes = .ok "\x7b\x7d" := decodeUtf8_eq_ok.2 rfl
  have hread : readToString (some bareFile) = .ok "\x7b\x7d" := by
    unfold readToString
    simp only [if_neg howner]
    exact hbytes
  have hother : ("\x7b\x7d" : String) ≠ secretText := by
    decide
  have hparse : secretJson.fromStr "\x7b\x7d" = .ok (.obj []) := (if_neg hother).trans (if_pos rfl)
  unfold loadAccount
  rw [hread]
  dsimp only
  rw [hparse]
  rfl

theorem account_kept_unopened :
    (loadAccount (some bareFile) = .ok Account.default ∨
        loadAccount (some bareFile) = .ok secretAccount) ∧ ¬Exposed (some bareFile) ↔
      some bareFile = some bareFile ∧ ¬Exposed (some bareFile) ∨
        Written secretAccount (some bareFile) :=
  account_kept_iff readsBack_secretAccount loadAccount_bareFile .refl

/-- The process dies with the file open, and neither account is left. -/
theorem account_lost :
    loadAccount (some bareFile) = .ok Account.default ∧
      ∃ p disk, fileSystem.Reaches ((saveAccount secretAccount).run, some bareFile) (p, disk) ∧
        ∃ e, loadAccount disk = .error e := by
  refine ⟨loadAccount_bareFile, ?_⟩
  obtain ⟨p, hreach⟩ := reaches_emptied secretAccount bareFile
  exact ⟨p, _, hreach, loadAccount_of_no_json readsBack_secretAccount.empty⟩

end Secret

end Vuo.Shim
