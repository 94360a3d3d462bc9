import Vuo.Foundation.Worker
import Vuo.Verification.Calls
import Vuo.Verification.Mirror.Bookkeeping
import Vuo.Verification.Pass
import Vuo.Verification.Replay.Rules
import Vuo.Verification.Text

/-!
# The server's version

A version is read from text, stored as text and read again. Passes ask for it
when the answer on record is too old.
-/

namespace Vuo

open Foundation Vuo.Action Program

/-! ## Numbers -/

namespace ServerVersion

/-- The text before the first dot that a version string is read from. -/
def leading (raw : String) : List Char :=
  ((((trim raw.toList).dropWhile fun c => c = 'v').takeWhile
    fun c => !(c = '-' || c = '+' || c = ' ')).splitOn '.').headD []

theorem parse_eq_none_iff {raw : String} : parse raw = none ↔ parseU32 (leading raw) = none := by
  unfold parse leading
  dsimp only
  cases hparts : (((trim raw.toList).dropWhile fun c => c = 'v').takeWhile
      fun c => !(c = '-' || c = '+' || c = ' ')).splitOn '.' with
  | nil => exact absurd hparts (List.splitOn_ne_nil _ _)
  | cons first rest => simp

/-- What is stored of a version is read as the version. -/
theorem parse_raw {raw : String} {v : ServerVersion} (h : parse raw = some v) :
    parse v.raw = some v := by
  unfold parse at h ⊢
  dsimp only at h ⊢
  obtain ⟨major, hmajor, rfl⟩ := Option.map_eq_some_iff.1 h
  simp only [String.toList_ofList, trim_trim, hmajor, Option.map_some]

/-- The version a string stands for, the oldest supported one if it names none. -/
def named (raw : String) : ServerVersion :=
  (parse raw).getD default

/-- The same number, whatever the text. -/
def Same (v w : ServerVersion) : Prop :=
  v.major = w.major ∧ v.minor = w.minor ∧ v.patch = w.patch

/-- Stored and read again, a version is the same. -/
theorem named_raw (raw : String) : Same (named (named raw).raw) (named raw) := by
  cases h : parse raw with
  | none =>
      have hunknown : parse default.raw = none := by decide
      simp [named, h, hunknown, Same]
  | some v => simp [named, h, parse_raw h, Same]

theorem atLeast_of_same {v w : ServerVersion} (h : Same v w) (major minor patch : ℕ) :
    v.atLeast major minor patch = w.atLeast major minor patch := by
  simp only [atLeast, h.1, h.2.1, h.2.2]

/-- The order of version numbers. -/
def Precedes (v w : ServerVersion) : Prop :=
  v.major < w.major ∨ v.major = w.major ∧
    (v.minor < w.minor ∨ v.minor = w.minor ∧ v.patch ≤ w.patch)

theorem atLeast_iff (v : ServerVersion) (major minor patch : ℕ) :
    v.atLeast major minor patch = true ↔
      major < v.major ∨ major = v.major ∧
        (minor < v.minor ∨ minor = v.minor ∧ patch ≤ v.patch) := by
  simp only [atLeast, Bool.or_eq_true, Bool.and_eq_true, decide_eq_true_eq]
  omega

theorem atLeast_mono {v w : ServerVersion} (h : Precedes v w) {major minor patch : ℕ}
    (hv : v.atLeast major minor patch = true) : w.atLeast major minor patch = true := by
  rw [atLeast_iff] at hv ⊢
  unfold Precedes at h
  omega

theorem atLeast_default {major minor patch : ℕ} (h : 2 < major ∨ major = 2 ∧ 0 < minor) :
    ServerVersion.default.atLeast major minor patch = false := by
  rw [Bool.eq_false_iff, Ne, atLeast_iff]
  change ¬(major < 2 ∨ major = 2 ∧ (minor < 0 ∨ minor = 0 ∧ patch ≤ 0))
  omega

/-- A server that names no number gets no feature. -/
theorem gates_of_unnamed {raw : String} (h : parseU32 (leading raw) = none) :
    (named raw).hasEntryIdsEndpoint = false ∧ (named raw).enforcesEntryLimitCap = false ∧
      (named raw).supportsEntryStateWrites = false := by
  rw [named, parse_eq_none_iff.2 h, Option.getD_none]
  exact ⟨atLeast_default (by omega), atLeast_default (by omega), atLeast_default (by omega)⟩

/-! ## Release numbers -/

/-- The text of a release number. -/
def release (major minor patch : ℕ) : List Char :=
  Nat.toDigits 10 major ++ '.' :: (Nat.toDigits 10 minor ++ '.' :: Nat.toDigits 10 patch)

theorem digit_of_mem {n : ℕ} {c : Char} (h : c ∈ Nat.toDigits 10 n) :
    48 ≤ c.toNat ∧ c.toNat ≤ 57 := by
  have hdigit := Nat.isDigit_of_mem_toDigits (by omega) (by omega) h
  simpa [Char.isDigit, UInt32.le_iff_toNat_le] using hdigit

/-- A run of digits is read as the number it writes. -/
theorem parseDigits_toDigits (n : ℕ) : parseDigits (Nat.toDigits 10 n) = some n := by
  have hfold : ∀ (digits : List Char) (k : ℕ), (∀ c ∈ digits, 48 ≤ c.toNat ∧ c.toNat ≤ 57) →
      digits.foldl (fun acc c => acc.bind fun n =>
        if '0' ≤ c ∧ c ≤ '9' then some (10 * n + (c.toNat - 48)) else none) (some k) =
      some (Nat.ofDigitChars 10 digits k) := by
    intro digits
    induction digits with
    | nil => exact fun k _ => rfl
    | cons c digits ih =>
        intro k hdigits
        obtain ⟨hlow, hhigh⟩ := hdigits c List.mem_cons_self
        have hrange : '0' ≤ c ∧ c ≤ '9' := ⟨hlow, hhigh⟩
        rw [List.foldl_cons, Option.bind_some, if_pos hrange,
          ih _ fun c hc => hdigits c (List.mem_cons_of_mem _ hc), Nat.ofDigitChars_cons]
        rfl
  rw [parseDigits, if_neg Nat.toDigits_ne_nil, hfold _ 0 fun c hc => digit_of_mem hc,
    Nat.ofDigitChars_ten_toDigits]

theorem parseU32_toDigits {n : ℕ} (h : n < 4294967296) : parseU32 (Nat.toDigits 10 n) = some n := by
  have hplain : ∀ rest, Nat.toDigits 10 n = '+' :: rest → False := by
    intro rest hrest
    have hplus := @digit_of_mem n '+' (hrest ▸ List.mem_cons_self)
    exact absurd hplus (by decide)
  rw [parseU32, parseDigits_toDigits]
  · simp [h]
  · exact hplain

/-- A release number is read as it is written. -/
theorem parse_release {major minor patch : ℕ} (hmajor : major < 4294967296)
    (hminor : minor < 4294967296) (hpatch : patch < 4294967296) :
    parse (String.ofList (release major minor patch)) =
      some ⟨String.ofList (release major minor patch), major, minor, patch⟩ := by
  have hmem : ∀ c ∈ release major minor patch, c = '.' ∨ 48 ≤ c.toNat ∧ c.toNat ≤ 57 := by
    intro c hc
    simp only [release, List.mem_append, List.mem_cons] at hc
    rcases hc with hc | rfl | hc | rfl | hc
    · exact .inr (digit_of_mem hc)
    · exact .inl rfl
    · exact .inr (digit_of_mem hc)
    · exact .inl rfl
    · exact .inr (digit_of_mem hc)
  have hother {d : Char} (hd : d ≠ '.' ∧ ¬(48 ≤ d.toNat ∧ d.toNat ≤ 57)) :
      ∀ c ∈ release major minor patch, c ≠ d := by
    rintro c hc rfl
    exact (hmem c hc).elim hd.1 hd.2
  have htrim : trim (release major minor patch) = release major minor patch := by
    refine trim_of_black fun c hc => ?_
    rcases hmem c hc with rfl | hdigit
    · decide
    · simp only [isWhitespace, Bool.or_eq_false_iff, Bool.and_eq_false_iff, decide_eq_false_iff_not]
      omega
  have hv : (release major minor patch).dropWhile (fun c => c = 'v') =
      release major minor patch :=
    List.dropWhile_eq_self_iff.2 fun hpos => by
      simpa using hother (by decide) _ (List.getElem_mem hpos)
  have hcore : (release major minor patch).takeWhile
      (fun c => !(c = '-' || c = '+' || c = ' ')) = release major minor patch :=
    List.takeWhile_eq_self_iff.2 fun c hc => by
      simp [hother (d := '-') (by decide) c hc, hother (d := '+') (by decide) c hc,
        hother (d := ' ') (by decide) c hc]
  have hdot (n : ℕ) : '.' ∉ Nat.toDigits 10 n := fun h => by
    have hdigit := digit_of_mem h
    exact absurd hdigit (by decide)
  have hparts : (release major minor patch).splitOn '.' =
      [Nat.toDigits 10 major, Nat.toDigits 10 minor, Nat.toDigits 10 patch] := by
    rw [release, List.splitOn_append_cons_self_of_not_mem (hdot major),
      List.splitOn_append_cons_self_of_not_mem (hdot minor),
      List.splitOn_eq_singleton (hdot patch)]
  unfold parse
  simp only [String.toList_ofList, htrim, hv, hcore, hparts, List.head?_cons, Option.bind_some,
    parseU32_toDigits hmajor, Option.map_some]
  simp [parseU32_toDigits hminor, parseU32_toDigits hpatch]

end ServerVersion

/-! ## Passes -/

namespace Sync

section AfterReplay

variable [Endpoints] [UrlLibrary] [IconDecoder] {A : Statement → Prop}

/-- With a version worth trusting on record a pass asks for none, and records the
same one. -/
theorem fetches_afterReplay (client : MinifluxClient) (options : SyncOptions)
    {state : SyncState} {now : ℤ} (replay : ReplayOutcome) {version : ServerVersion}
    (hkeeps : ∀ s : Statement, s.KeepsState → A s)
    (hcached : cachedVersion state now options.serverVersionTtlSecs = some version)
    (hcommit : ∀ report : SyncReport, report.serverVersion = some version.raw →
      A (.setSyncState (nextState state now report version state.serverVersionCheckedAt))) :
    CallsE (Op.Fetches A) (afterReplay client options state now replay) := by
  have hresolve : resolveVersion client state now options.serverVersionTtlSecs =
      pure (version, state.serverVersionCheckedAt) := by
    unfold resolveVersion
    rw [hcached]
  unfold afterReplay
  rw [hresolve, pure_bind]
  refine (Pull.fetches_taxonomy client _ ?_ ?_ ?_).bind fun _ => ?_
  · exact fun _ _ => hkeeps _ trivial
  · exact fun _ _ => hkeeps _ trivial
  · exact fun _ => hkeeps _ trivial
  refine (Pull.fetches_entries client _ _ ?_ ?_).bind fun pull => ?_
  · exact fun _ _ _ => hkeeps _ trivial
  · exact fun _ => hkeeps _ trivial
  refine (fetches_reconcileStep client _ _ _ _ fun _ => hkeeps _ trivial).bind fun _ => ?_
  refine (fetches_fetchIcons client _ ?_ ?_ ?_).bind fun _ => ?_
  · exact fun _ => hkeeps _ trivial
  · exact fun _ => hkeeps _ trivial
  · exact fun _ => hkeeps _ trivial
  refine (fetches_pruneStep options now fun _ => hkeeps _ trivial).bind fun _ => ?_
  refine (fetches_withTx ?_).bind fun _ => .pure _
  intro s hs
  rw [List.mem_singleton.1 hs]
  exact hcommit _ rfl

end AfterReplay

/-! ### What is on record -/

/-- The bookkeeping names a version and the time it was asked for. -/
def Records (v : ServerVersion) (checked : ℤ) (state : SyncState) : Prop :=
  state.serverVersion.bind ServerVersion.parse = some v ∧
    state.serverVersionCheckedAt = some checked

variable {v : ServerVersion} {checked ttl : ℤ} {state : SyncState}

theorem Records.parse_raw (h : Records v checked state) : ServerVersion.parse v.raw = some v := by
  obtain ⟨raw, -, hraw⟩ := Option.bind_eq_some_iff.1 h.1
  exact ServerVersion.parse_raw hraw

/-- What is on record is trusted while it is young enough. -/
theorem cachedVersion_eq_some_iff {now : ℤ} :
    cachedVersion state now ttl = some v ↔
      ∃ checked, Records v checked state ∧ saturatingSub now checked < ttl := by
  unfold cachedVersion Records
  cases hchecked : state.serverVersionCheckedAt with
  | none => simp
  | some checked =>
      by_cases hyoung : saturatingSub now checked < ttl
      · simp [Option.filter, hyoung]
      · simp [Option.filter, hyoung]

theorem cachedVersion_of_unreadable
    (h : state.serverVersion.bind ServerVersion.parse = none) (now ttl : ℤ) :
    cachedVersion state now ttl = none := by
  rw [cachedVersion, h, ite_self]

theorem records_nextState (hraw : ServerVersion.parse v.raw = some v) (state : SyncState)
    (now : ℤ) {report : SyncReport} (hreport : report.serverVersion = some v.raw) :
    Records v checked (nextState state now report v (some checked)) := by
  refine ⟨?_, rfl⟩
  change report.serverVersion.bind ServerVersion.parse = some v
  rw [hreport, Option.bind_some, hraw]

/-- The statements of a pass that leave a version on record. -/
def KeepsVersion (v : ServerVersion) (checked : ℤ) : Statement → Prop
  | .setSyncState state => Records v checked state
  | _ => True

theorem keepsVersion_of_keepsState {s : Statement} (h : s.KeepsState) :
    KeepsVersion v checked s := by
  cases s <;> trivial

theorem records_exec {s : Statement} (h : KeepsVersion v checked s) {db : Db}
    (hdb : Records v checked db.syncState) : Records v checked (s.exec db).syncState := by
  by_cases hkeeps : s.KeepsState
  · rwa [syncState_exec hkeeps]
  · cases s with
    | setSyncState state => exact h
    | _ => exact absurd trivial hkeeps

theorem records_transaction {body : Transaction} (h : ∀ s ∈ body, KeepsVersion v checked s)
    {db : Db} (hdb : Records v checked db.syncState) :
    Records v checked (body.exec db).syncState :=
  Transaction.exec_invariant (P := fun db => Records v checked db.syncState)
    (fun s hs _ hdb => records_exec (h s hs) hdb) hdb

end Sync

/-! ### A clock and a server -/

namespace Versions

open Sync

variable {v : ServerVersion} {checked : ℤ}

/-- Any server that answers the question for its version as `answers` says, and a
clock that shows the times of `clock`. Everything else that writes leaves the
bookkeeping alone. -/
def checking (answers : Answer .version → Prop) (clock : DateTime → Prop) : Outside Unit where
  send _ request _ r _ := match request, r with
    | .version, r => answers r
    | _, _ => True
  now _ t _ := clock t
  commit _ _ _ := ()
  env w w' := ∃ s : Statement, s.KeepsState ∧ w' = w.setDb (s.exec w.db)

variable {answers : Answer .version → Prop} {clock : DateTime → Prop}

/-- A version is on record. -/
def Recorded (v : ServerVersion) (checked : ℤ) (w : World Unit) : Prop :=
  Records v checked w.db.syncState

theorem stable_recorded : (checking answers clock).setting.Stable (Recorded v checked) := by
  rintro w _ ⟨s, hs, rfl⟩ hw
  exact records_exec (keepsVersion_of_keepsState hs) hw

theorem stable_cells (P : (ℕ → Option ServerVersion) → Prop) :
    (checking answers clock).setting.Stable fun w => P w.cells := by
  rintro w _ ⟨s, -, rfl⟩ hw
  exact hw

/-- Only a program that found its client without a version asks, and what is on
record stays. -/
def sparing (v : ServerVersion) (checked : ℤ) (cell : ℕ) :
    Setting.Guarantee Op Op.Ans (World Unit) :=
  fun op w _ w' => ((∃ t, op = .send t .version) → w.cells cell = none) ∧ Recorded v checked w'

section Sparing

variable {cell : ℕ} {w : World Unit}

theorem sparing_act {op : Op} (hop : op.Fetches (KeepsVersion v checked)) {w w' : World Unit}
    {r : op.Ans} (hact : (checking answers clock).setting.act op w r w')
    (hw : Recorded v checked w) : sparing v checked cell op w r w' := by
  refine ⟨?_, ?_⟩
  · rintro ⟨t, rfl⟩
    exact absurd rfl hop.2
  · by_cases hbody : ∃ body, op = .transact body
    · obtain ⟨body, rfl⟩ := hbody
      obtain ⟨-, rfl⟩ | ⟨-, rfl⟩ := Outside.act_transact hact
      · exact records_transaction hop hw
      · exact hw
    · have hdb := Outside.db_of_act (fun body h => hbody ⟨body, h⟩) hact
      unfold Recorded
      rwa [hdb]

theorem wpe_of_fetches {α : Type} {p : Action α}
    (hp : CallsE (Op.Fetches (KeepsVersion v checked)) p) (hw : Recorded v checked w) :
    (checking answers clock).setting.wpe (sparing v checked cell) p
      (fun _ => Recorded v checked) (fun _ => Recorded v checked) w :=
  Setting.wpe_of_calls stable_recorded
    (fun op hop w r w' hact hw => by
      have hkept : sparing v checked cell op w r w' := sparing_act hop hact hw
      exact ⟨hkept, hkept.2⟩)
    hp hw

variable [Endpoints] (client : MinifluxClient)

/-- The gate of a write asks a client that knows no version. -/
theorem wpe_writeCapableVersion (hw : Recorded v checked w) :
    (checking answers clock).setting.wpe (sparing v checked client.cell) client.writeCapableVersion
      (fun _ => Recorded v checked) (fun _ => Recorded v checked) w := by
  refine Setting.wpe_bind (fun _ => stable_recorded)
    (Setting.wpe_lift (Setting.wp_call stable_recorded hw ?_))
  intro w₁ h₁ known w₂ hact
  have hlook : Op.Fetches (KeepsVersion v checked) (.knownVersion client.cell) := trivial
  refine ⟨sparing_act hlook hact h₁, Setting.wp_done' (Setting.wpe_stable _) ?_⟩
  obtain ⟨rfl, rfl⟩ := hact
  cases hknown : w₂.cells client.cell with
  | some version => exact Setting.wpe_pure stable_recorded h₁
  | none =>
      refine Setting.wpe_bind (fun _ => stable_recorded) (MinifluxClient.wpe_getJson
        (stable_recorded.and (stable_cells fun cells => cells client.cell = none)) ⟨h₁, hknown⟩
        (fun _ => Setting.wpe_stable _) (fun _ => stable_recorded) ?_)
      intro w₂ h₂ r o hsend
      refine ⟨⟨fun _ => h₂.2, h₂.1⟩, ?_⟩
      cases MinifluxClient.readResult client .version r with
      | error e => exact h₂.1
      | ok answer =>
          refine wpe_of_fetches ?_ h₂.1
          exact CallsE.bind ⟨trivial, fun _ => trivial⟩ fun _ => .pure _

theorem wpe_updateEntries (ids : List EntryId) (mutation : EntryMutation)
    (hw : Recorded v checked w) :
    (checking answers clock).setting.wpe (sparing v checked client.cell)
      (client.updateEntries ids mutation)
      (fun _ => Recorded v checked) (fun _ => Recorded v checked) w := by
  unfold MinifluxClient.updateEntries
  split
  · exact Setting.wpe_throw stable_recorded hw
  · refine Setting.wpe_bind (fun _ => stable_recorded) ?_
    have hrefuse : (checking answers clock).setting.wpe (sparing v checked client.cell)
        client.refuseEntryWritesBeforeFloor (fun _ => Recorded v checked)
        (fun _ => Recorded v checked) w := by
      refine Setting.wpe_bind (fun _ => stable_recorded) (Setting.wpe_mono ?_ (fun _ _ h => h)
        (wpe_writeCapableVersion client hw))
      intro version w₁ h₁
      split
      · exact Setting.wpe_pure stable_recorded h₁
      · exact Setting.wpe_throw stable_recorded h₁
    refine Setting.wpe_mono ?_ (fun _ _ h => h) hrefuse
    intro _ w₁ h₁
    refine Setting.wpe_bind (fun _ => stable_recorded) (Outside.wpe_send stable_recorded h₁
      (fun _ => Setting.wpe_stable _) (fun _ => stable_recorded) ?_)
    intro w₂ h₂ r o hsend
    refine ⟨⟨?_, h₂⟩, ?_⟩
    · rintro ⟨t, hop⟩
      cases hop
    · cases r with
      | error e => exact h₂
      | ok response => exact wpe_of_fetches (by exact trivial) h₂

theorem wpe_flush (hw : Recorded v checked w) :
    (checking answers clock).setting.wpe (sparing v checked client.cell) (Replay.flush client)
      (fun _ => Recorded v checked) (fun _ => Recorded v checked) w := by
  have hcommit {s : Statement} (hs : s.KeepsState) {w : World Unit} (hw : Recorded v checked w) :
      Recorded v checked ((checking answers clock).commitTo [s] w) := by
    have hbody : ∀ s' ∈ [s], KeepsVersion v checked s' := by
      simpa using keepsVersion_of_keepsState hs
    exact records_transaction hbody hw
  have hpromise {body : Transaction} {r : Except Error ℕ} {w w' : World Unit}
      (hw' : Recorded v checked w') : sparing v checked client.cell (.transact body) w r w' :=
    ⟨fun ⟨_, h⟩ => (nomatch h), hw'⟩
  refine Setting.wpe_bind (fun _ => stable_recorded) (Setting.wpe_mono ?_ (fun _ _ h => h)
    (wpe_of_fetches (fetches_query _) hw))
  intro pending w₁ h₁
  refine Replay.wpe_flushBatches (I := fun _ => Recorded v checked)
    (A := fun _ _ => Recorded v checked) (F := fun _ _ _ => Recorded v checked)
    (fun _ _ => stable_recorded) (fun _ _ _ => stable_recorded) stable_recorded
    (fun _ _ _ hw => wpe_updateEntries client _ _ hw) ?_ ?_ ?_ ?_ ?_ (fun _ _ hw => hw) _ _ h₁
  · intro b _ w hw
    have hconfirmed := hcommit (s := .confirm b) trivial hw
    exact ⟨hpromise hconfirmed, hconfirmed⟩
  · intro _ b _ w hw _
    have hdiscarded := hcommit (s := .discard b) trivial hw
    exact ⟨hpromise hdiscarded, hdiscarded⟩
  · intro e b _ w hw _
    have hrecorded := hcommit (s := .recordFailure b e.toString) trivial hw
    exact ⟨hpromise hrecorded, hrecorded⟩
  · exact fun _ _ _ _ w hw => ⟨hpromise hw, hw⟩
  · exact fun _ _ _ _ _ w hw => ⟨hpromise hw, hw⟩

variable [UrlLibrary] [IconDecoder] (options : SyncOptions)

/-- A pass within the time to live. -/
theorem wpe_sync (hclock : ∀ t, clock t →
      saturatingSub t.timestamp checked < options.serverVersionTtlSecs)
    (hw : Recorded v checked w) :
    (checking answers clock).setting.wpe (sparing v checked client.cell) (sync client options)
      (fun _ => Recorded v checked) (fun _ => Recorded v checked) w := by
  refine Setting.wpe_bind (fun _ => stable_recorded) (Outside.wpe_query stable_recorded hw
    (fun _ => Setting.wpe_stable _) (fun _ => stable_recorded) ?_ (fun _ _ hw => hw) ?_)
  · intro w₁ h₁
    refine Setting.wpe_bind (fun _ => stable_recorded) (Outside.wpe_now stable_recorded h₁
      (fun _ => Setting.wpe_stable _) ?_)
    intro w₂ h₂ t o hnow
    refine ⟨⟨fun ⟨_, h⟩ => (nomatch h), h₂⟩, ?_⟩
    have hreplay : (checking answers clock).setting.wpe (sparing v checked client.cell)
        (replayStep client options) (fun _ => Recorded v checked) (fun _ => Recorded v checked)
        (w₂.setOutside o) := by
      unfold replayStep
      split
      · exact Setting.wpe_pure stable_recorded h₂
      · exact wpe_flush client h₂
    refine Setting.wpe_bind (fun _ => stable_recorded)
      (Setting.wpe_mono ?_ (fun _ _ h => h) hreplay)
    intro replay w₃ h₃
    split
    · exact Setting.wpe_pure stable_recorded h₃
    · refine wpe_of_fetches (fetches_afterReplay client options replay
        (fun _ => keepsVersion_of_keepsState)
        (cachedVersion_eq_some_iff.2 ⟨checked, h₁, hclock t hnow⟩) ?_) h₃
      intro report hreport
      have hrecords : Records v checked
          (nextState w₁.db.syncState t.timestamp report v (some checked)) :=
        records_nextState h₁.parse_raw w₁.db.syncState t.timestamp hreport
      rwa [← h₁.2] at hrecords
  · exact fun w r hw => ⟨fun ⟨_, h⟩ => (nomatch h), hw⟩

end Sparing

/-! ### A pass that asks -/

/-- A server that names one version whenever it is asked. -/
def Names (raw : String) (r : Answer .version) : Prop :=
  ∃ response : BoundedResponse Wire.VersionResponse, r = .ok response ∧
    200 ≤ response.status ∧ response.status < 300 ∧ response.body = .ok ⟨raw⟩

/-- A version and a time worth recording: the answer to a question asked now, or
what was on record and is young enough. -/
def Settles (raw : String) (state : SyncState) (now ttl : ℤ) (v : ServerVersion)
    (checked : ℤ) : Prop :=
  ServerVersion.parse raw = some v ∧ checked = now ∨
    Records v checked state ∧ saturatingSub now checked < ttl

/-- Such a version is on record. -/
def Settled (raw : String) (state : SyncState) (now ttl : ℤ) (w : World Unit) : Prop :=
  ∃ v checked, Recorded v checked w ∧ Settles raw state now ttl v checked

section Asking

variable {client : MinifluxClient} {raw : String} {state : SyncState} {now ttl : ℤ}
  {w : World Unit}

theorem Settles.parse_raw (h : Settles raw state now ttl v checked) :
    ServerVersion.parse v.raw = some v := by
  rcases h with ⟨hraw, -⟩ | ⟨hrecords, -⟩
  · exact ServerVersion.parse_raw hraw
  · exact hrecords.parse_raw

theorem stable_settled : (checking answers clock).setting.Stable (Settled raw state now ttl) := by
  rintro w w' henv ⟨v, checked, hrecorded, hsettles⟩
  exact ⟨v, checked, stable_recorded _ _ henv hrecorded, hsettles⟩

theorem stable_true : (checking answers clock).setting.Stable fun _ => True :=
  Setting.stable_const True

theorem wpe_any {α : Type} (p : Action α) :
    (checking answers clock).setting.wpe Outside.noPromise p (fun _ _ => True)
      (fun _ _ => True) w :=
  Setting.wpe_of_calls (A := fun _ => True) stable_true
    (fun _ _ _ _ _ _ _ => ⟨trivial, trivial⟩) (Calls.any _) trivial

variable [Endpoints]

theorem readResult_of_names {r : Answer .version} (h : Names raw r) :
    MinifluxClient.readResult client .version r = .ok ⟨raw⟩ := by
  obtain ⟨response, rfl, hlo, hhi, hbody⟩ := h
  change MinifluxClient.decode response _ = _
  unfold MinifluxClient.decode MinifluxClient.checkStatus
  rw [if_pos ⟨hlo, hhi⟩, hbody]
  rfl

theorem wpe_version {version : ServerVersion} (hraw : ServerVersion.parse raw = some version) :
    (checking (Names raw) clock).setting.wpe Outside.noPromise client.version
      (fun v _ => v = version) (fun _ _ => False) w := by
  have hstable : ∀ v, (checking (Names raw) clock).setting.Stable fun _ => v = version :=
    fun v => Setting.stable_const _
  refine Setting.wpe_bind (fun _ => Setting.stable_const _) (MinifluxClient.wpe_getJson
    stable_true trivial (fun _ => Setting.wpe_stable _) (fun _ => Setting.stable_const _) ?_)
  intro w₁ _ r o hsend
  refine ⟨trivial, ?_⟩
  rw [readResult_of_names hsend]
  refine Setting.wpe_bind (fun _ => Setting.stable_const _)
    (Setting.wpe_lift (Setting.wp_call stable_true trivial ?_))
  intro w₂ _ _ w₃ _
  refine ⟨trivial, Setting.wp_done' (Setting.wpe_stable _) (Setting.wpe_pure (hstable _) ?_)⟩
  simp only [hraw, Option.getD_some]

theorem wpe_resolveVersion {version : ServerVersion}
    (hraw : ServerVersion.parse raw = some version) :
    (checking (Names raw) clock).setting.wpe Outside.noPromise
      (resolveVersion client state now ttl)
      (fun answer _ => ∃ checked, answer.2 = some checked ∧
        Settles raw state now ttl answer.1 checked) (fun _ _ => True) w := by
  unfold resolveVersion
  cases hcached : cachedVersion state now ttl with
  | some v =>
      obtain ⟨checked, hrecords, hyoung⟩ := cachedVersion_eq_some_iff.1 hcached
      exact Setting.wpe_pure (Setting.stable_const _)
        ⟨checked, hrecords.2, .inr ⟨hrecords, hyoung⟩⟩
  | none =>
      refine Setting.wpe_bind (fun _ => stable_true) (Setting.wpe_attempt
        (Setting.wpe_mono ?_ (fun _ _ h => h.elim) (wpe_version hraw)))
      rintro _ w₁ rfl
      exact Setting.wpe_pure (Setting.stable_const _) ⟨now, rfl, .inl ⟨hraw, rfl⟩⟩

variable [UrlLibrary] [IconDecoder] {options : SyncOptions}

/-- A pass that goes through has a version on record at its end. -/
theorem wpe_afterReplay {version : ServerVersion} (hraw : ServerVersion.parse raw = some version)
    (replay : ReplayOutcome) :
    (checking (Names raw) clock).setting.wpe Outside.noPromise
      (afterReplay client options state now replay)
      (fun _ => Settled raw state now options.serverVersionTtlSecs) (fun _ _ => True) w := by
  have hthen {α β : Type} {p : Action α} {f : α → Action β} {Q : β → World Unit → Prop}
      {w : World Unit} (hf : ∀ a w, (checking (Names raw) clock).setting.wpe
        Outside.noPromise (f a) Q (fun _ _ => True) w) :
      (checking (Names raw) clock).setting.wpe Outside.noPromise (p >>= f) Q
        (fun _ _ => True) w :=
    Setting.wpe_bind (fun _ => stable_true)
      (Setting.wpe_mono (fun a w _ => hf a w) (fun _ _ h => h) (wpe_any p))
  refine Setting.wpe_bind (fun _ => stable_true)
    (Setting.wpe_mono ?_ (fun _ _ h => h) (wpe_resolveVersion hraw))
  rintro ⟨v, checkedAt⟩ w₁ ⟨checked, hchecked, hsettles⟩
  obtain rfl : checkedAt = some checked := hchecked
  refine hthen fun _ w₂ => hthen fun pull w₃ => hthen fun reconcile w₄ => hthen fun icons w₅ =>
    hthen fun pruned w₆ => ?_
  refine Setting.wpe_bind (fun _ => stable_true) (Outside.wpe_withTx stable_true trivial
    (fun _ => Setting.wpe_stable _) (fun _ => stable_true) ?_ (fun _ _ _ => ⟨trivial, trivial⟩))
  intro w₇ _
  refine ⟨trivial, Setting.wpe_pure stable_settled ⟨v, checked, ?_, hsettles⟩⟩
  exact records_nextState hsettles.parse_raw _ _ rfl

/-- A pass that came past its replay and went through leaves an answer on record. -/
theorem settled_of_pass {version : ServerVersion} (hraw : ServerVersion.parse raw = some version)
    {time : DateTime} {report : SyncReport} {w' : World Unit}
    (hrun : (checking (Names raw) fun t => t = time).setting.Reaches
      ((sync client options).run, w) (.done (.ok report), w'))
    (hreplay : report.replay.authFailed = false) :
    Settled raw w.db.syncState time.timestamp options.serverVersionTtlSecs w' := by
  have hstate : (checking (Names raw) fun t => t = time).setting.Stable
      fun w₁ => w₁.db.syncState = w.db.syncState := by
    rintro w₁ _ ⟨s, hs, rfl⟩ hw
    exact (syncState_exec hs _).trans hw
  have hsync : (checking (Names raw) fun t => t = time).setting.wpe Outside.noPromise
      (sync client options)
      (fun report w' => report.replay.authFailed = false →
        Settled raw w.db.syncState time.timestamp options.serverVersionTtlSecs w')
      (fun _ _ => True) w := by
    have hend (report : SyncReport) : (checking (Names raw) fun t => t = time).setting.Stable
        fun w' => report.replay.authFailed = false →
          Settled raw w.db.syncState time.timestamp options.serverVersionTtlSecs w' :=
      fun w₁ w₂ henv hw hpassed => stable_settled _ _ henv (hw hpassed)
    refine Setting.wpe_bind (fun _ => stable_true) (Outside.wpe_query hstate rfl
      (fun _ => Setting.wpe_stable _) (fun _ => stable_true) ?_ (fun _ _ _ => trivial)
      (fun _ _ _ => trivial))
    intro w₁ h₁
    refine Setting.wpe_bind (fun _ => stable_true) (Outside.wpe_now stable_true trivial
      (fun _ => Setting.wpe_stable _) ?_)
    rintro w₂ - _ o rfl
    refine ⟨trivial, Setting.wpe_bind (fun _ => stable_true)
      (Setting.wpe_mono ?_ (fun _ _ h => h) (wpe_any _))⟩
    intro replay w₃ _
    split
    · next hauth =>
        refine Setting.wpe_pure (hend _) fun hpassed => ?_
        rw [hauth] at hpassed
        cases hpassed
    · refine Setting.wpe_mono (fun report w₄ h₄ _ => ?_) (fun _ _ h => h)
        (wpe_afterReplay hraw replay)
      rwa [← h₁]
  exact Setting.wpe_finished hsync hrun hreplay

end Asking

/-! ### Runs -/

section Runs

variable [Endpoints] [UrlLibrary] [IconDecoder]

/-- The worker's jobs, its passes with one time to live. -/
inductive Job (ttl : ℤ) : ∀ α : Type, Program Op Op.Ans α → Prop
  | flush (client : MinifluxClient) : Job ttl _ (Replay.flush client).run
  | sync (client : MinifluxClient) (options : SyncOptions)
      (h : options.serverVersionTtlSecs = ttl) : Job ttl _ (sync client options).run

/-- Any server, while an answer is young. -/
def young (checked ttl : ℤ) : Outside Unit :=
  checking (fun _ => True) fun t => saturatingSub t.timestamp checked < ttl

variable {ttl : ℤ} {w₀ w₁ : World Unit}

theorem wp_job {α : Type} {p : Program Op Op.Ans α} (hjob : Job ttl α p) {w : World Unit}
    (hw : Recorded v checked w) :
    (young checked ttl).setting.wp (Setting.keeps (Recorded v checked)) p
      (fun _ => Recorded v checked) w := by
  cases hjob with
  | flush client =>
      refine Setting.wp_weaken (fun _ _ _ _ _ h => h.2) (Setting.wp_mono ?_ (wpe_flush client hw))
      rintro (e | outcome) w h <;> exact h
  | sync client options h =>
      subst h
      refine Setting.wp_weaken (fun _ _ _ _ _ h => h.2)
        (Setting.wp_mono ?_ (wpe_sync client options (fun _ h => h) hw))
      rintro (e | report) w h <;> exact h

theorem recorded_of_idle (hw₀ : Recorded v checked w₀)
    (hw₁ : (young checked ttl).setting.Idle (Job ttl) Crash w₀ w₁) : Recorded v checked w₁ := by
  refine hw₁.invariant stable_recorded ?_ (fun _ _ hjob _ hw => wp_job hjob hw) hw₀
  rintro w w' ⟨hdb, -⟩ hw
  unfold Recorded
  rwa [hdb]

/-- Within the time to live of an answer on record a pass asks for the version
only before a write, and only with a client that knows none. -/
theorem cell_of_ask (hw₀ : Recorded v checked w₀)
    (hw₁ : (young checked ttl).setting.Idle (Job ttl) Crash w₀ w₁) {client : MinifluxClient}
    {options : SyncOptions} (httl : options.serverVersionTtlSecs = ttl) {t : Transport}
    {next : Answer .version → Program Op Op.Ans (Except Error SyncReport)} {w₂ : World Unit}
    (hrun : (young checked ttl).setting.Reaches ((sync client options).run, w₁)
      (.call (.send t .version) next, w₂)) : w₂.cells client.cell = none := by
  subst httl
  have hw : (young checked options.serverVersionTtlSecs).setting.wpe
      (sparing v checked client.cell) (sync client options) (fun _ => Recorded v checked)
      (fun _ => Recorded v checked) w₁ :=
    wpe_sync client options (fun _ h => h) (recorded_of_idle hw₀ hw₁)
  exact (Setting.wp_called hw hrun (Outside.act_send_of (r := .error .cancelled) (o := ())
    (by exact trivial))).1 ⟨t, rfl⟩

/-- After its replay such a pass asks for none. -/
theorem not_asked_afterReplay (hw₀ : Recorded v checked w₀)
    (hw₁ : (young checked ttl).setting.Idle (Job ttl) Crash w₀ w₁) (client : MinifluxClient)
    {options : SyncOptions} (httl : options.serverVersionTtlSecs = ttl) {now : ℤ}
    (hnow : saturatingSub now checked < ttl) (replay : ReplayOutcome) {t : Transport}
    {next : Answer .version → Program Op Op.Ans (Except Error SyncReport)} {w₂ w₃ : World Unit} :
    ¬(young checked ttl).setting.Reaches
      ((afterReplay client options w₁.db.syncState now replay).run, w₂)
      (.call (.send t .version) next, w₃) := by
  subst httl
  intro hrun
  have hcalls : CallsE (Op.Fetches fun _ => True)
      (afterReplay client options w₁.db.syncState now replay) :=
    fetches_afterReplay client options replay (fun _ _ => trivial)
      (cachedVersion_eq_some_iff.2 ⟨checked, recorded_of_idle hw₀ hw₁, hnow⟩) fun _ _ => trivial
  exact (hrun.calls hcalls).1.2 rfl

/-- The versions of a server, on every run: what is on record answers the gates
as the server's own words do, and is not asked for again while it is young. -/
theorem gating :
    (∀ (raw : String) (version : ServerVersion) (client : MinifluxClient) (options : SyncOptions)
        (time : DateTime) (w w' : World Unit) (report : SyncReport),
      ServerVersion.parse raw = some version →
      (checking (Names raw) fun t => t = time).setting.Reaches
        ((sync client options).run, w) (.done (.ok report), w') →
      report.replay.authFailed = false →
      Settled raw w.db.syncState time.timestamp options.serverVersionTtlSecs w') ∧
    (∀ (v : ServerVersion) (checked ttl : ℤ) (w₀ w₁ : World Unit), Recorded v checked w₀ →
      (young checked ttl).setting.Idle (Job ttl) Crash w₀ w₁ →
      ∀ (client : MinifluxClient) (options : SyncOptions), options.serverVersionTtlSecs = ttl →
        (∀ t next w₂, (young checked ttl).setting.Reaches ((sync client options).run, w₁)
          (.call (.send t .version) next, w₂) → w₂.cells client.cell = none) ∧
        ∀ now, saturatingSub now checked < ttl → ∀ replay t next w₂ w₃,
          ¬(young checked ttl).setting.Reaches
            ((afterReplay client options w₁.db.syncState now replay).run, w₂)
            (.call (.send t .version) next, w₃)) ∧
    (∀ raw major minor patch,
      (ServerVersion.named (ServerVersion.named raw).raw).atLeast major minor patch =
        (ServerVersion.named raw).atLeast major minor patch) ∧
    (∀ raw, parseU32 (ServerVersion.leading raw) = none →
      (ServerVersion.named raw).hasEntryIdsEndpoint = false ∧
        (ServerVersion.named raw).enforcesEntryLimitCap = false ∧
        (ServerVersion.named raw).supportsEntryStateWrites = false) ∧
    ∀ a b c a' b' c', a < 4294967296 → b < 4294967296 → c < 4294967296 →
      a' < 4294967296 → b' < 4294967296 → c' < 4294967296 →
      (a < a' ∨ a = a' ∧ (b < b' ∨ b = b' ∧ c ≤ c')) →
      ∀ major minor patch,
        (ServerVersion.named (String.ofList (ServerVersion.release a b c))).atLeast
          major minor patch = true →
        (ServerVersion.named (String.ofList (ServerVersion.release a' b' c'))).atLeast
          major minor patch = true := by
  refine ⟨?_, ?_, ?_, fun _ => ServerVersion.gates_of_unnamed, ?_⟩
  · intro raw version client options time w w' report hraw hrun hreplay
    exact settled_of_pass hraw hrun hreplay
  · intro v checked ttl w₀ w₁ hw₀ hw₁ client options httl
    refine ⟨fun t next w₂ hrun => cell_of_ask hw₀ hw₁ httl hrun, ?_⟩
    intro now hnow replay t next w₂ w₃
    exact not_asked_afterReplay hw₀ hw₁ client httl hnow replay
  · intro raw major minor patch
    exact ServerVersion.atLeast_of_same (ServerVersion.named_raw raw) major minor patch
  · intro a b c a' b' c' ha hb hc ha' hb' hc' hle major minor patch
    rw [ServerVersion.named, ServerVersion.named, ServerVersion.parse_release ha hb hc,
      ServerVersion.parse_release ha' hb' hc', Option.getD_some, Option.getD_some]
    have hprecedes : ServerVersion.Precedes
        ⟨String.ofList (ServerVersion.release a b c), a, b, c⟩
        ⟨String.ofList (ServerVersion.release a' b' c'), a', b', c'⟩ :=
      hle
    exact ServerVersion.atLeast_mono hprecedes

end Runs

/-! ### A process started again -/

section StartedAgain

open scoped Reader

/-- The answer of a moment ago. -/
def answeredState : SyncState where
  cursorChangedAfter := none
  syncGeneration := 1
  lastFullReconcileAt := none
  serverEra := none
  serverVersion := some "2.3.2"
  serverVersionCheckedAt := some 1700000000

/-- An action of the reader waits, and no client has asked yet. -/
def startedAgain : World Unit :=
  ⟨(Statement.setSyncState answeredState).exec (Outbox.queue 7 (.starred true) 0 (mirrorOf 7)),
    fun _ => none, ()⟩

theorem reaches_ask : ∃ next, (young 1700000000 86400).setting.Reaches
    ((sync readerClient withoutIcons).run, startedAgain)
    (.call (.send readerTransport .version) next, startedAgain) := by
  have hclock : (young 1700000000 86400).now () (secondsAfter 1700000001 (by decide)) () := by
    change saturatingSub 1700000001 1700000000 < 86400
    decide
  exact ⟨_, .call (Outside.act_query_ok .syncState _) (.call (Outside.act_now_of hclock)
    (.call (Outside.act_query_ok .pending _) (.call (Outside.act_knownVersion 0 _) .refl)))⟩

theorem gating_startedAgain :
    (∃ next w, (young 1700000000 86400).setting.Reaches
      ((sync readerClient withoutIcons).run, startedAgain)
      (.call (.send readerTransport .version) next, w) ∧ w.cells readerClient.cell = none) ∧
    (ServerVersion.named (String.ofList (ServerVersion.release 2 4 0))).atLeast 2 3 2 = true := by
  have hrecorded : Recorded ⟨"2.3.2", 2, 3, 2⟩ 1700000000 startedAgain := ⟨by decide, rfl⟩
  obtain ⟨next, hrun⟩ := reaches_ask
  refine ⟨⟨next, startedAgain, hrun, ?_⟩, ?_⟩
  · exact (gating.2.1 _ _ _ _ _ hrecorded .start readerClient withoutIcons rfl).1 _ _ _ hrun
  · exact gating.2.2.2.2 2 3 2 2 4 0 (by decide) (by decide) (by decide) (by decide) (by decide)
      (by decide) (by decide) 2 3 2 (by decide)

/-- A fresh answer is on record, and the pass asks; a server without a number is
asked by every pass; a hash of digits opens the gates. -/
theorem asked_again :
    (Recorded ⟨"2.3.2", 2, 3, 2⟩ 1700000000 startedAgain ∧
      ∃ next, (young 1700000000 86400).setting.Reaches
        ((sync readerClient withoutIcons).run, startedAgain)
        (.call (.send readerTransport .version) next, startedAgain)) ∧
    (∀ now, cachedVersion (nextState answeredState 1700000000
      { SyncReport.default with serverVersion := some (ServerVersion.named "dev").raw }
      (ServerVersion.named "dev") (some 1700000000)) now 86400 = none) ∧
    (ServerVersion.named "12345678").supportsEntryStateWrites = true := by
  refine ⟨⟨⟨by decide, rfl⟩, reaches_ask⟩, ?_, by decide⟩
  intro now
  exact cachedVersion_of_unreadable (by decide) now 86400

end StartedAgain

end Versions

end Vuo
