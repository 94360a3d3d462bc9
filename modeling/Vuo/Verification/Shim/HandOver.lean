import Vuo.Foundation.Worker
import Vuo.Model.Shim.Settings
import Vuo.Verification.Shim.Accounts

/-!
# Handing the stored account over

The file, the context of the pages and the worker are made to match by a sequence
of steps, each of which may fail, while the worker takes what it was sent. What
counts is what the worker has been told once it has taken everything.
-/

namespace Vuo.Shim

open Foundation

/-! ## What the worker has been told -/

/-- The accounts handed to the worker, the settings it was told last, and for each
test the account it is about. -/
structure Told where
  accounts : List Handed
  interval : Option ℤ
  retention : Option ℤ
  wifiOnly : Bool
  asked : List (Option Handed)

namespace Told

def start : Told where
  accounts := []
  interval := none
  retention := none
  wifiOnly := false
  asked := []

/-- The account the worker serves, or would if it were usable. -/
def served (t : Told) : Option Handed :=
  t.accounts.getLast?

def hear (t : Told) : Notification → Told
  | .configure account => { t with accounts := t.accounts ++ [account] }
  | .setSyncInterval minutes => { t with interval := minutes }
  | .setRetention seconds => { t with retention := seconds }
  | .setWifiOnly enabled => { t with wifiOnly := enabled }
  | .testConnection => { t with asked := t.asked ++ [t.served] }

/-- After `publish`. -/
def keep (account : Account) (t : Told) : Told :=
  { t with
    interval := syncIntervalMinutesFor account.syncIntervalIndex
    retention := retentionSecondsFor account.retentionIndex
    wifiOnly := account.wifiOnly }

@[simp]
theorem served_keep (account : Account) (t : Told) : (t.keep account).served = t.served :=
  rfl

@[simp]
theorem served_configure (account : Handed) (t : Told) :
    (t.hear (.configure account)).served = some account := by
  simp [hear, served]

end Told

/-! ## The surroundings of the pages -/

structure Session where
  disk : Disk
  context : Option AppContext
  channel : List Notification
  worker : Told
  running : Bool

/-- What the worker knows once it has taken everything. -/
def Session.settled (w : Session) : Told :=
  w.channel.foldl Told.hear w.worker

/-- The worker takes a message, or is gone. -/
inductive Session.Moves (w : Session) : Session → Prop
  | takes {m : Notification} {rest : List Notification} (h : w.channel = m :: rest) :
      Moves w { w with channel := rest, worker := w.worker.hear m }
  | stops : Moves w { w with channel := [], running := false }

/-- Another process begins; the file may be any. -/
def Restart (_ w : Session) : Prop :=
  w.context = none

section HandOver

variable [JsonText]

def deskAct : (op : DeskOp) → Session → op.Ans → Session → Prop
  | .loadAccount, w, r, w' => r = loadAccount w.disk ∧ w' = w
  | .saveAccount account, w, r, w' =>
      ∃ disk, fileSystem.Reaches ((Shim.saveAccount account).run, w.disk) (.done r, disk) ∧
        w' = { w with disk := disk }
  | .readCa, w, _, w' => w' = w
  | .openMirror, w, _, w' => w' = w
  | .current, w, r, w' => r = w.context ∧ w' = w
  | .install ctx, w, _, w' => w' = { w with context := some ctx }
  | .setMediaPolicy policy, w, _, w' =>
      w' = { w with context := w.context.map fun ctx => { ctx with mediaPolicy := policy } }
  | .setMarkReadDelayIndex index, w, _, w' =>
      w' = { w with context := w.context.map fun ctx => { ctx with markReadDelayIndex := index } }
  | .send m, w, r, w' =>
      r = w.running ∧ w' = if w.running then { w with channel := w.channel ++ [m] } else w

def desk : Setting DeskOp DeskOp.Ans Session where
  act := deskAct
  env := Session.Moves

def free : Setting.Guarantee DeskOp DeskOp.Ans Session :=
  fun _ _ _ _ => True

/-- The file, the context, and what a worker that still runs comes to know. -/
structure At (disk : Disk) (context : Option AppContext) (told : Told) (w : Session) :
    Prop where
  disk : w.disk = disk
  context : w.context = context
  told : w.running = true → w.settled = told

variable {disk : Disk} {context : Option AppContext} {told : Told} {w : Session}

theorem stable_at (disk : Disk) (context : Option AppContext) (told : Told) :
    desk.Stable (At disk context told) := by
  rintro w w' (⟨hchannel⟩ | _) hat
  · refine ⟨hat.disk, hat.context, fun hrunning => ?_⟩
    rw [← hat.told hrunning, Session.settled, Session.settled, hchannel]
    rfl
  · exact ⟨hat.disk, hat.context, fun hrunning => by cases hrunning⟩

/-- A worker that is gone stays gone. -/
theorem running_of_reaches {α : Type} {p p' : DeskAction α} {w w' : Session}
    (h : desk.Reaches (p, w) (p', w')) (hrunning : w'.running = true) : w.running = true := by
  have hgone : desk.Stable fun w => w.running = false := by
    rintro w w' (⟨hchannel⟩ | _) hw
    · exact hw
    · rfl
  cases hw : w.running with
  | true => rfl
  | false =>
      have hwp : desk.wp (fun _ _ _ w' => w'.running = false) p (fun _ w' => w'.running = false)
          w := by
        refine Setting.wp_of_calls hgone (fun op _ w r w' hact hw => ?_) (Program.Calls.any p) hw
        suffices hkept : w'.running = false from ⟨hkept, hkept⟩
        cases op with
        | loadAccount =>
            obtain ⟨-, rfl⟩ := hact
            exact hw
        | saveAccount account =>
            obtain ⟨disk, -, rfl⟩ := hact
            exact hw
        | current =>
            obtain ⟨-, rfl⟩ := hact
            exact hw
        | send m =>
            obtain ⟨-, rfl⟩ := hact
            rw [if_neg (by simp [hw])]
            exact hw
        | _ =>
            cases hact
            exact hw
      have hend := Setting.invariant_of_wp hwp hgone (fun _ _ _ _ h => h) hw h
      exact absurd hrunning (by simp [hend])

/-! ## Single steps -/

section Steps

variable {Q : Bool → Session → Prop}

/-- What is sent is heard, unless there is no one to hear anything. -/
theorem wp_send {m : Notification} (hw : At disk context told w)
    (hsent : ∀ w', At disk context (told.hear m) w' → Q true w')
    (hgone : ∀ w', (∀ t, At disk context t w') → Q false w') :
    desk.wp free (Desk.send m) Q w := by
  refine Setting.wp_call (stable_at disk context told) hw ?_
  rintro w₁ h₁ r w₂ ⟨rfl, rfl⟩
  refine ⟨trivial, ?_⟩
  cases hrunning : w₁.running with
  | true =>
      refine Setting.wp_done (stable_at disk context (told.hear m)) ?_ hsent
      rw [if_pos rfl]
      refine ⟨h₁.disk, h₁.context, fun _ => ?_⟩
      simp [Session.settled, ← h₁.told hrunning, List.foldl_append]
  | false =>
      refine Setting.wp_done (Setting.Stable.forall fun t => stable_at disk context t) ?_ hgone
      intro t
      rw [if_neg (by simp)]
      exact ⟨h₁.disk, h₁.context, fun h => by simp [hrunning] at h⟩

theorem wp_tell {m : Notification} (hw : At disk context told w) :
    desk.wp free (Desk.send m) (fun _ => At disk context (told.hear m)) w :=
  wp_send hw (fun _ h => h) fun _ h => h _

end Steps

/-- A step that changes neither the file nor the context nor what was told. -/
theorem wp_look {op : DeskOp} {R : op.Ans → Prop} {Q : op.Ans → Session → Prop}
    (hw : At disk context told w)
    (hact : ∀ w r w', At disk context told w → deskAct op w r w' → w' = w ∧ R r)
    (hQ : ∀ r, R r → ∀ w, At disk context told w → Q r w) :
    desk.wp free (Desk.call op) Q w := by
  refine Setting.wp_call (stable_at disk context told) hw ?_
  intro w₁ h₁ r w₂ h
  obtain ⟨rfl, hr⟩ := hact w₁ r w₂ h₁ h
  exact ⟨trivial, Setting.wp_done (stable_at disk context told) h₁ (hQ r hr)⟩

theorem wp_current {Q : Option AppContext → Session → Prop} (hw : At disk context told w)
    (hQ : ∀ w, At disk context told w → Q context w) :
    desk.wp free (Desk.call .current) Q w := by
  refine wp_look (R := fun r : DeskOp.Ans .current => r = context) hw ?_ ?_
  · rintro w₁ r w₂ h₁ ⟨rfl, rfl⟩
    exact ⟨rfl, h₁.context⟩
  · rintro r rfl w h
    exact hQ w h

theorem wp_loadAccount {Q : Except Error Account → Session → Prop} (hw : At disk context told w)
    (hQ : ∀ w, At disk context told w → Q (loadAccount disk) w) :
    desk.wp free (Desk.call .loadAccount) Q w := by
  refine wp_look (R := fun r : DeskOp.Ans .loadAccount => r = loadAccount disk) hw ?_ ?_
  · rintro w₁ r w₂ h₁ ⟨rfl, rfl⟩
    exact ⟨rfl, by rw [h₁.disk]⟩
  · rintro r rfl w h
    exact hQ w h

/-- A step that replaces the context. -/
theorem wp_context {op : DeskOp} {Q : op.Ans → Session → Prop} (context' : Option AppContext)
    (hw : At disk context told w)
    (hact : ∀ w r w', w.context = context → deskAct op w r w' →
      w' = { w with context := context' })
    (hQ : ∀ r w, At disk context' told w → Q r w) : desk.wp free (Desk.call op) Q w := by
  refine Setting.wp_call (stable_at disk context told) hw ?_
  intro w₁ h₁ r w₂ h
  obtain rfl := hact w₁ r w₂ h₁.context h
  exact ⟨trivial, Setting.wp_done (stable_at disk context' told) ⟨h₁.disk, rfl, h₁.told⟩ (hQ r)⟩

/-- A save that succeeds leaves the account; one that fails leaves anything. -/
theorem wp_saveAccount {account : Account} {Q : Except Error Unit → Session → Prop}
    (hw : At disk context told w)
    (hsaved : ∀ disk' w, Written account disk' → At disk' context told w → Q (.ok ()) w)
    (hfailed : ∀ e disk' w, At disk' context told w → Q (.error e) w) :
    desk.wp free (Desk.call (.saveAccount account)) Q w := by
  refine Setting.wp_call (stable_at disk context told) hw ?_
  rintro w₁ h₁ r w₂ ⟨disk', hrun, rfl⟩
  have hat : At disk' context told { w₁ with disk := disk' } := ⟨rfl, h₁.context, h₁.told⟩
  refine ⟨trivial, Setting.wp_done (stable_at disk' context told) hat ?_⟩
  cases r with
  | error e => exact hfailed e disk'
  | ok u =>
      have hwritten := Setting.wpe_finished (wpe_saveAccount _ _) hrun
      exact fun w h => hsaved disk' w hwritten h

/-! ## A refresh -/

section Refresh

variable [UrlLibrary] [AccountHasher] {paths : AppPaths}

omit [UrlLibrary] [AccountHasher] in
theorem wp_publish (account : Account) (hw : At disk context told w) :
    desk.wp free (publish account) (fun _ => At disk context (told.keep account)) w := by
  refine Setting.wp_bind.2 (Setting.wp_mono (fun _ w₁ h₁ => ?_) (wp_tell hw))
  refine Setting.wp_bind.2 (Setting.wp_mono (fun _ w₂ h₂ => ?_) (wp_tell h₁))
  refine Setting.wp_bind.2 (Setting.wp_mono (fun _ w₃ h₃ => ?_) (wp_tell h₂))
  exact Setting.wp_done' (stable_at _ _ _) h₃

/-- The context and what the worker is handed are of one account. -/
structure OfAccount (account : Account) (ctx : AppContext) (handed : Handed) : Prop where
  fingerprint : ctx.fingerprint = fingerprint account
  parsed : UrlLibrary.parse account.serverUrl = some ctx.origin
  server : handed.server = ctx.origin
  token : handed.token = account.token
  certificate : handed.extraCaPem.isSome = true ↔
    account.useCustomCa = true ∧ ctx.origin.scheme = "https"

/-- The context has the settings of the account for the pages. -/
structure AppContext.Keeps (account : Account) (ctx : AppContext) : Prop where
  mediaPolicy : ctx.mediaPolicy = account.mediaPolicy
  markReadDelayIndex : ctx.markReadDelayIndex = account.markReadDelayIndex

omit [AccountHasher] in
theorem wpe_transportConfigFor {account : Account} {server : Url}
    (hparse : UrlLibrary.parse account.serverUrl = some server) (hw : At disk context told w) :
    desk.wpe free (transportConfigFor paths account)
      (fun pem w => (pem.isSome = true ↔ account.useCustomCa = true ∧ server.scheme = "https") ∧
        At disk context told w)
      (fun _ => At disk context told) w := by
  unfold transportConfigFor
  rw [hparse]
  by_cases h : account.useCustomCa = true ∧ server.scheme = "https"
  · rw [if_pos (by simp [h])]
    refine Setting.wpe_bind (fun _ => stable_at _ _ _) (Setting.wpe_lift ?_)
    refine wp_look (R := fun _ => True) hw (fun _ _ _ _ hact => ⟨hact, trivial⟩) ?_
    rintro (e | pem) - w₁ h₁
    · exact Setting.wpe_throw (stable_at _ _ _) h₁
    · exact Setting.wp_done (stable_at _ _ _) h₁ fun w₂ h₂ => ⟨by simp [h], h₂⟩
  · rw [if_neg (by simpa using h)]
    exact Setting.wp_done (stable_at _ _ _) hw fun w₁ h₁ => ⟨by simpa using h, h₁⟩

theorem wpe_buildFrom {account : Account} (hw : At disk context told w) :
    desk.wpe free (buildFrom paths account)
      (fun ctx w => ctx.Keeps account ∧ ∃ handed, OfAccount account ctx handed ∧
        At disk context ((told.hear (.configure handed)).keep account) w)
      (fun _ => At disk context told) w := by
  unfold buildFrom
  cases hparse : UrlLibrary.parse account.serverUrl with
  | none => exact Setting.wpe_throw (stable_at _ _ _) hw
  | some server =>
      have hE (e : Error) : desk.Stable ((fun _ => At disk context told : Error → _) e) :=
        stable_at _ _ _
      refine Setting.wpe_bind hE (Setting.wpe_mono ?_ (fun _ _ h => h)
        (wpe_transportConfigFor hparse hw))
      rintro pem w₁ ⟨hpem, h₁⟩
      refine Setting.wpe_bind hE (Setting.wp_mono ?_ (wp_look (R := fun _ => True)
        (Q := fun _ => At disk context told) h₁ (fun _ _ _ _ hact => ⟨hact, trivial⟩)
        fun _ _ _ h => h))
      rintro (e | u) w₂ h₂
      · exact h₂
      · refine Setting.wpe_bind hE (Setting.wpe_lift (wp_send h₂ (fun w₃ h₃ => ?_) fun w₃ h₃ => ?_))
        · refine Setting.wpe_bind hE (Setting.wpe_lift (Setting.wp_mono ?_
            (wp_publish account h₃)))
          intro _ w₄ h₄
          refine Setting.wp_done (stable_at _ _ _) h₄ fun w₅ h₅ => ?_
          exact ⟨⟨rfl, rfl⟩, _, ⟨rfl, hparse, rfl, rfl, hpem⟩, h₅⟩
        · exact Setting.wpe_throw (stable_at _ _ _) (h₃ told)

/-- What a refresh made of the context and told the worker: nothing where the
context already was for the account. -/
inductive Refreshed (account : Account) (context : Option AppContext) (told : Told) :
    AppContext → Option AppContext → Told → Prop
  | kept {ctx : AppContext} (hctx : context = some ctx)
      (hsame : ctx.fingerprint = fingerprint account) :
      Refreshed account context told ctx context told
  | rebuilt {ctx : AppContext} {handed : Handed}
      (hother : ∀ old, context = some old → old.fingerprint ≠ fingerprint account)
      (hof : OfAccount account ctx handed) (hkeeps : ctx.Keeps account) :
      Refreshed account context told ctx (some ctx) ((told.hear (.configure handed)).keep account)

/-- ... in the world it left. -/
def RefreshedTo (account : Account) (disk : Disk) (context : Option AppContext) (told : Told)
    (ctx : AppContext) (w : Session) : Prop :=
  ∃ context' told', Refreshed account context told ctx context' told' ∧ At disk context' told' w

theorem wpe_install {account : Account} (hw : At disk context told w)
    (hother : ∀ old, context = some old → old.fingerprint ≠ fingerprint account) :
    desk.wpe free (install paths account) (RefreshedTo account disk context told)
      (fun _ => At disk context told) w := by
  have hE (e : Error) : desk.Stable ((fun _ => At disk context told : Error → _) e) :=
    stable_at _ _ _
  refine Setting.wpe_bind hE (Setting.wpe_mono ?_ (fun _ _ h => h) (wpe_buildFrom hw))
  rintro ctx w₁ ⟨hkeeps, handed, hof, h₁⟩
  refine Setting.wpe_bind hE (Setting.wpe_lift (wp_context _ h₁ (fun _ _ _ _ hact => hact) ?_))
  intro _ w₂ h₂
  refine Setting.wp_done (stable_at _ _ _) h₂ fun w₃ h₃ => ?_
  exact ⟨_, _, .rebuilt hother hof hkeeps, h₃⟩

/-- A refresh goes by the account in the file. A failed one changes nothing. -/
theorem wpe_refresh (hw : At disk context told w) :
    desk.wpe free (refresh paths)
      (fun ctx w => ∃ account, loadAccount disk = .ok account ∧
        RefreshedTo account disk context told ctx w)
      (fun _ => At disk context told) w := by
  have hE (e : Error) : desk.Stable ((fun _ => At disk context told : Error → _) e) :=
    stable_at _ _ _
  refine Setting.wpe_bind hE (wp_loadAccount hw fun w₁ h₁ => ?_)
  cases hload : loadAccount disk with
  | error e => exact h₁
  | ok account =>
      refine Setting.wpe_bind hE (Setting.wpe_lift (wp_current h₁ fun w₂ h₂ => ?_))
      have hinstall (hother : ∀ old, context = some old →
          old.fingerprint ≠ fingerprint account) :
          desk.wpe free (install paths account)
            (fun ctx w => ∃ a, (Except.ok account : Except Error Account) = .ok a ∧
              RefreshedTo a disk context told ctx w)
            (fun _ => At disk context told) w₂ :=
        Setting.wpe_mono (fun _ _ h => ⟨account, rfl, h⟩) (fun _ _ h => h) (wpe_install h₂ hother)
      cases context with
      | none => exact hinstall fun _ h => by cases h
      | some existing =>
          dsimp only
          split
          · next hsame =>
              refine Setting.wp_done (stable_at _ _ _) h₂ fun w₃ h₃ => ?_
              exact ⟨account, rfl, _, _, .kept rfl hsame, h₃⟩
          · next hdiffers =>
              refine hinstall ?_
              rintro _ ⟨⟩
              exact hdiffers

/-! ## A save -/

/-- The context with the settings of a form. -/
def AppContext.keeping (form : Account) (ctx : AppContext) : AppContext :=
  { ctx with
    mediaPolicy := form.mediaPolicy
    markReadDelayIndex := form.markReadDelayIndex }

/-- What a worker is told for the pages there are. -/
def Told.keepFor (form : Account) (context : Option AppContext) (told : Told) : Told :=
  if context.isSome then told.keep form else told

namespace Settings

omit [UrlLibrary] [AccountHasher] in
theorem wp_publishAll (form : Account) (hw : At disk context told w) :
    desk.wp free (publishAll form)
      (fun _ => At disk (context.map (AppContext.keeping form)) (told.keepFor form context)) w := by
  refine Setting.wp_bind.2 (wp_current hw fun w₁ h₁ => ?_)
  cases context with
  | none => exact Setting.wp_done' (stable_at _ _ _) h₁
  | some ctx =>
      refine Setting.wp_bind.2 (wp_context
        (some { ctx with mediaPolicy := form.mediaPolicy }) h₁ ?_ fun _ w₂ h₂ => ?_)
      · rintro w r w' hctx hact
        obtain rfl : w' = _ := hact
        rw [hctx]
        rfl
      refine Setting.wp_bind.2 (wp_context
        (some (ctx.keeping form)) h₂ ?_ fun _ w₃ h₃ => ?_)
      · rintro w r w' hctx hact
        obtain rfl : w' = _ := hact
        rw [hctx]
        rfl
      exact wp_publish form h₃

/-- A form without a server or without a key is not stored. -/
def Blank (form : Account) : Prop :=
  (trimmed form).serverUrl = "" ∨ (trimmed form).token = ""

/-- What came of a save: what it leaves to show, the file, the context, and what
the worker was told. -/
inductive Stored (form : Account) (notice : LocalNotice) (disk : Disk)
    (context : Option AppContext) (told : Told) :
    LocalNotice → Disk → Option AppContext → Told → Prop
  | blank (hblank : Blank form) : Stored form notice disk context told notice disk context told
  | unsaved {message : String} {disk' : Disk} (hform : ¬Blank form) :
      Stored form notice disk context told (some (false, message)) disk' context told
  | unusable {message : String} {disk' : Disk} (hform : ¬Blank form)
      (hwritten : Written (trimmed form) disk') :
      Stored form notice disk context told (some (false, message)) disk'
        (context.map (AppContext.keeping form)) (told.keepFor form context)
  | saved {disk' : Disk} {account : Account} {ctx : AppContext} {context' : Option AppContext}
      {told' : Told} (hform : ¬Blank form) (hwritten : Written (trimmed form) disk')
      (hload : loadAccount disk' = .ok account)
      (hrefreshed : Refreshed account context told ctx context' told') :
      Stored form notice disk context told notice disk' (some (ctx.keeping form))
        (told'.keep form)

/-- ... in the world it left. -/
def StoredTo (form : Account) (notice : LocalNotice) (disk : Disk) (context : Option AppContext)
    (told : Told) (shown : LocalNotice) (w : Session) : Prop :=
  ∃ disk' context' told', Stored form notice disk context told shown disk' context' told' ∧
    At disk' context' told' w

omit [JsonText] in
theorem context_of_refreshed {account : Account} {ctx : AppContext}
    {context' : Option AppContext} {told' : Told}
    (h : Refreshed account context told ctx context' told') : context' = some ctx := by
  cases h with
  | kept hctx _ => exact hctx
  | rebuilt _ _ _ => rfl

theorem wp_store (form : Account) (notice : LocalNotice) (hw : At disk context told w) :
    desk.wp free (store paths form notice) (StoredTo form notice disk context told) w := by
  unfold store
  dsimp only
  split
  · next hblank =>
      refine Setting.wp_done (stable_at _ _ _) hw fun w₁ h₁ => ?_
      exact ⟨_, _, _, .blank hblank, h₁⟩
  · next hform =>
      refine Setting.wp_bind.2 (wp_saveAccount hw (fun disk' w₁ hwritten h₁ => ?_)
        fun e disk' w₁ h₁ => ?_)
      · refine Setting.wp_bind.2 (Setting.wp_mono ?_ (wpe_refresh h₁))
        rintro (e | ctx) w₂ h₂
        · refine Setting.wp_bind.2 (Setting.wp_mono ?_ (wp_publishAll form h₂))
          intro _ w₃ h₃
          refine Setting.wp_done (stable_at _ _ _) h₃ fun w₄ h₄ => ?_
          exact ⟨_, _, _, .unusable hform hwritten, h₄⟩
        · obtain ⟨account, hload, context', told', hrefreshed, h₂⟩ := h₂
          obtain rfl := context_of_refreshed hrefreshed
          refine Setting.wp_bind.2 (Setting.wp_mono ?_ (wp_publishAll form h₂))
          intro _ w₃ h₃
          refine Setting.wp_done (stable_at _ _ _) h₃ fun w₄ h₄ => ?_
          exact ⟨_, _, _, .saved hform hwritten hload hrefreshed, h₄⟩
      · refine Setting.wp_done (stable_at _ _ _) h₁ fun w₂ h₂ => ?_
        exact ⟨_, _, _, .unsaved hform, h₂⟩

-- from here on only its rule is used
attribute [local irreducible] store

/-- What came of a test that was to follow on a save. -/
inductive Asked (context : Option AppContext) (told : Told) : LocalNotice → Told → Prop
  | queued {ctx : AppContext} (hctx : context = some ctx) :
      Asked context told none (told.hear .testConnection)
  | refused (message : String) : Asked context told (some (false, message)) told

omit [UrlLibrary] [AccountHasher] in
theorem wp_askTheWorker {notice : LocalNotice}
    (hnotice : ∀ n, notice = some n → ∃ message, n = (false, message))
    (hw : At disk context told w) :
    desk.wp free (askTheWorker notice)
      (fun shown w => ∃ told', Asked context told shown told' ∧
        (shown = none → notice = none) ∧ At disk context told' w) w := by
  cases notice with
  | some n =>
      obtain ⟨message, rfl⟩ := hnotice n rfl
      refine Setting.wp_done (stable_at _ _ _) hw fun w₁ h₁ => ?_
      exact ⟨_, .refused message, id, h₁⟩
  | none =>
      refine Setting.wp_bind.2 (wp_current hw fun w₁ h₁ => ?_)
      cases context with
      | none =>
          refine Setting.wp_done (stable_at _ _ _) h₁ fun w₂ h₂ => ?_
          exact ⟨_, .refused _, fun _ => rfl, h₂⟩
      | some ctx =>
          refine Setting.wp_bind.2 (wp_send h₁ (fun w₂ h₂ => ?_) fun w₂ h₂ => ?_)
          · refine Setting.wp_done (stable_at _ _ _) h₂ fun w₃ h₃ => ?_
            exact ⟨_, .queued rfl, fun _ => rfl, h₃⟩
          · refine Setting.wp_done (stable_at _ _ _) (h₂ told) fun w₃ h₃ => ?_
            exact ⟨_, .refused _, fun _ => rfl, h₃⟩

/-- ... in the world it left. -/
def AskedTo (form : Account) (disk : Disk) (context : Option AppContext) (told : Told)
    (shown : LocalNotice) (w : Session) : Prop :=
  ∃ stored disk' context' told' told'', Stored form none disk context told stored disk' context'
    told' ∧ Asked context' told' shown told'' ∧ (shown = none → stored = none) ∧
      At disk' context' told'' w

theorem wp_testConnection (form : Account) (hw : At disk context told w) :
    desk.wp free (testConnection (some paths) form) (AskedTo form disk context told) w := by
  refine Setting.wp_bind.2 (Setting.wp_mono ?_ (wp_store form none hw))
  rintro stored w₁ ⟨disk', context', told', hstored, h₁⟩
  refine Setting.wp_mono ?_ (wp_askTheWorker ?_ h₁)
  · rintro shown w₂ ⟨told'', hasked, hnone, h₂⟩
    exact ⟨stored, disk', context', told', told'', hstored, hasked, hnone, h₂⟩
  · rintro n rfl
    cases hstored with
    | unsaved _ => exact ⟨_, rfl⟩
    | unusable _ _ => exact ⟨_, rfl⟩

end Settings

/-! ## Whom the worker serves -/

/-- The worker was handed the account the context is for last, and it and the
context have the settings of one form. -/
structure Matches (ctx : AppContext) (told : Told) : Prop where
  account : ∃ account handed, told.served = some handed ∧ OfAccount account ctx handed
  settings : ∃ form, ctx.Keeps form ∧ told.keep form = told

section Matches

omit [JsonText]

theorem Matches.keeping {ctx : AppContext} (h : Matches ctx told) (form : Account) :
    Matches (ctx.keeping form) (told.keep form) := by
  obtain ⟨account, handed, hserved, hof⟩ := h.account
  exact ⟨⟨account, handed, hserved, ⟨hof.fingerprint, hof.parsed, hof.server, hof.token,
    hof.certificate⟩⟩, form, ⟨rfl, rfl⟩, rfl⟩

/-- Whatever context there is matches. -/
def AllMatch (context : Option AppContext) (told : Told) : Prop :=
  ∀ ctx, context = some ctx → Matches ctx told

theorem Refreshed.matches {account : Account} {ctx : AppContext} {context' : Option AppContext}
    {told' : Told} (h : Refreshed account context told ctx context' told')
    (hall : AllMatch context told) : Matches ctx told' := by
  cases h with
  | kept hctx _ => exact hall _ hctx
  | rebuilt _ hof hkeeps =>
      exact ⟨⟨account, _, by simp, hof⟩, account, hkeeps, rfl⟩

theorem AllMatch.keeping (h : AllMatch context told) (form : Account) :
    AllMatch (context.map (AppContext.keeping form)) (told.keepFor form context) := by
  cases context with
  | none => rintro _ ⟨⟩
  | some ctx =>
      rintro _ ⟨⟩
      exact (h ctx rfl).keeping form

end Matches

theorem Settings.Stored.matches {form : Account} {notice shown : LocalNotice} {disk' : Disk}
    {context' : Option AppContext} {told' : Told}
    (h : Settings.Stored form notice disk context told shown disk' context' told')
    (hall : AllMatch context told) : AllMatch context' told' := by
  cases h with
  | blank _ => exact hall
  | unsaved _ => exact hall
  | unusable _ _ => exact hall.keeping form
  | saved _ _ _ hrefreshed =>
      rintro _ ⟨⟩
      exact (hrefreshed.matches hall).keeping form

omit [JsonText] in
/-- A test does not change what is served. -/
theorem Settings.Asked.matches {shown : LocalNotice} {told' : Told}
    (h : Settings.Asked context told shown told') (hall : AllMatch context told) :
    AllMatch context told' := by
  cases h with
  | queued _ =>
      intro ctx hctx
      obtain ⟨haccount, form, hkeeps, hkept⟩ := hall ctx hctx
      exact ⟨haccount, form, hkeeps, by rw [← hkept]; rfl⟩
  | refused _ => exact hall

/-! ## Over the life of the app -/

attribute [local irreducible] Settings.store Settings.testConnection

/-- What the thread of the pages does about the account. -/
inductive DeskJob : (α : Type) → DeskAction α → Prop
  | start (paths : Option AppPaths) : DeskJob _ (refreshCurrent paths)
  | save (paths : Option AppPaths) (form : Account) (notice : LocalNotice) :
      DeskJob _ (Settings.save paths form notice)
  | testConnection (paths : Option AppPaths) (form : Account) :
      DeskJob _ (Settings.testConnection paths form)

/-- A worker that runs serves the account of the context, if there is one. -/
def HandedOver (w : Session) : Prop :=
  ∃ told, At w.disk w.context told w ∧ AllMatch w.context told

omit [JsonText] in
theorem At.handedOver (h : At disk context told w) (hall : AllMatch context told) :
    HandedOver w :=
  ⟨told, ⟨rfl, rfl, h.told⟩, by rw [h.context]; exact hall⟩

theorem stable_handedOver : desk.Stable HandedOver := by
  rintro w w' henv ⟨told, hat, hall⟩
  exact (stable_at _ _ _ _ _ henv hat).handedOver hall

theorem wp_job {α : Type} {p : DeskAction α} (hjob : DeskJob α p) (hw : HandedOver w) :
    desk.wp free p (fun _ => HandedOver) w := by
  obtain ⟨told, hat, hall⟩ := id hw
  cases hjob with
  | start paths =>
      cases paths with
      | none => exact Setting.wp_done' stable_handedOver hw
      | some paths =>
          refine Setting.wp_bind.2 (Setting.wp_mono ?_ (wpe_refresh hat))
          rintro (e | ctx) w₁ h₁
          · exact Setting.wp_done' stable_handedOver (h₁.handedOver hall)
          · obtain ⟨account, -, context', told', hrefreshed, h₁⟩ := h₁
            refine Setting.wp_done' stable_handedOver (h₁.handedOver ?_)
            intro ctx' hctx'
            rw [Settings.context_of_refreshed hrefreshed] at hctx'
            cases hctx'
            exact hrefreshed.matches hall
  | save paths form notice =>
      cases paths with
      | none => exact Setting.wp_done' stable_handedOver hw
      | some paths =>
          refine Setting.wp_mono ?_ (Settings.wp_store form notice hat)
          rintro shown w₁ ⟨disk', context', told', hstored, h₁⟩
          exact h₁.handedOver (hstored.matches hall)
  | testConnection paths form =>
      cases paths with
      | none =>
          rw [Settings.testConnection]
          exact Setting.wp_done' stable_handedOver hw
      | some paths =>
          refine Setting.wp_mono ?_ (Settings.wp_testConnection form hat)
          rintro shown w₁ ⟨stored, disk', context', told', told'', hstored, hasked, -, h₁⟩
          exact h₁.handedOver (hasked.matches (hstored.matches hall))

theorem handedOver_of_idle {w₀ w : Session} (hfresh : w₀.context = none)
    (hw : desk.Idle DeskJob Restart w₀ w) : HandedOver w := by
  have hnone {w : Session} (h : w.context = none) : HandedOver w :=
    ⟨w.settled, ⟨rfl, rfl, fun _ => rfl⟩, by rw [h]; rintro _ ⟨⟩⟩
  exact hw.restored stable_handedOver (fun _ w' h => hnone h)
    (fun _ _ hjob _ h => wp_job hjob h) (hnone hfresh)

/-- The file, the context and the worker have the form. The worker was handed an
account only where the server, the key or the certificate is another. -/
structure RunsOn (form : Account) (context : Option AppContext) (told : Told) (disk' : Disk)
    (context' : Option AppContext) (told' : Told) : Prop where
  stored : loadAccount disk' = .ok (Settings.trimmed form)
  shared : ∃ ctx, context' = some ctx ∧
    ctx.fingerprint = fingerprint (Settings.trimmed form) ∧ ctx.Keeps form ∧ Matches ctx told'
  settings : told'.keep form = told'
  kept : (∃ old, context = some old ∧ old.fingerprint = fingerprint (Settings.trimmed form)) →
    told'.accounts = told.accounts
  handed : (∀ old, context = some old → old.fingerprint ≠ fingerprint (Settings.trimmed form)) →
    ∃ handed, told'.accounts = told.accounts ++ [handed] ∧
      UrlLibrary.parse (Settings.trimmed form).serverUrl = some handed.server ∧
      handed.token = (Settings.trimmed form).token

/-- A save, after which the app goes on as before, or has something to say, or runs
on the form. -/
inductive SaveEnds (form : Account) (notice : LocalNotice) (disk : Disk)
    (context : Option AppContext) (told : Told) :
    LocalNotice → Disk → Option AppContext → Told → Prop
  | blank (hblank : Settings.Blank form) :
      SaveEnds form notice disk context told notice disk context told
  | failed {message : String} {disk' : Disk} {context' : Option AppContext} {told' : Told}
      (hform : ¬Settings.Blank form) (hsame : told'.accounts = told.accounts) :
      SaveEnds form notice disk context told (some (false, message)) disk' context' told'
  | saved {disk' : Disk} {context' : Option AppContext} {told' : Told}
      (hform : ¬Settings.Blank form) (hruns : RunsOn form context told disk' context' told') :
      SaveEnds form notice disk context told notice disk' context' told'

/-- A test, after which there is something to say, or the question is queued behind
the account it is about. -/
inductive TestEnds (form : Account) (context : Option AppContext) (told : Told) :
    LocalNotice → Disk → Option AppContext → Told → Prop
  | refused {message : String} {disk' : Disk} {context' : Option AppContext} {told' : Told}
      (hsame : told'.asked = told.asked) :
      TestEnds form context told (some (false, message)) disk' context' told'
  | blank {disk' : Disk} (hblank : Settings.Blank form) (hthere : context.isSome = true) :
      TestEnds form context told none disk' context (told.hear .testConnection)
  | saved {disk' : Disk} {context' : Option AppContext} {told' : Told}
      (hform : ¬Settings.Blank form) (hruns : RunsOn form context told disk' context' told')
      (hsame : told'.asked = told.asked) :
      TestEnds form context told none disk' context' (told'.hear .testConnection)

namespace Settings

variable {form : Account} {notice shown : LocalNotice} {disk' : Disk}
  {context' : Option AppContext} {told' : Told}

theorem runsOn_of_refreshed (hreads : ReadsBack (trimmed form)) (hall : AllMatch context told)
    {account : Account} {ctx : AppContext} (hwritten : Written (trimmed form) disk')
    (hload : loadAccount disk' = .ok account)
    (h : Refreshed account context told ctx context' told') :
    RunsOn form context told disk' (some (ctx.keeping form)) (told'.keep form) := by
  obtain rfl : trimmed form = account :=
    Except.ok.inj ((loadAccount_of_written hreads hwritten).symm.trans hload)
  have hmatches := (h.matches hall).keeping form
  cases h with
  | kept hctx hsame =>
      exact ⟨hload, ⟨_, rfl, hsame, ⟨rfl, rfl⟩, hmatches⟩, rfl, fun _ => rfl,
        fun hother => absurd hsame (hother _ hctx)⟩
  | @rebuilt handed hother hof hkeeps =>
      refine ⟨hload, ⟨_, rfl, hof.fingerprint, ⟨rfl, rfl⟩, hmatches⟩, rfl, ?_, ?_⟩
      · rintro ⟨old, hold, hsame⟩
        exact absurd hsame (hother old hold)
      · exact fun _ => ⟨handed, rfl, by rw [hof.parsed, hof.server], hof.token⟩

theorem Stored.ends (hreads : ReadsBack (trimmed form)) (hall : AllMatch context told)
    (h : Stored form notice disk context told shown disk' context' told') :
    SaveEnds form notice disk context told shown disk' context' told' := by
  cases h with
  | blank hblank => exact .blank hblank
  | unsaved hform => exact .failed hform rfl
  | unusable hform _ =>
      refine .failed hform ?_
      unfold Told.keepFor
      split <;> rfl
  | saved hform hwritten hload hrefreshed =>
      exact .saved hform (runsOn_of_refreshed hreads hall hwritten hload hrefreshed)

theorem asked_of_stored
    (h : Stored form notice disk context told shown disk' context' told') :
    told'.asked = told.asked := by
  cases h with
  | blank _ => rfl
  | unsaved _ => rfl
  | unusable _ _ =>
      unfold Told.keepFor
      split <;> rfl
  | saved _ _ _ hrefreshed => cases hrefreshed <;> rfl

/-- However saves and tests go, and whatever becomes of the worker meanwhile: a
worker that runs serves the account of the context. A save that leaves nothing new
to show has the app run on the form, a blank one apart; a test either leaves
something to show or asks about the account the worker serves. -/
theorem handed_over {w₀ w : Session} (hfresh : w₀.context = none)
    (hw : desk.Idle DeskJob Restart w₀ w) :
    ∃ told, At w.disk w.context told w ∧ AllMatch w.context told ∧
      ∀ (paths : AppPaths) (form : Account), ReadsBack (trimmed form) →
        (∀ notice shown w', desk.Reaches (save (some paths) form notice, w) (.done shown, w') →
          ∃ told', At w'.disk w'.context told' w' ∧
            SaveEnds form notice w.disk w.context told shown w'.disk w'.context told') ∧
        ∀ shown w', desk.Reaches (testConnection (some paths) form, w) (.done shown, w') →
          ∃ told', At w'.disk w'.context told' w' ∧
            TestEnds form w.context told shown w'.disk w'.context told' := by
  obtain ⟨told, hat, hall⟩ := handedOver_of_idle hfresh hw
  refine ⟨told, hat, hall, fun paths form hreads => ⟨?_, ?_⟩⟩
  · intro notice shown w' hrun
    obtain ⟨disk', context', told', hstored, h'⟩ :=
      Setting.wp_finished (wp_store form notice hat) hrun
    rw [h'.disk, h'.context]
    exact ⟨told', h', hstored.ends hreads hall⟩
  · intro shown w' hrun
    obtain ⟨stored, disk', context', told', told'', hstored, hasked, hnone, h'⟩ :=
      Setting.wp_finished (wp_testConnection form hat) hrun
    rw [h'.disk, h'.context]
    refine ⟨told'', h', ?_⟩
    cases hasked with
    | refused message => exact .refused (asked_of_stored hstored)
    | queued hctx =>
        obtain rfl := hnone rfl
        have hsame := asked_of_stored hstored
        cases hstored with
        | blank hblank => exact .blank hblank (by rw [hctx]; rfl)
        | saved hform hwritten hload hrefreshed =>
            exact .saved hform (runsOn_of_refreshed hreads hall hwritten hload hrefreshed) hsame

end Settings

end Refresh

end HandOver

/-! ## The first test -/

section FirstSave

/-- A save onto an empty disk that meets no obstacle. -/
theorem reaches_saveAccount [JsonText] {account : Account} {json : List UInt8}
    (hjson : JsonText.toVecPretty account.toJson = .ok json) (hsome : json ≠ []) :
    fileSystem.Reaches ((saveAccount account).run, none) (.done (.ok ()), some ⟨json, 0o600⟩) := by
  have hdirectory : fileSystem.act .createDirAll none (.ok ()) none := rfl
  have hopened : fileSystem.act (.openFile 0o600) none (.ok ()) (some ⟨[], 0o600⟩) :=
    .inr ⟨rfl, 0o600, rfl, rfl⟩
  have hsecured : fileSystem.act (.setPermissions 0o600) (some ⟨[], 0o600⟩) (.ok ())
      (some ⟨[], 0o600⟩) := rfl
  have hwritten : fileSystem.act (.write json) (some ⟨[], 0o600⟩) (.ok json.length)
      (some ⟨json, 0o600⟩) := ⟨le_rfl, by simp⟩
  obtain ⟨n, hn⟩ := Nat.exists_eq_succ_of_ne_zero (mt List.length_eq_zero_iff.1 hsome)
  have hwrite : fileSystem.Reaches (writeAll json, some ⟨[], 0o600⟩)
      (.done (.ok ()), some ⟨json, 0o600⟩) := by
    rw [writeAll, dif_neg hsome]
    refine .call hwritten ?_
    simp only [hn]
    rw [← Nat.succ_eq_add_one, ← hn, List.drop_length, writeAll]
    exact .refl
  refine .call hdirectory (.call hopened (.call hsecured ?_))
  rw [hjson]
  exact hwrite.bind _

attribute [local instance] secretJson

/-- Where the account is. -/
def secretServer : Url where
  scheme := "https"
  hostStr := some "h.example"
  portOrKnownDefault := some 443
  href := "https://h.example/"

abbrev secretUrls : UrlLibrary where
  parse s := if s = "https://h.example/" then some secretServer else none
  join _ _ := none

abbrev noHash : AccountHasher where
  hash _ _ _ := 0

attribute [local instance] secretUrls noHash

/-- A fresh start, with nothing stored. -/
def unconfigured : Session where
  disk := none
  context := none
  channel := []
  worker := .start
  running := true

def secretHanded : Handed :=
  ⟨⟨secretServer, "secret"⟩, none⟩

def secretContext : AppContext where
  origin := secretServer
  mediaPolicy := mediaAsk
  markReadDelayIndex := markReadDefaultIndex
  fingerprint := 0

/-- What is on its way to the worker after the first test. -/
def firstTest : List Notification :=
  [.configure secretHanded, .setSyncInterval (some 60), .setRetention none, .setWifiOnly false,
    .setSyncInterval (some 60), .setRetention none, .setWifiOnly false, .testConnection]

def tested : Session where
  disk := some ⟨secretText.toUTF8.data.toList, 0o600⟩
  context := some secretContext
  channel := firstTest
  worker := .start
  running := true

theorem trimmed_secretAccount : Settings.trimmed secretAccount = secretAccount := by
  decide

theorem reaches_tested :
    desk.Reaches (Settings.testConnection (some ⟨"ca.pem"⟩) secretAccount, unconfigured)
      (.done none, tested) := by
  have hload : loadAccount (some ⟨secretText.toUTF8.data.toList, 0o600⟩) = .ok secretAccount :=
    loadAccount_of_written readsBack_secretAccount ⟨_, rfl, rfl⟩
  have hsave : fileSystem.Reaches ((saveAccount (Settings.trimmed secretAccount)).run, none)
      (.done (.ok ()), some ⟨secretText.toUTF8.data.toList, 0o600⟩) :=
    reaches_saveAccount rfl (by decide)
  have hparse : UrlLibrary.parse secretAccount.serverUrl = some secretServer := if_pos rfl
  have hstart : desk.act (.saveAccount (Settings.trimmed secretAccount)) unconfigured (.ok ())
      { unconfigured with disk := some ⟨secretText.toUTF8.data.toList, 0o600⟩ } := ⟨_, hsave, rfl⟩
  have hload' : desk.act .loadAccount
      { unconfigured with disk := some ⟨secretText.toUTF8.data.toList, 0o600⟩ } (.ok secretAccount)
      { unconfigured with disk := some ⟨secretText.toUTF8.data.toList, 0o600⟩ } :=
    ⟨hload.symm, rfl⟩
  have hcurrent (w : Session) : desk.act .current w w.context w := ⟨rfl, rfl⟩
  have hsend (m : Notification) (context : Option AppContext) (channel : List Notification) :
      desk.act (.send m) ⟨tested.disk, context, channel, .start, true⟩ true
        ⟨tested.disk, context, channel ++ [m], .start, true⟩ := ⟨rfl, rfl⟩
  have hbuild : desk.Reaches ((buildFrom ⟨"ca.pem"⟩ secretAccount).run,
      { unconfigured with disk := tested.disk })
      (.done (.ok secretContext), ⟨tested.disk, none, firstTest.take 4, .start, true⟩) := by
    unfold buildFrom
    rw [hparse]
    have hopen : desk.act .openMirror { unconfigured with disk := tested.disk } (.ok ())
      { unconfigured with disk := tested.disk } := rfl
    exact .call hopen (.call (hsend _ _ _) (.call (hsend _ _ _) (.call (hsend _ _ _)
      (.call (hsend _ _ _) .refl))))
  have hinstall : desk.Reaches ((install ⟨"ca.pem"⟩ secretAccount).run,
      { unconfigured with disk := tested.disk })
      (.done (.ok secretContext),
        ⟨tested.disk, some secretContext, firstTest.take 4, .start, true⟩) := by
    have hinstalled : desk.act (.install secretContext)
        ⟨tested.disk, none, firstTest.take 4, .start, true⟩ ()
        ⟨tested.disk, some secretContext, firstTest.take 4, .start, true⟩ := rfl
    exact (hbuild.bind_ok _).trans (Setting.Reaches.call hinstalled .refl)
  have hrefresh : desk.Reaches ((refresh ⟨"ca.pem"⟩).run,
      { unconfigured with disk := tested.disk })
      (.done (.ok secretContext),
        ⟨tested.disk, some secretContext, firstTest.take 4, .start, true⟩) :=
    .call hload' (.call (hcurrent _) hinstall)
  have hmedia : desk.act (.setMediaPolicy secretAccount.mediaPolicy)
      ⟨tested.disk, some secretContext, firstTest.take 4, .start, true⟩ ()
      ⟨tested.disk, some secretContext, firstTest.take 4, .start, true⟩ := rfl
  have hmark : desk.act (.setMarkReadDelayIndex secretAccount.markReadDelayIndex)
      ⟨tested.disk, some secretContext, firstTest.take 4, .start, true⟩ ()
      ⟨tested.disk, some secretContext, firstTest.take 4, .start, true⟩ := rfl
  have hstore : desk.Reaches (Settings.store ⟨"ca.pem"⟩ secretAccount none, unconfigured)
      (.done none, ⟨tested.disk, some secretContext, firstTest.take 7, .start, true⟩) := by
    unfold Settings.store
    dsimp only
    rw [if_neg (by decide)]
    refine .call hstart ((hrefresh.bind _).trans ?_)
    exact Setting.Reaches.call (hcurrent _) (.call hmedia (.call hmark (.call (hsend _ _ _)
      (.call (hsend _ _ _) (.call (hsend _ _ _) .refl)))))
  exact (hstore.bind Settings.askTheWorker).trans
    (Setting.Reaches.call (hcurrent _) (.call (hsend _ _ _) .refl))

/-- The first test asks about the account as it was typed. -/
theorem Settings.handed_over_first : ∃ told told', At tested.disk tested.context told' tested ∧
    TestEnds secretAccount none told none tested.disk tested.context told' ∧
    told'.asked = [some secretHanded] := by
  have hfresh : unconfigured.context = none := rfl
  obtain ⟨told, -, -, hforms⟩ := Settings.handed_over hfresh .start
  have hreads : ReadsBack (trimmed secretAccount) := by
    rw [trimmed_secretAccount]
    exact readsBack_secretAccount
  obtain ⟨-, htests⟩ := hforms ⟨"ca.pem"⟩ secretAccount hreads
  obtain ⟨told', hat, hends⟩ := htests none tested reaches_tested
  refine ⟨told, told', hat, hends, ?_⟩
  rw [← hat.told rfl]
  rfl

end FirstSave

end Vuo.Shim
