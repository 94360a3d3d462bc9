import Vuo.Model.Shim.Feeds
import Vuo.Verification.Pass

/-!
# Edits of a feed

What an edit sends is compared with what was changed on the page, and what an
accepted edit writes with what was sent.
-/

namespace Vuo.Shim

open Foundation Vuo.Action

/-! ## What is sent -/

/-- The page passes the fields of the row it shows. -/
def FeedEdit.ofRow (current : FeedRow) : FeedEdit where
  title := current.title
  categoryId := current.categoryId
  crawler := current.crawler
  disabled := current.disabled
  hideGlobally := current.hideGlobally

/-- A title as it is asked for, the white space around it taken off. -/
def FeedEdit.asked (edit : FeedEdit) : String :=
  String.ofList (trim edit.title.toList)

/-- A field left as shown is not sent; one that was changed is sent as asked for. -/
structure Diff (current : FeedRow) (edit : FeedEdit) (sent : FeedPatch) : Prop where
  title_left : edit.title = current.title → sent.title = none
  title_changed : edit.title ≠ current.title → edit.asked ≠ "" → edit.asked ≠ current.title →
    sent.title = some edit.asked
  category_left : edit.categoryId = current.categoryId → sent.categoryId = none
  category_changed : edit.categoryId ≠ current.categoryId → 0 < edit.categoryId →
    sent.categoryId = some edit.categoryId
  crawler_left : edit.crawler = current.crawler → sent.crawler = none
  crawler_changed : edit.crawler ≠ current.crawler → sent.crawler = some edit.crawler
  disabled_left : edit.disabled = current.disabled → sent.disabled = none
  disabled_changed : edit.disabled ≠ current.disabled → sent.disabled = some edit.disabled
  hideGlobally_left : edit.hideGlobally = current.hideGlobally → sent.hideGlobally = none
  hideGlobally_changed : edit.hideGlobally ≠ current.hideGlobally →
    sent.hideGlobally = some edit.hideGlobally

/-- The title was changed, or has nothing around it that is trimmed off. -/
def FeedEdit.Plain (current : FeedRow) (edit : FeedEdit) : Prop :=
  edit.title = current.title → edit.asked = "" ∨ edit.asked = current.title

variable {current : FeedRow} {edit : FeedEdit}

theorem title_patch : (edit.patch current).title =
    if edit.asked ≠ "" ∧ edit.asked ≠ current.title then some edit.asked else none := by
  have hempty : edit.asked ≠ "" ↔ trim edit.title.toList ≠ [] :=
    String.ofList_eq_empty_iff.not
  simp only [hempty]
  rfl

/-- A choice is sent when it is not the row's. -/
theorem patch_choice {α : Type} [DecidableEq α] (asked shown : α) :
    (asked = shown → (if asked ≠ shown then some asked else none) = none) ∧
      (asked ≠ shown → (if asked ≠ shown then some asked else none) = some asked) :=
  ⟨fun h => if_neg (not_not.2 h), fun h => if_pos h⟩

/-- The difference is sent, unless white space around a title that was not touched
passes for a change. -/
theorem diff_patch_iff : Diff current edit (edit.patch current) ↔ edit.Plain current := by
  constructor
  · intro h hleft
    have hnone := h.title_left hleft
    rw [title_patch, ite_eq_right_iff] at hnone
    by_contra hchanged
    rw [not_or] at hchanged
    cases hnone hchanged
  · intro h
    have hcrawler := patch_choice edit.crawler current.crawler
    have hdisabled := patch_choice edit.disabled current.disabled
    have hhide := patch_choice edit.hideGlobally current.hideGlobally
    refine ⟨?_, ?_, ?_, ?_, hcrawler.1, hcrawler.2, hdisabled.1, hdisabled.2, hhide.1, hhide.2⟩
    · intro hleft
      rw [title_patch, if_neg]
      rcases h hleft with hempty | hsame
      · exact fun hboth => hboth.1 hempty
      · exact fun hboth => hboth.2 hsame
    · intro _ hempty hother
      rw [title_patch, if_pos ⟨hempty, hother⟩]
    · exact fun hleft => if_neg fun hboth => hboth.2 hleft
    · exact fun hchanged hpositive => if_pos ⟨hpositive, hchanged⟩

theorem patch_ofRow (hplain : (FeedEdit.ofRow current).Plain current) :
    (FeedEdit.ofRow current).patch current = FeedPatch.default := by
  have hdiff := diff_patch_iff.2 hplain
  have htitle := hdiff.title_left rfl
  have hcategory := hdiff.category_left rfl
  have hcrawler := hdiff.crawler_left rfl
  have hdisabled := hdiff.disabled_left rfl
  have hhide := hdiff.hideGlobally_left rfl
  cases hpatch : (FeedEdit.ofRow current).patch current
  rw [hpatch] at htitle hcategory hcrawler hdisabled hhide
  simp only [FeedPatch.default, FeedPatch.mk.injEq]
  exact ⟨htitle, hcategory, hcrawler, hdisabled, hhide⟩

/-- The edit of a row is the command with its difference, and nothing without one. -/
theorem updateFeed_eq {m : FeedModel} {row : ℕ} (hrow : m.rows[row]? = some current)
    (edit : FeedEdit) :
    m.updateFeed row edit =
      if edit.patch current = FeedPatch.default then none
      else some (.updateFeed current.id (edit.patch current)) := by
  have hnonneg : ¬(row : ℤ) < 0 := by
    omega
  rw [FeedModel.updateFeed, if_neg hnonneg, Int.toNat_natCast, hrow]
  simp [FeedPatch.isEmpty]

/-- The body names exactly the fields that are sent. -/
theorem mem_members_iff {update : FeedPatch} {name : String} {value : Json} :
    (some name, value) ∈ update.members ↔
      (name = "title" ∧ ∃ title, update.title = some title ∧ value = .str (some title)) ∨
      (name = "category_id" ∧ ∃ id, update.categoryId = some id ∧ value = .num (some id)) ∨
      (name = "crawler" ∧ ∃ b, update.crawler = some b ∧ value = .bool b) ∨
      (name = "disabled" ∧ ∃ b, update.disabled = some b ∧ value = .bool b) ∨
      (name = "hide_globally" ∧ ∃ b, update.hideGlobally = some b ∧ value = .bool b) := by
  simp [FeedPatch.members, eq_comm, and_left_comm]

/-! ## What is written -/

/-- A feed with the fields of an update in place of its own. -/
def patched (update : FeedPatch) (r : Vuo.FeedRow) : Vuo.FeedRow :=
  { r with
    title := update.title.getD r.title
    categoryId := update.categoryId.or r.categoryId
    crawler := update.crawler.getD r.crawler
    disabled := update.disabled.getD r.disabled
    hideGlobally := update.hideGlobally.getD r.hideGlobally }

theorem id_patched (update : FeedPatch) (r : Vuo.FeedRow) : (patched update r).id = r.id :=
  rfl

/-- The category a feed is moved to, for the foreign key. -/
def withPlaceholder (categoryId : Option CategoryId) (db : Db) : Db :=
  match categoryId with
  | some id => Store.placeholderCategory id db
  | none => db

section Apply

variable {feedId : FeedId} {db : Db}

theorem updateFeed_updateFeed {f g : Vuo.FeedRow → Vuo.FeedRow} (hf : ∀ r, (f r).id = r.id)
    (hg : ∀ r, (g r).id = r.id) :
    Store.updateFeed feedId g hg (Store.updateFeed feedId f hf db) =
      Store.updateFeed feedId (g ∘ f) (fun r => (hg _).trans (hf r)) db := by
  have hkept : ∀ r, decide ((f r).id = feedId) = decide (r.id = feedId) := by
    intro r
    rw [hf]
  simp only [Store.updateFeed]
  rw [Table.update_update (f := f) hkept]

theorem updateFeed_self {f : Vuo.FeedRow → Vuo.FeedRow} (hf : ∀ r, (f r).id = r.id)
    (hself : ∀ r, f r = r) : Store.updateFeed feedId f hf db = db := by
  obtain rfl : f = id := funext hself
  rw [Store.updateFeed, Table.update_id]

/-- The placeholder goes in before or after a feed is written. -/
theorem placeholderCategory_updateFeed (id : CategoryId) {f : Vuo.FeedRow → Vuo.FeedRow}
    (hf : ∀ r, (f r).id = r.id) :
    Store.placeholderCategory id (Store.updateFeed feedId f hf db) =
      Store.updateFeed feedId f hf (Store.placeholderCategory id db) := by
  unfold Store.placeholderCategory Store.updateFeed
  dsimp only
  split <;> rfl

/-- One more field of an update, written after the others. -/
theorem updateFeed_patched {db₀ db₁ : Db} {g : Vuo.FeedRow → Vuo.FeedRow}
    {hg : ∀ r, (g r).id = r.id} {update update' : FeedPatch}
    (hwritten : db₁ = Store.updateFeed feedId (patched update) (id_patched update) db₀)
    (hfield : ∀ r, g (patched update r) = patched update' r) :
    Store.updateFeed feedId g hg db₁ =
      Store.updateFeed feedId (patched update') (id_patched update') db₀ := by
  have hcompose : g ∘ patched update = patched update' := funext hfield
  rw [hwritten, updateFeed_updateFeed]
  simp only [hcompose]

/-- An update is written to one feed, after the placeholder of its category. -/
theorem applyFeedPatch_eq (feedId : FeedId) (update : FeedPatch) (db : Db) :
    Store.applyFeedPatch feedId update db =
      Store.updateFeed feedId (patched update) (id_patched update)
        (withPlaceholder update.categoryId db) := by
  obtain ⟨title, categoryId, crawler, disabled, hideGlobally⟩ := update
  have htitle : Store.applyFeedPatch feedId ⟨title, none, none, none, none⟩ db =
      Store.updateFeed feedId (patched ⟨title, none, none, none, none⟩) (id_patched _) db := by
    cases title with
    | none => exact (updateFeed_self _ fun _ => rfl).symm
    | some title => rfl
  have hcategory : Store.applyFeedPatch feedId ⟨title, categoryId, none, none, none⟩ db =
      Store.updateFeed feedId (patched ⟨title, categoryId, none, none, none⟩) (id_patched _)
        (withPlaceholder categoryId db) := by
    cases categoryId with
    | none => exact htitle
    | some id =>
        have hplaceholder := congrArg (Store.placeholderCategory id) htitle
        rw [placeholderCategory_updateFeed] at hplaceholder
        exact updateFeed_patched hplaceholder fun _ => rfl
  have hcrawler : Store.applyFeedPatch feedId ⟨title, categoryId, crawler, none, none⟩ db =
      Store.updateFeed feedId (patched ⟨title, categoryId, crawler, none, none⟩) (id_patched _)
        (withPlaceholder categoryId db) := by
    cases crawler with
    | none => exact hcategory
    | some b => exact updateFeed_patched hcategory fun _ => rfl
  have hdisabled : Store.applyFeedPatch feedId ⟨title, categoryId, crawler, disabled, none⟩ db =
      Store.updateFeed feedId (patched ⟨title, categoryId, crawler, disabled, none⟩)
        (id_patched _) (withPlaceholder categoryId db) := by
    cases disabled with
    | none => exact hcrawler
    | some b => exact updateFeed_patched hcrawler fun _ => rfl
  cases hideGlobally with
  | none => exact hdisabled
  | some b => exact updateFeed_patched hdisabled fun _ => rfl

/-- What an update may do to the mirror: the sent fields of one feed, and at most one
placeholder for the category it is moved to. -/
structure Applied (feedId : FeedId) (update : FeedPatch) (db db' : Db) : Prop where
  feeds : db'.feeds.rows = db.feeds.rows.map fun r => if r.id = feedId then patched update r else r
  categories : db'.categories = db.categories ∨
    ∃ id, update.categoryId = some id ∧ db.categories.contains id = false ∧
      db'.categories = db.categories.put
        { id := id, title := "", hideGlobally := false, lastSeenSync := 0 }
  entries : db'.entries = db.entries
  enclosures : db'.enclosures = db.enclosures
  icons : db'.icons = db.icons
  outbox : db'.outbox = db.outbox
  syncState : db'.syncState = db.syncState

theorem applied_applyFeedPatch (feedId : FeedId) (update : FeedPatch) (db : Db) :
    Applied feedId update db (Store.applyFeedPatch feedId update db) := by
  rw [applyFeedPatch_eq]
  cases hmoved : update.categoryId with
  | none => exact ⟨by simp [withPlaceholder, Store.updateFeed, Table.update], .inl rfl, rfl, rfl,
      rfl, rfl, rfl⟩
  | some id =>
      simp only [withPlaceholder, Store.placeholderCategory]
      split
      · exact ⟨by simp [Store.updateFeed, Table.update], .inl rfl, rfl, rfl, rfl, rfl, rfl⟩
      · next hnew =>
          refine ⟨by simp [Store.updateFeed, Table.update], .inr ⟨id, hmoved, ?_, rfl⟩, rfl, rfl,
            rfl, rfl, rfl⟩
          simpa using hnew

end Apply

/-! ## The server first, the mirror second -/

section Handled

variable [Endpoints] (client : MinifluxClient)

/-- An answer that lets an update through. -/
def accepts {request : Request} : Answer request → Bool
  | .ok response => 200 ≤ response.status && response.status < 300
  | .error _ => false

/-- The transaction is begun after an answer that accepts, and its success is the
command's. -/
def afterAnswer {request : Request} (body : Transaction) (answer : Answer request) :
    Program Op Op.Ans (Except Error Bool) :=
  if accepts answer then .call (.transact body) fun r => .done (.ok (isOk r))
  else .done (.ok false)

theorem run_thenWrite (request : Request) (body : Transaction) :
    (thenWrite (client.sendForStatus request) body).run =
      .call (.send client.transport request) (afterAnswer body) := by
  refine congrArg (Program.call _) (funext fun answer => ?_)
  cases answer with
  | error e => rfl
  | ok response =>
      by_cases h : 200 ≤ response.status ∧ response.status < 300
      · have haccepts : accepts (.ok response : Answer request) = true := by
          simpa [accepts] using h
        rw [afterAnswer, if_pos haccepts]
        have hstatus : MinifluxClient.checkStatus response
            (Endpoints.endpoint client.transport request) = .ok () := if_pos h
        change (Program.bind (Program.bind (Program.done (MinifluxClient.checkStatus response
            (Endpoints.endpoint client.transport request))) _) _) = _
        rw [hstatus]
        rfl
      · have hrefuses : accepts (.ok response : Answer request) = false := by
          simpa [accepts] using h
        have hstatus : ∃ e, MinifluxClient.checkStatus response
            (Endpoints.endpoint client.transport request) = .error e := ⟨_, if_neg h⟩
        obtain ⟨e, hstatus⟩ := hstatus
        rw [afterAnswer, hrefuses]
        change (Program.bind (Program.bind (Program.done (MinifluxClient.checkStatus response
            (Endpoints.endpoint client.transport request))) _) _) = _
        rw [hstatus]
        rfl

omit [Endpoints] in
/-- The transaction writes what was sent, or fails and writes nothing. -/
theorem act_update {σ : Type*} {O : Outside σ} {feedId : FeedId} {update : FeedPatch}
    {w w' : World σ} {r : Except Error ℕ}
    (h : O.setting.act (.transact [.applyFeedPatch feedId update]) w r w') :
    if isOk r then Applied feedId update w.db w'.db else w'.db = w.db := by
  obtain ⟨rfl, rfl⟩ | ⟨⟨m, rfl⟩, rfl⟩ := Outside.act_transact h
  · exact applied_applyFeedPatch feedId update w.db
  · rfl

variable [UrlLibrary] [IconDecoder] (options : SyncOptions)

/-- The course of an update: asked of the server first, and written to the mirror as
it was sent, or not at all. -/
structure Handled {σ : Type*} (O : Outside σ) (feedId : FeedId) (update : FeedPatch) :
    Prop where
  course : (perform client options (.updateFeed feedId update)).run =
    .call (.send client.transport (.updateFeed feedId update))
      (afterAnswer [.applyFeedPatch feedId update])
  asked : ∀ w answer w',
    O.setting.act (.send client.transport (.updateFeed feedId update)) w answer w' →
      w'.db = w.db
  written : ∀ w r w', O.setting.act (.transact [.applyFeedPatch feedId update]) w r w' →
    if isOk r then Applied feedId update w.db w'.db else w'.db = w.db
  /-- Where nobody else writes, the mirror is as it was or as the server was asked. -/
  run : (∀ w w', O.env w w' → w'.db = w.db) → ∀ w changed w',
    O.setting.Reaches ((perform client options (.updateFeed feedId update)).run, w)
      (.done (.ok changed), w') →
      if changed then Applied feedId update w.db w'.db else w'.db = w.db

theorem handled {σ : Type*} (O : Outside σ) (feedId : FeedId) (update : FeedPatch) :
    Handled client options O feedId update := by
  have hcourse := run_thenWrite client (.updateFeed feedId update) [.applyFeedPatch feedId update]
  have hasked : ∀ w answer w',
      O.setting.act (.send client.transport (.updateFeed feedId update)) w answer w' →
        w'.db = w.db :=
    fun w answer w' h => Outside.db_of_act (by exact nofun) h
  refine ⟨hcourse, hasked, fun _ _ _ => act_update, fun hquiet w changed w' hrun => ?_⟩
  have hstable (P : Db → Prop) : O.setting.Stable fun w => P w.db := by
    intro w₁ w₂ henv h
    have hsame : w₂.db = w₁.db := hquiet w₁ w₂ henv
    rwa [hsame]
  have hstart : O.setting.wpe Outside.noPromise
      (perform client options (.updateFeed feedId update))
      (fun changed w₁ => if changed then Applied feedId update w.db w₁.db else w₁.db = w.db)
      (fun _ _ => False) w := by
    rw [Setting.wpe, show (perform client options (.updateFeed feedId update)).run = _ from hcourse]
    refine Setting.wp_call (hstable fun db => db = w.db) rfl ?_
    intro w₁ h₁ answer w₂ hact
    have h₂ : w₂.db = w.db := (hasked w₁ answer w₂ hact).trans h₁
    refine ⟨trivial, ?_⟩
    unfold afterAnswer
    split
    · refine Setting.wp_call (hstable fun db => db = w.db) h₂ ?_
      intro w₃ h₃ r w₄ hwrite
      have hwritten := act_update hwrite
      rw [h₃] at hwritten
      refine ⟨trivial, Setting.wp_done' (hstable fun db =>
        if isOk r then Applied feedId update w.db db else db = w.db) hwritten⟩
    · exact Setting.wp_done' (hstable fun db => db = w.db) h₂
  have hend := Setting.wpe_finished hstart hrun
  exact hend

/-! ## The whole way of an edit -/

/-- What an edit of the row sends is what was changed on it, and what the mirror takes
over is what was sent. -/
structure Exact {σ : Type*} (O : Outside σ) (m : FeedModel) (row : ℤ) (current : FeedRow)
    (edit : FeedEdit) : Prop where
  sent : ∃ update, Diff current edit update ∧
    m.updateFeed row edit =
      if update = FeedPatch.default then none else some (.updateFeed current.id update)
  silent : edit = FeedEdit.ofRow current → m.updateFeed row edit = none
  handled : ∀ feedId update, m.updateFeed row edit = some (.updateFeed feedId update) →
    Handled client options O feedId update

/-- An edit is exact unless the title was left as it is shown and the row's title, not
blank, has white space around it. -/
theorem exact_iff_plain {σ : Type*} (O : Outside σ) {m : FeedModel} {row : ℕ}
    {current : FeedRow} (hrow : m.rows[row]? = some current) (edit : FeedEdit) :
    Exact client options O m row current edit ↔ edit.Plain current := by
  have hsent := updateFeed_eq hrow edit
  constructor
  · rintro ⟨⟨update, hdiff, hupdate⟩, -, -⟩
    rw [hsent] at hupdate
    refine diff_patch_iff.1 ?_
    by_cases hnone : update = FeedPatch.default
    · rw [if_pos hnone, ite_eq_left_iff] at hupdate
      have hpatch : edit.patch current = FeedPatch.default := by
        by_contra hsome
        cases hupdate hsome
      rwa [hpatch, ← hnone]
    · rw [if_neg hnone] at hupdate
      split at hupdate
      · cases hupdate
      · cases hupdate
        exact hdiff
  · intro hplain
    refine ⟨⟨_, diff_patch_iff.2 hplain, hsent⟩, ?_, fun feedId update _ => handled ..⟩
    rintro rfl
    rw [hsent, if_pos (patch_ofRow hplain)]

end Handled

section Padded

open scoped Vuo.Reader

/-- A feed whose title has white space around it. -/
def padded : FeedRow where
  id := 1
  title := " A "
  unread := 0
  error := ""
  categoryId := 2
  crawler := false
  disabled := false
  hideGlobally := false
  icon := none

def paddedModel : FeedModel :=
  { FeedModel.default with rows := [padded] }

/-- A server that accepts what it is asked. -/
def obliging : Outside Unit where
  send _ _ _ answer _ := accepts answer = true
  now _ _ _ := True
  commit _ _ o := o
  env w w' := w' = w

theorem exact_renamed :
    Exact readerClient withoutIcons obliging paddedModel (0 : ℕ) padded
      { FeedEdit.ofRow padded with title := "B ", crawler := true } :=
  (exact_iff_plain readerClient withoutIcons obliging rfl _).2 fun htitle =>
    absurd htitle (by decide)

/-- Nothing is touched on the page, and the feed is renamed. -/
theorem renamed_untouched :
    ∃ update, paddedModel.updateFeed 0 (FeedEdit.ofRow padded) = some (.updateFeed 1 update) ∧
      update.title = some "A" ∧ ¬Diff padded (FeedEdit.ofRow padded) update := by
  have hasked : (FeedEdit.ofRow padded).asked = "A" := by
    decide
  have htitle : ((FeedEdit.ofRow padded).patch padded).title = some "A" := by
    rw [title_patch, hasked]
    decide
  have hrow : paddedModel.rows[0]? = some padded := rfl
  refine ⟨(FeedEdit.ofRow padded).patch padded, ?_, htitle, ?_⟩
  · refine (updateFeed_eq hrow _).trans (if_neg fun hnone => ?_)
    rw [hnone] at htitle
    cases htitle
  · intro h
    have hleft := h.title_left rfl
    rw [htitle] at hleft
    cases hleft

end Padded

end Vuo.Shim
