import Vuo.Foundation.Trace
import Vuo.Verification.Deletions.Taxonomy
import Vuo.Verification.Pass

/-!
# Fetching icons

What one round of icon fetching leaves of the feeds it asked for, and what that
comes to over any sequence of rounds and of other statements. A round is kept
from asking again by the failures counted for the feed, or by the icon held
under the id the feed names.
-/

namespace Vuo

open Foundation MinifluxClient

namespace Store

/-! ## The feeds asked for -/

/-- A feed whose icon is not held, and still worth asking for. -/
structure Missing (feedId : FeedId) (iconId : IconId) (db : Db) : Prop where
  row : ∃ row, db.feeds.find? feedId = some row ∧ row.iconId = some iconId
  left : iconFailuresOf feedId db < 3
  unheld : db.icons.contains iconId = false

/-- The pair a feed is asked for by, if it is. -/
def wantedOf (db : Db) (f : FeedRow) : Option (FeedId × IconId) :=
  match f.iconId with
  | some iconId =>
      if f.iconFailures < 3 && !db.icons.contains iconId then some (f.id, iconId) else none
  | none => none

theorem wantedOf_eq_some {db : Db} {f : FeedRow} {want : FeedId × IconId} :
    wantedOf db f = some want ↔ f.id = want.1 ∧ f.iconId = some want.2 ∧ f.iconFailures < 3 ∧
      db.icons.contains want.2 = false := by
  obtain ⟨feedId, iconId⟩ := want
  unfold wantedOf
  cases hicon : f.iconId with
  | none => simp
  | some i =>
      dsimp only
      split
      case isTrue h => simp_all; grind
      case isFalse h => simp_all; grind

theorem feedsMissingIcons_eq (limit : ℤ) (db : Db) :
    feedsMissingIcons limit db =
      ((db.feeds.rows.insertionSort triedBefore).filterMap (wantedOf db)).take limit.toNat :=
  rfl

theorem missing_of_mem {limit : ℤ} {db : Db} {want : FeedId × IconId}
    (h : want ∈ feedsMissingIcons limit db) : Missing want.1 want.2 db := by
  rw [feedsMissingIcons_eq] at h
  obtain ⟨f, hf, hwant⟩ := List.mem_filterMap.1 (List.mem_of_mem_take h)
  obtain ⟨hid, hicon, hleft, hunheld⟩ := wantedOf_eq_some.1 hwant
  have hrow : db.feeds.find? want.1 = some f :=
    hid ▸ Table.find?_of_mem ((List.mem_insertionSort _).1 hf)
  refine ⟨⟨f, hrow, hicon⟩, ?_, hunheld⟩
  rw [iconFailuresOf, hrow]
  exact hleft

/-- A feed is asked for once in a round. -/
theorem nodup_feedsMissingIcons (limit : ℤ) (db : Db) :
    ((feedsMissingIcons limit db).map Prod.fst).Nodup := by
  have hsub : ∀ rows : List FeedRow,
      ((rows.filterMap (wantedOf db)).map Prod.fst).Sublist (rows.map FeedRow.id) := by
    intro rows
    induction rows with
    | nil => exact .slnil
    | cons f rows ih =>
        rw [List.filterMap_cons, List.map_cons]
        cases hwant : wantedOf db f with
        | none => exact ih.cons _
        | some want =>
            have hid := (wantedOf_eq_some.1 hwant).1
            rw [List.map_cons, hid]
            exact ih.cons_cons _
  have hsorted : ((db.feeds.rows.insertionSort triedBefore).map FeedRow.id).Nodup :=
    ((List.perm_insertionSort _ _).map FeedRow.id).nodup_iff.2 db.feeds.nodup
  rw [feedsMissingIcons_eq]
  exact (hsorted.sublist (hsub _)).sublist ((List.take_sublist _ _).map Prod.fst)

/-! ## One answer -/

/-- What an answer writes: a failure, or the icon it carries. -/
def iconTx (feedId : FeedId) : Option Icon → Transaction
  | none => [.recordIconFailure feedId]
  | some icon => [.upsertIcon icon, .clearIconFailures feedId]

/-- A feed with an answer counted. -/
def counted (answer : Option Icon) (r : FeedRow) : FeedRow :=
  { r with iconFailures := if answer.isSome then 0 else r.iconFailures + 1 }

theorem feeds_updateFeed (feedId : FeedId) (f : FeedRow → FeedRow) (hf : ∀ r, (f r).id = r.id)
    (db : Db) (j : FeedId) :
    (updateFeed feedId f hf db).feeds.find? j =
      (db.feeds.find? j).map fun r => if j = feedId then f r else r := by
  rw [updateFeed, Table.find?_update]
  cases hr : db.feeds.find? j with
  | none => rfl
  | some r => simp [Table.key_of_find? hr]

/-- An answer changes the count of the feed it is for, and nothing else of any
feed. -/
theorem feeds_iconTx (feedId : FeedId) (answer : Option Icon) (db : Db) (j : FeedId) :
    ((iconTx feedId answer).exec db).feeds.find? j =
      (db.feeds.find? j).map fun r =>
        if j = feedId then counted answer r else r := by
  cases answer with
  | none => exact feeds_updateFeed feedId _ _ db j
  | some icon => exact feeds_updateFeed feedId _ _ (upsertIcon icon db) j

theorem icons_iconTx (feedId : FeedId) (answer : Option Icon) (db : Db) (i : IconId) :
    ((iconTx feedId answer).exec db).icons.contains i =
      (db.icons.contains i || answer.any fun icon => icon.id = i) := by
  cases answer with
  | none => exact (Bool.or_false _).symm
  | some icon =>
      have hput : ((iconTx feedId (some icon)).exec db).icons.contains i =
          (decide (icon.id = i) || db.icons.contains i) := Table.contains_put _ db.icons i
      rw [hput, Bool.or_comm]
      rfl

/-! ## One round -/

/-- A round of answers, one for each feed asked for. -/
def fetched (answers : FeedId → Option Icon) (wanted : List (FeedId × IconId)) (db : Db) : Db :=
  wanted.foldl (fun db want => (iconTx want.1 (answers want.1)).exec db) db

theorem feeds_fetched {answers : FeedId → Option Icon} {wanted : List (FeedId × IconId)}
    (hwanted : (wanted.map Prod.fst).Nodup) (db : Db) (j : FeedId) :
    (fetched answers wanted db).feeds.find? j =
      (db.feeds.find? j).map fun r =>
        if j ∈ wanted.map Prod.fst then counted (answers j) r else r := by
  induction wanted generalizing db with
  | nil =>
      have hfetched : fetched answers [] db = db := rfl
      rw [hfetched]
      cases db.feeds.find? j <;> rfl
  | cons want wanted ih =>
      obtain ⟨hfirst, hrest⟩ := List.nodup_cons.1 hwanted
      have hfetched : fetched answers (want :: wanted) db =
          fetched answers wanted ((iconTx want.1 (answers want.1)).exec db) := rfl
      rw [hfetched, ih hrest, feeds_iconTx, Option.map_map]
      congr 1
      funext r
      by_cases hj : j = want.1
      · subst hj
        simp [hfirst]
      · have hmem : j ∈ (want :: wanted).map Prod.fst ↔ j ∈ wanted.map Prod.fst := by
          rw [List.map_cons, List.mem_cons, or_iff_right hj]
        rw [Function.comp_apply, if_neg hj]
        exact if_congr hmem.symm rfl rfl

theorem icons_fetched (answers : FeedId → Option Icon) (wanted : List (FeedId × IconId))
    (db : Db) (i : IconId) :
    (fetched answers wanted db).icons.contains i = true ↔
      db.icons.contains i = true ∨
        ∃ want ∈ wanted, ∃ icon, answers want.1 = some icon ∧ icon.id = i := by
  induction wanted generalizing db with
  | nil => simp [fetched]
  | cons want wanted ih =>
      have hfetched : fetched answers (want :: wanted) db =
          fetched answers wanted ((iconTx want.1 (answers want.1)).exec db) := rfl
      rw [hfetched, ih, icons_iconTx]
      cases hanswer : answers want.1 <;> simp [or_assoc, hanswer]

/-- One round over at most `limit` feeds. -/
def fetchRound (limit : ℤ) (answers : FeedId → Option Icon) (db : Db) : Db :=
  if limit ≤ 0 then db else fetched answers (feedsMissingIcons limit db) db

theorem feedsMissingIcons_of_nonpos {limit : ℤ} (h : limit ≤ 0) (db : Db) :
    feedsMissingIcons limit db = [] := by
  rw [feedsMissingIcons_eq, Int.toNat_of_nonpos h, List.take_zero]

theorem fetchRound_eq (limit : ℤ) (answers : FeedId → Option Icon) (db : Db) :
    fetchRound limit answers db = fetched answers (feedsMissingIcons limit db) db := by
  unfold fetchRound
  split
  case isTrue h =>
    rw [feedsMissingIcons_of_nonpos h]
    rfl
  case isFalse h => rfl

theorem feeds_fetchRound (limit : ℤ) (answers : FeedId → Option Icon) (db : Db) (j : FeedId) :
    (fetchRound limit answers db).feeds.find? j =
      (db.feeds.find? j).map fun r =>
        if j ∈ (feedsMissingIcons limit db).map Prod.fst then counted (answers j) r else r := by
  rw [fetchRound_eq]
  exact feeds_fetched (nodup_feedsMissingIcons limit db) db j

/-! ### The round as the program runs it -/

section Rounds

variable [Endpoints] [IconDecoder] (client : MinifluxClient)

/-- The icon an answer comes down to, if it is one. -/
def iconOf (r : Except Error Wire.Icon) : Option Icon :=
  match r with
  | .ok wire => (IconDecoder.decodeIcon wire).toOption
  | .error _ => none

/-- The answers that come down to these icons. -/
def Serves (answers : FeedId → Option Icon) : (request : Request) → Answer request → Prop
  | .feedIcon feedId, r => iconOf (readResult client (.feedIcon feedId) r) = answers feedId
  | _, _ => False

/-- A server of these icons, and nobody else at the mirror. -/
def iconServer (answers : FeedId → Option Icon) : Outside Unit where
  send _ request _ r _ := Serves client answers request r
  now _ _ _ := True
  commit _ _ _ := ()
  env _ _ := False

variable {client} {answers : FeedId → Option Icon}

theorem stable_iconServer (P : World Unit → Prop) :
    (iconServer client answers).setting.Stable P :=
  fun _ _ h _ => h.elim

theorem wpe_fetchIconsFor (wanted : List (FeedId × IconId)) (n : ℕ) (w : World Unit) :
    (iconServer client answers).setting.wpe Outside.noPromise
      (Sync.fetchIconsFor client wanted n)
      (fun _ w' => w'.db = fetched answers wanted w.db) (fun _ _ => True) w := by
  induction wanted generalizing n w with
  | nil => exact Setting.wpe_pure (stable_iconServer _) rfl
  | cons want wanted ih =>
      have hE : ∀ e : Error, (iconServer client answers).setting.Stable
          ((fun _ _ => True : Error → World Unit → Prop) e) := fun _ => stable_iconServer _
      -- whatever is written for this feed, the rest follows
      have hwrite : ∀ (body : Transaction) (m : ℕ) (w₁ : World Unit), w₁.db = w.db →
          body = iconTx want.1 (answers want.1) →
          (iconServer client answers).setting.wpe Outside.noPromise
            (Action.withTx body >>= fun _ => Sync.fetchIconsFor client wanted m)
            (fun _ w' => w'.db = fetched answers (want :: wanted) w.db) (fun _ _ => True) w₁ := by
        intro body m w₁ hw₁ hbody
        refine Setting.wpe_bind hE (Outside.wpe_withTx (P := fun w₂ => w₂.db = w.db)
          (stable_iconServer _) hw₁ (fun _ => Setting.wpe_stable _) hE ?_
          (fun _ _ _ => ⟨trivial, trivial⟩))
        intro w₂ hw₂
        refine ⟨trivial, Setting.wpe_mono (fun _ w' hw' => ?_) (fun _ _ h => h) (ih m _)⟩
        rw [hw', Outside.db_commitTo, hw₂, hbody]
        rfl
      refine Setting.wpe_bind hE (Setting.wpe_attempt (wpe_getJson (P := fun w₁ => w₁.db = w.db)
        (stable_iconServer _) rfl (fun _ => stable_iconServer _) (fun _ => stable_iconServer _) ?_))
      intro w₁ hw₁ r o hsend
      have hserved : iconOf (readResult client (.feedIcon want.1) r) = answers want.1 := hsend
      refine ⟨trivial, ?_⟩
      cases hresult : readResult client (.feedIcon want.1) r with
      | error e =>
          rw [hresult] at hserved
          exact hwrite _ _ _ hw₁ (hserved ▸ rfl)
      | ok wire =>
          rw [hresult] at hserved
          have hicon : (IconDecoder.decodeIcon wire).toOption = answers want.1 := hserved
          change Setting.wpe _ _ _ _ _ _
          dsimp only
          cases hdecoded : IconDecoder.decodeIcon wire with
          | ok icon =>
              rw [hdecoded] at hicon
              exact hwrite _ _ _ hw₁ (hicon ▸ rfl)
          | error e =>
              rw [hdecoded] at hicon
              exact hwrite _ _ _ hw₁ (hicon ▸ rfl)

/-- A round that comes to its end is `fetchRound`. -/
theorem fetchIcons_finished {limit : ℤ} {n : ℕ} {w w' : World Unit}
    (hrun : (iconServer client answers).setting.Reaches
      ((Sync.fetchIcons client limit).run, w) (.done (.ok n), w')) :
    w'.db = fetchRound limit answers w.db := by
  have hE : ∀ e : Error, (iconServer client answers).setting.Stable
      ((fun _ _ => True : Error → World Unit → Prop) e) := fun _ => stable_iconServer _
  have hwp : (iconServer client answers).setting.wpe Outside.noPromise
      (Sync.fetchIcons client limit) (fun _ w' => w'.db = fetchRound limit answers w.db)
      (fun _ _ => True) w := by
    unfold Sync.fetchIcons fetchRound
    split
    · exact Setting.wpe_pure (stable_iconServer _) rfl
    · refine Setting.wpe_bind hE (Outside.wpe_query (P := fun w₁ => w₁.db = w.db)
        (stable_iconServer _) rfl (fun _ => Setting.wpe_stable _) hE ?_
        (fun _ _ _ => trivial) (fun _ _ _ => trivial))
      intro w₁ hw₁
      rw [← hw₁]
      exact wpe_fetchIconsFor _ _ w₁
  have hdone := Setting.wpe_finished hwp hrun
  exact hdone

end Rounds

/-! ## What the other statements leave -/

end Store

open Store

/-- The statements of icon fetching. -/
def Statement.OfIcons : Statement → Prop
  | .upsertIcon _ | .recordIconFailure _ | .clearIconFailures _ => True
  | _ => False

/-- The icons stay, and no feed's failures change while it is held. -/
structure Store.KeepsCounts (db db' : Db) : Prop where
  icons : db'.icons = db.icons
  failures : ∀ j row, db'.feeds.find? j = some row → row.iconFailures = iconFailuresOf j db

namespace Store

theorem KeepsCounts.of_feeds {db db' : Db} (hicons : db'.icons = db.icons)
    (hfeeds : db'.feeds = db.feeds) : KeepsCounts db db' where
  icons := hicons
  failures := by
    intro j row hrow
    rw [hfeeds] at hrow
    rw [iconFailuresOf, hrow]
    rfl

theorem KeepsCounts.updateFeed {db db' : Db} (h : KeepsCounts db db') {feedId : FeedId}
    {f : FeedRow → FeedRow} {hf : ∀ r, (f r).id = r.id}
    (hfailures : ∀ r, (f r).iconFailures = r.iconFailures) :
    KeepsCounts db (Store.updateFeed feedId f hf db') where
  icons := h.icons
  failures := by
    intro j row hrow
    rw [feeds_updateFeed] at hrow
    obtain ⟨r, hr, rfl⟩ := Option.map_eq_some_iff.1 hrow
    rw [← h.failures j r hr]
    split
    · exact hfailures r
    · rfl

theorem keepsCounts_queueRead (ids : List EntryId) (now : ℤ) (db : Db) :
    (Outbox.queueRead ids now db).icons = db.icons ∧
      (Outbox.queueRead ids now db).feeds = db.feeds := by
  induction ids generalizing db with
  | nil => exact ⟨rfl, rfl⟩
  | cons id ids ih => exact ih _

theorem keepsCounts_acknowledgeArrivals (ids : List EntryId) (db : Db) :
    (acknowledgeArrivals ids db).icons = db.icons ∧
      (acknowledgeArrivals ids db).feeds = db.feeds := by
  induction ids generalizing db with
  | nil => exact ⟨rfl, rfl⟩
  | cons id ids ih => exact ih _

theorem placeholderCategory_eq (id : CategoryId) (db : Db) :
    ∃ categories, placeholderCategory id db = { db with categories := categories } := by
  unfold placeholderCategory
  split <;> exact ⟨_, rfl⟩

theorem keepsCounts_applyFeedPatch (feedId : FeedId) (update : FeedPatch) (db : Db) :
    KeepsCounts db (applyFeedPatch feedId update db) := by
  obtain ⟨title, categoryId, crawler, disabled, hideGlobally⟩ := update
  have htitle : KeepsCounts db (applyFeedPatch feedId ⟨title, none, none, none, none⟩ db) := by
    cases title with
    | none => exact .of_feeds rfl rfl
    | some title => exact (KeepsCounts.of_feeds rfl rfl).updateFeed fun _ => rfl
  have hcategory :
      KeepsCounts db (applyFeedPatch feedId ⟨title, categoryId, none, none, none⟩ db) := by
    cases categoryId with
    | none => exact htitle
    | some category =>
        refine KeepsCounts.updateFeed ?_ fun _ => rfl
        obtain ⟨categories, heq⟩ := placeholderCategory_eq category
          (applyFeedPatch feedId ⟨title, none, none, none, none⟩ db)
        have hplace : KeepsCounts db (placeholderCategory category
            (applyFeedPatch feedId ⟨title, none, none, none, none⟩ db)) := by
          rw [heq]
          exact ⟨htitle.icons, htitle.failures⟩
        exact hplace
  have hcrawler :
      KeepsCounts db (applyFeedPatch feedId ⟨title, categoryId, crawler, none, none⟩ db) := by
    cases crawler with
    | none => exact hcategory
    | some crawler => exact hcategory.updateFeed fun _ => rfl
  have hdisabled :
      KeepsCounts db (applyFeedPatch feedId ⟨title, categoryId, crawler, disabled, none⟩ db) := by
    cases disabled with
    | none => exact hcrawler
    | some disabled => exact hcrawler.updateFeed fun _ => rfl
  cases hideGlobally with
  | none => exact hdisabled
  | some hideGlobally => exact hdisabled.updateFeed fun _ => rfl

theorem keepsCounts_exec {s : Statement} (h : ¬s.OfIcons) (db : Db) :
    KeepsCounts db (s.exec db) := by
  have hconfirm : ∀ batch, KeepsCounts db (Outbox.confirm batch db).2 := by
    intro batch
    rw [Outbox.confirm_db]
    exact .of_feeds rfl rfl
  cases s with
  | queueMarkFeedRead feedId now =>
      exact .of_feeds (keepsCounts_queueRead _ _ _).1 (keepsCounts_queueRead _ _ _).2
  | queueMarkCategoryRead categoryId now =>
      exact .of_feeds (keepsCounts_queueRead _ _ _).1 (keepsCounts_queueRead _ _ _).2
  | confirm batch => exact hconfirm batch
  | discard batch => exact hconfirm batch
  | recordFailure batch error =>
      have hexec : (Statement.recordFailure batch error).exec db =
          Outbox.recordFailure batch error db := rfl
      rw [hexec, Outbox.recordFailure_db]
      exact .of_feeds rfl rfl
  | upsertFeed f generation =>
      have hexec : (Statement.upsertFeed f generation).exec db = upsertFeed f generation db := rfl
      have hicons : (upsertFeed f generation db).icons = db.icons := by
        obtain ⟨categories, heq⟩ := upsertFeed_eq f generation db
        rw [heq]
      refine ⟨hicons, fun j row hrow => ?_⟩
      rw [hexec] at hrow
      rw [← iconFailuresOf_upsertFeed f generation, iconFailuresOf, hrow]
      rfl
  | deleteFeed id =>
      refine ⟨rfl, fun j row hrow => ?_⟩
      have hheld : db.feeds.find? j = some row := by
        have hremove := Table.find?_remove (fun f => decide (f.id = id)) db.feeds j
        exact (Option.filter_eq_some_iff.1 (hremove ▸ hrow)).1
      rw [iconFailuresOf, hheld]
      rfl
  | acknowledgeArrivals ids =>
      exact .of_feeds (keepsCounts_acknowledgeArrivals ids db).1
        (keepsCounts_acknowledgeArrivals ids db).2
  | applyFeedPatch feedId update => exact keepsCounts_applyFeedPatch feedId update db
  | upsertIcon icon => exact absurd trivial h
  | recordIconFailure feedId => exact absurd trivial h
  | clearIconFailures feedId => exact absurd trivial h
  | _ => exact .of_feeds rfl rfl

/-! ## Runs -/

/-- What may happen to the feeds and the icons: a round, or a statement of
anything else. -/
inductive IconEvent
  | round (limit : ℤ) (answers : FeedId → Option Icon)
  | other (s : Statement) (h : ¬s.OfIcons)

def iconStep : IconEvent → Db → Option Db
  | .round limit answers, db => some (fetchRound limit answers db)
  | .other s _, db => some (s.exec db)

abbrev IconTrace := List (Taken IconEvent Db)

/-- The feed is held and names this icon. -/
def Names (feedId : FeedId) (iconId : IconId) (db : Db) : Prop :=
  ∃ row, db.feeds.find? feedId = some row ∧ row.iconId = some iconId

/-- The round asks for this feed by this icon, and nothing usable comes back. -/
def asksInVain (feedId : FeedId) (iconId : IconId) (x : Taken IconEvent Db) : Bool :=
  match x.event with
  | .round limit answers =>
      (feedId, iconId) ∈ feedsMissingIcons limit x.before && (answers feedId).isNone
  | .other _ _ => false

/-- A listing gives a feed that is held another icon, one that is not held. -/
structure Renames (f : Feed) (db : Db) : Prop where
  icon : ∃ old iconId, db.feeds.find? f.id = some old ∧ f.iconId = some iconId ∧
    old.iconId ≠ some iconId ∧ db.icons.contains iconId = false

/-- No feed is asked for without end, and none is left out for another. -/
structure IconsFair (t : IconTrace) : Prop where
  progress : ∀ x ∈ t, ∀ limit answers, x.event = .round limit answers →
    ∀ want ∈ feedsMissingIcons limit x.before,
      (∀ limit', want.1 ∉ (feedsMissingIcons limit' x.after).map Prod.fst) ∨
        iconFailuresOf want.1 x.before < iconFailuresOf want.1 x.after
  budget : ∀ feedId iconId seg, seg <:+: t →
    (∀ x ∈ seg, Names feedId iconId x.before ∧ Names feedId iconId x.after) →
    seg.countP (asksInVain feedId iconId) ≤ 3
  renewed : ∀ x ∈ t, ∀ f generation h, x.event = .other (.upsertFeed f generation) h →
    Renames f x.before → iconFailuresOf f.id x.after = 0

/-- Every icon a feed is answered with is the one it names, and no feed with
failures is given another. -/
def OwnIcons (x : Taken IconEvent Db) : Prop :=
  match x.event with
  | .round limit answers => ∀ want ∈ feedsMissingIcons limit x.before, ∀ icon,
      answers want.1 = some icon → icon.id = want.2
  | .other (.upsertFeed f _) _ => Renames f x.before → iconFailuresOf f.id x.before = 0
  | .other _ _ => True

/-! ### One round -/

theorem notMem_of_held {db : Db} {feedId : FeedId} {iconId : IconId}
    (hnames : Names feedId iconId db) (hheld : db.icons.contains iconId = true) (limit : ℤ) :
    feedId ∉ (feedsMissingIcons limit db).map Prod.fst := by
  intro hmem
  obtain ⟨want, hwant, rfl⟩ := List.mem_map.1 hmem
  have hmissing := missing_of_mem hwant
  obtain ⟨row, hrow, hicon⟩ := hmissing.row
  obtain ⟨row', hrow', hicon'⟩ := hnames
  rw [hrow] at hrow'
  cases hrow'
  rw [hicon] at hicon'
  cases hicon'
  rw [hmissing.unheld] at hheld
  exact absurd hheld (by decide)

theorem iconFailuresOf_fetchRound {limit : ℤ} {answers : FeedId → Option Icon} {db : Db}
    {j : FeedId} (hheld : (db.feeds.find? j).isSome = true) :
    iconFailuresOf j (fetchRound limit answers db) =
      if j ∈ (feedsMissingIcons limit db).map Prod.fst then
        if (answers j).isSome then 0 else iconFailuresOf j db + 1
      else iconFailuresOf j db := by
  obtain ⟨row, hrow⟩ := Option.isSome_iff_exists.1 hheld
  rw [iconFailuresOf, feeds_fetchRound, iconFailuresOf, hrow]
  by_cases h : j ∈ (feedsMissingIcons limit db).map Prod.fst <;> simp [h, counted]

theorem names_fetchRound {limit : ℤ} {answers : FeedId → Option Icon} {db : Db}
    {feedId : FeedId} {iconId : IconId} (h : Names feedId iconId db) :
    Names feedId iconId (fetchRound limit answers db) := by
  obtain ⟨row, hrow, hicon⟩ := h
  refine ⟨_, by rw [feeds_fetchRound, hrow]; rfl, ?_⟩
  split <;> exact hicon

theorem icons_fetchRound (limit : ℤ) (answers : FeedId → Option Icon) (db : Db) (i : IconId) :
    (fetchRound limit answers db).icons.contains i = true ↔
      db.icons.contains i = true ∨
        ∃ want ∈ feedsMissingIcons limit db, ∃ icon, answers want.1 = some icon ∧ icon.id = i := by
  rw [fetchRound_eq]
  exact icons_fetched answers _ db i

/-- A feed asked for in a round of its own icons is not asked for again, or has
one failure more. -/
theorem progress_fetchRound {limit : ℤ} {answers : FeedId → Option Icon} {db : Db}
    (hown : ∀ want ∈ feedsMissingIcons limit db, ∀ icon, answers want.1 = some icon →
      icon.id = want.2) {want : FeedId × IconId} (hwant : want ∈ feedsMissingIcons limit db) :
    (∀ limit', want.1 ∉ (feedsMissingIcons limit' (fetchRound limit answers db)).map Prod.fst) ∨
      iconFailuresOf want.1 db < iconFailuresOf want.1 (fetchRound limit answers db) := by
  have hmissing := missing_of_mem hwant
  obtain ⟨row, hrow, hicon⟩ := hmissing.row
  cases hanswer : answers want.1 with
  | none =>
      right
      rw [iconFailuresOf_fetchRound (by rw [hrow]; rfl), if_pos (List.mem_map_of_mem hwant),
        hanswer, if_neg (by decide)]
      omega
  | some icon =>
      left
      refine notMem_of_held (names_fetchRound ⟨row, hrow, hicon⟩) ?_
      exact (icons_fetchRound limit answers db want.2).2
        (.inr ⟨want, hwant, icon, hanswer, hown want hwant icon hanswer⟩)

/-! ### A whole run -/

/-- What is left of a feed's budget: it has failed as often as it was asked for
in vain, unless its icon came. -/
structure Spent (feedId : FeedId) (iconId : IconId) (n : ℕ) (db : Db) : Prop where
  bound : n ≤ 3
  failures : db.icons.contains iconId = false → n ≤ iconFailuresOf feedId db

/-- A feed is asked for by the icon it names. -/
theorem mem_of_names {limit : ℤ} {db : Db} {feedId : FeedId} {iconId : IconId}
    (hnames : Names feedId iconId db)
    (h : feedId ∈ (feedsMissingIcons limit db).map Prod.fst) :
    (feedId, iconId) ∈ feedsMissingIcons limit db := by
  obtain ⟨want, hwant, rfl⟩ := List.mem_map.1 h
  obtain ⟨row, hrow, hicon⟩ := (missing_of_mem hwant).row
  obtain ⟨row', hrow', hicon'⟩ := hnames
  cases hrow.symm.trans hrow'
  cases hicon.symm.trans hicon'
  exact hwant

theorem Spent.fetchRound {feedId : FeedId} {iconId : IconId} {n : ℕ} {limit : ℤ}
    {answers : FeedId → Option Icon} {db : Db} (h : Spent feedId iconId n db)
    (hown : ∀ want ∈ feedsMissingIcons limit db, ∀ icon, answers want.1 = some icon →
      icon.id = want.2) (hnames : Names feedId iconId db) :
    Spent feedId iconId
      (n + if (feedId, iconId) ∈ feedsMissingIcons limit db && (answers feedId).isNone then 1
        else 0) (fetchRound limit answers db) := by
  have hheld : (db.feeds.find? feedId).isSome = true := by
    obtain ⟨row, hrow, -⟩ := hnames
    rw [hrow]
    rfl
  have hcount : iconFailuresOf feedId (Store.fetchRound limit answers db) = _ :=
    iconFailuresOf_fetchRound hheld
  have hgrow : (Store.fetchRound limit answers db).icons.contains iconId = false →
      db.icons.contains iconId = false := by
    intro hunheld
    by_contra hbefore
    rw [(icons_fetchRound limit answers db iconId).2 (.inl (by simpa using hbefore))] at hunheld
    cases hunheld
  by_cases hasked : feedId ∈ (feedsMissingIcons limit db).map Prod.fst
  · have hmem := mem_of_names hnames hasked
    have hmissing := missing_of_mem hmem
    have hspent := h.failures hmissing.unheld
    have hleft : iconFailuresOf feedId db < 3 := hmissing.left
    rw [if_pos hasked] at hcount
    cases hanswer : answers feedId with
    | none =>
        simp only [hanswer, Option.isSome_none, Bool.false_eq_true, if_false] at hcount
        simp only [hmem, decide_true, Option.isNone_none, Bool.and_self, if_true]
        exact ⟨by omega, fun _ => by omega⟩
    | some icon =>
        have hicon : (Store.fetchRound limit answers db).icons.contains iconId = true :=
          (icons_fetchRound limit answers db iconId).2
            (.inr ⟨_, hmem, icon, hanswer, hown _ hmem icon hanswer⟩)
        simp only [Option.isNone_some, Bool.and_false, Bool.false_eq_true, if_false, Nat.add_zero]
        refine ⟨h.bound, fun hunheld => ?_⟩
        rw [hicon] at hunheld
        cases hunheld
  · have hmem : (feedId, iconId) ∉ feedsMissingIcons limit db := fun hmem =>
      hasked (List.mem_map_of_mem hmem)
    rw [if_neg hasked] at hcount
    simp only [hmem, decide_false, Bool.false_and, Bool.false_eq_true, if_false, Nat.add_zero]
    exact ⟨h.bound, fun hunheld => by rw [hcount]; exact h.failures (hgrow hunheld)⟩

theorem Spent.step {feedId : FeedId} {iconId : IconId} {n : ℕ} {x : Taken IconEvent Db}
    (h : Spent feedId iconId n x.before) (hstep : iconStep x.event x.before = some x.after)
    (hown : OwnIcons x) (hbefore : Names feedId iconId x.before)
    (hafter : Names feedId iconId x.after) :
    Spent feedId iconId (n + if asksInVain feedId iconId x then 1 else 0) x.after := by
  obtain ⟨before, event, after⟩ := x
  cases event with
  | round limit answers =>
      obtain rfl : Store.fetchRound limit answers before = after := Option.some.inj hstep
      exact h.fetchRound hown hbefore
  | other s hs =>
      obtain rfl : s.exec before = after := Option.some.inj hstep
      have hkeeps := keepsCounts_exec hs before
      refine ⟨h.bound, fun hunheld => ?_⟩
      obtain ⟨row, hrow, -⟩ := hafter
      have hfailures : iconFailuresOf feedId (s.exec before) = iconFailuresOf feedId before := by
        rw [iconFailuresOf, hrow, ← hkeeps.failures feedId row hrow]
        rfl
      rw [hfailures]
      exact h.failures (hkeeps.icons ▸ hunheld)

/-- Along a part of a run that keeps a feed and the icon it names. -/
theorem spent_of_run {db₀ db : Db} {t seg : IconTrace} {feedId : FeedId} {iconId : IconId}
    (hrun : Run iconStep db₀ (t ++ seg) db) (hown : ∀ x ∈ seg, OwnIcons x)
    (hnames : ∀ x ∈ seg, Names feedId iconId x.before ∧ Names feedId iconId x.after) :
    Spent feedId iconId (seg.countP (asksInVain feedId iconId)) db := by
  induction seg using List.reverseRecOn generalizing db with
  | nil => exact ⟨Nat.zero_le 3, fun _ => Nat.zero_le _⟩
  | append_singleton seg x ih =>
      rw [← List.append_assoc] at hrun
      obtain ⟨hbefore, hstep, rfl⟩ := hrun.of_append
      have hx : x ∈ seg ++ [x] := List.mem_append_right _ (List.mem_singleton_self x)
      have hspent := ih hbefore (fun y hy => hown y (List.mem_append_left _ hy))
        fun y hy => hnames y (List.mem_append_left _ hy)
      rw [List.countP_append, List.countP_singleton]
      exact hspent.step hstep (hown x hx) (hnames x hx).1 (hnames x hx).2

/-- In a run of own icons no feed is asked for more often than its budget
allows, and each one asked for makes progress. -/
theorem icons_fair {db₀ db : Db} {t : IconTrace} (hrun : Run iconStep db₀ t db)
    (hown : ∀ x ∈ t, OwnIcons x) : IconsFair t := by
  have hsteps : ∀ x ∈ t, iconStep x.event x.before = some x.after := by
    intro x hx
    obtain ⟨-, -, -, hstep⟩ := hrun.of_mem hx
    exact hstep
  constructor
  case progress =>
    intro x hx limit answers hevent want hwant
    have hstep := hsteps x hx
    have hround := hown x hx
    obtain ⟨before, event, after⟩ := x
    dsimp only at hevent
    subst hevent
    obtain rfl : fetchRound limit answers before = after := Option.some.inj hstep
    exact progress_fetchRound hround hwant
  case budget =>
    intro feedId iconId seg hseg hnames
    obtain ⟨t₁, t₂, rfl⟩ := hseg
    obtain ⟨a, ha⟩ := hrun.of_prefix (List.prefix_append (t₁ ++ seg) t₂)
    have hmem : ∀ x ∈ seg, x ∈ t₁ ++ seg ++ t₂ := fun x hx =>
      List.mem_append_left _ (List.mem_append_right _ hx)
    exact (spent_of_run ha (fun x hx => hown x (hmem x hx)) hnames).bound
  case renewed =>
    intro x hx f generation h hevent hrenames
    have hstep := hsteps x hx
    have hzero := hown x hx
    obtain ⟨before, event, after⟩ := x
    dsimp only at hevent
    subst hevent
    obtain rfl : upsertFeed f generation before = after := Option.some.inj hstep
    exact (iconFailuresOf_upsertFeed f generation before f.id).trans (hzero hrenames)

/-! ### An icon under another id -/

/-- Feed 1, which names icon 77. -/
def feedOfIcon : Feed where
  id := 1
  categoryId := none
  title := ""
  siteUrl := none
  feedUrl := none
  iconId := some 77
  checkedAt := none
  parsingErrorMessage := ""
  parsingErrorCount := 0
  disabled := false
  hideGlobally := false
  crawler := false

def iconDb : Db :=
  upsertFeed feedOfIcon 1 Db.empty

/-- An icon that came without an id. -/
def unnumberedIcon : Icon where
  id := 0
  format := .png
  bytes := []
  dimensions := none

theorem icons_fair_inVain :
    IconsFair [⟨iconDb, .round 1 fun _ => none, fetchRound 1 (fun _ => none) iconDb⟩] := by
  refine icons_fair (.step .start rfl) fun x hx => ?_
  obtain rfl := List.mem_singleton.1 hx
  intro want _ icon hicon
  cases hicon

/-- The feed is answered with an icon under another id than it names: it is
asked for again, and none of its budget is spent. -/
theorem icon_asked_again :
    ¬∀ db₀ t db, Run iconStep db₀ t db → IconsFair t := by
  intro h
  let answers : FeedId → Option Icon := fun _ => some unnumberedIcon
  have hfair := h iconDb [⟨iconDb, .round 1 answers, fetchRound 1 answers iconDb⟩] _
    (.step .start rfl)
  have hasked : (1, 77) ∈ feedsMissingIcons 1 iconDb := List.mem_singleton_self _
  have hagain : (1, 77) ∈ feedsMissingIcons 1 (fetchRound 1 answers iconDb) :=
    List.mem_singleton_self _
  obtain hdone | hmore := hfair.progress _ (List.mem_singleton_self _) 1 answers rfl _ hasked
  · exact hdone 1 (List.mem_map_of_mem hagain)
  · exact absurd hmore (Nat.lt_irrefl 0)

end Store

end Vuo
