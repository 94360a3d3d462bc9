import Vuo.Foundation.Trace
import Vuo.Verification.Content.Consent
import Vuo.Verification.Content.PlainText

/-!
# Pictures under the strict setting

A picture is loaded without asking only if the policy fetches its address. The
strict setting fetches from the reader's own server, and from every origin that
consent is on record for.
-/

namespace Vuo.Content

open Foundation Http

/-! ## Pictures that are loaded -/

/-- A picture that is loaded without asking is one the policy fetches. -/
def BlockKind.Fetched (media : MediaPolicy) : BlockKind → Prop
  | .image src _ _ .allowed _ _ => media.decideWithConsent src [] = .fetch src
  | _ => True

def Edit.Fetched (media : MediaPolicy) : Edit → Prop
  | .image src _ _ .allowed _ _ => media.decideWithConsent src [] = .fetch src
  | _ => True

namespace Builder

variable {media : MediaPolicy} {b : Builder}

def Fetched (media : MediaPolicy) (b : Builder) : Prop :=
  ∀ block ∈ b.blocks, block.kind.Fetched media

theorem fetched_pushBlock (h : b.Fetched media) {kind : BlockKind} (hkind : kind.Fetched media) :
    (b.pushBlock kind).Fetched media := by
  cases htable : b.table with
  | some table =>
      rw [pushBlock_of_table htable]
      split_ifs <;> exact h
  | none =>
      rw [Fetched, blocks_pushBlock_of_none b htable]
      split_ifs
      · exact h
      · intro block hblock
        rcases List.mem_append.1 hblock with hblock | hblock
        · exact h block hblock
        · rw [List.mem_singleton.1 hblock]
          exact hkind

theorem fetched_flush (h : b.Fetched media) : b.flush.Fetched media := by
  by_cases hblank : trimSpans b.spans = []
  · rw [flush_of_blank hblank]
    exact h
  · cases htable : b.table with
    | some table =>
        rw [flush_of_table hblank htable]
        exact h
    | none =>
        rw [flush_of_none hblank htable]
        refine fetched_pushBlock (b := { b with spans := [] }) h ?_
        cases b.pending <;> trivial

theorem fetched_closeTable (h : b.Fetched media) : b.closeTable.Fetched media := by
  unfold closeTable
  split
  · exact h
  · dsimp only
    split_ifs
    · exact h
    · exact fetched_pushBlock (b := { b with table := none }) h trivial

theorem blocks_commitRow (b : Builder) : b.commitRow.blocks = b.blocks := by
  unfold commitRow
  split
  · rfl
  · dsimp only
    split_ifs <;> rfl

theorem blocks_startCell (b : Builder) (header : Bool) :
    (b.startCell header).blocks = b.blocks := by
  unfold startCell
  split
  · rfl
  · dsimp only
    split_ifs <;> rfl

/-- A picture comes to the blocks with its own change only. -/
theorem fetched_apply (h : b.Fetched media) {edit : Edit} (hedit : edit.Fetched media) :
    (b.apply edit).Fetched media := by
  have hsame {b' : Builder} (hblocks : b'.blocks = b.blocks) : b'.Fetched media := by
    rw [Fetched, hblocks]
    exact h
  cases edit with
  | flush => exact fetched_flush h
  | text text =>
      refine hsame ?_
      simp only [apply, pushText]
      split_ifs <;> rfl
  | lineBreak =>
      refine hsame ?_
      simp only [apply, breakLine]
      split_ifs <;> rfl
  | rule => exact fetched_pushBlock h trivial
  | image src alt title fetch intrinsic link =>
      refine fetched_pushBlock h ?_
      cases fetch with
      | allowed => exact hedit
      | needsConsent => trivial
  | openList ordered =>
      refine hsame ?_
      simp only [apply, openList]
      split_ifs <;> rfl
  | nextItem =>
      refine hsame ?_
      simp only [apply, nextItem]
      split <;> rfl
  | openPre tag =>
      refine hsame ?_
      simp only [apply, openPre]
      split_ifs <;> rfl
  | closePre =>
      simp only [apply, closePre]
      split_ifs
      · exact hsame rfl
      · exact fetched_pushBlock
          (b := { b with preDepth := b.preDepth - 1, preText := [], preLanguage := none }) h trivial
      · exact hsame rfl
  | leaveTable =>
      simp only [apply, leaveTable]
      split_ifs
      · exact fetched_closeTable (b := { b with tableDepth := b.tableDepth - 1 }) h
      · exact hsame rfl
  | openRow => exact hsame (blocks_commitRow b)
  | closeRow => exact hsame (blocks_commitRow b)
  | openCell header => exact hsame (blocks_startCell b header)
  | _ => exact hsame rfl

end Builder

/-! ## What the tokens show -/

theorem fetched_opening {media : MediaPolicy} (block : BlockTag) (tag : Tag) :
    ∀ edit ∈ block.opening tag, edit.Fetched media := by
  cases block <;> simp [BlockTag.opening, Edit.Fetched]

theorem fetched_closing {media : MediaPolicy} (element : OpenElement) :
    ∀ edit ∈ element.closing, edit.Fetched media := by
  unfold OpenElement.closing
  cases element.disposition with
  | block block => cases block <;> simp [BlockTag.closing, Edit.Fetched]
  | _ => simp [Edit.Fetched]

theorem fetched_closeEdits {media : MediaPolicy} (name : String) (elements : List OpenElement)
    (skipFrom : Option ℕ) : ∀ edit ∈ closeEdits name elements skipFrom, edit.Fetched media := by
  induction elements generalizing skipFrom with
  | nil => exact fun edit hedit => by cases hedit
  | cons element rest ih =>
      intro edit hedit
      simp only [closeEdits, List.cons_append, List.mem_cons, List.mem_append] at hedit
      rcases hedit with rfl | hclosing | rfl | hrest
      · trivial
      · split_ifs at hclosing
        · cases hclosing
        · exact fetched_closing element edit hclosing
      · trivial
      · split_ifs at hrest
        · cases hrest
        · exact ih _ edit hrest

namespace Builder

variable [UrlLibrary] {b : Builder}

theorem fetched_imageEdits (b : Builder) (tag : Tag) :
    ∀ edit ∈ b.imageEdits tag, edit.Fetched b.ctx.media := by
  unfold imageEdits
  dsimp only
  split
  · exact fun edit hedit => by cases hedit
  · next src hsrc =>
      split
      · next src' hdecide =>
          obtain rfl := url_of_decide (.inl hdecide)
          simp [Edit.Fetched, hdecide]
      · simp [Edit.Fetched]
      · exact fun edit hedit => by cases hedit

theorem fetched_startEdits (b : Builder) (tag : Tag) :
    ∀ edit ∈ b.startEdits tag, edit.Fetched b.ctx.media := by
  have hopen (element : OpenElement) :
      ∀ edit ∈ b.openEdits tag element, edit.Fetched b.ctx.media := by
    unfold openEdits
    split_ifs <;> simp [Edit.Fetched]
  unfold startEdits
  split_ifs with hskip hskipped hdeep
  · unfold skippedEdits
    split_ifs <;> simp [Edit.Fetched]
  · unfold skipEdits
    split_ifs <;> simp [Edit.Fetched]
  · simp [Edit.Fetched]
  · cases hclass : classify (lowercase tag.name) with
    | void void =>
        simp only [elementEdits, hclass]
        cases void with
        | lineBreak => simp [voidEdits, Edit.Fetched]
        | rule => simp [voidEdits, Edit.Fetched]
        | image => exact b.fetched_imageEdits tag
    | inline inline =>
        simp only [elementEdits, hclass]
        split_ifs <;> simp [Edit.Fetched]
    | block block =>
        simp only [elementEdits, hclass]
        intro edit hedit
        rcases List.mem_append.1 hedit with hopening | hstack
        · exact fetched_opening _ tag edit hopening
        · exact hopen _ edit hstack
    | skip =>
        simp only [elementEdits, hclass]
        exact hopen _
    | flatten =>
        simp only [elementEdits, hclass]
        exact hopen _

theorem fetched_steps (b : Builder) (token : Token) :
    ∀ edit ∈ b.steps token, edit.Fetched b.ctx.media := by
  unfold steps
  split_ifs
  · exact fun edit hedit => by cases hedit
  · cases token with
    | startTag tag => exact b.fetched_startEdits tag
    | endTag tag =>
        simp only [edits]
        split_ifs
        · exact fetched_closeEdits _ _ _
        · exact fun edit hedit => by cases hedit
    | characters text => simp [edits, Edit.Fetched]
    | ignored => exact fun edit hedit => by cases hedit

theorem fetched_run (h : b.Fetched b.ctx.media) (tokens : List Token) :
    (b.run tokens).Fetched b.ctx.media := by
  induction tokens generalizing b with
  | nil => exact h
  | cons token tokens ih =>
      have hstep : (b.processToken token).Fetched b.ctx.media := by
        rw [processToken_eq]
        exact applyAll_induction h
          (along_of_forall (P := fun _ edit => edit.Fetched b.ctx.media)
            fun edit hedit _ => b.fetched_steps token edit hedit)
          fun _ _ hedit hb => fetched_apply hb hedit
      have hctx : (b.processToken token).ctx = b.ctx := by
        rw [processToken_eq]
        exact (grows_applyAll b _).ctx
      have hrest := ih (b := b.processToken token) (hctx ▸ hstep)
      rw [hctx] at hrest
      exact hrest

end Builder

/-- Whatever the markup, a picture that is loaded without asking is one the
policy fetches. -/
theorem fetched_transform [UrlLibrary] (ctx : TransformContext) (pre : Option Truncation)
    (tokens : List Token) :
    ∀ block ∈ (transform ctx pre tokens).blocks, block.kind.Fetched ctx.media := by
  have hrun := Builder.fetched_run (b := { Builder.new ctx with truncated := pre })
    (fun block hblock => by cases hblock) tokens
  exact Builder.fetched_closeTable (Builder.fetched_flush hrun)

/-! ## The view -/

section View

variable [UrlLibrary]

/-- A web origin other than the reader's own server. -/
def Foreign (instanceUrl o : Url) : Prop :=
  (o.scheme = "http" ∨ o.scheme = "https") ∧ ¬SameOrigin o instanceUrl

/-- Only the reader's own server is asked for pictures without consent. -/
def OwnPictures (instanceUrl : Url) (rows : List RenderBlock) : Prop :=
  ∀ block ∈ rows, ∀ src alt title intrinsic link,
    block.kind = .image src alt title .allowed intrinsic link → SameOrigin src.url instanceUrl

namespace ArticleView

variable {m : ArticleView}

/-- Under the strict setting every article keeps to the reader's own server. -/
def Safe (m : ArticleView) : Prop :=
  m.mediaPolicy = mediaStrict →
    ∀ article readable, OwnPictures m.instanceUrl (m.shown article readable)

/-- The condition on a step: the strict setting is taken with no other origin on
record, and none is put on record under it. -/
def Ok (e : Event) (m : ArticleView) : Prop :=
  match e with
  | .configure instanceUrl mediaPolicy =>
      mediaPolicy = mediaStrict → ∀ o ∈ mediaConsent m.stored, ¬Foreign instanceUrl o
  | .allowImages row written _ _ =>
      m.mediaPolicy = mediaStrict → written = true →
        ∀ o ∈ originAt m.rows row, ¬Foreign m.instanceUrl o
  | _ => True

/-- What the URL library promises: the empty text is no address, and the text of
a joined address has no white space around it and reads back as the address. -/
structure Legible : Prop where
  blank : UrlLibrary.parse "" = none
  joined : ∀ base raw u, UrlLibrary.join base raw = some u →
    UrlLibrary.parse u.href = some u ∧ trim u.href.toList = u.href.toList

omit [UrlLibrary] in
theorem decide_strict {instanceUrl : Url} {consented : List Url} {src : MediaUrl} :
    (MediaPolicy.proxyThroughInstance instanceUrl consented .strict).decideWithConsent src [] =
      .fetch src ↔ trusts instanceUrl consented src = true := by
  unfold MediaPolicy.decideWithConsent
  change (if trusts instanceUrl consented src = true then _ else _) = _ ↔ _
  split_ifs with htrusts hnone
  · simp [htrusts]
  · simp at hnone
  · simp [htrusts]

/-- Nothing foreign on record, nothing foreign shown. -/
theorem ownPictures_shown (hstrict : m.mediaPolicy = mediaStrict) {readable : Bool}
    (hown : ∀ o ∈ mediaConsent m.stored, ¬Foreign m.instanceUrl o) (article : Article) :
    OwnPictures m.instanceUrl (m.shown article readable) := by
  intro block hblock src alt title intrinsic link hkind
  have hfetched := fetched_transform _ _ _ block hblock
  rw [hkind] at hfetched
  have hfallback : fallbackOf m.mediaPolicy = .strict := by rw [hstrict]; rfl
  simp only [BlockKind.Fetched, transformContext, hfallback] at hfetched
  rcases trusts_iff.1 (decide_strict.1 hfetched) with hinstance | ⟨o, ho, hsame⟩
  · exact hinstance
  · have hmem : o ∈ mediaConsent m.stored := by
      cases readable with
      | true => exact ho
      | false => cases ho
    have hweb : o.scheme = "http" ∨ o.scheme = "https" := by
      rw [← hsame.scheme]
      exact src.web
    by_contra hother
    exact hown o hmem ⟨hweb, fun hsame' => hother
      ⟨hsame.scheme.trans hsame'.scheme, hsame.host.trans hsame'.host,
        hsame.port.trans hsame'.port⟩⟩

/-- An article that is one picture. -/
def picture (text : String) : Article where
  url := ""
  preTruncated := none
  tokens := [.startTag ⟨"img", false, [⟨"src", text⟩]⟩]

omit [UrlLibrary] in
theorem attr_picture (text : String) :
    attr ⟨"img", false, [⟨"src", text⟩]⟩ "src" = some text.toList := by
  have hname : lowercase "src" = "src" := by decide
  simp [attr, hname]

/-- A picture the policy fetches is shown. -/
theorem mem_transform_picture {ctx : TransformContext} {src : MediaUrl} {text : String}
    (hbase : ctx.baseUrl = none) (hlimits : ctx.limits = Limits.default)
    (htext : trim text.toList ≠ []) (hsrc : MediaUrl.parse text = some src)
    (hfetch : ctx.media.decideWithConsent src [] = .fetch src) :
    ⟨.image src [] none .allowed none none, 0⟩ ∈
      (transform ctx none (picture text).tokens).blocks := by
  have hclass : classify (lowercase "img") = .void .image := by decide
  have hattr := attr_picture text
  have hother (name : String) (hname : "src" ≠ name) :
      attr ⟨"img", false, [⟨"src", text⟩]⟩ name = none := by
    have hlower : lowercase "src" ≠ name := by
      have : lowercase "src" = "src" := by decide
      rwa [this]
    simp [attr, hlower]
  have hsize : intrinsicSize ⟨"img", false, [⟨"src", text⟩]⟩ = none := by
    simp [intrinsicSize, dimension, hother]
  have hnonempty : nonEmptyAttr ⟨"img", false, [⟨"src", text⟩]⟩ "src" = some text.toList := by
    simp [nonEmptyAttr, hattr, htext]
  have hresolve : (Builder.new ctx).resolve text.toList = some src := by
    simp [Builder.resolve, Builder.new, hbase, hsrc]
  have hflush : (Builder.new ctx).flush = Builder.new ctx := rfl
  have hpush : (Builder.new ctx).pushBlock (.image src [] none .allowed none none) =
      { Builder.new ctx with blocks := [⟨.image src [] none .allowed none none, 0⟩] } := by
    simp [Builder.pushBlock, Builder.new, hlimits, Limits.default]
  have himage : (Builder.new ctx).startTag ⟨"img", false, [⟨"src", text⟩]⟩ =
      { Builder.new ctx with blocks := [⟨.image src [] none .allowed none none, 0⟩] } := by
    have hopen : (Builder.new ctx).skipFrom.isSome = false := rfl
    have hdeep : ¬(Builder.new ctx).ctx.limits.maxDepth ≤ (Builder.new ctx).opened.length := by
      simp [Builder.new, hlimits, Limits.default]
    have hmedia : (Builder.new ctx).ctx.media = ctx.media := rfl
    have hlink : (Builder.new ctx).link = none := rfl
    simp only [Builder.startTag, hopen, Bool.false_eq_true, if_false, hclass, reduceCtorEq, hdeep,
      Builder.startElement, Builder.voidElement, Builder.image, hnonempty, Option.bind_some,
      hresolve, hmedia, hfetch, hother "alt" (by decide), hother "title" (by decide), hsize,
      hflush, hlink, Option.getD_none, Option.filter_none]
    exact hpush
  have hrun : (Builder.new ctx).run (picture text).tokens =
      { Builder.new ctx with blocks := [⟨.image src [] none .allowed none none, 0⟩] } := by
    have hstopped : (Builder.new ctx).stopped = false := by
      simp [Builder.stopped, Builder.atCapacity, Builder.new, hlimits, Limits.default]
    simp only [Builder.run, picture, List.foldl_cons, List.foldl_nil, Builder.processToken,
      hstopped, Bool.false_eq_true, if_false]
    exact himage
  have htransform : (transform ctx none (picture text).tokens).blocks =
      [⟨.image src [] none .allowed none none, 0⟩] := by
    change ((Builder.new ctx).run (picture text).tokens).finish.blocks = _
    rw [hrun]
    rfl
  rw [htransform]
  exact List.mem_singleton.2 rfl

/-! ## What is on record -/

/-- What is on record has no white space around it. -/
def Trimmed (m : ArticleView) : Prop :=
  ∀ text ∈ m.stored, trim text.toList = text.toList

/-- The strict setting keeps to the reader's own server exactly as long as no
other web origin is on record. -/
theorem safe_iff (hlegible : Legible) (htrimmed : m.Trimmed) :
    m.Safe ↔ (m.mediaPolicy = mediaStrict →
      ∀ o ∈ mediaConsent m.stored, ¬Foreign m.instanceUrl o) := by
  constructor
  · intro hsafe hstrict o ho hforeign
    obtain ⟨text, htext, hparse⟩ := List.mem_filterMap.1 ho
    have hblank : trim text.toList ≠ [] := by
      rw [htrimmed text htext]
      intro hempty
      obtain rfl := String.toList_eq_nil_iff.1 hempty
      rw [hlegible.blank] at hparse
      cases hparse
    let src : MediaUrl := ⟨o, hforeign.1⟩
    have hsrc : MediaUrl.parse text = some src := by
      rw [MediaUrl.parse, htrimmed text htext, String.ofList_toList, hparse, Option.bind_some,
        MediaUrl.fromUrl]
      exact dif_pos hforeign.1
    have hfallback : fallbackOf m.mediaPolicy = .strict := by rw [hstrict]; rfl
    have hfetch : (transformContext "" m.instanceUrl (mediaConsent m.stored) m.mediaPolicy
        Limits.default).media.decideWithConsent src [] = .fetch src := by
      simp only [transformContext, hfallback]
      exact decide_strict.2 (trusts_iff.2 (.inr ⟨o, ho, ⟨rfl, rfl, rfl⟩⟩))
    have hshown := @mem_transform_picture _ (transformContext "" m.instanceUrl
      (mediaConsent m.stored) m.mediaPolicy Limits.default) _ _ hlegible.blank rfl hblank hsrc
      hfetch
    exact hforeign.2 (hsafe hstrict (picture text) true _ hshown src [] none none none rfl)
  · intro hown hstrict article readable
    exact ownPictures_shown hstrict (hown hstrict) article

theorem joined_of_originAt {rows : List RenderBlock} {row : ℤ} {origin : Url}
    (h : originAt rows row = some origin) :
    ∃ base, UrlLibrary.join base "/" = some origin := by
  unfold originAt at h
  split_ifs at h
  obtain ⟨block, -, h⟩ := Option.bind_eq_some_iff.1 h
  obtain ⟨base, -, hjoin⟩ := Option.bind_eq_some_iff.1 h
  exact ⟨base, hjoin⟩

theorem trimmed_step {e : Event} {m m' : ArticleView} (hlegible : Legible)
    (htrimmed : m.Trimmed) (hstep : step e m = some m') : m'.Trimmed := by
  cases e with
  | allowImages row written entry readable =>
      obtain rfl := Option.some.inj hstep
      unfold allowImages
      cases horigin : originAt m.rows row with
      | none => exact htrimmed
      | some origin =>
          cases written with
          | false => exact htrimmed
          | true =>
              intro text htext
              simp only [load, if_true, allowImagesFrom, horigin, grantMediaConsent] at htext
              rcases List.mem_append.1 htext with hold | hnew
              · exact htrimmed text (List.mem_filter.1 hold).1
              · rw [List.mem_singleton.1 hnew]
                obtain ⟨base, hjoin⟩ := joined_of_originAt horigin
                exact (hlegible.joined base "/" origin hjoin).2
  | _ =>
      obtain rfl := Option.some.inj hstep
      exact htrimmed

/-- One step from a safe state leads to a safe one exactly under the condition. -/
theorem safe_step_iff {e : Event} {m m' : ArticleView} (hlegible : Legible)
    (htrimmed : m.Trimmed) (hstep : step e m = some m') (hsafe : m.Safe) :
    m'.Safe ↔ Ok e m := by
  have htrimmed' := trimmed_step hlegible htrimmed hstep
  have hold := (safe_iff hlegible htrimmed).1 hsafe
  rw [safe_iff hlegible htrimmed']
  cases e with
  | configure instanceUrl mediaPolicy =>
      obtain rfl := Option.some.inj hstep
      exact Iff.rfl
  | load entry readable =>
      obtain rfl := Option.some.inj hstep
      exact ⟨fun _ => trivial, fun _ => hold⟩
  | restart =>
      obtain rfl := Option.some.inj hstep
      exact ⟨fun _ => trivial, fun _ => hold⟩
  | allowImages row written entry readable =>
      obtain rfl := Option.some.inj hstep
      simp only [Ok, allowImages]
      cases horigin : originAt m.rows row with
      | none => simpa using hold
      | some origin =>
          cases written with
          | false => simpa [load] using hold
          | true =>
              obtain ⟨base, hjoin⟩ := joined_of_originAt horigin
              have hmem (o : Url) := @mem_mediaConsent_allowImagesFrom _ m.stored _ _ _ o horigin
                (hlegible.joined base "/" origin hjoin).1
              simp only [load, if_true, hmem, Option.mem_some_iff, forall_eq', true_implies]
              constructor
              · intro hown hstrict
                exact hown hstrict origin (.inl rfl)
              · rintro hown hstrict o (rfl | ho)
                · exact hown hstrict
                · exact hold hstrict o ho

/-! ## Runs -/

variable {instanceUrl : Url} {mediaPolicy : ℤ} {t : List (Taken Event ArticleView)}

theorem trimmed_run (hlegible : Legible) (h : Run step (start instanceUrl mediaPolicy) t m) :
    m.Trimmed :=
  h.invariant (I := Trimmed) (fun text htext => by cases htext)
    fun _ _ _ htrimmed hstep => trimmed_step hlegible htrimmed hstep

theorem safe_start (hlegible : Legible) : (start instanceUrl mediaPolicy).Safe :=
  (safe_iff hlegible fun text htext => by cases htext).2 fun _ o ho => by cases ho

/-- Whatever was agreed to and however the setting changed, the strict setting
keeps every article to the reader's own server all along a run exactly if it is
never taken with another origin on record, and none is recorded under it. -/
theorem strict_safe_iff (hlegible : Legible)
    (h : Run step (start instanceUrl mediaPolicy) t m) :
    (∀ t' m', t' <+: t → Run step (start instanceUrl mediaPolicy) t' m' → m'.Safe) ↔
      ∀ x ∈ t, Ok x.event x.before :=
  h.forall_prefix_iff_forall_mem (safe_start hlegible) fun _ _ hrun hstep hsafe =>
    safe_step_iff hlegible (trimmed_run hlegible hrun) hstep hsafe

end ArticleView

end View

section Album

/-- The URL library as far as the pictures of one server go. -/
abbrev albumUrls : UrlLibrary where
  parse raw :=
    if raw = "https://pics.example/a.png" then
      some ⟨"https", some "pics.example", some 443, "https://pics.example/a.png"⟩
    else if raw = "https://pics.example/" then some pictureHome
    else none
  join base raw :=
    if base.hostStr = some "pics.example" ∧ raw = "/" then some pictureHome else none

namespace Album

scoped instance : UrlLibrary := albumUrls

end Album

open scoped Album

namespace ArticleView

theorem legible_album : Legible where
  blank := by decide
  joined := by
    intro base raw u hjoin
    simp only [UrlLibrary.join] at hjoin
    split_ifs at hjoin
    obtain rfl := Option.some.inj hjoin
    decide

/-- Taken before anything is on record, the strict setting keeps a picture of
another server from being shown. -/
theorem strict_safe_iff_picture :
    ∃ (t : List (Taken Event ArticleView)) (m : ArticleView),
      Run step (start readerHome mediaAsk) t m ∧ m.mediaPolicy = mediaStrict ∧ m.rows = [] ∧
        ∀ t' m', t' <+: t → Run step (start readerHome mediaAsk) t' m' → m'.Safe := by
  have hrun : Run step (start readerHome mediaAsk) _ _ :=
    .step (e := .load (some (picture "https://pics.example/a.png")) true)
      (.step (e := .configure readerHome mediaStrict) .start rfl) rfl
  refine ⟨_, _, hrun, rfl, by decide, (strict_safe_iff legible_album hrun).2 ?_⟩
  simp only [List.nil_append, List.cons_append, List.mem_cons, List.not_mem_nil, or_false,
    forall_eq_or_imp, forall_eq]
  exact ⟨fun _ o ho => (by cases ho), trivial⟩

/-- Not so once its origin is on record: the strict setting fetches the picture
without asking. -/
theorem strict_leaks :
    ∃ (t : List (Taken Event ArticleView)) (m : ArticleView),
      Run step (start readerHome mediaAsk) t m ∧ m.mediaPolicy = mediaStrict ∧
        ¬OwnPictures m.instanceUrl (m.shown (picture "https://pics.example/a.png") true) := by
  let asked := (start readerHome mediaAsk).load (some (picture "https://pics.example/a.png")) true
  let agreed := asked.allowImages 0 true (some (picture "https://pics.example/a.png")) true
  let strict : ArticleView := { agreed with mediaPolicy := mediaStrict }
  have hrun : Run step (start readerHome mediaAsk) _ strict :=
    .step (e := .configure readerHome mediaStrict)
      (.step (e := .allowImages 0 true (some (picture "https://pics.example/a.png")) true)
        (.step (e := .load (some (picture "https://pics.example/a.png")) true) .start rfl) rfl) rfl
  refine ⟨_, strict, hrun, rfl, fun hown => ?_⟩
  let src : MediaUrl :=
    ⟨⟨"https", some "pics.example", some 443, "https://pics.example/a.png"⟩, .inr rfl⟩
  have hrecord : pictureHome ∈ mediaConsent strict.stored := by decide
  have hshown := @mem_transform_picture _ (transformContext "" readerHome
    (mediaConsent strict.stored) mediaStrict Limits.default) src
    "https://pics.example/a.png" rfl rfl (by decide) (by decide)
    (decide_strict.2 (trusts_iff.2 (.inr ⟨pictureHome, hrecord, rfl, rfl, rfl⟩)))
  have hhost := (hown _ hshown src [] none none none rfl).host
  exact absurd hhost (by decide)

end ArticleView

end Album

end Vuo.Content
