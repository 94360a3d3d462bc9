import Vuo.Model.Content.Article
import Vuo.Verification.Content.Frames
import Vuo.Verification.Http.Origin

/-!
# Consent to one origin

The decision about a picture could be made once the document is complete: it
changes the flag of the picture and nothing else.
-/

namespace Vuo.Content

open Vuo.Http (SameOrigin)

/-- The policy decides about an address, it never changes one. -/
theorem url_of_decide {media : MediaPolicy} {src src' : MediaUrl}
    (h : media.decideWithConsent src [] = .fetch src' ∨
      media.decideWithConsent src [] = .needsConsent src') : src' = src := by
  unfold MediaPolicy.decideWithConsent at h
  cases media with
  | direct =>
      rcases h with h | h
      · cases h
        rfl
      · cases h
  | proxyThroughInstance instanceUrl extraTrusted fallback =>
      dsimp only at h
      split_ifs at h with htrusted hconsented
      · rcases h with h | h
        · cases h
          rfl
        · cases h
      · simp at hconsented
      · cases fallback <;> rcases h with h | h <;> cases h <;> rfl

/-! ## Judging a finished document -/

/-- A picture is allowed if its address is trusted. -/
def BlockKind.judge (trusted : MediaUrl → Bool) : BlockKind → BlockKind
  | .image src alt title _ intrinsic link =>
      .image src alt title (if trusted src then .allowed else .needsConsent) intrinsic link
  | kind => kind

def RenderBlock.judge (trusted : MediaUrl → Bool) (block : RenderBlock) : RenderBlock :=
  { block with kind := block.kind.judge trusted }

def Document.judge (trusted : MediaUrl → Bool) (doc : Document) : Document :=
  { doc with blocks := doc.blocks.map (RenderBlock.judge trusted) }

/-- The same builder under another policy. -/
def Builder.judge (media : MediaPolicy) (trusted : MediaUrl → Bool) (b : Builder) : Builder :=
  { b with
    ctx := { b.ctx with media := media }
    blocks := b.blocks.map (RenderBlock.judge trusted) }

theorem BlockKind.plainText_judge (trusted : MediaUrl → Bool) (kind : BlockKind) :
    (kind.judge trusted).plainText = kind.plainText := by
  cases kind <;> rfl

theorem Pending.judge_kind (trusted : MediaUrl → Bool) (pending : Pending)
    (spans : List Span) : (pending.kind spans).judge trusted = pending.kind spans := by
  cases pending <;> rfl

namespace Builder

variable {media : MediaPolicy} {trusted : MediaUrl → Bool} (b : Builder)

theorem stopped_judge : (b.judge media trusted).stopped = b.stopped := by
  have hlength : (b.judge media trusted).blocks.length = b.blocks.length := by simp [judge]
  simp only [stopped, atCapacity, hlength]
  rfl

theorem pushBlock_judge (kind : BlockKind) :
    (b.judge media trusted).pushBlock (kind.judge trusted) =
      (b.pushBlock kind).judge media trusted := by
  cases htable : b.table with
  | some table =>
      have htable' : (b.judge media trusted).table = some table := htable
      rw [pushBlock_of_table htable, pushBlock_of_table htable', BlockKind.plainText_judge]
      split_ifs <;> rfl
  | none =>
      have htable' : (b.judge media trusted).table = none := htable
      have hlength : (b.judge media trusted).blocks.length = b.blocks.length := by simp [judge]
      have hblocks : (b.blocks ++ [(⟨kind, b.quoteDepth⟩ : RenderBlock)]).map
          (RenderBlock.judge trusted) =
          b.blocks.map (RenderBlock.judge trusted) ++ [⟨kind.judge trusted, b.quoteDepth⟩] := by
        rw [List.map_append]
        rfl
      have hlimits : (b.judge media trusted).ctx.limits = b.ctx.limits := rfl
      have hbytes : (b.judge media trusted).textBytes = b.textBytes := rfl
      have hcommitted : (b.judge media trusted).textCommitted = b.textCommitted := rfl
      rw [pushBlock_of_none htable, pushBlock_of_none htable', hlength, hlimits, hbytes,
        hcommitted]
      split_ifs
      · rfl
      · rfl
      · simp only [judge, hblocks]
      · simp only [judge, hblocks]

theorem flush_judge : (b.judge media trusted).flush = b.flush.judge media trusted := by
  by_cases hblank : trimSpans b.spans = []
  · have hblank' : trimSpans (b.judge media trusted).spans = [] := hblank
    rw [flush_of_blank hblank, flush_of_blank hblank']
    rfl
  · have hblank' : trimSpans (b.judge media trusted).spans ≠ [] := hblank
    cases htable : b.table with
    | some table =>
        have htable' : (b.judge media trusted).table = some table := htable
        rw [flush_of_table hblank htable, flush_of_table hblank' htable']
        rfl
    | none =>
        have htable' : (b.judge media trusted).table = none := htable
        have hpush := @pushBlock_judge media trusted
          { b with spans := [] } (b.pending.kind (trimSpans b.spans))
        rw [Pending.judge_kind] at hpush
        rw [flush_of_none hblank htable, flush_of_none hblank' htable']
        exact congrArg (fun c : Builder => { c with pending := b.defaultPending }) hpush

theorem closeTable_judge :
    (b.judge media trusted).closeTable = b.closeTable.judge media trusted := by
  have htable : (b.judge media trusted).table = b.table := rfl
  unfold closeTable
  rw [htable]
  cases b.table with
  | none => rfl
  | some table =>
      dsimp only
      have hlimits : (b.judge media trusted).ctx.limits = b.ctx.limits := rfl
      rw [hlimits]
      split_ifs with hrows
      · rfl
      · exact pushBlock_judge { b with table := none } (.table _)

theorem commitRow_judge : (b.judge media trusted).commitRow = b.commitRow.judge media trusted := by
  have htable : (b.judge media trusted).table = b.table := rfl
  have hlimits : (b.judge media trusted).ctx.limits = b.ctx.limits := rfl
  unfold commitRow
  rw [htable, hlimits]
  cases b.table with
  | none => rfl
  | some table =>
      dsimp only
      split_ifs <;> rfl

theorem startCell_judge (header : Bool) :
    (b.judge media trusted).startCell header = (b.startCell header).judge media trusted := by
  have htable : (b.judge media trusted).table = b.table := rfl
  have hlimits : (b.judge media trusted).ctx.limits = b.ctx.limits := rfl
  unfold startCell
  rw [htable, hlimits]
  cases b.table with
  | none => rfl
  | some table =>
      dsimp only
      split_ifs <;> rfl

theorem startBlock_judge (block : BlockTag) (tag : Tag) :
    (b.judge media trusted).startBlock block tag =
      (b.startBlock block tag).judge media trusted := by
  unfold startBlock
  rw [flush_judge]
  generalize b.flush = c
  have hlists : (c.judge media trusted).lists = c.lists := rfl
  have hlimits : (c.judge media trusted).ctx.limits = c.ctx.limits := rfl
  have hpre : (c.judge media trusted).preDepth = c.preDepth := rfl
  cases block with
  | paragraph => rfl
  | heading level => rfl
  | list ordered =>
      simp only [hlists, hlimits]
      split_ifs <;> rfl
  | listItem =>
      simp only [hlists]
      cases c.lists.getLast? with
      | none => rfl
      | some list => rfl
  | quote => rfl
  | pre =>
      simp only [hpre]
      split_ifs <;> rfl
  | table => rfl
  | tableRow =>
      simp only [commitRow_judge]
      rfl
  | tableCell header => exact startCell_judge c header

theorem closePre_judge : (b.judge media trusted).closePre = b.closePre.judge media trusted := by
  unfold closePre
  have hpre : (b.judge media trusted).preDepth = b.preDepth := rfl
  have htext : (b.judge media trusted).preText = b.preText := rfl
  simp only [hpre, htext]
  split_ifs
  · rfl
  · have hpush := @pushBlock_judge media trusted
      { b with preDepth := b.preDepth - 1, preText := [], preLanguage := none }
      (.code b.preLanguage
        ((b.preText.reverse.dropWhile (· = '\n')).reverse.dropWhile (· = '\n')))
    exact congrArg (fun c : Builder => { c with spans := [] }) hpush
  · rfl

theorem closeBlock_judge (block : BlockTag) :
    (b.judge media trusted).closeBlock block = (b.closeBlock block).judge media trusted := by
  cases block with
  | pre => exact closePre_judge b
  | table =>
      unfold closeBlock
      simp only [flush_judge]
      have hdepth : (b.flush.judge media trusted).tableDepth = b.flush.tableDepth := rfl
      rw [hdepth]
      split_ifs
      · exact closeTable_judge { b.flush with tableDepth := b.flush.tableDepth - 1 }
      · rfl
  | tableRow =>
      unfold closeBlock
      simp only [flush_judge, commitRow_judge]
  | heading level => exact flush_judge b
  | paragraph => exact flush_judge b
  | listItem => exact flush_judge b
  | tableCell header => exact flush_judge b
  | list ordered =>
      unfold closeBlock
      simp only [flush_judge]
      rfl
  | quote =>
      unfold closeBlock
      simp only [flush_judge]
      rfl

theorem closeElement_judge (element : OpenElement) :
    (b.judge media trusted).closeElement element =
      (b.closeElement element).judge media trusted := by
  have hskip : (b.judge media trusted).skipFrom = b.skipFrom := rfl
  unfold closeElement
  rw [hskip]
  split_ifs
  · rfl
  · cases element.disposition with
    | block block => exact closeBlock_judge (b.restore element) block
    | skip => rfl
    | flatten => rfl
    | inline inline => rfl
    | void void => rfl

theorem leaveSkip_judge : (b.judge media trusted).leaveSkip = b.leaveSkip.judge media trusted := by
  have hskip : (b.judge media trusted).skipFrom = b.skipFrom := rfl
  have hopened : (b.judge media trusted).opened = b.opened := rfl
  unfold leaveSkip
  rw [hskip, hopened]
  cases b.skipFrom with
  | none => rfl
  | some depth =>
      dsimp only
      split_ifs <;> rfl

theorem closeDown_judge (name : String) (elements : List OpenElement) :
    closeDown name elements (b.judge media trusted) =
      (closeDown name elements b).judge media trusted := by
  induction elements generalizing b with
  | nil => rfl
  | cons element elements ih =>
      have hopened : { b.judge media trusted with opened := elements } =
          judge media trusted { b with opened := elements } := rfl
      rw [closeDown, closeDown, hopened, closeElement_judge, leaveSkip_judge, ih]
      split_ifs <;> rfl

theorem endTag_judge (tag : Tag) :
    (b.judge media trusted).endTag tag = (b.endTag tag).judge media trusted := by
  have hopened : (b.judge media trusted).opened = b.opened := rfl
  unfold endTag
  rw [hopened, closeDown_judge]
  split_ifs <;> rfl

theorem pushText_judge (text : List Char) :
    (b.judge media trusted).pushText text = (b.pushText text).judge media trusted := by
  have hskip : (b.judge media trusted).skipFrom = b.skipFrom := rfl
  have hpre : (b.judge media trusted).preDepth = b.preDepth := rfl
  have hbudget : (b.judge media trusted).budget = b.budget := rfl
  have hcollapsed : (b.judge media trusted).collapsed text = b.collapsed text := rfl
  unfold pushText
  rw [hskip, hpre, hbudget, hcollapsed]
  split_ifs <;> rfl

section Tags

variable [UrlLibrary]

theorem applyInline_judge (inline : InlineTag) (tag : Tag) :
    (b.judge media trusted).applyInline inline tag =
      (b.applyInline inline tag).judge media trusted := by
  cases inline <;> rfl

/-- The policy trusts what `trusted` says and asks about everything else. -/
def Judges (media : MediaPolicy) (trusted : MediaUrl → Bool) : Prop :=
  ∀ src, media.decideWithConsent src [] =
    if trusted src then .fetch src else .needsConsent src

theorem image_judge (hmedia : Judges media trusted) (hdirect : b.ctx.media = .direct)
    (tag : Tag) : (b.judge media trusted).image tag = (b.image tag).judge media trusted := by
  have hresolve : (b.judge media trusted).resolve = b.resolve := rfl
  have hpolicy : (b.judge media trusted).ctx.media = media := rfl
  have hlink : (b.flush.judge media trusted).link = b.flush.link := rfl
  unfold image
  rw [hresolve, hpolicy, hdirect, flush_judge, hlink]
  cases (nonEmptyAttr tag "src").bind b.resolve with
  | none => rfl
  | some src =>
      have hpush := @pushBlock_judge media trusted b.flush
        (.image src ((attr tag "alt").getD []) ((attr tag "title").filter fun t => t ≠ [])
          .allowed (intrinsicSize tag) b.flush.link)
      simp only [hmedia src]
      rw [BlockKind.judge] at hpush
      split_ifs at hpush ⊢
      · exact hpush
      · exact hpush

theorem voidElement_judge (hmedia : Judges media trusted) (hdirect : b.ctx.media = .direct)
    (void : VoidTag) (tag : Tag) :
    (b.judge media trusted).voidElement void tag =
      (b.voidElement void tag).judge media trusted := by
  cases void with
  | lineBreak =>
      have hpre : (b.judge media trusted).preDepth = b.preDepth := rfl
      have hspans : (b.judge media trusted).spans = b.spans := rfl
      unfold voidElement
      rw [hpre, hspans]
      dsimp only
      split_ifs <;> rfl
  | rule =>
      unfold voidElement
      simp only [flush_judge]
      exact pushBlock_judge b.flush .rule
  | image => exact image_judge b hmedia hdirect tag

theorem startElement_judge (hmedia : Judges media trusted) (hdirect : b.ctx.media = .direct)
    (tag : Tag) :
    (b.judge media trusted).startElement tag = (b.startElement tag).judge media trusted := by
  unfold startElement
  dsimp only
  cases classify (lowercase tag.name) with
  | void void => exact voidElement_judge b hmedia hdirect void tag
  | inline inline =>
      simp only [applyInline_judge]
      split_ifs <;> rfl
  | block block =>
      simp only [startBlock_judge]
      split_ifs <;> rfl
  | skip =>
      dsimp only
      split_ifs <;> rfl
  | flatten =>
      dsimp only
      split_ifs <;> rfl

theorem startTag_judge (hmedia : Judges media trusted) (hdirect : b.ctx.media = .direct)
    (tag : Tag) : (b.judge media trusted).startTag tag = (b.startTag tag).judge media trusted := by
  have hskip : (b.judge media trusted).skipFrom = b.skipFrom := rfl
  have hlimits : (b.judge media trusted).ctx.limits = b.ctx.limits := rfl
  have hopened : (b.judge media trusted).opened = b.opened := rfl
  unfold startTag
  rw [hskip, hlimits, hopened, startElement_judge b hmedia hdirect]
  split_ifs
  · unfold startSkipped
    rw [hlimits, hopened]
    split_ifs <;> rfl
  · unfold startSkip
    simp only [flush_judge]
    split_ifs <;> rfl
  · rfl
  · rfl

theorem processToken_judge (hmedia : Judges media trusted) (hdirect : b.ctx.media = .direct)
    (token : Token) :
    (b.judge media trusted).processToken token =
      (b.processToken token).judge media trusted := by
  unfold processToken
  rw [stopped_judge]
  split_ifs
  · rfl
  · cases token with
    | startTag tag => exact startTag_judge b hmedia hdirect tag
    | endTag tag => exact endTag_judge b tag
    | characters text => exact pushText_judge b text
    | ignored => rfl

theorem run_judge (hmedia : Judges media trusted) (hdirect : b.ctx.media = .direct)
    (tokens : List Token) :
    (b.judge media trusted).run tokens = (b.run tokens).judge media trusted := by
  induction tokens generalizing b with
  | nil => rfl
  | cons token tokens ih =>
      have hrun : ∀ c : Builder, c.run (token :: tokens) = (c.processToken token).run tokens :=
        fun _ => rfl
      have hdirect' : (b.processToken token).ctx.media = .direct := by
        rw [ctx_processToken, hdirect]
      rw [hrun, hrun, processToken_judge b hmedia hdirect, ih _ hdirect']

end Tags

end Builder

open Builder

/-- The decisions about pictures change nothing but their flags: they could all
be made once the document is complete. -/
theorem transform_judge [UrlLibrary] {media : MediaPolicy} {trusted : MediaUrl → Bool}
    (hmedia : Judges media trusted) (ctx : TransformContext) (pre : Option Truncation)
    (tokens : List Token) :
    transform { ctx with media := media } pre tokens =
      (transform { ctx with media := .direct } pre tokens).judge trusted := by
  have hnew : { Builder.new { ctx with media := media } with truncated := pre } =
      Builder.judge media trusted
        { Builder.new { ctx with media := .direct } with truncated := pre } := rfl
  unfold transform finish
  rw [hnew, run_judge _ hmedia rfl, flush_judge, closeTable_judge]
  rfl

/-! ## The view's policy -/

/-- The addresses the view trusts. -/
def trusts (instanceUrl : Url) (consented : List Url) (src : MediaUrl) : Bool :=
  src.isSameOriginAs instanceUrl || consented.any fun o => src.isSameOriginAs o

theorem isSameOriginAs_iff {src : MediaUrl} {o : Url} :
    src.isSameOriginAs o = true ↔ SameOrigin src.url o := by
  simp only [MediaUrl.isSameOriginAs, Bool.and_eq_true, decide_eq_true_eq]
  exact ⟨fun h => ⟨h.1.1, h.1.2, h.2⟩, fun h => ⟨⟨h.scheme, h.host⟩, h.port⟩⟩

theorem trusts_iff {instanceUrl : Url} {consented : List Url} {src : MediaUrl} :
    trusts instanceUrl consented src = true ↔
      SameOrigin src.url instanceUrl ∨ ∃ o ∈ consented, SameOrigin src.url o := by
  simp only [trusts, Bool.or_eq_true, List.any_eq_true, isSameOriginAs_iff]

theorem judges_ask (instanceUrl : Url) (consented : List Url) :
    Judges (.proxyThroughInstance instanceUrl consented .ask)
      (trusts instanceUrl consented) := by
  intro src
  simp only [MediaPolicy.decideWithConsent, trusts, List.any_nil, Bool.false_eq_true, if_false]
  rfl

/-- Under the setting that asks, a document is the one of the trusting policy,
judged. -/
theorem transform_ask [UrlLibrary] {articleUrl : String} {instanceUrl : Url} {mediaPolicy : ℤ}
    {limits : Limits} (hask : fallbackOf mediaPolicy = .ask) (consented : List Url)
    (pre : Option Truncation) (tokens : List Token) :
    transform (transformContext articleUrl instanceUrl consented mediaPolicy limits) pre tokens =
      (transform ⟨UrlLibrary.parse articleUrl, .direct, limits⟩ pre tokens).judge
        (trusts instanceUrl consented) := by
  unfold transformContext
  rw [hask]
  exact transform_judge (judges_ask instanceUrl consented)
    ⟨UrlLibrary.parse articleUrl, .direct, limits⟩ pre tokens

/-! ## One more origin -/

/-- A picture of the origin becomes an allowed one. -/
def BlockKind.allow (origin : Url) : BlockKind → BlockKind
  | .image src alt title fetch intrinsic link =>
      .image src alt title (if src.isSameOriginAs origin then .allowed else fetch) intrinsic link
  | kind => kind

/-- Pictures of the origin become allowed ones, and nothing else changes. -/
def Document.allow (origin : Url) (doc : Document) : Document :=
  { doc with blocks := doc.blocks.map fun block => { block with kind := block.kind.allow origin } }

/-- The addresses of links and pictures in a block. -/
def BlockKind.addresses : BlockKind → List Url
  | .heading _ spans => (spans.filterMap Span.link).map MediaUrl.url
  | .paragraph spans => (spans.filterMap Span.link).map MediaUrl.url
  | .listItem _ _ _ spans => (spans.filterMap Span.link).map MediaUrl.url
  | .code _ _ => []
  | .image src _ _ _ _ link => (src :: link.toList).map MediaUrl.url
  | .table rows =>
      ((rows.flatten.flatMap TableCell.spans).filterMap Span.link).map MediaUrl.url
  | .rule => []

theorem web_of_mem_addresses {kind : BlockKind} {u : Url} (h : u ∈ kind.addresses) :
    u.scheme = "http" ∨ u.scheme = "https" := by
  have hmap : ∀ links : List MediaUrl, u ∈ links.map MediaUrl.url →
      u.scheme = "http" ∨ u.scheme = "https" := by
    intro links hu
    obtain ⟨link, -, rfl⟩ := List.mem_map.1 hu
    exact link.web
  cases kind with
  | heading level spans => exact hmap _ h
  | paragraph spans => exact hmap _ h
  | listItem ordered number indent spans => exact hmap _ h
  | code language text => cases h
  | image src alt title fetch intrinsic link => exact hmap _ h
  | table rows => exact hmap _ h
  | rule => cases h

theorem trusts_insert {instanceUrl origin : Url} {consented consented' : List Url}
    (h : ∀ u, u ∈ consented' ↔ u = origin ∨ u ∈ consented) (src : MediaUrl) :
    trusts instanceUrl consented' src =
      (src.isSameOriginAs origin || trusts instanceUrl consented src) := by
  have hiff : trusts instanceUrl consented' src = true ↔
      (src.isSameOriginAs origin || trusts instanceUrl consented src) = true := by
    rw [Bool.or_eq_true, trusts_iff, trusts_iff, isSameOriginAs_iff]
    constructor
    · rintro (hinstance | ⟨o, ho, hsame⟩)
      · exact .inr (.inl hinstance)
      · rcases (h o).1 ho with rfl | ho
        · exact .inl hsame
        · exact .inr (.inr ⟨o, ho, hsame⟩)
    · rintro (hsame | hinstance | ⟨o, ho, hsame⟩)
      · exact .inr ⟨origin, (h origin).2 (.inl rfl), hsame⟩
      · exact .inl hinstance
      · exact .inr ⟨o, (h o).2 (.inr ho), hsame⟩
  exact Bool.eq_iff_iff.2 hiff

theorem judge_insert {trusted trusted' : MediaUrl → Bool} {origin : Url}
    (h : ∀ src : MediaUrl, trusted' src = (src.isSameOriginAs origin || trusted src))
    (doc : Document) : doc.judge trusted' = (doc.judge trusted).allow origin := by
  have hkind : ∀ kind : BlockKind, kind.judge trusted' = (kind.judge trusted).allow origin := by
    intro kind
    cases kind with
    | image src alt title fetch intrinsic link =>
        simp only [BlockKind.judge, BlockKind.allow, h src, Bool.or_eq_true]
        congr 1
        split_ifs with hor hsame htrusted
        · rfl
        · rfl
        · exact absurd hor (by simp [hsame, htrusted])
        · next hsame => exact absurd (.inl hsame) hor
        · next htrusted => exact absurd (.inr htrusted) hor
        · rfl
    | _ => rfl
  simp only [Document.judge, Document.allow, List.map_map]
  congr 1
  refine List.map_congr_left fun block _ => ?_
  simp only [Function.comp, RenderBlock.judge, hkind]

theorem transform_insert [UrlLibrary] {articleUrl : String} {instanceUrl origin : Url}
    {consented consented' : List Url} {mediaPolicy : ℤ} {limits : Limits}
    (hask : fallbackOf mediaPolicy = .ask)
    (h : ∀ u, u ∈ consented' ↔ u = origin ∨ u ∈ consented) (pre : Option Truncation)
    (tokens : List Token) :
    transform (transformContext articleUrl instanceUrl consented' mediaPolicy limits) pre
        tokens =
      (transform (transformContext articleUrl instanceUrl consented mediaPolicy limits) pre
        tokens).allow origin := by
  rw [transform_ask hask, transform_ask hask]
  exact judge_insert (trusts_insert h) _

/-- Agreeing to the picture in a row puts its origin on record. -/
theorem mem_mediaConsent_allowImagesFrom [UrlLibrary] {stored : List String}
    {rows : List RenderBlock} {row : ℤ} {origin u : Url}
    (horigin : originAt rows row = some origin)
    (hparse : UrlLibrary.parse origin.href = some origin) :
    u ∈ mediaConsent (allowImagesFrom stored rows row) ↔ u = origin ∨ u ∈ mediaConsent stored := by
  simp only [allowImagesFrom, horigin, grantMediaConsent, mediaConsent, List.mem_filterMap,
    List.mem_append, List.mem_filter, List.mem_singleton]
  constructor
  · rintro ⟨href, hmem | rfl, hu⟩
    · exact .inr ⟨href, hmem.1, hu⟩
    · exact .inl (Option.some.inj (hu.symm.trans hparse))
  · rintro (rfl | ⟨href, hmem, hu⟩)
    · exact ⟨u.href, .inr rfl, hparse⟩
    · by_cases hsame : href = origin.href
      · exact ⟨href, .inr hsame, hu⟩
      · exact ⟨href, .inl ⟨hmem, by simpa using hsame⟩, hu⟩

/-- Agreeing to the picture in a row allows the pictures of its origin. -/
theorem transform_allowImagesFrom [UrlLibrary] {articleUrl : String} {instanceUrl origin : Url}
    {stored : List String} {mediaPolicy row : ℤ} {limits : Limits} {pre : Option Truncation}
    {tokens : List Token} {doc : Document} (hask : fallbackOf mediaPolicy = .ask)
    (hdoc : doc = transform (transformContext articleUrl instanceUrl (mediaConsent stored)
      mediaPolicy limits) pre tokens)
    (horigin : originAt doc.blocks row = some origin)
    (hparse : UrlLibrary.parse origin.href = some origin) :
    transform (transformContext articleUrl instanceUrl
      (mediaConsent (allowImagesFrom stored doc.blocks row)) mediaPolicy limits) pre tokens =
      doc.allow origin := by
  rw [hdoc]
  refine transform_insert hask (fun u => ?_) pre tokens
  rw [← hdoc]
  exact mem_mediaConsent_allowImagesFrom horigin hparse

/-- Consent to one origin is consent to that origin only. -/
theorem consent_isolated [UrlLibrary] {articleUrl : String} {instanceUrl : Url}
    {consented : List Url} {mediaPolicy : ℤ} {limits : Limits} {pre : Option Truncation}
    {tokens : List Token} {doc : Document} (hask : fallbackOf mediaPolicy = .ask)
    (hdoc : doc =
      transform (transformContext articleUrl instanceUrl consented mediaPolicy limits) pre
        tokens) :
    (∀ block ∈ doc.blocks, ∀ src alt title intrinsic link,
      block.kind = .image src alt title .allowed intrinsic link →
        SameOrigin src.url instanceUrl ∨ ∃ o ∈ consented, SameOrigin src.url o) ∧
    (∀ block ∈ doc.blocks, ∀ u ∈ block.kind.addresses,
      u.scheme = "http" ∨ u.scheme = "https") ∧
    ∀ origin consented', (∀ u, u ∈ consented' ↔ u = origin ∨ u ∈ consented) →
      transform (transformContext articleUrl instanceUrl consented' mediaPolicy limits) pre
        tokens = doc.allow origin := by
  refine ⟨?_, fun block _ u hu => web_of_mem_addresses hu, ?_⟩
  · intro block hblock src alt title intrinsic link hkind
    rw [hdoc, transform_ask hask] at hblock
    obtain ⟨original, -, rfl⟩ := List.mem_map.1 hblock
    have hjudged : original.kind.judge (trusts instanceUrl consented) =
        .image src alt title .allowed intrinsic link := hkind
    cases horiginal : original.kind with
    | image src' alt' title' fetch' intrinsic' link' =>
        rw [horiginal] at hjudged
        simp only [BlockKind.judge, BlockKind.image.injEq] at hjudged
        obtain ⟨rfl, -, -, hfetch, -, -⟩ := hjudged
        split_ifs at hfetch with htrusts
        exact trusts_iff.1 htrusts
    | _ =>
        rw [horiginal] at hjudged
        cases hjudged
  · intro origin consented' h
    rw [hdoc]
    exact transform_insert hask h pre tokens

section Gallery

/-- The URL library as far as the address of one picture goes. -/
abbrev galleryUrls : UrlLibrary where
  parse raw :=
    if raw = "https://pics.example/a.png" then
      some ⟨"https", some "pics.example", some 443, "https://pics.example/a.png"⟩
    else none
  join _ _ := none

namespace Gallery

scoped instance : UrlLibrary := galleryUrls

end Gallery

open scoped Gallery

/-- The reader's server. -/
def readerHome : Url :=
  ⟨"https", some "reader.example", some 443, "https://reader.example/"⟩

/-- Another server, with the pictures. -/
def pictureHome : Url :=
  ⟨"https", some "pics.example", some 443, "https://pics.example/"⟩

/-- A picture in the text. -/
def pictureTag : Token :=
  .startTag ⟨"img", false, [⟨"src", "https://pics.example/a.png"⟩]⟩

/-- A picture waits for consent, and its origin is the one that gives it. -/
theorem consent_isolated_picture :
    ∃ doc : Document, doc.blocks.map imageSrc = ["https://pics.example/a.png"] ∧
      doc.allow pictureHome ≠ doc ∧
      transform (transformContext "" readerHome [pictureHome] mediaAsk
        ⟨128, 4096, 1048576, 8, 8, 512, 64⟩) none [pictureTag] = doc.allow pictureHome := by
  refine ⟨transform (transformContext "" readerHome [] mediaAsk
    ⟨128, 4096, 1048576, 8, 8, 512, 64⟩) none [pictureTag], by decide, by decide, ?_⟩
  exact (consent_isolated (by decide) rfl).2.2 pictureHome [pictureHome] (by simp)

end Gallery

end Vuo.Content
