import Vuo.Verification.Content.ListItems

/-!
# Block nesting follows the markup

The blocks of an article carry the quotes and the lists around them exactly if
every quote and list opens below its cap and no text is left between the tag of
a list and the next block.
-/

namespace Vuo.Content

/-- Whether the innermost list is ordered. -/
def innermostOrdered (lists : List ListState) : Bool :=
  lists.getLast?.elim false ListState.ordered

namespace Builder

section Left

variable [UrlLibrary] {b : Builder} {levels : List Level}

/-- An item that is pending is one of the innermost list. -/
def Fresh (b : Builder) : Prop :=
  ∀ ordered number indent, b.pending = .listItem ordered number indent →
    ordered = innermostOrdered b.lists ∧ indent = b.listIndent

/-- The tag leaves an item of other lists pending: the start tag of an inner
list, or the end tag of an inner or an ordered one. -/
def crosses (b : Builder) : Token → Bool
  | .startTag tag =>
      match classify (lowercase tag.name) with
      | .block (.list _) =>
          0 < b.lists.length && b.lists.length < b.ctx.limits.maxListIndent
      | _ => false
  | .endTag _ =>
      match b.opened.head?.map OpenElement.disposition with
      | some (.block (.list _)) => 2 ≤ b.lists.length || innermostOrdered b.lists
      | _ => false
  | _ => false

/-- Whether the last token that ended a block was such a tag. -/
def leftover : Builder → Bool → List Token → Bool
  | _, left, [] => left
  | b, left, token :: tokens =>
      leftover (b.processToken token) (if b.ends token then b.crosses token else left) tokens

/-! ## The lists after each token -/

theorem ends_startTag_of_skip (hskip : b.skipFrom.isSome = true) (tag : Tag) :
    b.ends (.startTag tag) = false := by
  rw [ends, edits, startEdits, if_pos hskip, skippedEdits]
  split_ifs <;> rfl

theorem ends_startTag_of_block (hskip : b.skipFrom.isSome = false)
    (hdepth : b.opened.length < b.ctx.limits.maxDepth) {tag : Tag} {block : BlockTag}
    (hclass : classify (lowercase tag.name) = .block block) : b.ends (.startTag tag) = true := by
  rw [ends, edits, startEdits, if_neg (by simp [hskip]), hclass, if_neg (by simp),
    if_neg (by omega), elementEdits]
  simp only [hclass]
  cases block <;> rfl

/-- What the end tag of an element changes, outside skipped ones. -/
def closingEdits : Disposition → List Edit
  | .block block => block.closing
  | _ => []

theorem ends_endTag {level : Level} {outer : List Level} (h : b.Stands (level :: outer))
    {stop : Tag} (hname : level.name = lowercase stop.name) :
    b.ends (.endTag stop) =
      (!b.skipFrom.isSome && (closingEdits level.kind).any isFlush) := by
  have hopened := h.opened
  have hhidden := h.hidden
  cases hstack : b.opened with
  | nil => simp [hstack, stackKinds] at hopened
  | cons element rest =>
      rw [hstack, List.map_cons, stackKinds] at hopened
      obtain ⟨helement, hkind⟩ := Prod.mk.inj (List.cons.inj hopened).1
      have hends : b.ends (.endTag stop) =
          (if b.skipFrom.isSome then [] else element.closing).any isFlush := by
        simp [ends, edits, hstack, closeEdits, helement.trans hname, isFlush]
      rw [hends]
      by_cases hskip : b.skipFrom.isSome = true
      · simp [hskip]
      · rw [Bool.not_eq_true] at hskip
        rw [hskip, hidden_cons] at hhidden
        have houter : hidden outer = false := (Bool.or_eq_false_iff.1 hhidden.symm).2
        rw [houter] at hkind
        simp only [Bool.false_eq_true, if_false] at hkind
        rw [if_neg (by simp [hskip]), hskip, OpenElement.closing, hkind]
        cases level.kind <;> rfl

omit [UrlLibrary] in
theorem head_of_stands {level : Level} {outer : List Level} (h : b.Stands (level :: outer))
    (hshown : hidden (level :: outer) = false) :
    b.opened.head?.map OpenElement.disposition = some level.kind := by
  have hopened := h.opened
  rw [hidden_cons, Bool.or_eq_false_iff] at hshown
  cases hstack : b.opened with
  | nil => simp [hstack, stackKinds] at hopened
  | cons element rest =>
      rw [hstack, List.map_cons, stackKinds, hshown.2] at hopened
      exact congrArg some (Prod.mk.inj (List.cons.inj hopened).1).2

/-- A token that ends no block leaves the counters alone. -/
theorem turn_of_quiet (h : b.Within levels) {token : Token}
    (hfits : FitsToken b.ctx.limits.maxDepth levels token) (hends : b.ends token = false) :
    turn b.ctx.limits levels b.nest token = b.nest := by
  have hhidden := h.stands.hidden
  cases token with
  | startTag tag =>
      rw [turn]
      split_ifs with hshown
      · rfl
      · rw [Bool.not_eq_true] at hshown
        cases hclass : classify (lowercase tag.name) with
        | block block =>
            have hdepth : b.opened.length < b.ctx.limits.maxDepth := h.stands.length ▸ hfits
            rw [ends_startTag_of_block (hhidden.trans hshown) hdepth hclass] at hends
            cases hends
        | _ => rfl
  | endTag stop =>
      rw [turn]
      split_ifs with hshown
      · rfl
      · rw [Bool.not_eq_true] at hshown
        cases levels with
        | nil => rfl
        | cons level outer =>
            rw [ends_endTag h.stands (Option.some.inj hfits), hhidden, hshown] at hends
            rw [List.head?_cons, Option.elim_some]
            cases hkind : level.kind with
            | block block =>
                rw [hkind] at hends
                cases block with
                | quote => cases hends
                | list ordered => cases hends
                | _ => rfl
            | _ => rfl
  | _ => rfl

omit [UrlLibrary] in
/-- What is pending by default belongs to the lists it was chosen for. -/
theorem fresh_of_default {b' : Builder} (hpending : b'.pending = b.defaultPending) :
    b'.Fresh ↔ b.lists = [] ∨
      innermostOrdered b.lists = innermostOrdered b'.lists ∧ b.listIndent = b'.listIndent := by
  unfold Fresh
  rw [hpending, defaultPending]
  cases hlast : b.lists.getLast? with
  | none =>
      have hempty := List.getLast?_eq_none_iff.1 hlast
      simp [hempty]
  | some list =>
      have hfull : b.lists ≠ [] := fun hempty => by simp [hempty] at hlast
      have hordered : innermostOrdered b.lists = list.ordered := by
        rw [innermostOrdered, hlast, Option.elim_some]
      simp [hfull, hordered]

omit [UrlLibrary] in
/-- What is pending by default is the same without the innermost list only if
there is at most that one, and it is not ordered. -/
theorem outer_list_iff {lists : List ListState} {cap : ℕ} (hcap : cap ≤ 255)
    (hcount : lists.length ≤ cap) :
    (lists = [] ∨ innermostOrdered lists = innermostOrdered lists.dropLast ∧
        min (min (lists.length - 1) 255) cap = min (min (lists.length - 1 - 1) 255) cap) ↔
      ¬ 2 ≤ lists.length ∧ innermostOrdered lists = false := by
  rcases lists with _ | ⟨first, _ | ⟨second, rest⟩⟩
  · simp [innermostOrdered]
  · simp [innermostOrdered]
  · have hlength : (first :: second :: rest).length = rest.length + 2 := rfl
    refine iff_of_false ?_ (by omega)
    rintro (hempty | ⟨-, hsame⟩)
    · cases hempty
    · omega

/-- The item that is pending is one of the lists that are open, unless the tag of
a list has left it behind. -/
theorem fresh_processToken (h : b.Within levels) (hlive : b.stopped = false) {token : Token}
    (hfits : FitsToken b.ctx.limits.maxDepth levels token) {left : Bool}
    (hleft : b.Fresh ↔ left = false) :
    (b.processToken token).Fresh ↔ (if b.ends token then b.crosses token else left) = false := by
  have hturned := turned_processToken h.stands hlive hfits
  have hnest := (stands_processToken h.stands hlive hfits).2
  have hctx := b.ctx_processToken token
  have hhidden := h.stands.hidden
  have hbounded := h.bounded.lists
  have hcap := h.bytes.listIndent
  have hlists : (b.processToken token).lists = (turn b.ctx.limits levels b.nest token).lists :=
    congrArg Nest.lists hnest
  have hindent : (b.processToken token).listIndent =
      min (min ((b.processToken token).lists.length - 1) 255) b.ctx.limits.maxListIndent := by
    rw [listIndent, hctx]
  cases hends : b.ends token with
  | false =>
      obtain ⟨-, hpending⟩ := hturned.quiet hends
      have hsame : (b.processToken token).lists = b.lists := by
        rw [hlists, turn_of_quiet h hfits hends]
        rfl
      rw [if_neg (by simp), ← hleft]
      simp only [Fresh, hpending, hsame, listIndent, hctx]
  | true =>
      obtain ⟨-, hpending⟩ := hturned.ending hends
      rw [if_pos rfl]
      have hkept (hdefault : (b.processToken token).pending = b.defaultPending)
          (hsame : (b.processToken token).lists = b.lists) : (b.processToken token).Fresh := by
        refine (fresh_of_default hdefault).2 (.inr ⟨by rw [hsame], ?_⟩)
        simp only [listIndent, hsame, hctx]
      cases token with
      | startTag tag =>
          have hshown : hidden levels = false := by
            rw [← hhidden]
            by_contra hskip
            rw [Bool.not_eq_false] at hskip
            rw [ends_startTag_of_skip hskip] at hends
            cases hends
          rw [turn, hshown, if_neg (by simp)] at hlists
          rw [pendingSince] at hpending
          rw [crosses]
          cases hclass : classify (lowercase tag.name) with
          | block block =>
              rw [hclass] at hlists hpending
              cases block with
              | heading level =>
                  refine iff_of_true (fun ordered number indent hitem => ?_) rfl
                  rw [hpending] at hitem
                  cases hitem
              | list ordered =>
                  rw [Nest.enter] at hlists
                  rw [fresh_of_default hpending, hindent]
                  by_cases hroom : b.nest.lists.length < b.ctx.limits.maxListIndent
                  · rw [if_pos hroom] at hlists
                    change _ = b.lists ++ [_] at hlists
                    change b.lists.length < _ at hroom
                    simp only [hlists, listIndent, List.length_append, List.length_singleton,
                      ← List.length_eq_zero_iff, hroom, decide_true, Bool.and_true,
                      decide_eq_false_iff_not]
                    constructor
                    · rintro (hempty | ⟨-, hsame⟩) <;> omega
                    · intro hempty
                      exact .inl (by omega)
                  · rw [if_neg hroom] at hlists
                    change _ = b.lists at hlists
                    change ¬ b.lists.length < _ at hroom
                    simp [hlists, listIndent, hroom]
              | listItem =>
                  refine iff_of_true (fun ordered number indent hitem => ?_) rfl
                  rw [hpending, pendingAfter] at hitem
                  simp only [Nest.enter, Builder.nest] at hlists
                  cases hlast : b.lists.getLast? with
                  | none =>
                      have hempty := List.getLast?_eq_none_iff.1 hlast
                      rw [hlast] at hitem hlists
                      cases hitem
                      rw [hindent, hlists, hempty, listIndent, hempty]
                      exact ⟨rfl, rfl⟩
                  | some list =>
                      obtain ⟨front, hfront⟩ := List.getLast?_eq_some_iff.1 hlast
                      rw [hlast] at hitem hlists
                      cases hitem
                      rw [hindent, hlists, listIndent, hfront]
                      simp [innermostOrdered]
              | _ => exact iff_of_true (hkept hpending hlists) rfl
          | _ =>
              rw [hclass] at hlists hpending
              exact iff_of_true (hkept hpending hlists) rfl
      | endTag stop =>
          cases levels with
          | nil => cases hfits
          | cons level outer =>
              have hname : level.name = lowercase stop.name := Option.some.inj hfits
              have hclosing := ends_endTag h.stands hname
              rw [hends] at hclosing
              have hshown : hidden (level :: outer) = false := by
                rw [← hhidden]
                cases hskip : b.skipFrom.isSome with
                | false => rfl
                | true => simp [hskip] at hclosing
              have hhead := head_of_stands h.stands hshown
              rw [turn, hshown, if_neg (by simp), List.head?_cons, Option.elim_some] at hlists
              change _ = b.defaultPending at hpending
              simp only [crosses, hhead]
              cases hkind : level.kind with
              | block block =>
                  rw [hkind] at hlists
                  cases block with
                  | list ordered =>
                      rw [fresh_of_default hpending, hindent]
                      change _ = b.lists.dropLast at hlists
                      have hcount : b.lists.length ≤ b.ctx.limits.maxListIndent := hbounded
                      simp only [hlists, listIndent, List.length_dropLast, Bool.or_eq_false_iff,
                        decide_eq_false_iff_not]
                      exact outer_list_iff hcap hcount
                  | _ => exact iff_of_true (hkept hpending hlists) rfl
              | _ =>
                  rw [hkind] at hlists
                  exact iff_of_true (hkept hpending hlists) rfl
      | characters text => cases hends
      | ignored => cases hends

/-- The freshness of what is pending after a run. -/
theorem fresh_run (h : b.Within levels) {tokens : List Token} (hlive : b.Live tokens)
    (hfits : FitsDepth b.ctx.limits.maxDepth levels tokens) {left : Bool}
    (hleft : b.Fresh ↔ left = false) :
    (b.run tokens).Fresh ↔ b.leftover left tokens = false := by
  induction tokens generalizing b levels left with
  | nil => exact hleft
  | cons token tokens ih =>
      have hctx := b.ctx_processToken token
      have hliveFirst : b.Live [token] := ⟨hlive.1, trivial⟩
      have hfitsFirst : FitsDepth b.ctx.limits.maxDepth levels [token] := ⟨hfits.1, trivial⟩
      exact ih (h.run hliveFirst hfitsFirst) hlive.2 (hctx.symm ▸ hfits.2)
        (fresh_processToken h hlive.1 hfits.1 hleft)

/-- Only outside skipped elements does a token end a block. -/
theorem shown_of_ends (h : b.Stands levels) {token : Token}
    (hfits : FitsToken b.ctx.limits.maxDepth levels token) (hends : b.ends token = true) :
    hidden levels = false := by
  rw [← h.hidden]
  by_contra hskip
  rw [Bool.not_eq_false] at hskip
  cases token with
  | startTag tag =>
      rw [ends_startTag_of_skip hskip] at hends
      cases hends
  | endTag stop =>
      cases levels with
      | nil => cases hfits
      | cons level outer =>
          rw [ends_endTag h (Option.some.inj hfits), hskip] at hends
          cases hends
  | characters text => cases hends
  | ignored => cases hends

end Left

end Builder

/-! ## Where a block stands -/

/-- Whether items are numbered here: by the innermost list within the cap. -/
def orderedIn (limits : Limits) (levels : List Level) : Bool :=
  innermostOrdered ((listsIn levels).take limits.maxListIndent)

/-- The indent of items: none in one list, and one more in each inner one up to
the cap. -/
def indentIn (limits : Limits) (levels : List Level) : ℕ :=
  min (listsIn levels).length limits.maxListIndent - 1

/-- The block carries the quotes and the lists around it. -/
structure Placed (limits : Limits) (levels : List Level) (block : RenderBlock) : Prop where
  quoteDepth : block.quoteDepth = min limits.maxQuoteDepth (quotesIn levels)
  item : ∀ ordered number indent spans, block.kind = .listItem ordered number indent spans →
    ordered = orderedIn limits levels ∧ indent = indentIn limits levels

namespace Builder

section Emitted

variable [UrlLibrary] {b : Builder} {levels : List Level} {ctx : TransformContext}

/-- The blocks a token emits. -/
def emitted (b : Builder) (token : Token) : List RenderBlock :=
  (b.processToken token).blocks.drop b.blocks.length

omit [UrlLibrary] in
/-- The lists of the builder say where items stand. -/
theorem items_of_shows (hctx : b.ctx = ctx) (hbytes : ctx.limits.FitBytes)
    (h : Shows ctx.limits b.nest levels) :
    innermostOrdered b.lists = orderedIn ctx.limits levels ∧
      b.listIndent = indentIn ctx.limits levels := by
  have hcap := hbytes.listIndent
  have hlast (lists : List ListState) : innermostOrdered lists =
      (lists.map ListState.ordered).getLast?.getD false := by
    rw [innermostOrdered, List.getLast?_map]
    cases lists.getLast? <;> rfl
  have hlength : b.lists.length = _ := h.length
  have hordered : b.lists.map ListState.ordered = _ := h.ordered
  refine ⟨by rw [orderedIn, hlast, hlast, hordered], ?_⟩
  rw [listIndent, indentIn, hlength, hctx]
  omega

omit [UrlLibrary] in
theorem placed_extra {base b' : Builder} {extra : List RenderBlock} (hextra : Extra base b' extra)
    (hquote : base.quoteDepth = b.quoteDepth) (hshows : Shows ctx.limits b.nest levels) :
    ∀ block ∈ extra, Placed ctx.limits levels block := by
  intro block hmem
  refine ⟨(hextra.quoteDepth block hmem).trans (hquote.trans hshows.quoteDepth), ?_⟩
  intro ordered number indent spans hkind
  exact (hextra.noItem block hmem ordered number indent spans hkind).elim

omit [UrlLibrary] in
/-- What the text since the last block becomes. -/
theorem placed_flush (hctx : b.ctx = ctx) (hbytes : ctx.limits.FitBytes)
    (hshows : Shows ctx.limits b.nest levels) (hfresh : b.EmitsText → b.Fresh) :
    ∃ new, b.flush.blocks = b.blocks ++ new ∧
      ∀ block ∈ new, Placed ctx.limits levels block := by
  obtain ⟨hordered, hindent⟩ := items_of_shows hctx hbytes hshows
  rcases b.blocks_flush with ⟨hemits, hblocks⟩ | ⟨-, hblocks⟩
  · refine ⟨_, hblocks, ?_⟩
    intro block hmem
    obtain rfl := List.mem_singleton.1 hmem
    refine ⟨hshows.quoteDepth, ?_⟩
    intro ordered number indent spans hkind
    have hpending : b.pending = .listItem ordered number indent := by
      cases hpending : b.pending with
      | paragraph => simp [hpending, Pending.kind] at hkind
      | heading level => simp [hpending, Pending.kind] at hkind
      | listItem ordered' number' indent' =>
          rw [hpending, Pending.kind] at hkind
          obtain ⟨rfl, rfl, rfl, -⟩ := BlockKind.listItem.inj hkind
          rfl
    obtain ⟨ho, hi⟩ := hfresh hemits ordered number indent hpending
    exact ⟨ho.trans hordered, hi.trans hindent⟩
  · exact ⟨[], by rw [hblocks, List.append_nil], by simp⟩

/-- The blocks of a token stand where the builder does before it. -/
theorem placed_emitted (hctx : b.ctx = ctx) (hbytes : ctx.limits.FitBytes)
    (hshows : Shows ctx.limits b.nest levels) {token : Token}
    (hturned : Turned b (b.processToken token) token)
    (hfresh : b.ends token = true → b.EmitsText → b.Fresh) :
    ∀ block ∈ b.emitted token, Placed ctx.limits levels block := by
  cases hends : b.ends token with
  | false =>
      obtain ⟨⟨extra, hextra⟩, -⟩ := hturned.quiet hends
      rw [emitted, hextra.blocks, List.drop_left]
      exact placed_extra hextra rfl hshows
  | true =>
      obtain ⟨⟨extra, hextra⟩, -⟩ := hturned.ending hends
      obtain ⟨new, hnew, hplaced⟩ := placed_flush hctx hbytes hshows (hfresh hends)
      rw [emitted, hextra.blocks, hnew, List.append_assoc, List.drop_left]
      intro block hmem
      rcases List.mem_append.1 hmem with hmem | hmem
      · exact hplaced block hmem
      · exact placed_extra hextra b.emits_flush.quoteDepth hshows block hmem

end Emitted

end Builder

/-! ## A whole article -/

section Articles

variable [UrlLibrary]

/-- The innermost list. -/
def innermostList (levels : List Level) : Option Level :=
  levels.find? fun level => level.list.isSome

/-- The tag begins an item. -/
def beginsItem (levels : List Level) (tag : Tag) : Prop :=
  classify (lowercase tag.name) = .block .listItem ∧ hidden levels = false

/-- Blocks carry the quotes and the lists around them, items are numbered in
order, and every element leaves the counters as it found them. -/
structure FollowsNesting (ctx : TransformContext) (pre : Option Truncation)
    (tokens : List Token) : Prop where
  blocks : ∀ before token after,
    (Builder.start ctx pre).reading tokens = before ++ token :: after →
      ∀ block ∈ ((Builder.start ctx pre).run before).emitted token,
        Placed ctx.limits (visible (readTokens [] before)) block
  last : ∀ block ∈ (transform ctx pre tokens).blocks.drop
      ((Builder.start ctx pre).run tokens).blocks.length,
    Placed ctx.limits
      (visible (readTokens [] ((Builder.start ctx pre).reading tokens))) block
  items : ∀ before tag after,
    (Builder.start ctx pre).reading tokens = before ++ .startTag tag :: after →
      beginsItem (readTokens [] before) tag →
        ∃ number, (((Builder.start ctx pre).run before).processToken (.startTag tag)).pending =
          .listItem (orderedIn ctx.limits (readTokens [] before)) number
            (indentIn ctx.limits (readTokens [] before))
  numbers : ∀ before tag after level,
    (Builder.start ctx pre).reading tokens = before ++ .startTag tag :: after →
      beginsItem (readTokens [] before) tag →
        (listsIn (readTokens [] before)).length ≤ ctx.limits.maxListIndent →
          innermostList (readTokens [] before) = some level → level.list = some true →
            (((Builder.start ctx pre).run before).processToken (.startTag tag)).pending =
              .listItem true (some (level.items + 1))
                (indentIn ctx.limits (readTokens [] before))
  restores : Builder.Elements Builder.Restores (Builder.start ctx pre)
    ((Builder.start ctx pre).reading tokens)

/-- Quotes and lists open below their caps, ordered lists do not outgrow the
counter, and no text stands between the tag of a list and the next block. -/
structure NestsWell (ctx : TransformContext) (pre : Option Truncation)
    (tokens : List Token) : Prop where
  opens : Builder.Elements Builder.OpensWell (Builder.start ctx pre)
    ((Builder.start ctx pre).reading tokens)
  counts : ∀ before tag after level,
    (Builder.start ctx pre).reading tokens = before ++ .startTag tag :: after →
      beginsItem (readTokens [] before) tag →
        (listsIn (readTokens [] before)).length ≤ ctx.limits.maxListIndent →
          innermostList (readTokens [] before) = some level → level.list = some true →
            level.items < 4294967295
  texts : ∀ before token after,
    (Builder.start ctx pre).reading tokens = before ++ token :: after →
      ((Builder.start ctx pre).run before).ends token = true →
        (Builder.start ctx pre).leftover false before = true →
          ¬ ((Builder.start ctx pre).run before).EmitsText
  lastText : (Builder.start ctx pre).leftover false
      ((Builder.start ctx pre).reading tokens) = true →
    ¬ ((Builder.start ctx pre).run tokens).EmitsText

variable {ctx : TransformContext} {pre : Option Truncation} {tokens : List Token}

omit [UrlLibrary] in
theorem within_start (hbytes : ctx.limits.FitBytes) : (Builder.start ctx pre).Within [] :=
  ⟨hbytes, ⟨Nat.zero_le _, Nat.zero_le _⟩, ⟨rfl, rfl⟩⟩

/-- What holds at a point of an article that is read. -/
structure At (ctx : TransformContext) (pre : Option Truncation) (before : List Token) :
    Prop where
  within : ((Builder.start ctx pre).run before).Within (readTokens [] before)
  sameCtx : ((Builder.start ctx pre).run before).ctx = ctx
  shows : Shows ctx.limits ((Builder.start ctx pre).run before).nest
    (visible (readTokens [] before))
  fresh : ((Builder.start ctx pre).run before).Fresh ↔
    (Builder.start ctx pre).leftover false before = false

theorem at_before (hbytes : ctx.limits.FitBytes) (hnested : WellNested tokens)
    (hfits : FitsDepth ctx.limits.maxDepth [] tokens)
    (hopens : Builder.Elements Builder.OpensWell (Builder.start ctx pre)
      ((Builder.start ctx pre).reading tokens)) {before after : List Token}
    (heq : (Builder.start ctx pre).reading tokens = before ++ after) : At ctx pre before := by
  have hprefix : before <+: tokens :=
    List.IsPrefix.trans ⟨after, heq.symm⟩ (Builder.reading_isPrefix _ _)
  have hlive := (Builder.start ctx pre).live_reading tokens
  rw [heq] at hlive hopens
  have hliveBefore := (Builder.live_append.1 hlive).1
  have hfitsBefore : FitsDepth ctx.limits.maxDepth [] before := by
    obtain ⟨rest, hrest⟩ := hprefix
    rw [← hrest] at hfits
    exact (Builder.fitsDepth_append.1 hfits).1
  have hstart : (Builder.start ctx pre).Within [] := within_start hbytes
  have hshows : Shows ctx.limits (Builder.start ctx pre).nest (visible []) := by
    refine ⟨(Nat.min_zero _).symm, ?_, fun _ => rfl⟩
    rw [visible, listsIn, List.take_nil]
    rfl
  have hfresh : (Builder.start ctx pre).Fresh ↔ false = false := by
    refine iff_of_true ?_ rfl
    intro ordered number indent hitem
    cases hitem
  exact ⟨hstart.run hliveBefore hfitsBefore, ((Builder.start ctx pre).grows_run before).ctx,
    Builder.shows_run hnested hprefix hstart hliveBefore hfitsBefore hopens.head hshows,
    Builder.fresh_run hstart hliveBefore hfitsBefore hfresh⟩

/-- The token that is read next. -/
theorem next_token (hfits : FitsDepth ctx.limits.maxDepth [] tokens) {before after : List Token}
    {token : Token} (heq : (Builder.start ctx pre).reading tokens = before ++ token :: after) :
    ((Builder.start ctx pre).run before).stopped = false ∧
      FitsToken ctx.limits.maxDepth (readTokens [] before) token := by
  have hlive := (Builder.start ctx pre).live_reading tokens
  obtain ⟨rest, hrest⟩ := (Builder.start ctx pre).reading_isPrefix tokens
  rw [heq] at hlive hrest
  rw [← hrest, List.append_assoc] at hfits
  exact ⟨(Builder.live_append.1 hlive).2.1, (Builder.fitsDepth_append.1 hfits).2.1⟩

omit [UrlLibrary] in
theorem getLast_listsIn {levels : List Level} {level : Level} {ordered : Bool}
    (h : innermostList levels = some level) (hlist : level.list = some ordered) :
    (listsIn levels).getLast? = some ⟨ordered, min level.items 4294967295⟩ := by
  induction levels with
  | nil => cases h
  | cons first outer ih =>
      rw [innermostList, List.find?_cons] at h
      cases hfirst : first.list with
      | none =>
          rw [hfirst] at h
          rw [listsIn_of_none hfirst]
          exact ih h
      | some other =>
          rw [hfirst] at h
          cases h
          rw [hfirst] at hlist
          cases hlist
          rw [listsIn_of_some hfirst, List.getLast?_concat]

/-- What is pending after the tag that begins an item. -/
theorem pending_item (hat : At ctx pre before) (hfits : FitsDepth ctx.limits.maxDepth [] tokens)
    {tag : Tag} {after : List Token}
    (heq : (Builder.start ctx pre).reading tokens = before ++ .startTag tag :: after)
    (hitem : beginsItem (readTokens [] before) tag) :
    (((Builder.start ctx pre).run before).processToken (.startTag tag)).pending =
      ((Builder.start ctx pre).run before).pendingAfter (.block .listItem) := by
  obtain ⟨hlive, htoken⟩ := next_token hfits heq
  obtain ⟨hclass, hshown⟩ := hitem
  rw [← hat.sameCtx] at htoken
  have hturned := Builder.turned_processToken hat.within.stands hlive htoken
  have hdepth : ((Builder.start ctx pre).run before).opened.length <
      ((Builder.start ctx pre).run before).ctx.limits.maxDepth :=
    hat.within.stands.length ▸ htoken
  have hends := Builder.ends_startTag_of_block (hat.within.stands.hidden.trans hshown) hdepth hclass
  rw [(hturned.ending hends).2, Builder.pendingSince, hclass]

/-- The number of an item is the next one, as long as the counter can hold it. -/
theorem number_of_item (hbytes : ctx.limits.FitBytes) (hat : At ctx pre before)
    (hfits : FitsDepth ctx.limits.maxDepth [] tokens) {tag : Tag} {after : List Token}
    {level : Level}
    (heq : (Builder.start ctx pre).reading tokens = before ++ .startTag tag :: after)
    (hitem : beginsItem (readTokens [] before) tag)
    (hcap : (listsIn (readTokens [] before)).length ≤ ctx.limits.maxListIndent)
    (hlevel : innermostList (readTokens [] before) = some level)
    (hlist : level.list = some true) :
    (((Builder.start ctx pre).run before).processToken (.startTag tag)).pending =
        .listItem true (some (level.items + 1)) (indentIn ctx.limits (readTokens [] before)) ↔
      level.items < 4294967295 := by
  have hshows := hat.shows
  rw [visible_of_shown hitem.2] at hshows
  have hlists : ((Builder.start ctx pre).run before).lists = listsIn (readTokens [] before) :=
    hshows.lists hcap
  have hindent : ((Builder.start ctx pre).run before).listIndent =
      indentIn ctx.limits (readTokens [] before) := by
    rw [(Builder.items_of_shows hat.sameCtx hbytes hshows).2]
  rw [pending_item hat hfits heq hitem, Builder.pendingAfter, hlists,
    getLast_listsIn hlevel hlist, hindent]
  simp only [if_true, saturatingAdd32, Pending.listItem.injEq, Option.some.injEq, true_and,
    and_true]
  omega

/-- The list and the indent of an item are those of the lists around it. -/
theorem item_of_lists (hbytes : ctx.limits.FitBytes) (hat : At ctx pre before)
    (hfits : FitsDepth ctx.limits.maxDepth [] tokens) {tag : Tag} {after : List Token}
    (heq : (Builder.start ctx pre).reading tokens = before ++ .startTag tag :: after)
    (hitem : beginsItem (readTokens [] before) tag) :
    ∃ number, (((Builder.start ctx pre).run before).processToken (.startTag tag)).pending =
      .listItem (orderedIn ctx.limits (readTokens [] before)) number
        (indentIn ctx.limits (readTokens [] before)) := by
  have hshows := hat.shows
  rw [visible_of_shown hitem.2] at hshows
  obtain ⟨hordered, hindent⟩ := Builder.items_of_shows hat.sameCtx hbytes hshows
  rw [pending_item hat hfits heq hitem, Builder.pendingAfter, ← hordered, ← hindent,
    innermostOrdered]
  cases ((Builder.start ctx pre).run before).lists.getLast? with
  | none => exact ⟨none, rfl⟩
  | some list => exact ⟨_, rfl⟩

/-- Text that the tag of a list has left behind is out of place. -/
theorem misplaced_of_leftover (hbytes : ctx.limits.FitBytes) (hat : At ctx pre before)
    (hleft : (Builder.start ctx pre).leftover false before = true) (spans : List Span) :
    ¬ Placed ctx.limits (visible (readTokens [] before))
      ⟨((Builder.start ctx pre).run before).pending.kind spans,
        ((Builder.start ctx pre).run before).quoteDepth⟩ := by
  intro hplaced
  obtain ⟨hordered, hindent⟩ := Builder.items_of_shows hat.sameCtx hbytes hat.shows
  have hfresh : ((Builder.start ctx pre).run before).Fresh := by
    intro ordered number indent hpending
    obtain ⟨ho, hi⟩ := hplaced.item ordered number indent spans (by rw [hpending, Pending.kind])
    exact ⟨ho.trans hordered.symm, hi.trans hindent.symm⟩
  rw [hat.fresh.1 hfresh] at hleft
  cases hleft

omit [UrlLibrary] in
/-- The last text of an article, and the table that is still open. -/
theorem blocks_finish (b : Builder) :
    ∃ extra, Builder.Extra b.flush b.flush.closeTable extra ∧
      b.finish.blocks = b.flush.blocks ++ extra := by
  obtain ⟨extra, hextra⟩ := b.flush.extra_closeTable
  exact ⟨extra, hextra, hextra.blocks⟩

omit [UrlLibrary] in
/-- The text since the last block is one of the blocks that come on top. -/
theorem mem_blocks_flush {b : Builder} (hemits : b.EmitsText) (extra : List RenderBlock) :
    ⟨b.pending.kind (trimSpans b.spans), b.quoteDepth⟩ ∈
      (b.flush.blocks ++ extra).drop b.blocks.length := by
  rcases b.blocks_flush with ⟨-, hblocks⟩ | ⟨hnot, -⟩
  · rw [hblocks, List.append_assoc, List.drop_left]
    exact List.mem_append_left _ (List.mem_singleton_self _)
  · exact (hnot hemits).elim

end Articles

section Plain

open scoped Plain

/-- Caps for one quote and one list. -/
def narrow : TransformContext where
  baseUrl := none
  media := .direct
  limits := ⟨8, 100, 1000, 1, 1, 512, 64⟩

end Plain

end Vuo.Content
