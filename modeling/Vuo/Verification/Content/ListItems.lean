import Vuo.Verification.Content.Nesting

/-!
# Blocks in quotes and lists

What the counters say of the elements of the markup, and what the blocks that
are emitted carry of it.
-/

namespace Vuo.Content

/-! ## What the markup says -/

/-- The quotes that are open. -/
def quotesIn (levels : List Level) : ℕ :=
  levels.countP Level.isQuote

/-- The lists that are open, outermost first, with their items as a counter
counts them. -/
def listsIn : List Level → List ListState
  | [] => []
  | level :: outer =>
      match level.list with
      | some ordered => listsIn outer ++ [⟨ordered, min level.items 4294967295⟩]
      | none => listsIn outer

/-- The counters are those of the markup, up to the caps. -/
structure Shows (limits : Limits) (nest : Nest) (levels : List Level) : Prop where
  quoteDepth : nest.quoteDepth = min limits.maxQuoteDepth (quotesIn levels)
  ordered : nest.lists.map ListState.ordered =
    ((listsIn levels).take limits.maxListIndent).map ListState.ordered
  lists : (listsIn levels).length ≤ limits.maxListIndent → nest.lists = listsIn levels

variable {limits : Limits} {nest : Nest} {levels outer : List Level} {level : Level} {tag : Tag}

theorem Shows.length (h : Shows limits nest levels) :
    nest.lists.length = min limits.maxListIndent (listsIn levels).length := by
  have hlength := congrArg List.length h.ordered
  rwa [List.length_map, List.length_map, List.length_take] at hlength

theorem quotesIn_cons (level : Level) (outer : List Level) :
    quotesIn (level :: outer) = quotesIn outer + if level.isQuote then 1 else 0 :=
  List.countP_cons

theorem listsIn_of_none (h : level.list = none) : listsIn (level :: outer) = listsIn outer := by
  rw [listsIn, h]

theorem listsIn_of_some {ordered : Bool} (h : level.list = some ordered) :
    listsIn (level :: outer) = listsIn outer ++ [⟨ordered, min level.items 4294967295⟩] := by
  rw [listsIn, h]

theorem quotesIn_of_tags {levels levels' : List Level}
    (h : levels'.map Level.tag = levels.map Level.tag) : quotesIn levels' = quotesIn levels := by
  have htags (levels : List Level) : quotesIn levels =
      (levels.map Level.tag).countP
        fun tag => (classify (lowercase tag.name) = .block .quote : Bool) := by
    rw [List.countP_map]
    rfl
  rw [htags, htags, h]

theorem ordered_listsIn_of_tags {levels levels' : List Level}
    (h : levels'.map Level.tag = levels.map Level.tag) :
    (listsIn levels').map ListState.ordered = (listsIn levels).map ListState.ordered := by
  induction levels generalizing levels' with
  | nil => rw [List.map_eq_nil_iff.1 h]
  | cons level outer ih =>
      cases levels' with
      | nil => cases h
      | cons level' outer' =>
          obtain ⟨htag, houter⟩ := List.cons.inj h
          have hlist : level'.list = level.list := by
            simp only [Level.list, Level.kind, Level.name, htag]
          cases hsome : level.list with
          | none =>
              rw [listsIn_of_none hsome, listsIn_of_none (hlist.trans hsome), ih houter]
          | some ordered =>
              rw [listsIn_of_some hsome, listsIn_of_some (hlist.trans hsome), List.map_append,
                List.map_append, ih houter]
              rfl

theorem length_listsIn_of_tags {levels levels' : List Level}
    (h : levels'.map Level.tag = levels.map Level.tag) :
    (listsIn levels').length = (listsIn levels).length := by
  have hordered := congrArg List.length (ordered_listsIn_of_tags h)
  rwa [List.length_map, List.length_map] at hordered

/-- One more item is one more in the counter of the innermost list. -/
theorem listsIn_countItem (levels : List Level) :
    listsIn (countItem levels) =
      match (listsIn levels).getLast? with
      | some list => (listsIn levels).dropLast ++
          [{ list with counter := saturatingAdd32 list.counter 1 }]
      | none => [] := by
  induction levels with
  | nil => rfl
  | cons level outer ih =>
      rw [countItem]
      cases hlist : level.list with
      | none =>
          rw [listsIn_of_none hlist]
          simp only [Option.isSome_none, Bool.false_eq_true, if_false]
          rw [listsIn_of_none hlist, ih]
      | some ordered =>
          have hcounter : saturatingAdd32 (min level.items 4294967295) 1 =
              min (level.items + 1) 4294967295 := by
            unfold saturatingAdd32
            omega
          have hlist' : Level.list { level with items := level.items + 1 } = some ordered := hlist
          rw [listsIn_of_some hlist]
          simp only [Option.isSome_some, if_true]
          rw [listsIn_of_some hlist']
          simp [hcounter]

/-- The item is one of the innermost list, or of none. -/
theorem Shows.item (h : Shows limits nest levels) :
    Shows limits (nest.enter limits (.block .listItem)) (countItem levels) := by
  have hsame : nest.Same (nest.enter limits (.block .listItem)) := nest.same_item
  have htags := names_countItem levels
  have hordered := ordered_listsIn_of_tags htags
  refine ⟨?_, ?_, ?_⟩
  · rw [hsame.quoteDepth, h.quoteDepth, quotesIn_of_tags htags]
  · rw [hsame.ordered, h.ordered, List.map_take, List.map_take, hordered]
  · intro hcap
    rw [length_listsIn_of_tags htags] at hcap
    have hlists := h.lists hcap
    rw [listsIn_countItem]
    simp only [Nest.enter, hlists]
    cases hlast : (listsIn levels).getLast? with
    | none => exact hlists.trans (List.getLast?_eq_none_iff.1 hlast)
    | some list => rfl

/-- An element that is no quote and no list. -/
theorem Shows.plain (h : Shows limits nest levels) (hquote : level.isQuote = false)
    (hlist : level.list = none) : Shows limits nest (level :: levels) := by
  have hquotes : quotesIn (level :: levels) = quotesIn levels := by
    simp [quotesIn_cons, hquote]
  refine ⟨?_, ?_, ?_⟩
  · rw [hquotes, h.quoteDepth]
  · rw [listsIn_of_none hlist, h.ordered]
  · rw [listsIn_of_none hlist]
    exact h.lists

/-- An element opens, and stays open. -/
theorem Shows.push (hbytes : limits.FitBytes) (h : Shows limits nest levels)
    (hshown : hidden levels = false) :
    Shows limits (nest.enter limits (classify (lowercase tag.name)))
      (⟨tag, 0⟩ :: counted levels tag) := by
  have hquoteCap := hbytes.quoteDepth
  have hdepth := h.quoteDepth
  have hlength := h.length
  have hlevel : Level.kind ⟨tag, 0⟩ = classify (lowercase tag.name) := rfl
  have hquiet (hquote : classify (lowercase tag.name) ≠ .block .quote)
      (hlist : ∀ ordered, classify (lowercase tag.name) ≠ .block (.list ordered)) :
      Level.isQuote ⟨tag, 0⟩ = false ∧ Level.list ⟨tag, 0⟩ = none := by
    refine ⟨by simp [Level.isQuote, hlevel, hquote], ?_⟩
    simp only [Level.list, hlevel]
  by_cases hitem : classify (lowercase tag.name) = .block .listItem
  · obtain ⟨hquote, hlist⟩ := hquiet (by simp [hitem]) (by simp [hitem])
    rw [hitem, counted, if_pos ⟨hitem, hshown⟩]
    exact h.item.plain hquote hlist
  rw [counted, if_neg (by simp [hitem])]
  by_cases hquote : classify (lowercase tag.name) = .block .quote
  · have hquotes : quotesIn (⟨tag, 0⟩ :: levels) = quotesIn levels + 1 := by
      simp [quotesIn_cons, Level.isQuote, hlevel, hquote]
    have hlist : Level.list ⟨tag, 0⟩ = none := by
      simp [Level.list, hlevel, hquote]
    rw [hquote]
    refine ⟨?_, ?_, ?_⟩
    · simp only [Nest.enter, saturatingAdd8]
      omega
    · rw [listsIn_of_none hlist]
      exact h.ordered
    · rw [listsIn_of_none hlist]
      exact h.lists
  by_cases hordered : ∃ ordered, classify (lowercase tag.name) = .block (.list ordered)
  · obtain ⟨ordered, hordered⟩ := hordered
    have hquotes : quotesIn (⟨tag, 0⟩ :: levels) = quotesIn levels := by
      simp [quotesIn_cons, Level.isQuote, hlevel, hordered]
    have hlist : Level.list ⟨tag, 0⟩ = some ordered := by
      simp [Level.list, hlevel, hordered]
    have hlists : listsIn (⟨tag, 0⟩ :: levels) = listsIn levels ++ [⟨ordered, 0⟩] := by
      rw [listsIn_of_some hlist, Nat.zero_min]
    rw [hordered]
    simp only [Nest.enter]
    split_ifs with hroom
    · have hopen := h.lists (by omega)
      have hcap : (listsIn levels).length + 1 ≤ limits.maxListIndent := by
        omega
      refine ⟨?_, ?_, ?_⟩
      · rw [hquotes, hdepth]
      · rw [hlists, hopen, List.take_of_length_le (by simpa using hcap)]
      · rw [hlists, hopen]
        exact fun _ => rfl
    · refine ⟨?_, ?_, ?_⟩
      · rw [hquotes, hdepth]
      · rw [hlists, List.take_append_of_le_length (by omega), h.ordered]
      · intro hcap
        rw [hlists, List.length_append] at hcap
        simp at hcap
        omega
  · obtain ⟨hquiet, hlist⟩ := hquiet hquote (by simpa using hordered)
    have hsame : nest.enter limits (classify (lowercase tag.name)) = nest := by
      cases hclass : classify (lowercase tag.name) with
      | block block =>
          rw [hclass] at hitem hquote hordered
          cases block with
          | quote => exact (hquote rfl).elim
          | list ordered => exact (hordered ⟨ordered, rfl⟩).elim
          | listItem => exact (hitem rfl).elim
          | _ => rfl
      | _ => rfl
    rw [hsame]
    exact h.plain hquiet hlist

/-- An element without children, which leaves the counters as they are. -/
theorem Shows.childless (hbytes : limits.FitBytes) (h : Shows limits nest levels)
    (hchild : childless tag = true) (hgood : nest.Good limits tag)
    (hshown : hidden levels = false) :
    Shows limits (nest.enter limits (classify (lowercase tag.name))) (counted levels tag) := by
  have hcap := hbytes.quoteDepth
  unfold Nest.Good at hgood
  cases hclass : classify (lowercase tag.name) with
  | block block =>
      simp only [hclass, hchild, if_true] at hgood
      cases block with
      | listItem =>
          rw [counted, if_pos ⟨hclass, hshown⟩]
          exact h.item
      | quote =>
          rw [counted, if_neg (by simp [hclass])]
          refine ⟨?_, h.ordered, h.lists⟩
          have hdepth := h.quoteDepth
          simp only [Nest.enter, saturatingAdd8] at hgood ⊢
          omega
      | list ordered =>
          rw [counted, if_neg (by simp [hclass])]
          simp only at hgood
          rw [Nest.enter, if_neg (by omega)]
          exact h
      | _ =>
          rw [counted, if_neg (by simp [hclass])]
          exact h
  | _ =>
      rw [counted, if_neg (by simp [hclass])]
      exact h

/-- An element closes that was opened below its cap. -/
theorem Shows.pop {nest' : Nest} {levels' : List Level} (hbytes : limits.FitBytes)
    (h : Shows limits nest' levels') (hgood : nest'.Good limits level.tag)
    (hchild : Vuo.Content.childless level.tag = false)
    (htags : outer.map Level.tag = levels'.map Level.tag)
    (hinner : Shows limits nest (level :: outer)) :
    Shows limits (nest.leave level.kind) outer := by
  have hcap := hbytes.quoteDepth
  have hquotes := quotesIn_of_tags htags
  have hcount := length_listsIn_of_tags htags
  have hdepth := h.quoteDepth
  have hlength := h.length
  have hclass : classify (lowercase level.tag.name) = level.kind := rfl
  simp only [Nest.Good, hclass, hchild, Bool.false_eq_true, if_false] at hgood
  have hquiet (hquote : level.isQuote = false) (hlist : level.list = none) :
      Shows limits nest outer := by
    have hshown := hinner.quoteDepth
    rw [quotesIn_cons, hquote] at hshown
    refine ⟨hshown, ?_, ?_⟩
    · rw [hinner.ordered, listsIn_of_none hlist]
    · have hlists := hinner.lists
      rwa [listsIn_of_none hlist] at hlists
  cases hkind : level.kind with
  | block block =>
      rw [hkind] at hgood
      cases block with
      | quote =>
          have hlist : level.list = none := by
            simp [Level.list, hkind]
          have hshown := hinner.quoteDepth
          rw [quotesIn_cons, Level.isQuote, hkind] at hshown
          simp only at hgood hshown
          refine ⟨?_, ?_, ?_⟩
          · simp only [Nest.leave]
            simp at hshown
            omega
          · exact hinner.ordered.trans (by rw [listsIn_of_none hlist])
          · have hlists := hinner.lists
            rwa [listsIn_of_none hlist] at hlists
      | list ordered =>
          have hquote : level.isQuote = false := by
            simp [Level.isQuote, hkind]
          have hlist : level.list = some ordered := by
            simp [Level.list, hkind]
          have hshown := hinner.quoteDepth
          rw [quotesIn_cons, hquote] at hshown
          have hopen := hinner.lists
          have hinnerLength := hinner.length
          rw [listsIn_of_some hlist, List.length_append] at hopen hinnerLength
          simp only [List.length_singleton] at hgood hopen hinnerLength
          simp only [Nest.leave]
          by_cases hroom : (listsIn outer).length < limits.maxListIndent
          · have hlists := hopen (by omega)
            refine ⟨hshown, ?_, ?_⟩
            · simp only [hlists, List.dropLast_concat]
              rw [List.take_of_length_le (by omega)]
            · simp only [hlists, List.dropLast_concat]
              exact fun _ => trivial
          · -- Only without room for any list can one be opened here.
            have hzero : limits.maxListIndent = 0 := by
              omega
            have hempty : nest.lists = [] := List.length_eq_zero_iff.1 (by omega)
            refine ⟨hshown, by simp [hempty, hzero], fun hfits => ?_⟩
            have hnone : listsIn outer = [] := List.length_eq_zero_iff.1 (by omega)
            simp [hempty, hnone]
      | _ => exact hquiet (by simp [Level.isQuote, hkind]) (by simp [Level.list, hkind])
  | _ => exact hquiet (by simp [Level.isQuote, hkind]) (by simp [Level.list, hkind])

namespace Builder

section Shown

variable [UrlLibrary] {b : Builder}

/-- What is shown after a start tag. -/
theorem shows_startTag (h : b.Within levels) (hlive : b.stopped = false)
    (hfits : FitsToken b.ctx.limits.maxDepth levels (.startTag tag))
    (hshows : Shows b.ctx.limits b.nest (visible levels))
    (hgood : childless tag = true → b.skipFrom = none → b.nest.Good b.ctx.limits tag) :
    Shows b.ctx.limits (b.processToken (.startTag tag)).nest
      (visible (readToken levels (.startTag tag))) := by
  have hhidden := h.stands.hidden
  rw [(stands_processToken h.stands hlive hfits).2, turn, readToken]
  cases hshown : hidden levels with
  | true =>
      rw [if_pos rfl, counted_of_hidden hshown]
      split_ifs
      · exact hshows
      · rwa [visible_of_hidden (by rw [hidden_cons, hshown, Bool.or_true])]
  | false =>
      have hcounted := (hidden_counted levels tag).trans hshown
      rw [visible_of_shown hshown] at hshows
      simp only [Bool.false_eq_true, if_false]
      split_ifs with hchild
      · rw [visible_of_shown hcounted]
        rw [hshown] at hhidden
        exact hshows.childless h.bytes hchild (hgood hchild (by simpa using hhidden)) hshown
      · by_cases hskip : classify (lowercase tag.name) = .skip
        · have hlevel : Level.isSkipped ⟨tag, 0⟩ = true := by
            simp [Level.isSkipped, Level.kind, Level.name, hskip]
          rw [visible_of_hidden (by rw [hidden_cons, hlevel, Bool.true_or]),
            visible_of_shown hcounted, counted, if_neg (by simp [hskip]), hskip]
          exact hshows
        · have hlevel : Level.isSkipped ⟨tag, 0⟩ = false := by
            simp [Level.isSkipped, Level.kind, Level.name, hskip]
          rw [visible_of_shown (by rw [hidden_cons, hlevel, hcounted]; rfl)]
          exact hshows.push h.bytes hshown

/-- What is shown after the end tag of an element. -/
theorem shows_endTag {b' : Builder} {levels' : List Level} {stop : Tag}
    (h : b.Within levels) (hshows : Shows b.ctx.limits b.nest (visible levels))
    (hgood : b.skipFrom = none → b.nest.Good b.ctx.limits tag) (hchild : childless tag = false)
    (hlive : b'.stopped = false) (hwithin : b'.Within levels')
    (hfits : FitsToken b'.ctx.limits.maxDepth levels' (.endTag stop))
    (htags : levels'.map Level.tag = tag :: levels.map Level.tag)
    (hinner : Shows b.ctx.limits b'.nest (visible levels')) :
    Shows b.ctx.limits (b'.processToken (.endTag stop)).nest
      (visible (readToken levels' (.endTag stop))) := by
  have hhidden := h.stands.hidden
  rw [(stands_processToken hwithin.stands hlive hfits).2, turn, readToken]
  cases levels' with
  | nil => cases htags
  | cons level outer =>
      obtain ⟨htag, houter⟩ := List.cons.inj htags
      have hsame := hidden_of_tags houter
      rw [List.tail_cons]
      cases hshown : hidden (level :: outer) with
      | true =>
          rw [if_pos rfl]
          rwa [visible_of_hidden hshown] at hinner
      | false =>
          have hboth := hshown
          rw [hidden_cons, Bool.or_eq_false_iff] at hboth
          rw [visible_of_shown hshown] at hinner
          rw [visible_of_shown hboth.2]
          rw [← hsame, hboth.2] at hhidden
          rw [visible_of_shown (hsame.symm.trans hboth.2)] at hshows
          exact hshows.pop h.bytes (htag.symm ▸ hgood (by simpa using hhidden)) (htag ▸ hchild)
            houter hinner

/-- The counters are those of the markup at every point of well nested tokens
whose elements open below their caps. -/
theorem shows_run {tokens : List Token} (hnested : WellNested tokens) {before : List Token}
    (hbefore : before <+: tokens) (h : b.Within levels) (hlive : b.Live before)
    (hfits : FitsDepth b.ctx.limits.maxDepth levels before)
    (hopens : Elements OpensWell b before)
    (hshows : Shows b.ctx.limits b.nest (visible levels)) :
    Shows b.ctx.limits (b.run before).nest (visible (readTokens levels before)) := by
  induction hnested generalizing b levels before with
  | nil => rwa [List.prefix_nil.1 hbefore]
  | @leaf token rest hleaf hrest ih =>
      rcases List.prefix_cons_iff.1 hbefore with rfl | ⟨after, rfl, hafter⟩
      · exact hshows
      have hliveFirst : b.Live [token] := ⟨hlive.1, trivial⟩
      have hfitsFirst : FitsDepth b.ctx.limits.maxDepth levels [token] := ⟨hfits.1, trivial⟩
      have hctx := b.ctx_processToken token
      have hsplit : token :: after = [token] ++ after := rfl
      have hfirst : Shows b.ctx.limits (b.processToken token).nest
          (visible (readToken levels token)) := by
        cases token with
        | startTag tag =>
            exact shows_startTag h hlive.1 hfits.1 hshows fun hchild =>
              hopens [] tag [.startTag tag] after rfl (.childless hchild)
        | endTag stop => exact hleaf.elim
        | characters text =>
            rw [(stands_processToken h.stands hlive.1 hfits.1).2]
            exact hshows
        | ignored =>
            rw [(stands_processToken h.stands hlive.1 hfits.1).2]
            exact hshows
      rw [← hctx] at hfirst ⊢
      exact ih hafter (h.run hliveFirst hfitsFirst) hlive.2 (hctx.symm ▸ hfits.2)
        (hsplit ▸ hopens).tail hfirst
  | @element start stop inner rest hstart hname hinner hrest ihinner ihrest =>
      rcases List.prefix_cons_iff.1 hbefore with rfl | ⟨after, rfl, hafter⟩
      · exact hshows
      have hliveStart : b.Live [.startTag start] := ⟨hlive.1, trivial⟩
      have hfitsStart : FitsDepth b.ctx.limits.maxDepth levels [.startTag start] :=
        ⟨hfits.1, trivial⟩
      have hstartWithin := h.run hliveStart hfitsStart
      have hctx := b.ctx_processToken (.startTag start)
      have hsplit : Token.startTag start :: after = [.startTag start] ++ after := rfl
      have hopened := shows_startTag h hlive.1 hfits.1 hshows fun hchild =>
        absurd hchild (by simp [hstart])
      rw [← hctx] at hopened
      have hopensAfter := (hsplit ▸ hopens).tail
      rcases List.prefix_or_prefix_of_prefix hafter (List.prefix_append inner _) with
        hinside | ⟨left, rfl⟩
      · rw [← hctx]
        exact ihinner hinside hstartWithin hlive.2 (hctx.symm ▸ hfits.2) hopensAfter hopened
      obtain ⟨hliveInner, hliveLeft⟩ := live_append.1 hlive.2
      obtain ⟨hfitsInner, hfitsLeft⟩ := fitsDepth_append.1 hfits.2
      rw [← hctx] at hfitsInner
      have hend := ihinner List.prefix_rfl hstartWithin hliveInner hfitsInner hopensAfter.head
        hopened
      rcases List.prefix_cons_iff.1 ((List.prefix_append_right_inj inner).1 hafter) with
        rfl | ⟨last, rfl, hlast⟩
      · rw [← hctx, List.append_nil]
        exact hend
      -- The whole element is read, and what follows it.
      have hwithinInner := hstartWithin.run hliveInner hfitsInner
      have hctxInner : (b.run (.startTag start :: inner)).ctx = b.ctx :=
        (b.grows_run (.startTag start :: inner)).ctx
      have htags := (tags_readTokens hinner _).trans (tags_readToken levels (.startTag start))
      simp only [hstart, Bool.false_eq_true, if_false] at htags
      have hpair : Token.startTag start :: (inner ++ .endTag stop :: last) =
          (.startTag start :: inner ++ [.endTag stop]) ++ last := by simp
      rw [hpair] at hlive hfits hopens ⊢
      have hgood := hopens [] start _ last rfl (.pair hstart hname hinner)
      have hclosed := shows_endTag h hshows hgood hstart hliveLeft.1 hwithinInner
        (hctxInner.symm ▸ hfitsLeft.1) htags (hctx ▸ hend)
      obtain ⟨hliveElement, hliveLast⟩ := live_append.1 hlive
      obtain ⟨hfitsElement, hfitsLast⟩ := fitsDepth_append.1 hfits
      have hctxElement : (b.run (.startTag start :: inner ++ [.endTag stop])).ctx = b.ctx :=
        (b.grows_run _).ctx
      have hrun : b.run (.startTag start :: inner ++ [.endTag stop]) =
          ((b.processToken (.startTag start)).run inner).processToken (.endTag stop) := by
        simp [Builder.run]
      have hread : readTokens levels (.startTag start :: inner ++ [.endTag stop]) =
          readToken (readTokens (readTokens levels [.startTag start]) inner) (.endTag stop) := by
        simp [readTokens]
      rw [← hrun, ← hread, ← hctxElement] at hclosed
      rw [run_append, readTokens_append, ← hctxElement]
      exact ihrest hlast (h.run hliveElement hfitsElement) hliveLast
        (hctxElement.symm ▸ hfitsLast) hopens.tail hclosed

end Shown

/-! ## Blocks that are emitted -/

/-- The text since the last block becomes a block of the document. -/
def EmitsText (b : Builder) : Prop :=
  trimSpans b.spans ≠ [] ∧ b.table = none ∧ b.blocks.length < b.ctx.limits.maxBlocks ∧
    ¬ (b.ctx.limits.maxTextBytes ≤ b.textBytes ∧ b.textBytes = b.textCommitted)

/-- Each of the blocks that come on top has the quote depth, and none is an item. -/
structure Extra (b b' : Builder) (extra : List RenderBlock) : Prop where
  blocks : b'.blocks = b.blocks ++ extra
  quoteDepth : ∀ block ∈ extra, block.quoteDepth = b.quoteDepth
  noItem : ∀ block ∈ extra, ∀ ordered number indent spans,
    block.kind ≠ .listItem ordered number indent spans

/-- The text since the last block comes on top, as a block of the pending kind. -/
theorem blocks_flush (b : Builder) :
    EmitsText b ∧ b.flush.blocks =
        b.blocks ++ [⟨b.pending.kind (trimSpans b.spans), b.quoteDepth⟩] ∨
      ¬ EmitsText b ∧ b.flush.blocks = b.blocks := by
  by_cases hblank : trimSpans b.spans = []
  · rw [flush_of_blank hblank]
    exact .inr ⟨fun h => h.1 hblank, rfl⟩
  · cases htable : b.table with
    | some table =>
        rw [flush_of_table hblank htable]
        refine .inr ⟨fun h => ?_, rfl⟩
        have hnone := h.2.1
        rw [htable] at hnone
        cases hnone
    | none =>
        have hpush := blocks_pushBlock_of_none { b with spans := [] } htable
          (b.pending.kind (trimSpans b.spans))
        rw [flush_of_none hblank htable]
        change _ ∧ (pushBlock { b with spans := [] } _).blocks = _ ∨
          _ ∧ (pushBlock { b with spans := [] } _).blocks = _
        rw [hpush]
        by_cases hfull : b.ctx.limits.maxBlocks ≤ b.blocks.length ∨
            b.ctx.limits.maxTextBytes ≤ b.textBytes ∧ b.textBytes = b.textCommitted
        · rw [if_pos hfull]
          refine .inr ⟨fun h => ?_, rfl⟩
          obtain ⟨-, -, hroom, hnew⟩ := h
          rcases hfull with hblocks | hfull
          · omega
          · exact hnew hfull
        · rw [if_neg hfull]
          rw [not_or] at hfull
          exact .inl ⟨⟨hblank, htable, by omega, hfull.2⟩, rfl⟩

theorem extra_of_blocks {b b' : Builder} (h : b'.blocks = b.blocks) : Extra b b' [] :=
  ⟨by rw [h, List.append_nil], by simp, by simp⟩

theorem extra_pushBlock (b : Builder) (kind : BlockKind)
    (hkind : ∀ ordered number indent spans, kind ≠ .listItem ordered number indent spans) :
    ∃ extra, Extra b (b.pushBlock kind) extra := by
  cases htable : b.table with
  | some table =>
      refine ⟨[], extra_of_blocks ?_⟩
      rw [pushBlock_of_table htable]
      split_ifs <;> rfl
  | none =>
      have hblocks := b.blocks_pushBlock_of_none htable kind
      split_ifs at hblocks
      · exact ⟨[], extra_of_blocks hblocks⟩
      · refine ⟨[⟨kind, b.quoteDepth⟩], hblocks, by simp, ?_⟩
        intro block hmem
        obtain rfl := List.mem_singleton.1 hmem
        exact hkind

/-- What the changes emit comes on top, at the same quote depth. -/
theorem Extra.of_same {b b' b'' : Builder} {extra : List RenderBlock} (h : Extra b' b'' extra)
    (hblocks : b'.blocks = b.blocks) (hquote : b'.quoteDepth = b.quoteDepth) :
    Extra b b'' extra :=
  ⟨hblocks ▸ h.blocks, hquote ▸ h.quoteDepth, h.noItem⟩

theorem extra_closeTable (b : Builder) : ∃ extra, Extra b b.closeTable extra := by
  unfold closeTable
  split
  · exact ⟨[], extra_of_blocks rfl⟩
  · dsimp only
    split_ifs
    · exact ⟨[], extra_of_blocks rfl⟩
    · obtain ⟨extra, hextra⟩ := extra_pushBlock { b with table := none } (.table _)
        (by simp)
      exact ⟨extra, hextra.of_same rfl rfl⟩

theorem extra_closePre (b : Builder) : ∃ extra, Extra b b.closePre extra := by
  by_cases hdepth : b.preDepth - 1 = 0
  · by_cases hblank : b.codeText = []
    · rw [closePre_of_blank hdepth hblank]
      exact ⟨[], extra_of_blocks rfl⟩
    · obtain ⟨extra, hextra⟩ := extra_pushBlock b.pastPre (.code b.preLanguage b.codeText)
        (by simp)
      rw [closePre_of_outer hdepth hblank]
      exact ⟨extra, hextra.blocks, hextra.quoteDepth, hextra.noItem⟩
  · rw [closePre_of_inner hdepth]
    exact ⟨[], extra_of_blocks rfl⟩

theorem pending_pushBlock (b : Builder) (kind : BlockKind) :
    (b.pushBlock kind).pending = b.pending := by
  cases htable : b.table with
  | some table =>
      rw [pushBlock_of_table htable]
      split_ifs <;> rfl
  | none =>
      rw [pushBlock_of_none htable]
      split_ifs <;> rfl

theorem pending_flush (b : Builder) : b.flush.pending = b.defaultPending := by
  by_cases hblank : trimSpans b.spans = []
  · rw [flush_of_blank hblank]
  · cases htable : b.table with
    | some table => rw [flush_of_table hblank htable]
    | none => rw [flush_of_none hblank htable]

theorem pending_closeTable (b : Builder) : b.closeTable.pending = b.pending := by
  unfold closeTable
  split
  · rfl
  · dsimp only
    split_ifs
    · rfl
    · exact pending_pushBlock _ _

theorem pending_closePre (b : Builder) : b.closePre.pending = b.pending := by
  unfold closePre
  dsimp only
  split_ifs
  · rfl
  · exact pending_pushBlock _ _
  · rfl

/-- Rows and cells emit nothing. -/
theorem rows_commitRow_pending (b : Builder) :
    b.commitRow.blocks = b.blocks ∧ b.commitRow.pending = b.pending := by
  unfold commitRow
  split
  · exact ⟨rfl, rfl⟩
  · dsimp only
    split_ifs <;> exact ⟨rfl, rfl⟩

theorem startCell_pending (b : Builder) (header : Bool) :
    (b.startCell header).blocks = b.blocks ∧ (b.startCell header).pending = b.pending := by
  unfold startCell
  split
  · exact ⟨rfl, rfl⟩
  · dsimp only
    split_ifs <;> exact ⟨rfl, rfl⟩

/-- What is pending after a start tag that flushes. -/
def pendingAfter (b : Builder) : Disposition → Pending
  | .block (.heading level) => .heading level
  | .block .listItem =>
      match b.lists.getLast? with
      | some list =>
          .listItem list.ordered
            (if list.ordered then some (saturatingAdd32 list.counter 1) else none) b.listIndent
      | none => .listItem false none b.listIndent
  | _ => b.defaultPending

theorem startBlock_pending (b : Builder) (block : BlockTag) (tag : Tag) :
    (b.startBlock block tag).blocks = b.flush.blocks ∧
      (b.startBlock block tag).pending = b.pendingAfter (.block block) := by
  have hflush := b.emits_flush
  have hpending := b.pending_flush
  have hindent : b.flush.listIndent = b.listIndent := by
    simp only [listIndent, hflush.lists, hflush.ctx]
  cases block with
  | paragraph => exact ⟨rfl, hpending⟩
  | heading level => exact ⟨rfl, rfl⟩
  | list ordered =>
      simp only [startBlock]
      split_ifs <;> exact ⟨rfl, hpending⟩
  | listItem =>
      simp only [startBlock, hflush.lists, pendingAfter]
      cases b.lists.getLast? with
      | none => exact ⟨rfl, by simp only [hindent]⟩
      | some list => exact ⟨rfl, by simp only [hindent]⟩
  | quote => exact ⟨rfl, hpending⟩
  | pre =>
      simp only [startBlock]
      split_ifs <;> exact ⟨rfl, hpending⟩
  | table => exact ⟨rfl, hpending⟩
  | tableRow =>
      have hrow := b.flush.rows_commitRow_pending
      exact ⟨hrow.1, hrow.2.trans hpending⟩
  | tableCell header =>
      have hcell := b.flush.startCell_pending header
      exact ⟨hcell.1, hcell.2.trans hpending⟩

/-- The block of the text before a closing tag, and what the tag adds. -/
theorem closeBlock_pending (b : Builder) {block : BlockTag} (hpre : block ≠ .pre) :
    (∃ extra, Extra b.flush (b.closeBlock block) extra) ∧
      (b.closeBlock block).pending = b.defaultPending := by
  have hflush := b.pending_flush
  have hsame {b' : Builder} (hblocks : b'.blocks = b.flush.blocks)
      (hpending : b'.pending = b.flush.pending) :
      (∃ extra, Extra b.flush b' extra) ∧ b'.pending = b.defaultPending :=
    ⟨⟨[], extra_of_blocks hblocks⟩, hpending.trans hflush⟩
  cases block with
  | pre => exact (hpre rfl).elim
  | table =>
      simp only [closeBlock]
      split_ifs
      · obtain ⟨extra, hextra⟩ := extra_closeTable
          { b.flush with tableDepth := b.flush.tableDepth - 1 }
        exact ⟨⟨extra, hextra.of_same rfl rfl⟩, (pending_closeTable _).trans hflush⟩
      · exact hsame rfl rfl
  | tableRow =>
      have hrow := b.flush.rows_commitRow_pending
      exact hsame hrow.1 hrow.2
  | _ => exact hsame rfl rfl

/-! ## Block boundaries -/

/-- The change ends the block of the text before it. -/
def isFlush : Edit → Bool
  | .flush => true
  | _ => false

section Boundaries

variable [UrlLibrary] {b : Builder}

/-- The token ends the block of the text before it. -/
def ends (b : Builder) (token : Token) : Bool :=
  (b.edits token).any isFlush

/-- What is pending after a token that ends a block. -/
def pendingSince (b : Builder) : Token → Pending
  | .startTag tag => b.pendingAfter (classify (lowercase tag.name))
  | _ => b.defaultPending

/-- What a token emits, and what is pending after it. -/
structure Turned (b b' : Builder) (token : Token) : Prop where
  quiet : b.ends token = false → (∃ extra, Extra b b' extra) ∧ b'.pending = b.pending
  ending : b.ends token = true →
    (∃ extra, Extra b.flush b' extra) ∧ b'.pending = b.pendingSince token

theorem turned_of_quiet {b' : Builder} {token : Token} (hends : b.ends token = false)
    {extra : List RenderBlock} (hextra : Extra b b' extra) (hpending : b'.pending = b.pending) :
    Turned b b' token :=
  ⟨fun _ => ⟨⟨extra, hextra⟩, hpending⟩, fun h => absurd h (by simp [hends])⟩

theorem turned_of_ending {b' : Builder} {token : Token} (hends : b.ends token = true)
    {extra : List RenderBlock} (hextra : Extra b.flush b' extra)
    (hpending : b'.pending = b.pendingSince token) : Turned b b' token :=
  ⟨fun h => absurd h (by simp [hends]), fun _ => ⟨⟨extra, hextra⟩, hpending⟩⟩

/-- Where skipping ends has no part in what is emitted. -/
theorem Turned.leaveSkip {b' : Builder} {token : Token} (h : Turned b b' token) :
    Turned b b'.leaveSkip token := by
  rw [leaveSkip_eq]
  have hsame {base : Builder} {extra : List RenderBlock} (hextra : Extra base b' extra) :
      Extra base { b' with skipFrom := skipLeft b'.opened b'.skipFrom } extra :=
    ⟨hextra.blocks, hextra.quoteDepth, hextra.noItem⟩
  constructor
  · intro hends
    obtain ⟨⟨extra, hextra⟩, hpending⟩ := h.quiet hends
    exact ⟨⟨extra, hsame hextra⟩, hpending⟩
  · intro hends
    obtain ⟨⟨extra, hextra⟩, hpending⟩ := h.ending hends
    exact ⟨⟨extra, hsame hextra⟩, hpending⟩

theorem turned_image (htag : classify (lowercase tag.name) = .void .image)
    (hends : b.ends (.startTag tag) = (b.imageEdits tag).any isFlush) :
    Turned b (b.image tag) (.startTag tag) := by
  have hshown (kind : BlockKind) (hkind : ∀ ordered number indent spans,
      kind ≠ .listItem ordered number indent spans) (hflush : b.ends (.startTag tag) = true) :
      Turned b (b.flush.pushBlock kind) (.startTag tag) := by
    obtain ⟨extra, hextra⟩ := b.flush.extra_pushBlock kind hkind
    refine turned_of_ending hflush hextra ?_
    rw [pending_pushBlock, pending_flush, pendingSince, htag]
    rfl
  unfold imageEdits at hends
  unfold image
  cases hsrc : (nonEmptyAttr tag "src").bind b.resolve with
  | none =>
      rw [hsrc] at hends
      exact turned_of_quiet hends (extra_of_blocks rfl) rfl
  | some src =>
      rw [hsrc] at hends
      dsimp only at hends ⊢
      cases hdecide : b.ctx.media.decideWithConsent src [] with
      | fetch shown =>
          rw [hdecide] at hends
          exact hshown _ (by simp) hends
      | needsConsent shown =>
          rw [hdecide] at hends
          exact hshown _ (by simp) hends
      | drop =>
          rw [hdecide] at hends
          exact turned_of_quiet hends (extra_of_blocks rfl) rfl

theorem turned_startTag (h : b.Stands levels)
    (hdepth : levels.length < b.ctx.limits.maxDepth) :
    Turned b (b.startTag tag) (.startTag tag) := by
  have hroom : ¬ b.ctx.limits.maxDepth ≤ b.opened.length := by
    rw [h.length]
    omega
  have hquiet {b' : Builder} (hends : b.ends (.startTag tag) = false)
      (hblocks : b'.blocks = b.blocks) (hpending : b'.pending = b.pending) :
      Turned b b' (.startTag tag) :=
    turned_of_quiet hends (extra_of_blocks hblocks) hpending
  have hending {b' : Builder} (hends : b.ends (.startTag tag) = true)
      (hblocks : b'.blocks = b.flush.blocks)
      (hpending : b'.pending = b.pendingAfter (classify (lowercase tag.name))) :
      Turned b b' (.startTag tag) :=
    turned_of_ending hends (extra_of_blocks hblocks) hpending
  have hopen (element : OpenElement) : (b.openEdits tag element).any isFlush = false := by
    unfold openEdits
    split_ifs <;> rfl
  have hends : b.ends (.startTag tag) = (b.startEdits tag).any isFlush := rfl
  unfold startTag
  unfold startEdits at hends
  cases hskip : b.skipFrom with
  | some depth =>
      rw [hskip] at hends
      simp only [Option.isSome_some, if_true] at hends ⊢
      unfold startSkipped
      unfold skippedEdits at hends
      split_ifs at hends ⊢ <;> exact hquiet hends rfl rfl
  | none =>
      rw [hskip] at hends
      simp only [Option.isSome_none, Bool.false_eq_true, if_false, hroom] at hends ⊢
      cases hclass : classify (lowercase tag.name) with
      | skip =>
          rw [hclass] at hends hending
          simp only [if_true] at hends ⊢
          have hflush := b.pending_flush
          unfold startSkip
          unfold skipEdits at hends
          dsimp only
          split_ifs at hends ⊢ <;> exact hending hends rfl hflush
      | void void =>
          have hnot : Disposition.void void ≠ .skip := by simp
          rw [hclass, if_neg hnot] at hends
          rw [if_neg hnot]
          simp only [elementEdits, startElement, hclass] at hends ⊢
          cases void with
          | lineBreak =>
              simp only [voidElement]
              split_ifs <;> exact hquiet hends rfl rfl
          | rule =>
              obtain ⟨extra, hextra⟩ := b.flush.extra_pushBlock .rule (by simp)
              refine turned_of_ending hends hextra ?_
              rw [pendingSince, hclass]
              exact (pending_pushBlock _ _).trans b.pending_flush
          | image => exact turned_image hclass hends
      | inline inline =>
          have hnot : Disposition.inline inline ≠ .skip := by simp
          rw [hclass, if_neg hnot] at hends
          rw [if_neg hnot]
          simp only [elementEdits, startElement, hclass] at hends ⊢
          by_cases hchild : childless tag = true
          · rw [if_pos hchild] at hends ⊢
            exact hquiet hends rfl rfl
          · rw [if_neg hchild] at hends ⊢
            refine hquiet hends ?_ ?_ <;> cases inline <;> rfl
      | block block =>
          have hnot : Disposition.block block ≠ .skip := by simp
          have hstart := b.startBlock_pending block tag
          rw [hclass, if_neg hnot] at hends
          rw [hclass] at hending
          rw [if_neg hnot]
          simp only [elementEdits, startElement, hclass] at hends ⊢
          have hflush : b.ends (.startTag tag) = true := by
            rw [hends]
            cases block <;> rfl
          split_ifs
          · exact hending hflush hstart.1 hstart.2
          · exact hending hflush hstart.1 hstart.2
      | flatten =>
          have hnot : Disposition.flatten ≠ .skip := by simp
          rw [hclass, if_neg hnot] at hends
          rw [if_neg hnot]
          simp only [elementEdits, startElement, hclass] at hends ⊢
          rw [hopen] at hends
          split_ifs <;> exact hquiet hends rfl rfl

theorem turned_endTag {stop : Tag} (h : b.Stands levels)
    (hfits : FitsToken b.ctx.limits.maxDepth levels (.endTag stop)) :
    Turned b (b.endTag stop) (.endTag stop) := by
  cases levels with
  | nil => cases hfits
  | cons level outer =>
  have hname : level.name = lowercase stop.name := Option.some.inj hfits
  have hopened := h.opened
  cases hstack : b.opened with
  | nil => simp [hstack, stackKinds] at hopened
  | cons element rest =>
  rw [hstack, List.map_cons, stackKinds] at hopened
  have helement : element.name = lowercase stop.name :=
    (Prod.mk.inj (List.cons.inj hopened).1).1.trans hname
  have hends : b.ends (.endTag stop) =
      (if b.skipFrom.isSome then [] else element.closing).any isFlush := by
    simp [ends, edits, hstack, closeEdits, helement, isFlush]
  rw [endTag_of_innermost hstack helement]
  refine Turned.leaveSkip ?_
  by_cases hskip : b.skipFrom.isSome = true
  · rw [if_pos hskip] at hends
    rw [closeElement, if_pos hskip]
    exact turned_of_quiet hends (extra_of_blocks rfl) rfl
  · rw [if_neg hskip, OpenElement.closing] at hends
    rw [closeElement, if_neg hskip]
    cases hkind : element.disposition with
    | block block =>
        rw [hkind] at hends
        dsimp only at hends ⊢
        by_cases hpre : block = .pre
        · rw [hpre] at hends ⊢
          obtain ⟨extra, hextra⟩ := extra_closePre (restore { b with opened := rest } element)
          exact turned_of_quiet hends (hextra.of_same rfl rfl) (pending_closePre _)
        · have hflush : b.ends (.endTag stop) = true := by
            rw [hends]
            cases block with
            | pre => exact (hpre rfl).elim
            | _ => rfl
          obtain ⟨⟨extra, hextra⟩, hpending⟩ :=
            closeBlock_pending (restore { b with opened := rest } element) hpre
          refine turned_of_ending hflush (hextra.of_same ?_ ?_) hpending
          · -- Neither the stack nor the style has a part in what is emitted.
            rcases b.blocks_flush with ⟨hemits, hblocks⟩ | ⟨hemits, hblocks⟩ <;>
              rcases blocks_flush (restore { b with opened := rest } element) with
                ⟨hemits', hblocks'⟩ | ⟨hemits', hblocks'⟩
            · exact hblocks'.trans hblocks.symm
            · exact (hemits' hemits).elim
            · exact (hemits hemits').elim
            · exact hblocks'.trans hblocks.symm
          · exact (emits_flush _).quoteDepth.trans b.emits_flush.quoteDepth.symm
    | _ =>
        rw [hkind] at hends
        exact turned_of_quiet hends (extra_of_blocks rfl) rfl

theorem turned_processToken (h : b.Stands levels) (hlive : b.stopped = false) {token : Token}
    (hfits : FitsToken b.ctx.limits.maxDepth levels token) :
    Turned b (b.processToken token) token := by
  rw [processToken_of_live hlive]
  cases token with
  | startTag tag => exact turned_startTag h hfits
  | endTag stop => exact turned_endTag h hfits
  | characters text =>
      simp only [handle, pushText]
      split_ifs <;> exact turned_of_quiet rfl (extra_of_blocks rfl) rfl
  | ignored => exact turned_of_quiet rfl (extra_of_blocks rfl) rfl

end Boundaries

end Builder

end Vuo.Content
