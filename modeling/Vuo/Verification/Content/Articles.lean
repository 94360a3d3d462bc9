import Vuo.Verification.Content.Tables

/-!
# Articles come out as they are written

The transform turns the markup of an article into the blocks the rules give for
it, if it stays within the caps: one lemma for each kind of markup that stands
for blocks, and from these by induction the whole article.
-/

namespace Vuo.Content

namespace Builder

variable {b : Builder}

/-! ## Standing between blocks -/

/-- The builder stands at a place and has read these spans there. -/
structure Standing (b : Builder) (ctx : TransformContext) (room : ℕ) (place : Place)
    (spans : List Span) : Prop extends Open b ctx room where
  read : b.spans = spans
  style : b.style = {}
  link : b.link = none
  pending : b.pending = place.pending
  quoteDepth : b.quoteDepth = place.quoteDepth
  lists : b.lists = place.lists
  preDepth : b.preDepth = 0
  table : b.table = none
  tableDepth : b.tableDepth = 0

/-- The builder has come to stand at a place, with these blocks more once the
spans there are out, and has taken at most so much of the budget. -/
structure Arrives (b b' : Builder) (ctx : TransformContext) (room : ℕ) (place : Place)
    (spans : List Span) (more : List RenderBlock) (bytes : ℕ) : Prop
    extends Standing b' ctx room place spans where
  stack : b'.opened = b.opened
  output : b'.blocks ++ place.emit spans = b.blocks ++ more
  taken : b'.textBytes ≤ b.textBytes + bytes

/-- A builder with room for these blocks and bytes. -/
def RoomFor (b : Builder) (blocks : List RenderBlock) (bytes : ℕ) : Prop :=
  (b.blocks ++ blocks).length ≤ b.ctx.limits.maxBlocks ∧
    b.textBytes + bytes < b.ctx.limits.maxTextBytes

theorem RoomFor.mono {blocks more : List RenderBlock} {m n : ℕ} (h : b.RoomFor blocks m)
    (hblocks : more <+: blocks) (hbytes : n ≤ m) : b.RoomFor more n := by
  have hlength := hblocks.length_le
  obtain ⟨hfits, htaken⟩ := h
  rw [List.length_append] at hfits
  rw [RoomFor, List.length_append]
  exact ⟨by omega, by omega⟩

theorem RoomFor.lay {blocks : List RenderBlock} {m n bytes : ℕ} (glyphs : List Glyph)
    (h : b.RoomFor blocks (m + bytes)) (hle : n ≤ m) : (b.lay glyphs n).RoomFor blocks bytes := by
  obtain ⟨hblocks, htaken⟩ := h
  refine ⟨hblocks, ?_⟩
  simp only [Builder.lay]
  omega

section Blocks

variable {ctx : TransformContext} {room : ℕ} {place : Place} {spans : List Span}

theorem emit_nil (place : Place) : place.emit [] = [] :=
  rfl

theorem defaultPending_eq (b : Builder) :
    b.defaultPending = Place.continuing b.ctx.limits b.lists :=
  rfl

theorem exists_pushBlock (htable : b.table = none) (kind : BlockKind)
    (hroom : b.RoomFor [⟨kind, b.quoteDepth⟩] 0) :
    ∃ n, b.pushBlock kind =
      { b with blocks := b.blocks ++ [⟨kind, b.quoteDepth⟩], textCommitted := n } := by
  obtain ⟨hblocks, hbytes⟩ := hroom
  rw [List.length_append, List.length_singleton] at hblocks
  refine ⟨b.textBytes, ?_⟩
  rw [pushBlock_of_none htable, if_neg (by omega), if_neg (by omega), if_neg (by omega)]

namespace Standing

/-- What is read comes out as a block at the next boundary. -/
theorem exists_flush (h : b.Standing ctx room place spans)
    (hroom : b.RoomFor (place.emit spans) 0) :
    ∃ n, b.flush =
      { b with
        spans := []
        pending := Place.continuing ctx.limits place.lists
        blocks := b.blocks ++ place.emit spans
        textCommitted := n } := by
  have hdefault : b.defaultPending = Place.continuing ctx.limits place.lists := by
    rw [defaultPending_eq, h.ctx, h.lists]
  by_cases hblank : trimSpans spans = []
  · refine ⟨b.textCommitted, ?_⟩
    rw [flush_of_blank (by rw [h.read, hblank]), hdefault, Place.emit, if_pos hblank,
      List.append_nil]
  · rw [Place.emit, if_neg hblank] at hroom ⊢
    rw [← h.quoteDepth] at hroom ⊢
    obtain ⟨n, hpush⟩ := exists_pushBlock (b := { b with spans := [] }) h.table
      (place.pending.kind (trimSpans spans)) hroom
    have hkind : b.pending.kind (trimSpans b.spans) = place.pending.kind (trimSpans spans) := by
      rw [h.pending, h.read]
    exact ⟨n, by rw [flush_of_none (by rwa [h.read]) h.table, hdefault, hkind, hpush]⟩

/-- A builder that differs where it has come out of a flush. -/
theorem flushed (h : b.Standing ctx room place spans) (hroom : b.RoomFor (place.emit spans) 0) :
    b.Arrives b.flush ctx room (place.settled ctx.limits) [] (place.emit spans) 0 := by
  obtain ⟨n, hflush⟩ := h.exists_flush hroom
  rw [hflush]
  exact
    { h with
      read := rfl
      pending := rfl
      stack := rfl
      output := List.append_nil _
      taken := Nat.le_refl _ }

end Standing

theorem Arrives.of_eq {b' b'' : Builder} {more : List RenderBlock} {n : ℕ}
    (h : b.Arrives b' ctx room place spans more n) (heq : b'' = b') :
    b.Arrives b'' ctx room place spans more n :=
  heq ▸ h

theorem Arrives.mono {b' : Builder} {more : List RenderBlock} {m n : ℕ}
    (h : b.Arrives b' ctx room place spans more m) (hle : m ≤ n) :
    b.Arrives b' ctx room place spans more n :=
  { h with taken := Nat.le_trans h.taken (Nat.add_le_add_left hle _) }

theorem Arrives.of_lay {b' : Builder} {more : List RenderBlock} {glyphs : List Glyph} {m n : ℕ}
    (h : (b.lay glyphs m).Arrives b' ctx room place spans more n) :
    b.Arrives b' ctx room place spans more (m + n) :=
  { h with taken := Nat.le_trans h.taken (Nat.le_of_eq (Nat.add_assoc _ _ _)) }

theorem Arrives.trans {b' b'' : Builder} {place' : Place} {more more' : List RenderBlock}
    {m n : ℕ} (h : b.Arrives b' ctx room place [] more m)
    (h' : b'.Arrives b'' ctx room place' spans more' n) :
    b.Arrives b'' ctx room place' spans (more ++ more') (m + n) where
  toStanding := h'.toStanding
  stack := h'.stack.trans h.stack
  output := by
    have houtput := h.output
    rw [emit_nil, List.append_nil] at houtput
    rw [h'.output, houtput, List.append_assoc]
  taken := by
    have htaken := h.taken
    have htaken' := h'.taken
    omega

/-- What is left of the room. -/
theorem Arrives.roomFor {b' : Builder} {more more' : List RenderBlock} {m n : ℕ}
    (h : b.Arrives b' ctx room place [] more m) (hctx : b.ctx = ctx)
    (hroom : b.RoomFor (more ++ more') (m + n)) : b'.RoomFor more' n := by
  obtain ⟨hblocks, hbytes⟩ := hroom
  have houtput := h.output
  have htaken := h.taken
  rw [emit_nil, List.append_nil] at houtput
  rw [RoomFor, houtput, h.ctx, ← hctx, List.append_assoc]
  exact ⟨hblocks, by omega⟩

/-- A block that stands on its own. -/
theorem Standing.pushed (h : b.Standing ctx room place []) (kind : BlockKind)
    (hroom : b.RoomFor [⟨kind, place.quoteDepth⟩] 0) :
    b.Arrives (b.pushBlock kind) ctx room place [] [⟨kind, place.quoteDepth⟩] 0 := by
  rw [← h.quoteDepth] at hroom ⊢
  obtain ⟨n, hpush⟩ := exists_pushBlock h.table kind hroom
  rw [hpush]
  exact
    { h with
      stack := rfl
      output := List.append_nil _
      taken := Nat.le_refl _ }

/-- A block that ends the text before it. -/
theorem Standing.flushed_pushed (h : b.Standing ctx room place spans) (kind : BlockKind)
    (hroom : b.RoomFor (place.emit spans ++ [⟨kind, place.quoteDepth⟩]) 0) :
    b.Arrives (b.flush.pushBlock kind) ctx room (place.settled ctx.limits) []
      (place.emit spans ++ [⟨kind, place.quoteDepth⟩]) 0 := by
  have hflushed := h.flushed (hroom.mono (List.prefix_append _ _) (Nat.le_refl 0))
  exact hflushed.trans (hflushed.toStanding.pushed kind (hflushed.roomFor h.ctx hroom))

variable [UrlLibrary]

/-- Loose text at a place. -/
theorem exists_lay {tokens : List Token} {glyphs : List Glyph}
    (h : b.Standing ctx room place []) (htext : Phrase ctx room ({}, none) tokens glyphs)
    (hfits : b.textBytes + textSize tokens < ctx.limits.maxTextBytes) :
    ∃ n ≤ textSize tokens, b.run tokens = b.lay glyphs n ∧
      (b.lay glyphs n).Standing ctx room place (spansOf glyphs) := by
  obtain ⟨n, hn, hrun⟩ := run_phrase htext h.toOpen (by rw [h.style, h.link]) hfits
  refine ⟨n, hn, hrun, ?_⟩
  rw [lay_of_flow h.preDepth, h.read]
  exact { h with read := rfl }

omit [UrlLibrary] in
theorem with_spans_nil (h : b.spans = []) : { b with spans := [] } = b := by
  rw [← h]

omit [UrlLibrary] in
/-- The blocks of an element of its own, read by a builder that was flushed. -/
theorem Standing.arrives_of_flushed (h : b.Standing ctx room place spans)
    {blocks : List RenderBlock} {bytes : ℕ} {b' : Builder}
    (hroom : b.RoomFor (place.emit spans ++ blocks) bytes)
    (hrest : b.flush.Standing ctx room (place.settled ctx.limits) [] →
      b.flush.RoomFor blocks bytes →
        b.flush.Arrives b' ctx room (place.settled ctx.limits) [] blocks bytes) :
    b.Arrives b' ctx room (place.settled ctx.limits) [] (place.emit spans ++ blocks) bytes := by
  have hflushed := h.flushed (hroom.mono (List.prefix_append _ _) (Nat.zero_le _))
  have hafter := hrest hflushed.toStanding
    (hflushed.roomFor h.ctx (by rwa [Nat.zero_add]))
  simpa only [Nat.zero_add] using hflushed.trans hafter

omit [UrlLibrary] in
/-- The end of a code block. -/
theorem arrives_closePre {f open_ : Builder} (h : f.Standing ctx room place []) {start : Tag}
    {glyphs : List Glyph} {n : ℕ}
    (hopen : open_ =
      { f with
        preDepth := 1
        preText := glyphs.map Glyph.plain
        preLanguage := classLanguage start
        textBytes := f.textBytes + n })
    (hroom : f.RoomFor ((codeBlock start glyphs).map (⟨·, place.quoteDepth⟩)) n) :
    f.Arrives open_.closePre ctx room place []
      ((codeBlock start glyphs).map (⟨·, place.quoteDepth⟩)) n := by
  have hcode : open_.codeText = codeOf glyphs := by
    rw [hopen]
    rfl
  have hlast : open_.preDepth - 1 = 0 := by
    rw [hopen]
    rfl
  have hpast : open_.pastPre.Standing ctx room place [] := by
    rw [hopen]
    exact { h with preDepth := rfl }
  have hsame : open_.pastPre.opened = f.opened ∧ open_.pastPre.blocks = f.blocks ∧
      open_.pastPre.textBytes = f.textBytes + n ∧ open_.pastPre.ctx = f.ctx := by
    rw [hopen]
    exact ⟨rfl, rfl, rfl, rfl⟩
  obtain ⟨hopened, hblocks, hbytes, hctx⟩ := hsame
  by_cases hblank : codeOf glyphs = []
  · rw [closePre_of_blank hlast (hcode.trans hblank), codeBlock, if_pos hblank]
    exact
      { hpast with
        read := rfl
        stack := hopened
        output := by rw [emit_nil, hblocks]; rfl
        taken := Nat.le_of_eq hbytes }
  · have hlanguage : open_.preLanguage = classLanguage start := by rw [hopen]
    rw [codeBlock, if_neg hblank] at hroom ⊢
    have hpushed := hpast.pushed (.code (classLanguage start) (codeOf glyphs))
      (by rwa [RoomFor, hblocks, hbytes, hctx])
    rw [closePre_of_outer hlast (by rwa [hcode]), hcode, hlanguage, with_spans_nil hpushed.read]
    exact
      { hpushed.toStanding with
        stack := hpushed.stack.trans hopened
        output := by rw [hpushed.output, hblocks]; rfl
        taken := Nat.le_trans hpushed.taken (Nat.le_of_eq hbytes) }

/-- A code block. -/
theorem arrives_code (h : b.Standing ctx (room + 1) place spans) {start stop : Tag}
    {inner : List Token} {glyphs : List Glyph}
    (hclass : classify (lowercase start.name) = .block .pre) (hchild : childless start = false)
    (hname : lowercase stop.name = lowercase start.name)
    (hinner : Phrase ctx room ({}, none) inner glyphs)
    (hroom : b.RoomFor (place.emit spans ++
      (codeBlock start glyphs).map (⟨·, place.quoteDepth⟩)) (textSize inner)) :
    b.Arrives (b.run (.startTag start :: (inner ++ [.endTag stop]))) ctx (room + 1)
      (place.settled ctx.limits) []
      (place.emit spans ++ (codeBlock start glyphs).map (⟨·, place.quoteDepth⟩))
      (textSize inner) := by
  refine h.arrives_of_flushed hroom fun hflush hrest => ?_
  have hstart : b.startBlock .pre start =
      { b.flush with
        preDepth := 1, preText := [], preLanguage := classLanguage start } := by
    simp only [startBlock, hflush.preDepth]
    rfl
  have hopen : ((b.startBlock .pre start).openElement
      ⟨lowercase start.name, .block .pre, none, none⟩).Open ctx room := by
    rw [hstart]
    exact hflush.toOpen.inside rfl rfl rfl rfl
  obtain ⟨n, hn, hrun⟩ := run_phrase hinner hopen
    (by rw [hstart]; exact Prod.ext hflush.style hflush.link)
    (by rw [hstart]; exact hflush.ctx ▸ hrest.2)
  rw [run, List.foldl_cons, processToken_startBlock h.toOpen hclass hchild, ← run, run_append,
    hrun]
  refine (arrives_closePre hflush ?_ (hrest.mono (List.prefix_refl _) hn)).mono hn |>.of_eq
    (processToken_closeBlock (hopen.lay glyphs n) rfl hname)
  rw [hstart, lay_of_pre (by simp [openElement])]
  rfl

omit [UrlLibrary] in
/-- The end of a table. -/
theorem closeBlock_table {rows : List (List TableCell)} {header : Bool} (hread : b.spans = [])
    (htable : b.table = some ⟨rows, none, header⟩) (hdepth : b.tableDepth = 1) :
    b.closeBlock .table =
      let past := { b with pending := b.defaultPending, tableDepth := 0, table := none }
      if rows = [] then past else past.pushBlock (.table rows) := by
  have hflush : b.flush = { b with pending := b.defaultPending } := by
    rw [flush_of_blank (by rw [hread]; rfl), ← hread]
  rw [closeBlock, hflush]
  simp only [hdepth, Nat.sub_self, if_true, closeTable, htable, TableBuild.commitRow]

/-- A table. -/
theorem arrives_table (h : b.Standing ctx (room + 1) place spans) {start stop : Tag}
    {inner : List Token} {rows : List (List TableCell)}
    (hclass : classify (lowercase start.name) = .block .table) (hchild : childless start = false)
    (hname : lowercase stop.name = lowercase start.name)
    (hrows : rows.length ≤ ctx.limits.maxTableRows) (hinner : Rows ctx room inner rows)
    (hroom : b.RoomFor (place.emit spans ++ (tableBlock rows).map (⟨·, place.quoteDepth⟩))
      (textSize inner)) :
    b.Arrives (b.run (.startTag start :: (inner ++ [.endTag stop]))) ctx (room + 1)
      (place.settled ctx.limits) []
      (place.emit spans ++ (tableBlock rows).map (⟨·, place.quoteDepth⟩)) (textSize inner) := by
  refine h.arrives_of_flushed hroom fun hflush hrest => ?_
  have hstart : b.startBlock .table start =
      { b.flush with tableDepth := 1, table := some ⟨[], none, false⟩ } := by
    simp only [startBlock, hflush.table, hflush.tableDepth]
    rfl
  have hinside : ((b.startBlock .table start).openElement
      ⟨lowercase start.name, .block .table, none, none⟩).Tabling ctx room [] none := by
    rw [hstart]
    exact
      { hflush with
        toOpen := hflush.toOpen.inside rfl rfl rfl rfl
        table := ⟨false, rfl⟩ }
  obtain ⟨htabling, haround⟩ := run_rows hinner hinside hrows
    (by rw [hstart]; exact hflush.ctx ▸ hrest.2)
  rw [run, List.foldl_cons, processToken_startBlock h.toOpen hclass hchild, ← run, run_append,
    run_singleton]
  generalize ((b.startBlock .table start).openElement
    ⟨lowercase start.name, .block .table, none, none⟩).run inner = e at htabling haround
  rw [hstart] at haround
  rw [List.nil_append] at htabling
  obtain ⟨header, htable⟩ := htabling.table
  have hclosed := closeBlock_table (b := { e with opened := b.flush.opened }) htabling.read htable
    haround.tableDepth
  have hpast : Standing { e with
      opened := b.flush.opened
      pending := Builder.defaultPending { e with opened := b.flush.opened }
      tableDepth := 0
      table := none } ctx (room + 1) (place.settled ctx.limits) [] :=
    { htabling with
      room := hflush.room
      pending := by
        rw [defaultPending_eq]
        simp only [htabling.ctx, haround.lists]
        exact congrArg _ hflush.lists
      quoteDepth := haround.quoteDepth.trans hflush.quoteDepth
      lists := haround.lists.trans hflush.lists
      table := rfl
      tableDepth := rfl }
  have hblocks : e.blocks = b.flush.blocks := haround.blocks
  have htaken : e.textBytes ≤ b.flush.textBytes + textSize inner := haround.taken
  rw [processToken_closeBlock htabling.toOpen haround.stack hname, hclosed]
  by_cases hempty : rows = []
  · simp only [hempty, if_true, tableBlock]
    exact
      { hpast with
        stack := rfl
        output := congrArg (· ++ []) hblocks
        taken := htaken }
  · rw [tableBlock, if_neg hempty] at hrest ⊢
    have hpushed := hpast.pushed (.table rows)
      ⟨by rw [hpast.ctx, ← hflush.ctx, hblocks]; exact hrest.1,
        by rw [hpast.ctx, ← hflush.ctx]; exact Nat.lt_of_le_of_lt htaken hrest.2⟩
    simp only [hempty, if_false]
    exact
      { hpushed.toStanding with
        stack := hpushed.stack
        output := hpushed.output.trans (congrArg (· ++ _) hblocks)
        taken := Nat.le_trans hpushed.taken htaken }

/-- A skipped element ends the text before it. -/
theorem run_skippedLeaves (h : b.Standing ctx room place spans) {start stop : Tag}
    {inner : List Token} (hclass : classify (lowercase start.name) = .skip)
    (hchild : childless start = false) (hname : lowercase stop.name = lowercase start.name)
    (hinner : ∀ token ∈ inner, Leaf token) (hlive : b.flush.stopped = false) :
    b.run (.startTag start :: (inner ++ [.endTag stop])) = b.flush := by
  have hnested : WellNested inner := by
    induction inner with
    | nil => exact .nil
    | cons token inner ih =>
        exact .leaf (hinner token List.mem_cons_self)
          (ih fun t ht => hinner t (List.mem_cons_of_mem token ht))
  have hfold (outer inside : List String) :
      inner.foldlM (insideStep b.ctx.limits.maxDepth outer) inside = some inside := by
    clear hnested
    induction inner with
    | nil => rfl
    | cons token inner ih =>
        rw [List.foldlM_cons, insideStep_leaf (hinner token List.mem_cons_self)]
        exact ih fun t ht => hinner t (List.mem_cons_of_mem token ht)
  exact run_skipped h.live h.skipFrom hclass hchild hname hnested hlive
    (by rw [StaysInside, hfold]; rfl)

/-- Markup that ends the text before it. -/
theorem arrives_solid {tokens : List Token} {kinds : List BlockKind}
    (hsolid : Solid ctx room tokens kinds) (h : b.Standing ctx room place spans)
    (hroom : b.RoomFor (place.emit spans ++ kinds.map (⟨·, place.quoteDepth⟩))
      (textSize tokens)) :
    b.Arrives (b.run tokens) ctx room (place.settled ctx.limits) []
      (place.emit spans ++ kinds.map (⟨·, place.quoteDepth⟩)) (textSize tokens) := by
  cases hsolid with
  | rule hclass =>
      refine (h.flushed_pushed .rule hroom).of_eq ?_
      rw [run_singleton, processToken_startTag h.toOpen (by simp [hclass])]
      simp only [startElement, hclass, voidElement]
  | picture hclass hpicture =>
      refine (h.flushed_pushed _ hroom).of_eq ?_
      rw [run_singleton, processToken_image h.toOpen hclass, h.link, hpicture]
      rfl
  | code hclass hchild hname hinner =>
      simp only [textSize, textSize_append, Nat.add_zero] at hroom ⊢
      exact arrives_code h hclass hchild hname hinner hroom
  | table hclass hchild hname hrows hinner =>
      simp only [textSize, textSize_append, Nat.add_zero] at hroom ⊢
      exact arrives_table h hclass hchild hname hrows hinner hroom
  | skipped hclass hchild hname hinner =>
      refine h.arrives_of_flushed hroom fun hflush _ => ?_
      rw [run_skippedLeaves h hclass hchild hname hinner hflush.live]
      exact { hflush with stack := rfl, output := rfl, taken := Nat.le_add_right _ _ }
  | skippedVoid hclass hchild =>
      refine h.arrives_of_flushed hroom fun hflush _ => ?_
      rw [run_singleton, processToken_of_live h.live]
      simp only [handle, startTag, h.skipFrom, Option.isSome_none, Bool.false_eq_true, if_false,
        hclass, if_true, startSkip, hchild]
      exact
        { hflush with
          stack := rfl
          output := rfl
          taken := Nat.le_add_right _ _ }

/-! ## Block elements with others inside -/

omit [UrlLibrary] in
/-- The start of a block element puts the builder inside it. -/
theorem startBlock_of_enter (h : b.flush.Standing ctx room (place.settled ctx.limits) [])
    {block : BlockTag} {start : Tag} {inside : Place}
    (henter : place.enter ctx.limits block = some inside) :
    b.startBlock block start =
      { b.flush with
        pending := inside.pending, quoteDepth := inside.quoteDepth, lists := inside.lists } := by
  have hquote : b.flush.quoteDepth = place.quoteDepth := h.quoteDepth
  have hlists : b.flush.lists = place.lists := h.lists
  have hpending : b.flush.pending = Place.continuing ctx.limits place.lists := h.pending
  cases block with
  | paragraph =>
      cases henter
      simp only [startBlock, Place.settled, ← hquote, ← hpending]
      rw [← hlists]
  | heading level =>
      cases henter
      simp only [startBlock, ← hquote]
      rw [← hlists]
  | list ordered =>
      rw [Place.enter, Option.ite_none_right_eq_some] at henter
      obtain ⟨hroom, hinside⟩ := henter
      cases hinside
      have hcap : b.flush.lists.length < b.flush.ctx.limits.maxListIndent := by
        rw [hlists, h.ctx]
        exact hroom
      simp only [startBlock, hcap, if_true, Place.settled, ← hquote, ← hpending]
      rw [← hlists]
  | listItem =>
      cases henter
      have hindent : b.flush.listIndent = Place.indent ctx.limits place.lists := by
        rw [← hlists, ← h.ctx]
        rfl
      simp only [startBlock, Place.item, hlists, hindent]
      cases place.lists.getLast? with
      | none => simp only [← hquote, ← hlists]
      | some list => simp only [← hquote]
  | quote =>
      rw [Place.enter, Option.ite_none_right_eq_some] at henter
      obtain ⟨⟨hcap, hbyte⟩, hinside⟩ := henter
      cases hinside
      have hdeeper : min (saturatingAdd8 b.flush.quoteDepth 1) b.flush.ctx.limits.maxQuoteDepth =
          place.quoteDepth + 1 := by
        rw [hquote, h.ctx, saturatingAdd8]
        omega
      simp only [startBlock, hdeeper, Place.settled, ← hpending]
      rw [← hlists]
  | pre => cases henter
  | table => cases henter
  | tableRow => cases henter
  | tableCell header => cases henter

omit [UrlLibrary] in
/-- The end of a block element. -/
theorem arrives_closeBlock (h : b.Standing ctx room place spans) {block : BlockTag}
    {outer inside : Place} (henter : outer.enter ctx.limits block = some inside)
    (hquote : place.quoteDepth = inside.quoteDepth) (hroom : b.RoomFor (place.emit spans) 0) :
    b.Arrives (b.closeBlock block) ctx room (outer.leave ctx.limits block place.lists) []
      (place.emit spans) 0 := by
  have hflushed := h.flushed hroom
  have hdepth (hsame : inside.quoteDepth = outer.quoteDepth) :
      b.flush.quoteDepth = outer.quoteDepth :=
    hflushed.quoteDepth.trans (hquote.trans hsame)
  cases block with
  | paragraph =>
      cases henter
      exact { hflushed with quoteDepth := hdepth rfl }
  | heading level =>
      cases henter
      exact { hflushed with quoteDepth := hdepth rfl }
  | list ordered =>
      rw [Place.enter, Option.ite_none_right_eq_some] at henter
      cases henter.2
      exact
        { hflushed with
          quoteDepth := hdepth rfl
          lists := congrArg List.dropLast hflushed.lists }
  | listItem =>
      cases henter
      have hsame : (outer.item ctx.limits).quoteDepth = outer.quoteDepth := by
        rw [Place.item]
        cases outer.lists.getLast? <;> rfl
      exact { hflushed with quoteDepth := hdepth hsame }
  | quote =>
      rw [Place.enter, Option.ite_none_right_eq_some] at henter
      cases henter.2
      exact
        { hflushed with
          quoteDepth := congrArg (· - 1) (hflushed.quoteDepth.trans hquote) }
  | pre => cases henter
  | table => cases henter
  | tableRow => cases henter
  | tableCell header => cases henter

/-- A block element whose contents come out as they should. -/
theorem arrives_element (h : b.Standing ctx (room + 1) place spans) {start stop : Tag}
    {block : BlockTag} {inside : Place} {inner : List Token} {blocks : List RenderBlock}
    {lists : List ListState} (hclass : classify (lowercase start.name) = .block block)
    (hchild : childless start = false) (hname : lowercase stop.name = lowercase start.name)
    (henter : place.enter ctx.limits block = some inside)
    (hinner : ∀ {i : Builder}, i.Standing ctx room inside [] → i.RoomFor blocks (textSize inner) →
      ∃ place' spans', place'.quoteDepth = inside.quoteDepth ∧ place'.lists = lists ∧
        i.Arrives (i.run inner) ctx room place' spans' blocks (textSize inner))
    (hroom : b.RoomFor (place.emit spans ++ blocks) (textSize inner)) :
    b.Arrives (b.run (.startTag start :: (inner ++ [.endTag stop]))) ctx (room + 1)
      (place.leave ctx.limits block lists) [] (place.emit spans ++ blocks) (textSize inner) := by
  have hflushed := h.flushed (hroom.mono (List.prefix_append _ _) (Nat.zero_le _))
  have hrest := hflushed.roomFor h.ctx (m := 0) (by rwa [Nat.zero_add])
  have hstanding : ((b.startBlock block start).openElement
      ⟨lowercase start.name, .block block, none, none⟩).Standing ctx room inside [] := by
    rw [startBlock_of_enter hflushed.toStanding henter]
    exact
      { hflushed.toStanding with
        toOpen := hflushed.toOpen.inside rfl rfl rfl rfl
        pending := rfl
        quoteDepth := rfl
        lists := rfl }
  have hopened : (b.startBlock block start).openElement
      ⟨lowercase start.name, .block block, none, none⟩ =
        { b.flush with
          pending := inside.pending
          quoteDepth := inside.quoteDepth
          lists := inside.lists
          opened := ⟨lowercase start.name, .block block, none, none⟩ :: b.flush.opened } := by
    rw [startBlock_of_enter hflushed.toStanding henter]
    rfl
  obtain ⟨place', spans', hquote, rfl, hread⟩ := hinner hstanding (by rw [hopened]; exact hrest)
  rw [run, List.foldl_cons, processToken_startBlock h.toOpen hclass hchild, ← run, run_append,
    run_singleton]
  generalize ((b.startBlock block start).openElement
    ⟨lowercase start.name, .block block, none, none⟩).run inner = e at hread
  rw [hopened] at hread
  have hclosing : Standing { e with opened := b.flush.opened } ctx (room + 1) place' spans' :=
    { hread.toStanding with room := hflushed.room }
  have hout : e.blocks ++ place'.emit spans' = b.flush.blocks ++ blocks := hread.output
  have htaken : e.textBytes ≤ b.flush.textBytes + textSize inner := hread.taken
  have hclosed := arrives_closeBlock hclosing henter hquote
    (by
      rw [RoomFor, hclosing.ctx]
      have hfits := hrest
      rw [RoomFor, hflushed.ctx, ← hout] at hfits
      exact ⟨hfits.1, by dsimp only; omega⟩)
  rw [processToken_closeBlock hread.toOpen hread.stack hname, ← Nat.zero_add (textSize inner)]
  exact hflushed.trans
    { hclosed.toStanding with
      stack := hclosed.stack
      output := hclosed.output.trans hout
      taken := Nat.le_trans hclosed.taken htaken }

/-- The contents of an article come out as the blocks they stand for. -/
theorem arrives_flow {tokens : List Token} {blocks : List RenderBlock} {lists : List ListState}
    (hflow : Flow ctx room place tokens blocks lists) (h : b.Standing ctx room place [])
    (hroom : b.RoomFor blocks (textSize tokens)) :
    ∃ place' spans, place'.quoteDepth = place.quoteDepth ∧ place'.lists = lists ∧
      b.Arrives (b.run tokens) ctx room place' spans blocks (textSize tokens) := by
  induction hflow generalizing b with
  | @text room place tokens glyphs htext =>
      obtain ⟨n, hn, hrun, hlaid⟩ := exists_lay h htext (h.ctx ▸ hroom.2)
      refine ⟨place, spansOf glyphs, rfl, rfl, ?_⟩
      rw [hrun]
      exact
        { hlaid with
          stack := rfl
          output := rfl
          taken := Nat.add_le_add_left hn _ }
  | @solid room place before glyphs tokens kinds rest more lists hbefore hsolid _ ih =>
      rw [textSize_append, textSize_append, ← List.append_assoc (place.emit _)] at hroom ⊢
      obtain ⟨n, hn, hrun, hlaid⟩ := exists_lay h hbefore (h.ctx ▸ (by have := hroom.2; omega))
      have hfits := hroom.lay glyphs hn
      have hsolid := arrives_solid hsolid hlaid
        (hfits.mono (List.prefix_append _ _) (Nat.le_add_right _ _))
      obtain ⟨place', spans', hquote, hlists, hrest⟩ :=
        ih hsolid.toStanding (hsolid.roomFor hlaid.ctx hfits)
      refine ⟨place', spans', hquote, hlists, ?_⟩
      rw [run_append, run_append, hrun]
      exact (hsolid.trans hrest).of_lay.mono (Nat.add_le_add_right hn _)
  | @element room place before glyphs start block inside inner blocks lists stop rest more lists'
      hbefore hclass hchild hname henter _ _ ihinner ihrest =>
      rw [textSize_append, textSize_element, ← List.append_assoc (place.emit _)] at hroom ⊢
      obtain ⟨n, hn, hrun, hlaid⟩ := exists_lay h hbefore
        (h.ctx ▸ (by have := hroom.2; omega))
      have hfits := hroom.lay glyphs hn
      have helement := arrives_element hlaid hclass hchild hname henter ihinner
        (hfits.mono (List.prefix_append _ _) (Nat.le_add_right _ _))
      obtain ⟨place', spans', hquote, hlists, hrest⟩ :=
        ihrest helement.toStanding (helement.roomFor hlaid.ctx hfits)
      refine ⟨place', spans', hquote, hlists, ?_⟩
      rw [run_append, run_element, hrun]
      exact (helement.trans hrest).of_lay.mono (Nat.add_le_add_right hn _)

end Blocks

end Builder

/-! ## The document -/

section Documents

open Builder

variable [UrlLibrary] {ctx : TransformContext}

end Documents

section Plain

open scoped Plain

/-- A paragraph with a word in bold, and a numbered list. -/
def letter : List Token :=
  [.startTag (plainTag "p"), .characters ['a', ' '], .startTag (plainTag "b"), .characters ['b'],
    .endTag (plainTag "b"), .endTag (plainTag "p"), .characters ['\n'], .startTag (plainTag "ol"),
    .startTag (plainTag "li"), .characters ['c'], .endTag (plainTag "li"),
    .endTag (plainTag "ol")]

end Plain

end Vuo.Content
