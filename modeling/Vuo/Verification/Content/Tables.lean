import Vuo.Verification.Content.Phrases

/-!
# Tables come out row by row

Inside a table text goes to the last cell of the current row, and the row is
filed when it ends.
-/

namespace Vuo.Content

theorem foldl_setGlyph_blank {text : List Char} (h : ∀ c ∈ text, isWhitespace c = true)
    (now : SpanStyle × Option MediaUrl) :
    (text.map (Glyph.char · now)).foldl setGlyph [] = [] := by
  induction text with
  | nil => rfl
  | cons c text ih =>
      have hfirst : setGlyph [] (.char c now) = [] := by
        rw [setGlyph, if_pos (h c List.mem_cons_self)]
        rfl
      rw [List.map_cons, List.foldl_cons, hfirst]
      exact ih fun d hd => h d (List.mem_cons_of_mem c hd)

namespace Builder

/-- The builder is in a table between cells. -/
structure Tabling (b : Builder) (ctx : TransformContext) (room : ℕ)
    (rows : List (List TableCell)) (row : Option (List TableCell)) : Prop
    extends Open b ctx room where
  read : b.spans = []
  style : b.style = {}
  link : b.link = none
  preDepth : b.preDepth = 0
  table : ∃ header, b.table = some ⟨rows, row, header⟩

/-- What the contents of a table leave alone. -/
structure Around (b b' : Builder) (bytes : ℕ) : Prop where
  stack : b'.opened = b.opened
  blocks : b'.blocks = b.blocks
  quoteDepth : b'.quoteDepth = b.quoteDepth
  lists : b'.lists = b.lists
  tableDepth : b'.tableDepth = b.tableDepth
  taken : b'.textBytes ≤ b.textBytes + bytes

variable {b b' : Builder}

theorem Around.trans {b'' : Builder} {m n : ℕ} (h : Around b b' m) (h' : Around b' b'' n) :
    Around b b'' (m + n) where
  stack := h'.stack.trans h.stack
  blocks := h'.blocks.trans h.blocks
  quoteDepth := h'.quoteDepth.trans h.quoteDepth
  lists := h'.lists.trans h.lists
  tableDepth := h'.tableDepth.trans h.tableDepth
  taken := by
    have htaken := h.taken
    have htaken' := h'.taken
    omega

section Tables

variable {ctx : TransformContext} {room : ℕ} {rows : List (List TableCell)}
  {row : Option (List TableCell)}

theorem Tabling.flush_eq (h : b.Tabling ctx room rows row) :
    b.flush = { b with pending := b.defaultPending } := by
  rw [flush_of_blank (by rw [h.read]; rfl)]
  rw [← h.read]

/-- Text between cells that is only white space. -/
theorem Tabling.lay_blank (h : b.Tabling ctx room rows row) {text : List Char}
    (htext : ∀ c ∈ text, isWhitespace c = true) (now : SpanStyle × Option MediaUrl) (n : ℕ) :
    (b.lay (text.map (Glyph.char · now)) n).Tabling ctx room rows row ∧
      Around b (b.lay (text.map (Glyph.char · now)) n) n := by
  refine ⟨{ h with toOpen := h.toOpen.lay _ n, read := ?_ },
    ⟨rfl, rfl, rfl, rfl, rfl, Nat.le_refl _⟩⟩
  rw [lay_of_flow h.preDepth, h.read]
  exact foldl_setGlyph_blank htext now

/-- The text of a cell goes into it. -/
theorem flush_cell {cells : List TableCell} {header current : Bool}
    (h : b.table = some ⟨rows, some (cells ++ [⟨[], header⟩]), current⟩) :
    b.flush =
      { b with
        spans := []
        pending := b.defaultPending
        table := some ⟨rows, some (cells ++ [⟨trimSpans b.spans, header⟩]), current⟩ } := by
  by_cases hblank : trimSpans b.spans = []
  · rw [flush_of_blank hblank, hblank, ← h]
  · rw [flush_of_table hblank h]
    simp only [TableBuild.extendCell, Option.map_some, List.modifyLast_concat, List.nil_append]

variable [UrlLibrary]

theorem tabling_characters (h : b.Tabling ctx room rows row) {text : List Char}
    (htext : ∀ c ∈ text, isWhitespace c = true)
    (hfits : b.textBytes + byteLength text < ctx.limits.maxTextBytes) :
    (b.processToken (.characters text)).Tabling ctx room rows row ∧
      Around b (b.processToken (.characters text)) (byteLength text) := by
  obtain ⟨n, hn, hpush⟩ := pushText_eq_lay h.skipFrom text (by rwa [h.ctx])
  obtain ⟨htabling, haround⟩ := h.lay_blank htext (b.style, b.link) n
  rw [processToken_of_live h.live, handle, hpush]
  exact ⟨htabling, { haround with
    taken := Nat.le_trans haround.taken (Nat.add_le_add_left hn _) }⟩

theorem processToken_ignored (h : b.Open ctx room) : b.processToken .ignored = b := by
  rw [processToken_of_live h.live, handle]

/-- The cells of a row. -/
theorem run_cells {tokens : List Token} {cells before : List TableCell}
    (hcells : Cells ctx room tokens cells) (h : b.Tabling ctx room rows (some before))
    (hroom : (before ++ cells).length ≤ ctx.limits.maxTableCellsPerRow)
    (hfits : b.textBytes + textSize tokens < ctx.limits.maxTextBytes) :
    (b.run tokens).Tabling ctx room rows (some (before ++ cells)) ∧
      Around b (b.run tokens) (textSize tokens) := by
  induction hcells generalizing b before with
  | nil =>
      rw [List.append_nil]
      exact ⟨h, ⟨rfl, rfl, rfl, rfl, rfl, Nat.le_refl _⟩⟩
  | blank text htext _ ih =>
      rw [textSize] at hfits ⊢
      obtain ⟨htabling, haround⟩ := tabling_characters h htext (by omega)
      obtain ⟨hrest, harest⟩ := ih htabling hroom (by have := haround.taken; omega)
      exact ⟨hrest, haround.trans harest⟩
  | ignored _ ih =>
      rw [run, List.foldl_cons, processToken_ignored h.toOpen]
      exact ih h hroom hfits
  | @cell room start header inner glyphs stop rest cells hclass hchild hname hinner _ ih =>
      rw [textSize_element] at hfits ⊢
      obtain ⟨current, htable⟩ := h.table
      have hstart : b.startBlock (.tableCell header) start =
          { b with
            pending := b.defaultPending
            table := some ⟨rows, some (before ++ [⟨[], header⟩]), header⟩ } := by
        have hcap : before.length < b.ctx.limits.maxTableCellsPerRow := by
          rw [h.ctx]
          simp only [List.length_append, List.length_cons] at hroom
          omega
        rw [startBlock, h.flush_eq]
        simp only [startCell, htable, Option.getD_some, hcap, if_true]
      have hopen : ((b.startBlock (.tableCell header) start).openElement
          ⟨lowercase start.name, .block (.tableCell header), none, none⟩).Open ctx room := by
        rw [hstart]
        exact h.toOpen.inside rfl rfl rfl rfl
      obtain ⟨n, hn, hrun⟩ := run_phrase hinner hopen
        (by rw [hstart]; exact Prod.ext h.style h.link)
        (by rw [hstart]; exact Nat.lt_of_le_of_lt (by simp [openElement]) hfits)
      have hstop : (b.run (.startTag start :: (inner ++ [.endTag stop]))) =
          { b with
            pending := b.defaultPending
            table := some ⟨rows, some (before ++ [⟨trimSpans (spansOf glyphs), header⟩]), header⟩
            textBytes := b.textBytes + n } := by
        rw [run, List.foldl_cons, processToken_startBlock h.toOpen hclass hchild, ← run,
          run_append, hrun, run_singleton, processToken_closeBlock (hopen.lay glyphs n) rfl hname]
        rw [hstart, lay_of_flow (by simpa [openElement] using h.preDepth)]
        refine (flush_cell rfl).trans ?_
        simp only [openElement, h.read]
        rfl
      have htabling : (b.run (.startTag start :: (inner ++ [.endTag stop]))).Tabling ctx
          (room + 1) rows (some (before ++ [⟨trimSpans (spansOf glyphs), header⟩])) := by
        rw [hstop]
        exact { h with table := ⟨header, rfl⟩ }
      have haround : Around b (b.run (.startTag start :: (inner ++ [.endTag stop])))
          (textSize inner) := by
        rw [hstop]
        exact ⟨rfl, rfl, rfl, rfl, rfl, Nat.add_le_add_left hn _⟩
      obtain ⟨hrest, harest⟩ := ih htabling (by simpa using hroom)
        (by have := haround.taken; omega)
      rw [run_element]
      exact ⟨by simpa using hrest, haround.trans harest⟩

omit [UrlLibrary] in
/-- The end of a row files it. -/
theorem commitRow_eq {cells : List TableCell} {header : Bool}
    (h : b.table = some ⟨rows, some cells, header⟩)
    (hroom : (rows ++ (if cells = [] then [] else [cells])).length ≤
      b.ctx.limits.maxTableRows) :
    b.commitRow =
      { b with
        table := some ⟨rows ++ (if cells = [] then [] else [cells]), none, header⟩ } := by
  unfold commitRow
  simp only [h, TableBuild.commitRow]
  by_cases hempty : cells = []
  · simp [hempty]
  · have hcap : rows.length < b.ctx.limits.maxTableRows := by
      simp only [hempty, if_false, List.length_append, List.length_singleton] at hroom
      omega
    simp [hempty, hcap]

/-- An element of a table whose contents come out as they should. -/
theorem run_tableElement {start stop : Tag} {block : BlockTag} {inner : List Token}
    {rows' : List (List TableCell)} {row' : Option (List TableCell)}
    (h : b.Tabling ctx (room + 1) rows row)
    (hclass : classify (lowercase start.name) = .block block)
    (hchild : childless start = false) (hname : lowercase stop.name = lowercase start.name)
    (hstart : (b.startBlock block start).Tabling ctx (room + 1) rows' row' ∧
      Around b (b.startBlock block start) 0)
    {rows'' : List (List TableCell)} {row'' : Option (List TableCell)}
    (hinner : ∀ i : Builder, i.Tabling ctx room rows' row' → i.textBytes = b.textBytes →
      (i.run inner).Tabling ctx room rows'' row'' ∧ Around i (i.run inner) (textSize inner)) :
    ∃ e : Builder, e.Tabling ctx (room + 1) rows'' row'' ∧ Around b e (textSize inner) ∧
      b.run (.startTag start :: (inner ++ [.endTag stop])) = e.closeBlock block := by
  obtain ⟨htabling, haround⟩ := hstart
  have hframe := b.frame_startBlock block start
  have hinside : ((b.startBlock block start).openElement
      ⟨lowercase start.name, .block block, none, none⟩).Tabling ctx room rows' row' :=
    { htabling with toOpen := htabling.toOpen.inside rfl rfl rfl rfl }
  obtain ⟨hread, hkept⟩ := hinner _ hinside hframe.textBytes
  refine ⟨{ ((b.startBlock block start).openElement
    ⟨lowercase start.name, .block block, none, none⟩).run inner with opened := b.opened },
    { hread with room := h.room }, ?_, ?_⟩
  · exact
      { stack := rfl
        blocks := hkept.blocks.trans haround.blocks
        quoteDepth := hkept.quoteDepth.trans haround.quoteDepth
        lists := hkept.lists.trans haround.lists
        tableDepth := hkept.tableDepth.trans haround.tableDepth
        taken := Nat.le_trans hkept.taken
          (Nat.add_le_add_right (Nat.le_of_eq hframe.textBytes) _) }
  · rw [run, List.foldl_cons, processToken_startBlock h.toOpen hclass hchild, ← run, run_append,
      run_singleton]
    exact processToken_closeBlock hread.toOpen
      (hkept.stack.trans (congrArg _ hframe.opened)) hname

omit [UrlLibrary] in
theorem Tabling.flush (h : b.Tabling ctx room rows row) :
    b.flush.Tabling ctx room rows row ∧ Around b b.flush 0 := by
  rw [h.flush_eq]
  exact ⟨{ h with }, ⟨rfl, rfl, rfl, rfl, rfl, Nat.le_refl _⟩⟩

omit [UrlLibrary] in
theorem Tabling.startRow (h : b.Tabling ctx room rows none) (start : Tag) :
    (b.startBlock .tableRow start).Tabling ctx room rows (some []) ∧
      Around b (b.startBlock .tableRow start) 0 := by
  obtain ⟨header, htable⟩ := h.table
  have hstart : b.startBlock .tableRow start =
      { b with pending := b.defaultPending, table := some ⟨rows, some [], header⟩ } := by
    rw [startBlock, h.flush_eq]
    simp only [commitRow, htable, TableBuild.commitRow]
    rfl
  rw [hstart]
  exact ⟨{ h with table := ⟨header, rfl⟩ }, ⟨rfl, rfl, rfl, rfl, rfl, Nat.le_refl _⟩⟩

omit [UrlLibrary] in
theorem Tabling.closeRow {cells : List TableCell} (h : b.Tabling ctx room rows (some cells))
    (hroom : (rows ++ (if cells = [] then [] else [cells])).length ≤
      ctx.limits.maxTableRows) :
    (b.closeBlock .tableRow).Tabling ctx room (rows ++ (if cells = [] then [] else [cells])) none ∧
      Around b (b.closeBlock .tableRow) 0 := by
  obtain ⟨header, htable⟩ := h.table
  have hclose : b.closeBlock .tableRow =
      { b with
        pending := b.defaultPending
        table := some ⟨rows ++ (if cells = [] then [] else [cells]), none, header⟩ } := by
    rw [closeBlock, h.flush_eq]
    exact commitRow_eq htable (by rwa [h.ctx])
  rw [hclose]
  exact ⟨{ h with table := ⟨header, rfl⟩ }, ⟨rfl, rfl, rfl, rfl, rfl, Nat.le_refl _⟩⟩

/-- The rows of a table. -/
theorem run_rows {tokens : List Token} {more : List (List TableCell)}
    (hrows : Rows ctx room tokens more) (h : b.Tabling ctx room rows none)
    (hroom : (rows ++ more).length ≤ ctx.limits.maxTableRows)
    (hfits : b.textBytes + textSize tokens < ctx.limits.maxTextBytes) :
    (b.run tokens).Tabling ctx room (rows ++ more) none ∧
      Around b (b.run tokens) (textSize tokens) := by
  induction hrows generalizing b rows with
  | nil =>
      rw [List.append_nil]
      exact ⟨h, ⟨rfl, rfl, rfl, rfl, rfl, Nat.le_refl _⟩⟩
  | blank text htext _ ih =>
      rw [textSize] at hfits ⊢
      obtain ⟨htabling, haround⟩ := tabling_characters h htext (by omega)
      obtain ⟨hrest, harest⟩ := ih htabling hroom (by have := haround.taken; omega)
      exact ⟨hrest, haround.trans harest⟩
  | ignored _ ih =>
      rw [run, List.foldl_cons, processToken_ignored h.toOpen]
      exact ih h hroom hfits
  | @row room start inner cells stop rest more hclass hchild hname hcells hinner _ ih =>
      rw [← List.append_assoc] at hroom ⊢
      rw [textSize_element] at hfits ⊢
      obtain ⟨e, hread, haround, hrun⟩ := run_tableElement h hclass hchild hname (h.startRow start)
        fun i hi hbytes => run_cells hinner hi hcells (by rw [hbytes]; omega)
      obtain ⟨hclosed, hafter⟩ := hread.closeRow
        (Nat.le_trans (List.prefix_append _ _).length_le hroom)
      rw [← hrun] at hclosed hafter
      have hkept := haround.trans hafter
      obtain ⟨hrest, harest⟩ := ih hclosed hroom (by have := hkept.taken; omega)
      rw [run_element]
      exact ⟨hrest, hkept.trans harest⟩
  | @group room start inner filed stop rest more hclass hchild hname _ _ ihinner ihrest =>
      rw [← List.append_assoc] at hroom ⊢
      rw [textSize_element] at hfits ⊢
      obtain ⟨e, hread, haround, hrun⟩ := run_tableElement h hclass hchild hname h.flush
        fun i hi hbytes => ihinner hi
          (Nat.le_trans (List.prefix_append _ _).length_le hroom) (by rw [hbytes]; omega)
      obtain ⟨hclosed, hafter⟩ := hread.flush
      have hclose : e.closeBlock .paragraph = e.flush := rfl
      rw [← hclose, ← hrun] at hclosed hafter
      have hkept := haround.trans hafter
      obtain ⟨hrest, harest⟩ := ihrest hclosed hroom (by have := hkept.taken; omega)
      rw [run_element]
      exact ⟨hrest, hkept.trans harest⟩

end Tables

end Builder

end Vuo.Content
