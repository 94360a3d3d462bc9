import Vuo.Verification.Content.Chunks
import Vuo.Verification.Content.Grammar
import Vuo.Verification.Content.Nesting

/-!
# Inline markup comes out as its glyphs

Text is read character by character, and an inline element leaves behind what
is inside it, whatever the stack is.
-/

namespace Vuo.Content

/-! ## Text -/

/-- The size of the text of an article. -/
def textSize : List Token → ℕ
  | [] => 0
  | .characters text :: tokens => byteLength text + textSize tokens
  | _ :: tokens => textSize tokens

@[simp]
theorem textSize_startTag (tag : Tag) (tokens : List Token) :
    textSize (.startTag tag :: tokens) = textSize tokens :=
  rfl

@[simp]
theorem textSize_endTag (tag : Tag) (tokens : List Token) :
    textSize (.endTag tag :: tokens) = textSize tokens :=
  rfl

theorem textSize_append (tokens more : List Token) :
    textSize (tokens ++ more) = textSize tokens + textSize more := by
  induction tokens with
  | nil => simp [textSize]
  | cons token tokens ih =>
      cases token with
      | characters text => rw [List.cons_append, textSize, textSize, ih, Nat.add_assoc]
      | _ => simpa only [List.cons_append, textSize] using ih

theorem textSize_element (start stop : Tag) (inner rest : List Token) :
    textSize (.startTag start :: (inner ++ .endTag stop :: rest)) =
      textSize inner + textSize rest := by
  rw [textSize_startTag, textSize_append, textSize_endTag]

namespace Builder

variable {b : Builder}

theorem appendSpan_singleton (b : Builder) (c : Char) :
    b.appendSpan [c] = joinChar b.spans c (b.style, b.link) :=
  rfl

theorem trailingSpace_eq (b : Builder) : b.trailingSpace = endsInSpace b.spans :=
  rfl

theorem extend_singleton (b : Builder) (c : Char) :
    b.extend [c] =
      { b with
        spans := joinChar b.spans c (b.style, b.link)
        textBytes := b.textBytes + byteLength [c] } :=
  rfl

/-- Text is taken as its characters are, one by one. -/
theorem spans_extend_collapse (b : Builder) (text : List Char) :
    (b.extend (collapseFrom b.trailingSpace text)).spans =
      (text.map (Glyph.char · (b.style, b.link))).foldl setGlyph b.spans := by
  have hspace : isWhitespace ' ' = true := by decide
  induction text generalizing b with
  | nil => rfl
  | cons c text ih =>
      rw [List.map_cons, List.foldl_cons, collapseFrom, setGlyph, ← trailingSpace_eq]
      -- One character is taken and the rest follows, by the induction hypothesis.
      have hstep (d : Char) (hd : (b.extend [d]).trailingSpace = isWhitespace c) :
          (b.extend (d :: collapseFrom (isWhitespace c) text)).spans =
            (text.map (Glyph.char · (b.style, b.link))).foldl setGlyph
              (joinChar b.spans d (b.style, b.link)) := by
        have hrest := ih (b.extend [d])
        rw [hd, extend_extend] at hrest
        exact hrest
      cases hblank : isWhitespace c with
      | true =>
          rw [hblank] at hstep
          cases hends : b.trailingSpace with
          | true =>
              have hrest := ih b
              rw [hends] at hrest
              simpa using hrest
          | false => simpa using hstep ' ' (by simp [trailingSpace_extend])
      | false =>
          have hc : c ≠ ' ' := by
            rintro rfl
            rw [hspace] at hblank
            cases hblank
          rw [hblank] at hstep
          simpa using hstep c (by simp [trailingSpace_extend, hc])

/-- The builder with more glyphs, which take some of the budget. -/
def lay (b : Builder) (glyphs : List Glyph) (bytes : ℕ) : Builder :=
  { b with
    spans := if b.preDepth = 0 then glyphs.foldl setGlyph b.spans else b.spans
    preText := if b.preDepth = 0 then b.preText else b.preText ++ glyphs.map Glyph.plain
    textBytes := b.textBytes + bytes }

theorem lay_of_flow (hpre : b.preDepth = 0) (glyphs : List Glyph) (bytes : ℕ) :
    b.lay glyphs bytes =
      { b with spans := glyphs.foldl setGlyph b.spans, textBytes := b.textBytes + bytes } := by
  rw [lay, if_pos hpre, if_pos hpre]

theorem lay_of_pre (hpre : b.preDepth ≠ 0) (glyphs : List Glyph) (bytes : ℕ) :
    b.lay glyphs bytes =
      { b with
        preText := b.preText ++ glyphs.map Glyph.plain
        textBytes := b.textBytes + bytes } := by
  rw [lay, if_neg hpre, if_neg hpre]

theorem lay_nil (b : Builder) : b.lay [] 0 = b := by
  cases b
  simp [lay]

theorem lay_lay (b : Builder) (glyphs more : List Glyph) (m n : ℕ) :
    (b.lay glyphs m).lay more n = b.lay (glyphs ++ more) (m + n) := by
  by_cases hpre : b.preDepth = 0 <;> simp [lay, hpre, Nat.add_assoc]

/-! ## Inline markup -/

/-- The builder can go on reading, with `room` for elements inside each other. -/
structure Open (b : Builder) (ctx : TransformContext) (room : ℕ) : Prop where
  truncated : b.truncated = none
  skipFrom : b.skipFrom = none
  room : b.opened.length + room ≤ ctx.limits.maxDepth
  ctx : b.ctx = ctx

namespace Open

variable {ctx : TransformContext} {room : ℕ}

theorem live (h : b.Open ctx room) : b.stopped = false := by
  simp [stopped, h.truncated]

theorem lay (h : b.Open ctx room) (glyphs : List Glyph) (bytes : ℕ) :
    (b.lay glyphs bytes).Open ctx room :=
  ⟨h.truncated, h.skipFrom, h.room, h.ctx⟩

theorem inside {b' : Builder} {element : OpenElement} (h : b.Open ctx (room + 1))
    (hctx : b'.ctx = b.ctx) (htruncated : b'.truncated = b.truncated)
    (hskip : b'.skipFrom = b.skipFrom) (hopened : b'.opened = element :: b.opened) :
    b'.Open ctx room where
  ctx := hctx.trans h.ctx
  truncated := htruncated.trans h.truncated
  skipFrom := hskip.trans h.skipFrom
  room := by
    have hroom := h.room
    rw [hopened, List.length_cons]
    omega

end Open

section Phrases

variable [UrlLibrary] {ctx : TransformContext} {room : ℕ}

/-- What a start tag does below the depth cap, outside skipped elements. -/
theorem processToken_startTag (h : b.Open ctx (room + 1)) {tag : Tag}
    (hskip : classify (lowercase tag.name) ≠ .skip) :
    b.processToken (.startTag tag) = b.startElement tag := by
  have hroom : ¬b.ctx.limits.maxDepth ≤ b.opened.length := by
    have hroom := h.room
    rw [h.ctx]
    omega
  rw [processToken_of_live h.live]
  simp only [handle, startTag, h.skipFrom, Option.isSome_none, Bool.false_eq_true, if_false,
    hskip, hroom]

theorem processToken_endTag (h : b.stopped = false) {element : OpenElement}
    {rest : List OpenElement} {stop : Tag} (hopened : b.opened = element :: rest)
    (hskip : b.skipFrom = none) (hname : lowercase stop.name = element.name) :
    b.processToken (.endTag stop) = closeElement { b with opened := rest } element := by
  have hclosed := (frame_closeElement { b with opened := rest } element).2.trans hskip
  rw [processToken_of_live h, handle, endTag_of_innermost hopened hname.symm]
  simp only [leaveSkip, hclosed]

omit [UrlLibrary] in
/-- Text that fits. -/
theorem pushText_eq_lay (hskip : b.skipFrom = none) (text : List Char)
    (hfits : b.textBytes + byteLength text < b.ctx.limits.maxTextBytes) :
    ∃ n ≤ byteLength text,
      b.pushText text = b.lay (text.map (Glyph.char · (b.style, b.link))) n := by
  have hbudget : byteLength text ≤ b.budget := by
    unfold budget
    omega
  by_cases hpre : b.preDepth = 0
  · refine ⟨byteLength (collapseFrom b.trailingSpace text), byteLength_collapseFrom_le _ _, ?_⟩
    rw [pushText_of_fits hskip hpre hbudget, lay_of_flow hpre, ← spans_extend_collapse,
      ← textBytes_extend]
    unfold extend
    split_ifs <;> rfl
  · have hplain : (text.map (Glyph.char · (b.style, b.link))).map Glyph.plain = text := by
      rw [List.map_map]
      exact List.map_id' text
    have hnext : b.budget ≠ 0 := by
      unfold budget
      omega
    refine ⟨byteLength text, Nat.le_refl _, ?_⟩
    rw [lay_of_pre hpre, hplain, pushText, clampToCharBoundary_of_fits hbudget,
      if_neg (by simp [hskip]), if_pos (Nat.pos_of_ne_zero hpre), if_neg hnext]

omit [UrlLibrary] in
theorem closeElement_of_inline (hskip : b.skipFrom = none) {element : OpenElement}
    (hblock : ∀ block, element.disposition ≠ .block block) :
    b.closeElement element = b.restore element := by
  rw [closeElement, if_neg (by simp [hskip])]
  split
  · next block hdisposition => exact absurd hdisposition (hblock block)
  · rfl

theorem applyInline_eq (hctx : b.ctx = ctx) {tag : Tag} {inline : InlineTag}
    (hclass : classify (lowercase tag.name) = .inline inline) :
    b.applyInline inline tag =
      { b with
        style := (inlineEffect ctx tag (b.style, b.link)).1
        link := (inlineEffect ctx tag (b.style, b.link)).2 } := by
  subst hctx
  unfold inlineEffect
  rw [hclass]
  cases inline <;> rfl

/-- What the start tag of an inline element does. -/
theorem exists_processToken_inline (h : b.Open ctx (room + 1)) {tag : Tag} (hinline : Inline tag)
    (hchild : childless tag = false) :
    ∃ element : OpenElement, element.name = lowercase tag.name ∧
      (∀ block, element.disposition ≠ .block block) ∧
      b.processToken (.startTag tag) =
        { b with
          style := (inlineEffect ctx tag (b.style, b.link)).1
          link := (inlineEffect ctx tag (b.style, b.link)).2
          opened := element :: b.opened } ∧
      element.savedStyle.getD (inlineEffect ctx tag (b.style, b.link)).1 = b.style ∧
      element.savedLink.getD (inlineEffect ctx tag (b.style, b.link)).2 = b.link := by
  rcases hinline with ⟨inline, hclass⟩ | hclass
  · refine ⟨⟨lowercase tag.name, .inline inline, some b.style,
      if inline = .anchor then some b.link else none⟩, rfl, by simp, ?_, rfl, ?_⟩
    · rw [processToken_startTag h (by simp [hclass])]
      simp only [startElement, hclass, hchild, Bool.false_eq_true, if_false,
        applyInline_eq h.ctx hclass, openElement]
    · unfold inlineEffect
      rw [hclass]
      cases inline <;> rfl
  · have heffect : inlineEffect ctx tag (b.style, b.link) = (b.style, b.link) := by
      unfold inlineEffect
      rw [hclass]
    refine ⟨⟨lowercase tag.name, .flatten, none, none⟩, rfl, by simp, ?_, by rw [heffect]; rfl,
      by rw [heffect]; rfl⟩
    rw [processToken_startTag h (by simp [hclass]), heffect]
    simp only [startElement, hclass, hchild, Bool.false_eq_true, if_false, openElement]

/-- Inside an inline element its style and link apply, and its end tag leaves
the glyphs inside it behind. -/
theorem exists_inside (h : b.Open ctx (room + 1)) {tag stop : Tag} (hinline : Inline tag)
    (hchild : childless tag = false) (hname : lowercase stop.name = lowercase tag.name) :
    ∃ inside : Builder, b.processToken (.startTag tag) = inside ∧ inside.Open ctx room ∧
      inside.textBytes = b.textBytes ∧
      (inside.style, inside.link) = inlineEffect ctx tag (b.style, b.link) ∧
      ∀ glyphs n, (inside.lay glyphs n).processToken (.endTag stop) = b.lay glyphs n := by
  obtain ⟨element, helement, hblock, hstart, hstyle, hlink⟩ :=
    exists_processToken_inline h hinline hchild
  refine ⟨_, hstart, h.inside rfl rfl rfl rfl, rfl, rfl, fun glyphs n => ?_⟩
  refine Eq.trans (processToken_endTag ?_ rfl h.skipFrom (hname.trans helement.symm)) ?_
  · simp [stopped, lay, h.truncated]
  · refine Eq.trans (closeElement_of_inline ?_ hblock) ?_
    · exact h.skipFrom
    · simp only [restore, lay, hstyle, hlink]

/-- A void element or an inline element that closes at once adds no glyph but a
line break. -/
theorem processToken_lineBreak (h : b.Open ctx (room + 1)) {tag : Tag}
    (hclass : classify (lowercase tag.name) = .void .lineBreak) :
    b.processToken (.startTag tag) = b.lay [.lineBreak (b.style, b.link)] 0 := by
  rw [processToken_startTag h (by simp [hclass])]
  simp only [startElement, hclass, voidElement]
  by_cases hpre : b.preDepth = 0
  · rw [lay_of_flow hpre, if_neg (by simp [hpre])]
    simp only [List.foldl_cons, List.foldl_nil, setGlyph]
    split_ifs <;> rfl
  · rw [lay_of_pre hpre, if_pos (Nat.pos_of_ne_zero hpre)]
    rfl

theorem processToken_empty (h : b.Open ctx (room + 1)) {tag : Tag} (hinline : Inline tag)
    (hchild : childless tag = true) : b.processToken (.startTag tag) = b := by
  rcases hinline with ⟨inline, hclass⟩ | hclass <;>
    rw [processToken_startTag h (by simp [hclass])] <;>
    simp only [startElement, hclass, hchild, if_true]

theorem image_eq_elim (hctx : b.ctx = ctx) (tag : Tag) :
    b.image tag = (picture ctx tag b.link).elim b b.flush.pushBlock := by
  have hresolve : (Builder.new ctx).resolve = b.resolve := by
    rw [← hctx]
    rfl
  have hlink : b.flush.link = b.link := b.emits_flush.link
  unfold image picture
  rw [hresolve, hctx, hlink]
  cases (nonEmptyAttr tag "src").bind b.resolve with
  | none => rfl
  | some src =>
      simp only [Option.bind_some]
      cases ctx.media.decideWithConsent src [] <;> rfl

theorem processToken_image (h : b.Open ctx (room + 1)) {tag : Tag}
    (hclass : classify (lowercase tag.name) = .void .image) :
    b.processToken (.startTag tag) = (picture ctx tag b.link).elim b b.flush.pushBlock := by
  rw [processToken_startTag h (by simp [hclass])]
  simp only [startElement, hclass, voidElement]
  exact image_eq_elim h.ctx tag

/-- Inline markup comes out as its glyphs, inside a code block and outside. -/
theorem run_phrase {now : SpanStyle × Option MediaUrl} {tokens : List Token} {glyphs : List Glyph}
    (h : Phrase ctx room now tokens glyphs) (hopen : b.Open ctx room)
    (hnow : (b.style, b.link) = now)
    (hfits : b.textBytes + textSize tokens < ctx.limits.maxTextBytes) :
    ∃ n ≤ textSize tokens, b.run tokens = b.lay glyphs n := by
  induction h generalizing b with
  | nil => exact ⟨0, Nat.le_refl 0, b.lay_nil.symm⟩
  | text text _ ih =>
      subst hnow
      rw [textSize] at hfits ⊢
      obtain ⟨m, hm, htext⟩ := pushText_eq_lay hopen.skipFrom text
        (by rw [hopen.ctx]; omega)
      obtain ⟨n, hn, hrest⟩ := ih (hopen.lay _ m) rfl (by simp only [lay]; omega)
      refine ⟨m + n, Nat.add_le_add hm hn, ?_⟩
      rw [← lay_lay, ← hrest, ← htext, ← handle, ← processToken_of_live hopen.live]
      rfl
  | ignored _ ih =>
      obtain ⟨n, hn, hrest⟩ := ih hopen hnow hfits
      refine ⟨n, hn, ?_⟩
      rw [← hrest, run, List.foldl_cons, processToken_of_live hopen.live]
      rfl
  | lineBreak hclass _ ih =>
      subst hnow
      obtain ⟨n, hn, hrest⟩ := ih (hopen.lay [.lineBreak (b.style, b.link)] 0) rfl hfits
      refine ⟨n, hn, ?_⟩
      rw [run, List.foldl_cons, processToken_lineBreak hopen hclass]
      refine hrest.trans ?_
      rw [lay_lay, Nat.zero_add]
      rfl
  | hiddenPicture hclass hnone _ ih =>
      subst hnow
      obtain ⟨n, hn, hrest⟩ := ih hopen rfl hfits
      refine ⟨n, hn, ?_⟩
      rw [run, List.foldl_cons, processToken_image hopen hclass, hnone]
      exact hrest
  | empty hinline hchild _ ih =>
      obtain ⟨n, hn, hrest⟩ := ih hopen hnow hfits
      refine ⟨n, hn, ?_⟩
      rw [run, List.foldl_cons, processToken_empty hopen hinline hchild]
      exact hrest
  | element hinline hchild hname _ _ ihinner ihrest =>
      subst hnow
      rw [textSize_element] at hfits ⊢
      obtain ⟨inside, hstart, hinside, hbytes, hnow, hstop⟩ :=
        exists_inside hopen hinline hchild hname
      obtain ⟨m, hm, hinner⟩ := ihinner hinside hnow (by omega)
      obtain ⟨n, hn, hrest⟩ := ihrest (hopen.lay _ m) rfl (by simp only [lay]; omega)
      refine ⟨m + n, Nat.add_le_add hm hn, ?_⟩
      rw [run, List.foldl_cons, hstart, ← run, run_append, hinner, run, List.foldl_cons, hstop,
        ← run, hrest, lay_lay]

/-! ## Tags of block elements -/

/-- An element and what follows it. -/
theorem run_element (start stop : Tag) (inner rest : List Token) :
    b.run (.startTag start :: (inner ++ .endTag stop :: rest)) =
      (b.run (.startTag start :: (inner ++ [.endTag stop]))).run rest := by
  rw [← run_append]
  simp

theorem run_singleton (token : Token) : b.run [token] = b.processToken token :=
  rfl

/-- The start tag of a block element. -/
theorem processToken_startBlock (h : b.Open ctx (room + 1)) {start : Tag} {block : BlockTag}
    (hclass : classify (lowercase start.name) = .block block) (hchild : childless start = false) :
    b.processToken (.startTag start) = (b.startBlock block start).openElement
      ⟨lowercase start.name, .block block, none, none⟩ := by
  rw [processToken_startTag h (by simp [hclass])]
  simp only [startElement, hclass, hchild, Bool.false_eq_true, if_false]

/-- Its end tag. -/
theorem processToken_closeBlock (h : b.Open ctx room) {name : String} {block : BlockTag}
    {rest : List OpenElement} {stop : Tag}
    (hopened : b.opened = ⟨name, .block block, none, none⟩ :: rest)
    (hname : lowercase stop.name = name) :
    b.processToken (.endTag stop) = closeBlock { b with opened := rest } block := by
  rw [processToken_endTag h.live hopened h.skipFrom hname, closeElement,
    if_neg (by simp [h.skipFrom])]
  rfl

end Phrases

end Builder

end Vuo.Content
