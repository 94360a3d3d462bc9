import Vuo.Verification.Content.Inline

/-!
# Quotes and lists

The builder counts the open quotes and keeps the open lists, both up to a cap.
The markup itself says how many there are: its open elements, with the items
read in each list.
-/

namespace Vuo.Content

/-- What the counters of the caps can hold. -/
structure Limits.FitBytes (limits : Limits) : Prop where
  quoteDepth : limits.maxQuoteDepth ≤ 255
  listIndent : limits.maxListIndent ≤ 255

/-! ## The markup -/

/-- An open element of the markup, with the items read so far if it is a list. -/
structure Level where
  tag : Tag
  items : ℕ

namespace Level

def name (level : Level) : String :=
  lowercase level.tag.name

def kind (level : Level) : Disposition :=
  classify level.name

/-- Whether the element is a list, and an ordered one. -/
def list (level : Level) : Option Bool :=
  match level.kind with
  | .block (.list ordered) => some ordered
  | _ => none

def isQuote (level : Level) : Bool :=
  level.kind = .block .quote

def isSkipped (level : Level) : Bool :=
  level.kind = .skip

end Level

/-- One more item in the innermost list. -/
def countItem : List Level → List Level
  | [] => []
  | level :: outer =>
      if level.list.isSome then { level with items := level.items + 1 } :: outer
      else level :: countItem outer

/-- Inside a skipped element. -/
def hidden (levels : List Level) : Bool :=
  levels.any Level.isSkipped

/-- The levels with a start tag counted if it begins an item. -/
def counted (levels : List Level) (tag : Tag) : List Level :=
  if classify (lowercase tag.name) = .block .listItem ∧ hidden levels = false then
    countItem levels
  else levels

/-- The open elements, innermost first, after one more token. -/
def readToken (levels : List Level) : Token → List Level
  | .startTag tag =>
      if childless tag then counted levels tag else ⟨tag, 0⟩ :: counted levels tag
  | .endTag _ => levels.tail
  | _ => levels

def readTokens (levels : List Level) (tokens : List Token) : List Level :=
  tokens.foldl readToken levels

/-- Outside skipped elements. -/
def visible : List Level → List Level
  | [] => []
  | level :: outer => if hidden (level :: outer) then visible outer else level :: outer

/-- A start tag is inside less than `maxDepth` elements, and an end tag closes
the innermost one. -/
def FitsToken (maxDepth : ℕ) (levels : List Level) : Token → Prop
  | .startTag _ => levels.length < maxDepth
  | .endTag stop => levels.head?.map Level.name = some (lowercase stop.name)
  | _ => True

def FitsDepth (maxDepth : ℕ) : List Level → List Token → Prop
  | _, [] => True
  | levels, token :: tokens =>
      FitsToken maxDepth levels token ∧ FitsDepth maxDepth (readToken levels token) tokens

instance (maxDepth : ℕ) (levels : List Level) (token : Token) :
    Decidable (FitsToken maxDepth levels token) :=
  match token with
  | .startTag _ => inferInstanceAs (Decidable (_ < _))
  | .endTag _ => inferInstanceAs (Decidable (_ = _))
  | .characters _ => isTrue trivial
  | .ignored => isTrue trivial

instance decidableFitsDepth (maxDepth : ℕ) :
    (levels : List Level) → (tokens : List Token) → Decidable (FitsDepth maxDepth levels tokens)
  | _, [] => isTrue trivial
  | levels, token :: tokens =>
      have := decidableFitsDepth maxDepth (readToken levels token) tokens
      inferInstanceAs (Decidable (_ ∧ _))

/-- One element: a start tag that has no children, or all from a start tag to
its end tag. -/
inductive Element : Tag → List Token → Prop
  | childless {start : Tag} (hstart : childless start = true) : Element start [.startTag start]
  | pair {start stop : Tag} {inner : List Token} (hstart : childless start = false)
      (hname : lowercase stop.name = lowercase start.name) (hinner : WellNested inner) :
      Element start (.startTag start :: inner ++ [.endTag stop])

/-! ## Facts about levels -/

theorem hidden_cons (level : Level) (outer : List Level) :
    hidden (level :: outer) = (level.isSkipped || hidden outer) :=
  rfl

theorem visible_of_shown {levels : List Level} (h : hidden levels = false) :
    visible levels = levels := by
  cases levels with
  | nil => rfl
  | cons level outer => rw [visible, if_neg (by simp [h])]

theorem visible_of_hidden {level : Level} {outer : List Level}
    (h : hidden (level :: outer) = true) : visible (level :: outer) = visible outer := by
  rw [visible, if_pos h]

theorem hidden_countItem (levels : List Level) : hidden (countItem levels) = hidden levels := by
  induction levels with
  | nil => rfl
  | cons level outer ih =>
      rw [countItem]
      split_ifs
      · rfl
      · rw [hidden_cons, hidden_cons, ih]

theorem names_countItem (levels : List Level) :
    (countItem levels).map Level.tag = levels.map Level.tag := by
  induction levels with
  | nil => rfl
  | cons level outer ih =>
      rw [countItem]
      split_ifs
      · rfl
      · rw [List.map_cons, List.map_cons, ih]

theorem hidden_counted (levels : List Level) (tag : Tag) :
    hidden (counted levels tag) = hidden levels := by
  unfold counted
  split_ifs
  · exact hidden_countItem levels
  · rfl

theorem tags_counted (levels : List Level) (tag : Tag) :
    (counted levels tag).map Level.tag = levels.map Level.tag := by
  unfold counted
  split_ifs
  · exact names_countItem levels
  · rfl

theorem counted_of_hidden {levels : List Level} (h : hidden levels = true) (tag : Tag) :
    counted levels tag = levels := by
  simp [counted, h]

theorem hidden_of_tags {levels levels' : List Level}
    (h : levels'.map Level.tag = levels.map Level.tag) : hidden levels' = hidden levels := by
  have htags (levels : List Level) : hidden levels =
      (levels.map Level.tag).any fun tag => classify (lowercase tag.name) = .skip := by
    rw [List.any_map]
    rfl
  rw [htags, htags, h]

theorem readTokens_append (levels : List Level) (tokens more : List Token) :
    readTokens levels (tokens ++ more) = readTokens (readTokens levels tokens) more :=
  List.foldl_append

theorem tags_readToken (levels : List Level) (token : Token) :
    (readToken levels token).map Level.tag =
      match token with
      | .startTag tag =>
          if childless tag then levels.map Level.tag else tag :: levels.map Level.tag
      | .endTag _ => (levels.map Level.tag).tail
      | _ => levels.map Level.tag := by
  cases token with
  | startTag tag =>
      simp only [readToken]
      split_ifs <;> simp [tags_counted]
  | endTag stop => simp [readToken, List.map_tail]
  | _ => rfl

/-- Well nested tokens leave the open elements as they are. -/
theorem tags_readTokens {tokens : List Token} (h : WellNested tokens) (levels : List Level) :
    (readTokens levels tokens).map Level.tag = levels.map Level.tag := by
  induction h generalizing levels with
  | nil => rfl
  | @leaf token rest hleaf _ ih =>
      have hsame : (readToken levels token).map Level.tag = levels.map Level.tag := by
        rw [tags_readToken]
        cases token with
        | startTag tag => exact if_pos hleaf
        | endTag stop => exact hleaf.elim
        | _ => rfl
      exact (ih _).trans hsame
  | @element start stop inner rest hstart hname _ _ ihinner ihrest =>
      have hopen := tags_readToken levels (.startTag start)
      have hinner := ihinner (readToken levels (.startTag start))
      have hclose := tags_readToken
        (readTokens (readToken levels (.startTag start)) inner) (.endTag stop)
      simp only [hstart] at hopen
      rw [hinner, hopen] at hclose
      rw [List.cons_append, readTokens, List.foldl_cons, List.foldl_append, List.foldl_cons]
      exact (ihrest _).trans hclose

theorem right_of_ite {α : Type*} {c : Prop} [Decidable c] {x y z : α}
    (h : (if c then x else y) = z) (hne : x ≠ z) : y = z := by
  by_cases hc : c
  · exact absurd ((if_pos hc).symm.trans h) hne
  · rwa [if_neg hc] at h

/-- The elements of the allowlist that are void have no end tag. -/
theorem childless_of_void {tag : Tag} {void : VoidTag}
    (hclass : classify (lowercase tag.name) = .void void) : childless tag = true := by
  rw [childless]
  generalize lowercase tag.name = name at hclass ⊢
  unfold classify at hclass
  iterate 25 replace hclass := right_of_ite hclass (by simp)
  by_cases hbr : name = "br"
  · rw [hbr]
    rfl
  replace hclass := (if_neg hbr).symm.trans hclass
  by_cases hhr : name = "hr"
  · rw [hhr]
    rfl
  replace hclass := (if_neg hhr).symm.trans hclass
  by_cases himg : name = "img"
  · rw [himg]
    rfl
  cases (if_neg himg).symm.trans hclass

/-! ## The counters -/

/-- The quote depth and the lists of a builder. -/
structure Nest where
  quoteDepth : ℕ
  lists : List ListState

namespace Nest

/-- An element opens. -/
def enter (limits : Limits) (nest : Nest) : Disposition → Nest
  | .block .quote =>
      { nest with quoteDepth := min (saturatingAdd8 nest.quoteDepth 1) limits.maxQuoteDepth }
  | .block (.list ordered) =>
      if nest.lists.length < limits.maxListIndent then
        { nest with lists := nest.lists ++ [⟨ordered, 0⟩] }
      else nest
  | .block .listItem =>
      match nest.lists.getLast? with
      | some list =>
          { nest with
            lists := nest.lists.dropLast ++
              [{ list with counter := saturatingAdd32 list.counter 1 }] }
      | none => nest
  | _ => nest

/-- An element closes. -/
def leave (nest : Nest) : Disposition → Nest
  | .block .quote => { nest with quoteDepth := nest.quoteDepth - 1 }
  | .block (.list _) => { nest with lists := nest.lists.dropLast }
  | _ => nest

end Nest

namespace Builder

def nest (b : Builder) : Nest :=
  ⟨b.quoteDepth, b.lists⟩

variable {b b' : Builder}

theorem nest_of_emits (h : Emits b b') : b'.nest = b.nest := by
  rw [Builder.nest, Builder.nest, h.quoteDepth, h.lists]

theorem nest_startBlock (b : Builder) (block : BlockTag) (tag : Tag) :
    (b.startBlock block tag).nest = b.nest.enter b.ctx.limits (.block block) := by
  have hflush := b.emits_flush
  have hnest := nest_of_emits hflush
  cases block with
  | paragraph => exact hnest
  | heading level => exact hnest
  | list ordered =>
      simp only [startBlock, Nest.enter, Builder.nest, hflush.lists, hflush.ctx]
      by_cases hroom : b.lists.length < b.ctx.limits.maxListIndent
      · simp only [hroom, if_true, hflush.quoteDepth]
      · simp only [hroom, if_false, hflush.quoteDepth, hflush.lists]
  | listItem =>
      simp only [startBlock, Nest.enter, Builder.nest, hflush.lists]
      cases b.lists.getLast? with
      | none => simp only [hflush.quoteDepth]
      | some list => simp only [hflush.quoteDepth]
  | quote => simp only [startBlock, Nest.enter, Builder.nest, hflush.lists, hflush.quoteDepth,
      hflush.ctx]
  | pre =>
      simp only [startBlock]
      split_ifs <;> exact hnest
  | table => exact hnest
  | tableRow => exact (nest_of_emits b.flush.emits_commitRow).trans hnest
  | tableCell header => exact (nest_of_emits (b.flush.emits_startCell header)).trans hnest

theorem nest_closeBlock (b : Builder) (block : BlockTag) :
    (b.closeBlock block).nest = b.nest.leave (.block block) := by
  have hflush := b.emits_flush
  have hnest := nest_of_emits hflush
  cases block with
  | list ordered =>
      simp only [closeBlock, Nest.leave, Builder.nest, hflush.lists, hflush.quoteDepth]
  | quote => simp only [closeBlock, Nest.leave, Builder.nest, hflush.lists, hflush.quoteDepth]
  | pre =>
      simp only [closeBlock, closePre]
      split_ifs
      · rfl
      · have hpush := emits_pushBlock
          { b with preDepth := b.preDepth - 1, preText := [], preLanguage := none }
        exact congrArg₂ Nest.mk (hpush _).quoteDepth (hpush _).lists
      · rfl
  | table =>
      simp only [closeBlock]
      split_ifs
      · exact (nest_of_emits (emits_closeTable _)).trans hnest
      · exact hnest
  | tableRow => exact (nest_of_emits b.flush.emits_commitRow).trans hnest
  | _ => exact hnest

/-! ## The stack -/

/-- What is on the stack for the open elements of the markup. -/
def stackKinds : List Level → List (String × Disposition)
  | [] => []
  | level :: outer =>
      (level.name, if hidden outer then .skip else level.kind) :: stackKinds outer

/-- The depth where the outermost skipped element opened. -/
def skipDepth : List Level → Option ℕ
  | [] => none
  | level :: outer =>
      if hidden outer then skipDepth outer
      else if level.isSkipped then some outer.length
      else none

/-- The stack is that of the markup. -/
structure Stands (b : Builder) (levels : List Level) : Prop where
  opened : b.opened.map (fun element => (element.name, element.disposition)) = stackKinds levels
  skipFrom : b.skipFrom = skipDepth levels

theorem length_stackKinds (levels : List Level) : (stackKinds levels).length = levels.length := by
  induction levels with
  | nil => rfl
  | cons level outer ih => rw [stackKinds, List.length_cons, List.length_cons, ih]

theorem isSome_skipDepth (levels : List Level) : (skipDepth levels).isSome = hidden levels := by
  induction levels with
  | nil => rfl
  | cons level outer ih =>
      rw [skipDepth, hidden_cons]
      cases hhidden : hidden outer with
      | true => rw [if_pos rfl, ih, hhidden, Bool.or_true]
      | false => cases level.isSkipped <;> rfl

theorem skipDepth_lt {levels : List Level} {depth : ℕ} (h : skipDepth levels = some depth) :
    depth < levels.length := by
  induction levels with
  | nil => cases h
  | cons level outer ih =>
      rw [List.length_cons]
      rw [skipDepth] at h
      split_ifs at h
      · exact Nat.lt_succ_of_lt (ih h)
      · cases h
        exact Nat.lt_succ_self _

/-- Skipping ends with the skipped element itself. -/
theorem skipLeft_skipDepth {level : Level} {outer : List Level} {rest : List OpenElement}
    (hlength : rest.length = outer.length) :
    skipLeft rest (skipDepth (level :: outer)) = skipDepth outer := by
  have hsome := isSome_skipDepth outer
  rw [skipDepth, skipLeft, hlength]
  cases hskip : skipDepth outer with
  | some depth =>
      have hlt := skipDepth_lt hskip
      rw [hskip, Option.isSome_some] at hsome
      simp [← hsome, Option.filter, hlt]
  | none =>
      rw [hskip, Option.isSome_none] at hsome
      cases level.isSkipped <;> simp [← hsome, Option.filter]

theorem stackKinds_countItem (levels : List Level) :
    stackKinds (countItem levels) = stackKinds levels := by
  induction levels with
  | nil => rfl
  | cons level outer ih =>
      rw [countItem]
      split_ifs
      · rfl
      · rw [stackKinds, stackKinds, hidden_countItem, ih]

theorem skipDepth_countItem (levels : List Level) :
    skipDepth (countItem levels) = skipDepth levels := by
  have hlength : ∀ outer, (countItem outer).length = outer.length := fun outer => by
    rw [← List.length_map Level.tag, names_countItem, List.length_map]
  induction levels with
  | nil => rfl
  | cons level outer ih =>
      rw [countItem]
      split_ifs
      · rfl
      · rw [skipDepth, skipDepth, hidden_countItem, ih, hlength]

theorem Stands.length {levels : List Level} (h : b.Stands levels) :
    b.opened.length = levels.length := by
  rw [← length_stackKinds, ← h.opened, List.length_map]

theorem Stands.hidden {levels : List Level} (h : b.Stands levels) :
    b.skipFrom.isSome = hidden levels := by
  rw [h.skipFrom, isSome_skipDepth]

theorem Stands.counted {levels : List Level} (h : b.Stands levels) (tag : Tag) :
    b.Stands (counted levels tag) := by
  unfold Vuo.Content.counted
  split_ifs
  · exact ⟨h.opened.trans (stackKinds_countItem levels).symm,
      h.skipFrom.trans (skipDepth_countItem levels).symm⟩
  · exact h

theorem Stands.same {levels : List Level} (h : b.Stands levels) (hopened : b'.opened = b.opened)
    (hskip : b'.skipFrom = b.skipFrom) : b'.Stands levels :=
  ⟨by rw [hopened, h.opened], hskip.trans h.skipFrom⟩

section Tokens

variable [UrlLibrary] {levels : List Level}

/-- A start tag inside a skipped element. -/
theorem stands_startSkipped (h : b.Stands levels) (hhidden : hidden levels = true) {tag : Tag}
    (hdepth : levels.length < b.ctx.limits.maxDepth) :
    (b.startTag tag).Stands (readToken levels (.startTag tag)) ∧
      (b.startTag tag).nest = b.nest := by
  have hskip : b.skipFrom.isSome = true := h.hidden.trans hhidden
  have hroom : b.opened.length < b.ctx.limits.maxDepth := h.length ▸ hdepth
  rw [readToken, counted_of_hidden hhidden, startTag, if_pos hskip, startSkipped]
  cases hchild : childless tag with
  | true => simpa using h
  | false =>
      simp only [hroom, Bool.not_false, decide_true, Bool.and_self, if_true]
      refine ⟨⟨?_, ?_⟩, rfl⟩
      · simp [stackKinds, hhidden, h.opened, Level.name]
      · simp [skipDepth, hhidden, h.skipFrom]

omit [UrlLibrary] in
/-- An element that is not skipped is put on the stack. -/
theorem stands_openElement (h : b.Stands levels) (hhidden : hidden levels = false) {tag : Tag}
    (hopened : b'.opened = b.opened) (hsame : b'.skipFrom = b.skipFrom) {kind : Disposition}
    (hkind : classify (lowercase tag.name) = kind) (hskip : kind ≠ .skip)
    (style : Option SpanStyle) (link : Option (Option MediaUrl)) :
    Stands (if childless tag then b' else
        b'.openElement ⟨lowercase tag.name, kind, style, link⟩)
      (readToken levels (.startTag tag)) := by
  have hstands := (h.counted tag).same hopened hsame
  have hshown := (hidden_counted levels tag).trans hhidden
  have hnone : b'.skipFrom.isSome = false := hstands.hidden.trans hshown
  have hlevel : Level.isSkipped ⟨tag, 0⟩ = false := by
    simp [Level.isSkipped, Level.kind, Level.name, hkind, hskip]
  rw [readToken]
  split_ifs
  · exact hstands
  · refine ⟨?_, ?_⟩
    · simp [openElement, stackKinds, hshown, hstands.opened, Level.name, Level.kind, hkind]
    · rw [skipDepth, hshown, hlevel]
      simpa [openElement] using hnone

theorem nest_voidElement (b : Builder) (void : VoidTag) (tag : Tag) :
    (b.voidElement void tag).nest = b.nest := by
  have hflush := b.emits_flush
  have hpush (kind : BlockKind) : (b.flush.pushBlock kind).nest = b.nest :=
    nest_of_emits (hflush.trans (emits_pushBlock _ kind))
  cases void with
  | lineBreak =>
      simp only [voidElement]
      split_ifs <;> rfl
  | rule => exact hpush .rule
  | image =>
      simp only [voidElement, image]
      split
      · rfl
      · split
        · exact hpush _
        · exact hpush _
        · rfl

/-- A start tag outside skipped elements. -/
theorem stands_startTag (h : b.Stands levels) (hhidden : hidden levels = false) {tag : Tag}
    (hdepth : levels.length < b.ctx.limits.maxDepth) :
    (b.startTag tag).Stands (readToken levels (.startTag tag)) ∧
      (b.startTag tag).nest = b.nest.enter b.ctx.limits (classify (lowercase tag.name)) := by
  have hnone : b.skipFrom.isSome = false := h.hidden.trans hhidden
  have hroom : ¬ b.ctx.limits.maxDepth ≤ b.opened.length := by
    rw [h.length]
    omega
  have hnest (c : Prop) [Decidable c] (b' : Builder) (element : OpenElement) :
      (if c then b' else b'.openElement element).nest = b'.nest := by
    split_ifs <;> rfl
  unfold startTag
  rw [if_neg (by simp [hnone])]
  cases hclass : classify (lowercase tag.name) with
  | skip =>
      have hflush := b.emits_flush
      have hcounted : counted levels tag = levels := by
        simp [counted, hclass]
      rw [if_pos rfl, startSkip, readToken, hcounted]
      split_ifs
      · exact ⟨h.same hflush.opened hflush.skipFrom, nest_of_emits hflush⟩
      · have hlevel : Level.isSkipped ⟨tag, 0⟩ = true := by
          simp [Level.isSkipped, Level.kind, Level.name, hclass]
        refine ⟨⟨?_, ?_⟩, congrArg₂ Nest.mk hflush.quoteDepth hflush.lists⟩
        · simp [stackKinds, hhidden, hflush.opened, h.opened, Level.name, Level.kind, hclass]
        · simp [skipDepth, hhidden, hlevel, hflush.opened, h.length]
  | void void =>
      have hframe := b.frame_voidElement void tag
      have hcounted : counted levels tag = levels := by
        simp [counted, hclass]
      rw [if_neg (by simp), if_neg hroom, readToken, if_pos (childless_of_void hclass), hcounted]
      simp only [startElement, hclass]
      exact ⟨h.same hframe.opened hframe.skipFrom, b.nest_voidElement void tag⟩
  | flatten =>
      rw [if_neg (by simp), if_neg hroom]
      simp only [startElement, hclass, hnest]
      exact ⟨stands_openElement h hhidden rfl rfl hclass (by simp) _ _, rfl⟩
  | block block =>
      have hframe := b.frame_startBlock block tag
      rw [if_neg (by simp), if_neg hroom]
      simp only [startElement, hclass, hnest]
      exact ⟨stands_openElement h hhidden hframe.opened hframe.skipFrom hclass (by simp) _ _,
        b.nest_startBlock block tag⟩
  | inline inline =>
      have hsame : (b.applyInline inline tag).opened = b.opened ∧
          (b.applyInline inline tag).skipFrom = b.skipFrom ∧
          (b.applyInline inline tag).nest = b.nest := by
        cases inline <;> exact ⟨rfl, rfl, rfl⟩
      have hpushed (style : Option SpanStyle) (link : Option (Option MediaUrl)) :=
        stands_openElement h hhidden hsame.1 hsame.2.1 hclass (by simp) style link
      rw [if_neg (by simp), if_neg hroom]
      simp only [startElement, hclass]
      cases hchild : childless tag with
      | true =>
          simp only [hchild, if_true] at hpushed ⊢
          exact ⟨(hpushed none none).same hsame.1.symm hsame.2.1.symm, rfl⟩
      | false =>
          simp only [hchild] at hpushed ⊢
          exact ⟨hpushed _ _, hsame.2.2⟩

omit [UrlLibrary] in
/-- The end tag of the innermost element closes that element. -/
theorem endTag_of_innermost {element : OpenElement} {rest : List OpenElement} {stop : Tag}
    (hopened : b.opened = element :: rest) (hname : element.name = lowercase stop.name) :
    b.endTag stop = (closeElement { b with opened := rest } element).leaveSkip := by
  have hmatch : (b.opened.any fun element => element.name = lowercase stop.name) = true := by
    simp [hopened, hname]
  rw [endTag, if_pos hmatch, hopened, closeDown, if_pos hname]

omit [UrlLibrary] in
theorem nest_leaveSkip (b : Builder) : b.leaveSkip.nest = b.nest := by
  rw [leaveSkip_eq]
  rfl

omit [UrlLibrary] in
/-- The end tag of the innermost element. -/
theorem stands_endTag {level : Level} {outer : List Level} (h : b.Stands (level :: outer))
    {stop : Tag} (hname : level.name = lowercase stop.name) :
    (b.endTag stop).Stands outer ∧
      (b.endTag stop).nest =
        if hidden (level :: outer) then b.nest else b.nest.leave level.kind := by
  have hopened := h.opened
  cases hstack : b.opened with
  | nil => simp [hstack, stackKinds] at hopened
  | cons element rest =>
      rw [hstack, List.map_cons, stackKinds] at hopened
      obtain ⟨helement, hrest⟩ := List.cons.inj hopened
      obtain ⟨helementName, hkind⟩ := Prod.mk.inj helement
      have hlength : rest.length = outer.length := by
        rw [← length_stackKinds outer, ← hrest, List.length_map]
      have hclosed := frame_closeElement { b with opened := rest } element
      rw [endTag_of_innermost hstack (helementName.trans hname), nest_leaveSkip, leaveSkip_eq]
      refine ⟨⟨?_, ?_⟩, ?_⟩
      · rw [← hrest]
        exact congrArg _ hclosed.1
      · change skipLeft _ _ = _
        rw [hclosed.1, hclosed.2]
        exact (congrArg _ h.skipFrom).trans (skipLeft_skipDepth hlength)
      · rw [closeElement]
        have hhidden : b.skipFrom.isSome = hidden (level :: outer) := h.hidden
        cases hshown : hidden (level :: outer) with
        | true =>
            rw [if_pos (hhidden.trans hshown)]
            rfl
        | false =>
            have houter : hidden outer = false := by
              rw [hidden_cons, Bool.or_eq_false_iff] at hshown
              exact hshown.2
            rw [houter] at hkind
            rw [if_neg (by simp [hhidden, hshown])]
            simp only [hkind, Bool.false_eq_true, if_false]
            cases level.kind with
            | block block => exact nest_closeBlock _ block
            | _ => rfl

/-- What a token does to the counters, given the open elements. -/
def turn (limits : Limits) (levels : List Level) (nest : Nest) : Token → Nest
  | .startTag tag =>
      if hidden levels then nest else nest.enter limits (classify (lowercase tag.name))
  | .endTag _ =>
      if hidden levels then nest else levels.head?.elim nest fun level => nest.leave level.kind
  | _ => nest

theorem stands_processToken (h : b.Stands levels) (hlive : b.stopped = false) {token : Token}
    (hfits : FitsToken b.ctx.limits.maxDepth levels token) :
    (b.processToken token).Stands (readToken levels token) ∧
      (b.processToken token).nest = turn b.ctx.limits levels b.nest token := by
  rw [processToken_of_live hlive]
  cases token with
  | startTag tag =>
      simp only [turn]
      cases hhidden : hidden levels with
      | true => exact stands_startSkipped h hhidden hfits
      | false => exact stands_startTag h hhidden hfits
  | endTag stop =>
      cases levels with
      | nil => cases hfits
      | cons level outer => exact stands_endTag h (Option.some.inj hfits)
  | characters text =>
      refine ⟨?_, ?_⟩
      · simp only [handle, pushText]
        split_ifs <;> exact h.same rfl rfl
      · simp only [handle, pushText]
        split_ifs <;> rfl
  | ignored => exact ⟨h, rfl⟩

/-! ## What is read -/

/-- The tokens up to the end of the article or the point where it is cut off. -/
def reading : Builder → List Token → List Token
  | _, [] => []
  | b, token :: tokens => if b.stopped then [] else token :: reading (b.processToken token) tokens

/-- Every token is read. -/
def Live : Builder → List Token → Prop
  | _, [] => True
  | b, token :: tokens => b.stopped = false ∧ Live (b.processToken token) tokens

theorem live_reading (b : Builder) (tokens : List Token) : b.Live (b.reading tokens) := by
  induction tokens generalizing b with
  | nil => trivial
  | cons token tokens ih =>
      rw [reading]
      split_ifs with hstop
      · trivial
      · exact ⟨by simpa using hstop, ih _⟩

theorem reading_isPrefix (b : Builder) (tokens : List Token) : b.reading tokens <+: tokens := by
  induction tokens generalizing b with
  | nil => exact List.prefix_rfl
  | cons token tokens ih =>
      rw [reading]
      split_ifs
      · exact List.nil_prefix
      · exact List.cons_prefix_cons.2 ⟨rfl, ih _⟩

theorem run_reading (b : Builder) (tokens : List Token) :
    b.run (b.reading tokens) = b.run tokens := by
  induction tokens generalizing b with
  | nil => rfl
  | cons token tokens ih =>
      rw [reading]
      split_ifs with hstop
      · exact (run_of_stopped hstop _).symm
      · exact ih _

theorem live_append {tokens more : List Token} :
    b.Live (tokens ++ more) ↔ b.Live tokens ∧ (b.run tokens).Live more := by
  induction tokens generalizing b with
  | nil => exact (true_and _).symm ▸ Iff.rfl
  | cons token tokens ih => rw [List.cons_append, Live, Live, ih, and_assoc]; rfl

omit [UrlLibrary] in
theorem fitsDepth_append {maxDepth : ℕ} {tokens more : List Token} :
    FitsDepth maxDepth levels (tokens ++ more) ↔
      FitsDepth maxDepth levels tokens ∧ FitsDepth maxDepth (readTokens levels tokens) more := by
  induction tokens generalizing levels with
  | nil => exact (true_and _).symm ▸ Iff.rfl
  | cons token tokens ih => rw [List.cons_append, FitsDepth, FitsDepth, ih, and_assoc]; rfl

theorem stands_run (h : b.Stands levels) {tokens : List Token} (hlive : b.Live tokens)
    (hfits : FitsDepth b.ctx.limits.maxDepth levels tokens) :
    (b.run tokens).Stands (readTokens levels tokens) := by
  induction tokens generalizing b levels with
  | nil => exact h
  | cons token tokens ih =>
      have hctx := b.ctx_processToken token
      exact ih (stands_processToken h hlive.1 hfits.1).1 hlive.2 (hctx.symm ▸ hfits.2)

end Tokens

end Builder

/-! ## Before and after an element -/

namespace Nest

/-- The caps hold. -/
structure Bounded (limits : Limits) (nest : Nest) : Prop where
  quoteDepth : nest.quoteDepth ≤ limits.maxQuoteDepth
  lists : nest.lists.length ≤ limits.maxListIndent

/-- The same quote depth and the same lists, but for the counter of the innermost. -/
structure Same (nest nest' : Nest) : Prop where
  quoteDepth : nest'.quoteDepth = nest.quoteDepth
  ordered : nest'.lists.map ListState.ordered = nest.lists.map ListState.ordered
  outer : nest'.lists.dropLast = nest.lists.dropLast

/-- An element with this start tag is closed as it is opened: a quote or a list
opens below its cap, one without children at the cap. -/
def Good (limits : Limits) (nest : Nest) (start : Tag) : Prop :=
  match classify (lowercase start.name) with
  | .block .quote =>
      if childless start then nest.quoteDepth = limits.maxQuoteDepth
      else nest.quoteDepth < limits.maxQuoteDepth ∨ limits.maxQuoteDepth = 0
  | .block (.list _) =>
      if childless start then nest.lists.length = limits.maxListIndent
      else nest.lists.length < limits.maxListIndent ∨ limits.maxListIndent = 0
  | _ => True

variable {limits : Limits} {nest nest' nest'' : Nest}

theorem Same.refl (nest : Nest) : Same nest nest :=
  ⟨rfl, rfl, rfl⟩

theorem Same.trans (h : Same nest nest') (h' : Same nest' nest'') : Same nest nest'' :=
  ⟨h'.quoteDepth.trans h.quoteDepth, h'.ordered.trans h.ordered, h'.outer.trans h.outer⟩

theorem Same.bounded (h : Same nest nest') (hbounded : nest.Bounded limits) :
    nest'.Bounded limits := by
  have hlength := congrArg List.length h.ordered
  rw [List.length_map, List.length_map] at hlength
  exact ⟨h.quoteDepth ▸ hbounded.quoteDepth, hlength ▸ hbounded.lists⟩

theorem bounded_enter (h : nest.Bounded limits) (kind : Disposition) :
    (nest.enter limits kind).Bounded limits := by
  cases kind with
  | block block =>
      cases block with
      | quote => exact ⟨Nat.min_le_right _ _, h.lists⟩
      | list ordered =>
          simp only [enter]
          split_ifs with hroom
          · exact ⟨h.quoteDepth, by simpa using Nat.succ_le_of_lt hroom⟩
          · exact h
      | listItem =>
          simp only [enter]
          cases hlast : nest.lists.getLast? with
          | none => exact h
          | some list =>
              obtain ⟨front, hfront⟩ := List.getLast?_eq_some_iff.1 hlast
              have hlists := h.lists
              rw [hfront] at hlists
              exact ⟨h.quoteDepth, by simpa [hfront] using hlists⟩
      | _ => exact h
  | _ => exact h

theorem bounded_leave (h : nest.Bounded limits) (kind : Disposition) :
    (nest.leave kind).Bounded limits := by
  have hdepth := h.quoteDepth
  have hlists := h.lists
  cases kind with
  | block block =>
      cases block with
      | quote => exact ⟨Nat.le_trans (Nat.sub_le _ _) hdepth, hlists⟩
      | list ordered =>
          refine ⟨hdepth, ?_⟩
          simp only [leave, List.length_dropLast]
          omega
      | _ => exact h
  | _ => exact h

/-- One more item changes the counter of the innermost list. -/
theorem same_item (nest : Nest) : Same nest (nest.enter limits (.block .listItem)) := by
  simp only [enter]
  cases hlast : nest.lists.getLast? with
  | none => exact .refl nest
  | some list =>
      obtain ⟨front, hfront⟩ := List.getLast?_eq_some_iff.1 hlast
      exact ⟨rfl, by simp [hfront], by simp [hfront]⟩

/-- An element without children. -/
theorem same_childless_iff (hbytes : limits.FitBytes) (hbounded : nest.Bounded limits)
    {start : Tag} (hchild : childless start = true) :
    Same nest (nest.enter limits (classify (lowercase start.name))) ↔ nest.Good limits start := by
  have hquote := hbytes.quoteDepth
  have hdepth := hbounded.quoteDepth
  have hlists := hbounded.lists
  cases hkind : classify (lowercase start.name) with
  | block block =>
      simp only [Good, hkind, hchild, if_true]
      cases block with
      | quote =>
          constructor
          · intro hsame
            have hsame := hsame.quoteDepth
            simp only [enter, saturatingAdd8] at hsame
            omega
          · intro hfull
            refine ⟨?_, rfl, rfl⟩
            simp only [enter, saturatingAdd8]
            omega
      | list ordered =>
          simp only [enter]
          split_ifs with hroom
          · constructor
            · intro hsame
              have hlength := congrArg List.length hsame.ordered
              simp at hlength
            · intro hfull
              omega
          · exact iff_of_true (.refl nest) (by omega)
      | listItem => exact iff_of_true nest.same_item trivial
      | _ => exact iff_of_true (.refl nest) trivial
  | _ =>
      simp only [Good, hkind]
      exact iff_of_true (.refl nest) trivial

/-- An element with others inside, which leave the counters as they are. -/
theorem same_pair_iff (hbytes : limits.FitBytes) (hbounded : nest.Bounded limits)
    {start : Tag} (hchild : childless start = false)
    (hinner : Same (nest.enter limits (classify (lowercase start.name))) nest') :
    Same nest (nest'.leave (classify (lowercase start.name))) ↔ nest.Good limits start := by
  have hquote := hbytes.quoteDepth
  have hdepth := hbounded.quoteDepth
  have hlists := hbounded.lists
  cases hkind : classify (lowercase start.name) with
  | block block =>
      rw [hkind] at hinner
      simp only [Good, hkind, hchild, Bool.false_eq_true, if_false]
      cases block with
      | quote =>
          have hentered := hinner.quoteDepth
          simp only [enter, saturatingAdd8] at hentered
          constructor
          · intro hsame
            have hsame := hsame.quoteDepth
            simp only [leave] at hsame
            omega
          · intro hroom
            refine ⟨?_, hinner.ordered, hinner.outer⟩
            simp only [leave]
            omega
      | list ordered =>
          simp only [enter] at hinner
          split_ifs at hinner with hroom
          · -- The list that was opened is the one that closes.
            have houter := hinner.outer
            simp only [List.dropLast_concat] at houter
            refine iff_of_true ⟨hinner.quoteDepth, ?_, ?_⟩ (.inl hroom)
            · simp only [leave, houter]
            · simp only [leave, houter]
          · -- No list was opened, and one that was open before closes.
            constructor
            · intro hsame
              have hlength := congrArg List.length hsame.ordered
              have hkept := congrArg List.length hinner.ordered
              simp only [leave, List.length_map, List.length_dropLast] at hlength hkept
              omega
            · intro hnone
              have hempty : nest.lists = [] := List.length_eq_zero_iff.1 (by omega)
              have hkept := congrArg List.length hinner.ordered
              rw [hempty] at hkept
              have hempty' : nest'.lists = [] := by simpa using hkept
              exact ⟨hinner.quoteDepth, by simp [leave, hempty, hempty'],
                by simp [leave, hempty, hempty']⟩
      | listItem => exact iff_of_true (nest.same_item.trans hinner) trivial
      | _ => exact iff_of_true hinner trivial
  | _ =>
      rw [hkind] at hinner
      simp only [Good, hkind]
      exact iff_of_true hinner trivial

end Nest

namespace Builder

section Elements

variable [UrlLibrary] {b : Builder} {levels : List Level} {start : Tag}

/-- Every element outside skipped ones has the property. -/
def Elements (P : Builder → Tag → List Token → Prop) (b : Builder) (tokens : List Token) : Prop :=
  ∀ before start element after, tokens = before ++ element ++ after → Element start element →
    P (b.run before) start element

/-- After the element the counters are what they were before it. -/
def Restores (b : Builder) (_ : Tag) (element : List Token) : Prop :=
  b.nest.Same (b.run element).nest

/-- A quote or a list outside skipped elements opens below its cap. -/
def OpensWell (b : Builder) (start : Tag) (_ : List Token) : Prop :=
  b.skipFrom = none → b.nest.Good b.ctx.limits start

variable {P : Builder → Tag → List Token → Prop}

theorem Elements.part {tokens before middle after : List Token}
    (h : Elements P b tokens) (heq : tokens = before ++ middle ++ after) :
    Elements P (b.run before) middle := by
  intro left start element right hmiddle helement
  rw [← run_append]
  refine h (before ++ left) start element (right ++ after) ?_ helement
  rw [heq, hmiddle]
  simp only [List.append_assoc]

theorem Elements.head {first rest : List Token} (h : Elements P b (first ++ rest)) :
    Elements P b first :=
  fun before start element after heq helement =>
    h before start element (after ++ rest) (by rw [heq, List.append_assoc]) helement

theorem Elements.tail {first rest : List Token} (h : Elements P b (first ++ rest)) :
    Elements P (b.run first) rest :=
  h.part (List.append_nil _).symm

/-- The counters after well nested tokens, if every element restores them. -/
theorem same_run {tokens : List Token} (hnested : WellNested tokens) (hlive : b.Live tokens)
    (h : Elements Restores b tokens) : b.nest.Same (b.run tokens).nest := by
  induction hnested generalizing b with
  | nil => exact .refl _
  | @leaf token rest hleaf hrest ih =>
      have hfirst : b.nest.Same (b.processToken token).nest := by
        cases token with
        | startTag tag =>
            exact h [] tag [.startTag tag] rest rfl (.childless hleaf)
        | endTag stop => exact hleaf.elim
        | characters text =>
            rw [processToken_of_live hlive.1]
            simp only [handle, pushText]
            split_ifs <;> exact .refl _
        | ignored =>
            rw [processToken_of_live hlive.1]
            exact .refl _
      have hsplit : token :: rest = [token] ++ rest := rfl
      exact hfirst.trans (ih hlive.2 (hsplit ▸ h).tail)
  | @element start stop inner rest hstart hname hinner hrest _ ihrest =>
      have hsplit : Token.startTag start :: inner ++ .endTag stop :: rest =
          (.startTag start :: inner ++ [.endTag stop]) ++ rest := by simp
      rw [hsplit] at hlive h ⊢
      have hfirst := h [] start _ rest rfl (.pair hstart hname hinner)
      rw [run_append]
      exact hfirst.trans (ihrest (live_append.1 hlive).2 h.tail)

/-! ## Which elements restore the counters -/

theorem bounded_processToken (hbounded : b.nest.Bounded b.ctx.limits) (h : b.Stands levels)
    (hlive : b.stopped = false) {token : Token}
    (hfits : FitsToken b.ctx.limits.maxDepth levels token) :
    (b.processToken token).nest.Bounded (b.processToken token).ctx.limits := by
  rw [(stands_processToken h hlive hfits).2, ctx_processToken]
  cases token with
  | startTag tag =>
      simp only [turn]
      split_ifs
      · exact hbounded
      · exact Nest.bounded_enter hbounded _
  | endTag stop =>
      simp only [turn]
      split_ifs
      · exact hbounded
      · cases levels with
        | nil => exact hbounded
        | cons level outer => exact Nest.bounded_leave hbounded _
  | _ => exact hbounded

theorem bounded_run (hbounded : b.nest.Bounded b.ctx.limits) (h : b.Stands levels)
    {tokens : List Token} (hlive : b.Live tokens)
    (hfits : FitsDepth b.ctx.limits.maxDepth levels tokens) :
    (b.run tokens).nest.Bounded (b.run tokens).ctx.limits := by
  induction tokens generalizing b levels with
  | nil => exact hbounded
  | cons token tokens ih =>
      have hctx := b.ctx_processToken token
      exact ih (bounded_processToken hbounded h hlive.1 hfits.1)
        (stands_processToken h hlive.1 hfits.1).1 hlive.2 (hctx.symm ▸ hfits.2)

/-- The builder stands inside the elements of the markup, within its caps. -/
structure Within (b : Builder) (levels : List Level) : Prop where
  bytes : b.ctx.limits.FitBytes
  bounded : b.nest.Bounded b.ctx.limits
  stands : b.Stands levels

theorem Within.run (h : b.Within levels) {tokens : List Token} (hlive : b.Live tokens)
    (hfits : FitsDepth b.ctx.limits.maxDepth levels tokens) :
    (b.run tokens).Within (readTokens levels tokens) := by
  have hctx : (b.run tokens).ctx = b.ctx := (b.grows_run tokens).ctx
  exact ⟨hctx.symm ▸ h.bytes, bounded_run h.bounded h.stands hlive hfits,
    stands_run h.stands hlive hfits⟩

/-- A quote or a list without children. -/
theorem restores_childless_iff (h : b.Within levels) (hchild : childless start = true)
    (hlive : b.Live [.startTag start])
    (hfits : FitsDepth b.ctx.limits.maxDepth levels [.startTag start]) :
    b.Restores start [.startTag start] ↔ b.OpensWell start [.startTag start] := by
  have hnest := (stands_processToken h.stands hlive.1 hfits.1).2
  have hhidden := h.stands.hidden
  change b.nest.Same (b.processToken (.startTag start)).nest ↔ _
  rw [hnest, turn, OpensWell]
  cases hskip : b.skipFrom with
  | some depth =>
      rw [hskip, Option.isSome_some] at hhidden
      rw [if_pos hhidden.symm]
      exact iff_of_true (.refl _) (by simp)
  | none =>
      rw [hskip, Option.isSome_none] at hhidden
      rw [if_neg (by simp [← hhidden]), Nest.same_childless_iff h.bytes h.bounded hchild]
      simp

/-- A quote or a list with elements inside that restore the counters. -/
theorem restores_pair_iff (h : b.Within levels) {stop : Tag} {inner : List Token}
    (hchild : childless start = false) (hnested : WellNested inner)
    (hlive : b.Live (.startTag start :: inner ++ [.endTag stop]))
    (hfits : FitsDepth b.ctx.limits.maxDepth levels
      (.startTag start :: inner ++ [.endTag stop]))
    (hinner : (b.processToken (.startTag start)).nest.Same
      ((b.processToken (.startTag start)).run inner).nest) :
    b.Restores start (.startTag start :: inner ++ [.endTag stop]) ↔
      b.OpensWell start (.startTag start :: inner ++ [.endTag stop]) := by
  have hhidden := h.stands.hidden
  have hctx := b.ctx_processToken (.startTag start)
  obtain ⟨hstands, hnest⟩ := stands_processToken h.stands hlive.1 hfits.1
  obtain ⟨hliveInner, hliveStop, -⟩ := live_append.1 hlive.2
  obtain ⟨hfitsInner, hfitsStop⟩ := fitsDepth_append.1 hfits.2
  have hstandsInner := stands_run hstands hliveInner (hctx.symm ▸ hfitsInner)
  have hctxInner : ((b.processToken (.startTag start)).run inner).ctx = b.ctx :=
    (grows_run _ inner).ctx.trans hctx
  have hclose := (stands_processToken hstandsInner hliveStop (hctxInner.symm ▸ hfitsStop.1)).2
  -- The innermost element before the end tag is the one that was opened.
  have htags := (tags_readTokens hnested _).trans (tags_readToken levels (.startTag start))
  simp only [hchild, Bool.false_eq_true, if_false] at htags
  have hrun : b.run (.startTag start :: inner ++ [.endTag stop]) =
      ((b.processToken (.startTag start)).run inner).processToken (.endTag stop) := by
    simp [Builder.run]
  rw [Restores, OpensWell, hrun, hclose, turn]
  cases hread : readTokens (readToken levels (.startTag start)) inner with
  | nil => simp [hread] at htags
  | cons level outer =>
      rw [hread, List.map_cons] at htags
      obtain ⟨htag, houter⟩ := List.cons.inj htags
      have hkind : level.kind = classify (lowercase start.name) := by
        rw [Level.kind, Level.name, htag]
      rw [hidden_cons, hidden_of_tags houter, ← hhidden]
      cases hskip : b.skipFrom with
      | some depth =>
          rw [hskip, Option.isSome_some] at hhidden
          rw [hnest, turn, if_pos hhidden.symm] at hinner
          simp only [Option.isSome_some, Bool.or_true, if_true]
          exact iff_of_true hinner (by simp)
      | none =>
          rw [hskip, Option.isSome_none] at hhidden
          rw [hnest, turn, if_neg (by simp [← hhidden])] at hinner
          have hpair := Nest.same_pair_iff h.bytes h.bounded hchild hinner
          simp only [Option.isSome_none, Bool.or_false, List.head?_cons, Option.elim_some, hkind,
            forall_const]
          rw [← hpair]
          cases hskipped : level.isSkipped with
          | false => exact Iff.rfl
          | true =>
              have hskipKind : classify (lowercase start.name) = .skip := by
                rw [← hkind]
                simpa [Level.isSkipped] using hskipped
              rw [hskipKind]
              exact Iff.rfl

theorem live_part {tokens before middle after : List Token} (h : b.Live tokens)
    (heq : tokens = before ++ middle ++ after) :
    b.Live before ∧ (b.run before).Live middle := by
  rw [heq] at h
  exact live_append.1 (live_append.1 h).1

omit [UrlLibrary] in
theorem fitsDepth_part {maxDepth : ℕ} {tokens before middle after : List Token}
    (h : FitsDepth maxDepth levels tokens) (heq : tokens = before ++ middle ++ after) :
    FitsDepth maxDepth levels before ∧ FitsDepth maxDepth (readTokens levels before) middle := by
  rw [heq] at h
  exact fitsDepth_append.1 (fitsDepth_append.1 h).1

omit [UrlLibrary] in
/-- The inside of an element is a part of the tokens around it. -/
theorem inner_part (start stop : Tag) (inner : List Token) :
    Token.startTag start :: inner ++ [.endTag stop] =
      [.startTag start] ++ inner ++ [.endTag stop] :=
  rfl

/-- If every element restores the counters, every one opens below its cap. -/
theorem opensWell_of_restores (h : b.Within levels) {tokens : List Token}
    (hlive : b.Live tokens) (hfits : FitsDepth b.ctx.limits.maxDepth levels tokens)
    (hrestores : Elements Restores b tokens) : Elements OpensWell b tokens := by
  intro before start element after heq helement
  obtain ⟨hliveBefore, hliveElement⟩ := live_part hlive heq
  obtain ⟨hfitsBefore, hfitsElement⟩ := fitsDepth_part hfits heq
  have hwithin := h.run hliveBefore hfitsBefore
  have hctx : (b.run before).ctx = b.ctx := (b.grows_run before).ctx
  rw [← hctx] at hfitsElement
  have hrestored := hrestores before start element after heq helement
  have hparts := hrestores.part heq
  cases helement with
  | childless hchild =>
      exact (restores_childless_iff hwithin hchild hliveElement hfitsElement).1 hrestored
  | @pair stop inner hchild hname hinner =>
      have hsame := same_run hinner (live_append.1 hliveElement.2).1
        (hparts.part (inner_part start stop inner))
      exact (restores_pair_iff hwithin hchild hinner hliveElement hfitsElement hsame).1 hrestored

/-- The counters after well nested tokens whose elements open below their caps. -/
theorem same_run_of_opensWell {tokens : List Token} (hnested : WellNested tokens)
    (h : b.Within levels) (hlive : b.Live tokens)
    (hfits : FitsDepth b.ctx.limits.maxDepth levels tokens)
    (hopens : Elements OpensWell b tokens) : b.nest.Same (b.run tokens).nest := by
  induction hnested generalizing b levels with
  | nil => exact .refl _
  | @leaf token rest hleaf hrest ih =>
      have hliveFirst : b.Live [token] := ⟨hlive.1, trivial⟩
      have hfitsFirst : FitsDepth b.ctx.limits.maxDepth levels [token] := ⟨hfits.1, trivial⟩
      have hfirst : b.nest.Same (b.processToken token).nest := by
        cases token with
        | startTag tag =>
            exact (restores_childless_iff h hleaf hliveFirst hfitsFirst).2
              (hopens [] tag [.startTag tag] rest rfl (.childless hleaf))
        | endTag stop => exact hleaf.elim
        | characters text =>
            rw [(stands_processToken h.stands hlive.1 hfits.1).2]
            exact .refl _
        | ignored =>
            rw [(stands_processToken h.stands hlive.1 hfits.1).2]
            exact .refl _
      have hctx := b.ctx_processToken token
      have hsplit : token :: rest = [token] ++ rest := rfl
      exact hfirst.trans
        (ih (h.run hliveFirst hfitsFirst) hlive.2 (hctx.symm ▸ hfits.2) (hsplit ▸ hopens).tail)
  | @element start stop inner rest hstart hname hinner hrest ihinner ihrest =>
      have hsplit : Token.startTag start :: inner ++ .endTag stop :: rest =
          (.startTag start :: inner ++ [.endTag stop]) ++ rest := by simp
      rw [hsplit] at hlive hfits hopens ⊢
      obtain ⟨hliveFirst, hliveRest⟩ := live_append.1 hlive
      obtain ⟨hfitsFirst, hfitsRest⟩ := fitsDepth_append.1 hfits
      have hctx : (b.run (.startTag start :: inner ++ [.endTag stop])).ctx = b.ctx :=
        (b.grows_run _).ctx
      have hctxStart := b.ctx_processToken (.startTag start)
      have hliveStart : b.Live [.startTag start] := ⟨hliveFirst.1, trivial⟩
      have hfitsStart : FitsDepth b.ctx.limits.maxDepth levels [.startTag start] :=
        ⟨hfitsFirst.1, trivial⟩
      have hstartWithin := h.run hliveStart hfitsStart
      have hsame := ihinner hstartWithin (live_append.1 hliveFirst.2).1
        (hctxStart.symm ▸ (fitsDepth_append.1 hfitsFirst.2).1)
        (hopens.head.part (inner_part start stop inner))
      have hfirst := (restores_pair_iff h hstart hinner hliveFirst hfitsFirst hsame).2
        (hopens [] start _ rest rfl (.pair hstart hname hinner))
      rw [run_append]
      exact hfirst.trans
        (ihrest (h.run hliveFirst hfitsFirst) hliveRest (hctx.symm ▸ hfitsRest) hopens.tail)

/-- If every element opens below its cap, every one restores the counters. -/
theorem restores_of_opensWell (h : b.Within levels) {tokens : List Token}
    (hlive : b.Live tokens) (hfits : FitsDepth b.ctx.limits.maxDepth levels tokens)
    (hopens : Elements OpensWell b tokens) : Elements Restores b tokens := by
  intro before start element after heq helement
  obtain ⟨hliveBefore, hliveElement⟩ := live_part hlive heq
  obtain ⟨hfitsBefore, hfitsElement⟩ := fitsDepth_part hfits heq
  have hwithin := h.run hliveBefore hfitsBefore
  have hctx : (b.run before).ctx = b.ctx := (b.grows_run before).ctx
  rw [← hctx] at hfitsElement
  have hparts := hopens.part heq
  have hnested : WellNested element := by
    cases helement with
    | childless hchild => exact .leaf hchild .nil
    | pair hchild hname hinner => exact .element hchild hname hinner .nil
  exact same_run_of_opensWell hnested hwithin hliveElement hfitsElement hparts

end Elements

end Builder

end Vuo.Content
