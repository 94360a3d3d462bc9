import Vuo.Verification.Content.Frames

/-!
# Skipped elements

What happens between the start tag of a skipped element and its end tag: the
text is dropped, and only the stack of open elements is kept. The end tags
inside find the innermost open element of their name wherever it was opened.
-/

namespace Vuo.Content

/-! ## Well nested tokens -/

/-- The token opens and closes nothing. -/
def Leaf : Token → Prop
  | .startTag tag => childless tag = true
  | .endTag _ => False
  | .characters _ => True
  | .ignored => True

theorem leaf_characters (text : List Char) : Leaf (.characters text) :=
  trivial

/-- Start tags with matching end tags, childless elements without. -/
inductive WellNested : List Token → Prop
  | nil : WellNested []
  | leaf {token : Token} {rest : List Token} (h : Leaf token) (hrest : WellNested rest) :
      WellNested (token :: rest)
  | element {start stop : Tag} {inner rest : List Token} (hstart : childless start = false)
      (hname : lowercase stop.name = lowercase start.name) (hinner : WellNested inner)
      (hrest : WellNested rest) :
      WellNested (.startTag start :: inner ++ .endTag stop :: rest)

/-! ## The names on the stack -/

/-- The names still open once the innermost of one name is closed. -/
def closeNames (name : String) (names : List String) : List String :=
  (names.dropWhile (· ≠ name)).tail

/-- What a token does to the names opened inside a skipped element, innermost
first; nothing if it closes one of the `outer` ones, which were open before. -/
def insideStep (maxDepth : ℕ) (outer inside : List String) : Token → Option (List String)
  | .startTag tag =>
      if !childless tag && inside.length + outer.length < maxDepth then
        some (lowercase tag.name :: inside)
      else some inside
  | .endTag tag =>
      if lowercase tag.name ∈ inside then some (closeNames (lowercase tag.name) inside)
      else if lowercase tag.name ∈ outer then none
      else some inside
  | _ => some inside

/-- Every end tag finds an element opened inside the skipped one, or none. -/
def StaysInside (maxDepth : ℕ) (outer : List String) (tokens : List Token) : Prop :=
  (tokens.foldlM (insideStep maxDepth outer) []).isSome

theorem closeNames_suffix (name : String) (names : List String) :
    closeNames name names <:+ names :=
  (List.tail_suffix _).trans (List.dropWhile_suffix _)

theorem closeNames_cons_self (name : String) (names : List String) :
    closeNames name (name :: names) = names := by
  simp [closeNames]

theorem closeNames_cons_of_ne {name other : String} (h : other ≠ name) (names : List String) :
    closeNames name (other :: names) = closeNames name names := by
  simp [closeNames, h]

section Names

variable {maxDepth : ℕ} {outer inside inside' : List String}

theorem insideStep_leaf {token : Token} (h : Leaf token) :
    insideStep maxDepth outer inside token = some inside := by
  cases token with
  | startTag tag =>
      have hchild : childless tag = true := h
      simp [insideStep, hchild]
  | endTag tag => cases h
  | characters text => rfl
  | ignored => rfl

/-- Well nested tokens close nothing that they have not opened, but the depth
cap may make them close more than that. -/
theorem suffix_of_wellNested {tokens : List Token} (h : WellNested tokens) :
    ∀ {inside inside' : List String},
      tokens.foldlM (insideStep maxDepth outer) inside = some inside' →
        inside' <:+ inside := by
  induction h with
  | nil =>
      intro inside inside' hrun
      obtain rfl : inside = inside' := by simpa using hrun
      exact List.suffix_rfl
  | leaf hleaf _ ih =>
      intro inside inside' hrun
      rw [List.foldlM_cons, insideStep_leaf hleaf] at hrun
      exact ih hrun
  | @element start stop inner rest hstart hname _ _ ihinner ihrest =>
      intro inside inside' hrun
      rw [List.cons_append, List.foldlM_cons] at hrun
      obtain ⟨opened, hopen, hrun⟩ := Option.bind_eq_some_iff.1 hrun
      rw [List.foldlM_append] at hrun
      obtain ⟨after, hinner, hrun⟩ := Option.bind_eq_some_iff.1 hrun
      rw [List.foldlM_cons] at hrun
      obtain ⟨closed, hclose, hrun⟩ := Option.bind_eq_some_iff.1 hrun
      refine (ihrest hrun).trans ?_
      have hafter := ihinner hinner
      simp only [insideStep, hname] at hclose
      simp only [insideStep, hstart, Bool.not_false, Bool.true_and, decide_eq_true_eq] at hopen
      -- What the end tag leaves is what the element had inside, or less.
      have hclosed : closed <:+ after := by
        split_ifs at hclose
        · obtain rfl := Option.some.inj hclose
          exact closeNames_suffix _ _
        · obtain rfl := Option.some.inj hclose
          exact List.suffix_rfl
      split_ifs at hopen with hdepth
      · obtain rfl := Option.some.inj hopen
        rcases List.suffix_cons_iff.1 hafter with rfl | hafter
        · rw [if_pos List.mem_cons_self, closeNames_cons_self] at hclose
          obtain rfl := Option.some.inj hclose
          exact List.suffix_rfl
        · exact hclosed.trans hafter
      · obtain rfl := Option.some.inj hopen
        exact hclosed.trans hafter

theorem staysInside_of_append {tokens rest : List Token}
    (h : StaysInside maxDepth outer (tokens ++ rest)) : StaysInside maxDepth outer tokens := by
  unfold StaysInside at h ⊢
  rw [List.foldlM_append] at h
  cases hrun : tokens.foldlM (insideStep maxDepth outer) [] with
  | none => simp [hrun] at h
  | some inside => rfl

end Names

/-! ## The builder inside a skipped element -/

/-- An element that is open inside a skipped one. -/
def skipElement (name : String) : OpenElement :=
  ⟨name, .skip, none, none⟩

def Builder.openedNames (b : Builder) : List String :=
  b.opened.map OpenElement.name

/-- The builder inside a skipped element, other elements being open inside it. -/
def Builder.inSkip (b : Builder) (name : String) (inside : List String) : Builder :=
  { b with
    skipFrom := some b.opened.length
    opened := inside.map skipElement ++ skipElement name :: b.opened }

namespace Builder

variable {b : Builder} {name : String} {inside inside' : List String}

@[simp] theorem stopped_inSkip : (b.inSkip name inside).stopped = b.stopped := rfl

@[simp] theorem skipFrom_inSkip : (b.inSkip name inside).skipFrom = some b.opened.length := rfl

theorem closeElement_inSkip (element : OpenElement) :
    (b.inSkip name inside).closeElement element = b.inSkip name inside := rfl

theorem leaveSkip_inSkip : (b.inSkip name inside).leaveSkip = b.inSkip name inside := by
  simp only [leaveSkip, skipFrom_inSkip]
  rw [if_neg]
  simp only [inSkip, List.length_append, List.length_cons]
  omega

/-- Closing elements inside a skipped one. -/
theorem closeDown_inSkip {target : String} (h : target ∈ inside) (before : List String) :
    closeDown target (b.inSkip name inside).opened (b.inSkip name before) =
      b.inSkip name (closeNames target inside) := by
  induction inside generalizing before with
  | nil => cases h
  | cons first inside ih =>
      have hpop : { b.inSkip name before with opened := (b.inSkip name inside).opened } =
          b.inSkip name inside := rfl
      have hopened : (b.inSkip name (first :: inside)).opened =
          skipElement first :: (b.inSkip name inside).opened := rfl
      rw [hopened, closeDown, hpop, closeElement_inSkip, leaveSkip_inSkip]
      by_cases hfirst : first = target
      · rw [if_pos (show (skipElement first).name = target from hfirst), hfirst,
          closeNames_cons_self]
      · rw [if_neg (show (skipElement first).name ≠ target from hfirst),
          closeNames_cons_of_ne hfirst]
        exact ih ((List.mem_cons.1 h).resolve_left fun hp => hfirst hp.symm) inside

/-- Nothing turns skipping on but a start tag. -/
theorem skipFrom_closeElement (h : b.skipFrom = none) (element : OpenElement) :
    (b.closeElement element).skipFrom = none := by
  unfold closeElement
  rw [h, if_neg (by simp)]
  split
  · exact (frame_closeBlock _ _).skipFrom.trans h
  · exact h

theorem skipFrom_closeDown (h : b.skipFrom = none) (target : String)
    (elements : List OpenElement) : (closeDown target elements b).skipFrom = none := by
  induction elements generalizing b with
  | nil => exact h
  | cons element elements ih =>
      have hclosed : (closeElement { b with opened := elements } element).leaveSkip.skipFrom =
          none := by
        have hskip := skipFrom_closeElement (b := { b with opened := elements }) h element
        simp [leaveSkip, hskip]
      rw [closeDown]
      split_ifs
      · exact hclosed
      · exact ih hclosed

/-- Closing the skipped element itself, or one around it, ends the skipping. -/
theorem skipFrom_closeDown_inSkip {target : String} (h : target ∉ inside)
    (before : List String) :
    (closeDown target (b.inSkip name inside).opened (b.inSkip name before)).skipFrom = none := by
  induction inside generalizing before with
  | nil =>
      have hopened : (b.inSkip name []).opened = skipElement name :: b.opened := rfl
      have hleave : (closeElement { b.inSkip name before with opened := b.opened }
          (skipElement name)).leaveSkip = { b with skipFrom := none } := by
        simp [closeElement, leaveSkip, inSkip]
      rw [hopened, closeDown, hleave]
      split_ifs
      · rfl
      · exact skipFrom_closeDown rfl target _
  | cons first inside ih =>
      have hpop : { b.inSkip name before with opened := (b.inSkip name inside).opened } =
          b.inSkip name inside := rfl
      have hopened : (b.inSkip name (first :: inside)).opened =
          skipElement first :: (b.inSkip name inside).opened := rfl
      have hfirst : first ≠ target := fun hp => h (hp ▸ List.mem_cons_self)
      rw [hopened, closeDown, hpop, closeElement_inSkip, leaveSkip_inSkip,
        if_neg (show (skipElement first).name ≠ target from hfirst)]
      exact ih (fun hp => h (List.mem_cons_of_mem _ hp)) inside

/-- The end tag of the skipped element, with nothing else open inside. -/
theorem closeDown_inSkip_self (hoff : b.skipFrom = none) :
    closeDown name (b.inSkip name []).opened (b.inSkip name []) = b := by
  have hopened : (b.inSkip name []).opened = skipElement name :: b.opened := rfl
  have hleave : (closeElement { b.inSkip name [] with opened := b.opened }
      (skipElement name)).leaveSkip = { b with skipFrom := none } := by
    simp [closeElement, leaveSkip, inSkip]
  rw [hopened, closeDown, hleave, if_pos (show (skipElement name).name = name from rfl), ← hoff]

theorem opened_any_iff (target : String) :
    (b.opened.any fun element => element.name = target) = true ↔ target ∈ b.openedNames := by
  simp only [openedNames, List.any_eq_true, decide_eq_true_eq, List.mem_map]

theorem openedNames_inSkip :
    (b.inSkip name inside).openedNames = inside ++ name :: b.openedNames := by
  have hinside : inside.map (OpenElement.name ∘ skipElement) = inside := List.map_id _
  simp [openedNames, inSkip, hinside, skipElement]

/-! ## Tokens inside a skipped element -/

variable [UrlLibrary]

theorem processToken_of_stopped (h : b.stopped = true) (token : Token) :
    b.processToken token = b := by
  simp [processToken, h]

theorem processToken_of_live (h : b.stopped = false) (token : Token) :
    b.processToken token = b.handle token := by
  simp [processToken, h]

/-- A token that stays inside moves the names, and nothing else. -/
theorem processToken_inSkip (hstop : b.stopped = false) {token : Token}
    (h : insideStep b.ctx.limits.maxDepth (name :: b.openedNames) inside token = some inside') :
    (b.inSkip name inside).processToken token = b.inSkip name inside' := by
  have hlength : (b.inSkip name inside).opened.length =
      inside.length + (name :: b.openedNames).length := by
    simp [inSkip, openedNames]
  rw [processToken_of_live (stopped_inSkip.trans hstop)]
  cases token with
  | startTag tag =>
      simp only [insideStep, ← hlength] at h
      simp only [handle, startTag, skipFrom_inSkip, Option.isSome_some, if_true, startSkipped]
      split_ifs at h with hpush
      · obtain rfl := Option.some.inj h
        exact if_pos hpush
      · obtain rfl := Option.some.inj h
        exact if_neg hpush
  | endTag tag =>
      simp only [insideStep] at h
      simp only [handle, endTag, opened_any_iff, openedNames_inSkip, List.mem_append]
      split_ifs at h with hin hout
      · obtain rfl := Option.some.inj h
        rw [if_pos (.inl hin)]
        exact closeDown_inSkip hin inside
      · obtain rfl := Option.some.inj h
        rw [if_neg (by simp only [hin, hout, or_self, not_false_eq_true])]
  | characters text =>
      obtain rfl : inside = inside' := Option.some.inj h
      rfl
  | ignored =>
      obtain rfl : inside = inside' := Option.some.inj h
      rfl

/-- A token that closes an element around the skipped one ends the skipping. -/
theorem skipFrom_processToken_inSkip (hstop : b.stopped = false) {token : Token}
    (h : insideStep b.ctx.limits.maxDepth (name :: b.openedNames) inside token = none) :
    ((b.inSkip name inside).processToken token).skipFrom = none := by
  rw [processToken_of_live (stopped_inSkip.trans hstop)]
  cases token with
  | startTag tag =>
      simp only [insideStep] at h
      split_ifs at h
  | endTag tag =>
      simp only [insideStep] at h
      split_ifs at h with hin hout
      have hopen : lowercase tag.name ∈ inside ++ name :: b.openedNames :=
        List.mem_append_right _ hout
      simp only [handle, endTag, opened_any_iff, openedNames_inSkip, hopen, if_true]
      exact skipFrom_closeDown_inSkip hin inside
  | characters text => cases h
  | ignored => cases h

theorem run_inSkip (hstop : b.stopped = false) {tokens : List Token}
    (h : tokens.foldlM (insideStep b.ctx.limits.maxDepth (name :: b.openedNames)) inside =
      some inside') :
    (b.inSkip name inside).run tokens = b.inSkip name inside' := by
  induction tokens generalizing inside with
  | nil =>
      obtain rfl : inside = inside' := by simpa using h
      rfl
  | cons token tokens ih =>
      rw [List.foldlM_cons] at h
      obtain ⟨next, hnext, h⟩ := Option.bind_eq_some_iff.1 h
      have hrun : (b.inSkip name inside).run (token :: tokens) =
          ((b.inSkip name inside).processToken token).run tokens := rfl
      rw [hrun, processToken_inSkip hstop hnext]
      exact ih h

/-- Tokens that do not stay inside have a first one that does not. -/
theorem exists_skipFrom_eq_none (hstop : b.stopped = false) {tokens : List Token}
    (h : tokens.foldlM (insideStep b.ctx.limits.maxDepth (name :: b.openedNames)) inside =
      none) :
    ∃ p, p <+: tokens ∧ ((b.inSkip name inside).run p).skipFrom = none := by
  induction tokens generalizing inside with
  | nil => simp at h
  | cons token tokens ih =>
      rw [List.foldlM_cons] at h
      cases hnext : insideStep b.ctx.limits.maxDepth (name :: b.openedNames) inside token with
      | none => exact ⟨[token], by simp, skipFrom_processToken_inSkip hstop hnext⟩
      | some next =>
          rw [hnext] at h
          obtain ⟨p, hp, hskip⟩ := ih h
          refine ⟨token :: p, List.cons_prefix_cons.2 ⟨rfl, hp⟩, ?_⟩
          have hrun : (b.inSkip name inside).run (token :: p) =
              ((b.inSkip name inside).processToken token).run p := rfl
          rw [hrun, processToken_inSkip hstop hnext]
          exact hskip

/-! ## Text that is taken -/

theorem run_of_stopped (h : b.stopped = true) (tokens : List Token) : b.run tokens = b := by
  induction tokens with
  | nil => rfl
  | cons token tokens ih =>
      have hrun : b.run (token :: tokens) = (b.processToken token).run tokens := rfl
      rw [hrun, processToken_of_stopped h, ih]

theorem run_append (tokens rest : List Token) :
    b.run (tokens ++ rest) = (b.run tokens).run rest :=
  List.foldl_append

/-- No text changes anything here. -/
def TakesNoText (b : Builder) : Prop :=
  ∀ text, b.processToken (.characters text) = b

theorem takesNoText_iff : b.TakesNoText ↔ b.stopped = true ∨ b.skipFrom.isSome = true := by
  constructor
  · intro h
    by_contra hnot
    obtain ⟨hstop, hskip⟩ := not_or.1 hnot
    have htext := h ['x']
    rw [processToken_of_live (by simpa using hstop)] at htext
    have hcollapsed : b.collapsed ['x'] = ['x'] := by
      have hx : collapseWhitespace ['x'] = ['x'] := by decide
      simp [collapsed, hx]
    have hbudget : b.budget = 0 → b.recordTruncation .tooMuchText ≠ b := by
      intro hzero hsame
      have htruncated := congrArg Builder.truncated hsame
      refine hstop ?_
      have hcap : b.atCapacity = true := by
        have : b.ctx.limits.maxTextBytes ≤ b.textBytes := Nat.sub_eq_zero_iff_le.1 hzero
        simp [atCapacity, this]
      cases ht : b.truncated with
      | none => simp [recordTruncation, ht] at htruncated
      | some why => simp [stopped, hcap, ht]
    have hclamp : b.budget ≠ 0 → clampToCharBoundary ['x'] b.budget = ['x'] := by
      intro hpos
      have hsize : ('x').utf8Size = 1 := by decide
      have hfit : 1 ≤ b.budget := Nat.one_le_iff_ne_zero.2 hpos
      simp [clampToCharBoundary, hsize, hfit]
    have hbytes : byteLength ['x'] = 1 := by decide
    simp only [handle, pushText, hskip, if_false, Bool.false_eq_true, hcollapsed] at htext
    split_ifs at htext with hpre hzero hnil hzero
    · exact hbudget hzero htext
    · have := congrArg Builder.textBytes htext
      simp only [hclamp hzero, hbytes] at this
      omega
    · cases hnil
    · exact hbudget hzero htext
    · have := congrArg Builder.textBytes htext
      simp only [hclamp hzero, hbytes] at this
      omega
  · intro h text
    rcases h with h | h
    · exact processToken_of_stopped h _
    · cases hstop : b.stopped with
      | true => exact processToken_of_stopped hstop _
      | false =>
          rw [processToken_of_live hstop]
          simp [handle, pushText, h]

/-! ## Containment -/

/-- A skipped element gives nothing away: no text inside it is taken; and unless
the article has ended by then, its end tag is reached, ends the skipping and
finds the state its start tag found. -/
structure Contains (b : Builder) (start : Tag) (inner : List Token) (stop : Tag) : Prop where
  text : ∀ p, p <+: inner → ((b.processToken (.startTag start)).run p).TakesNoText
  reached : (b.processToken (.startTag start)).stopped = false →
    ((b.processToken (.startTag start)).run inner).stopped = false
  skipFrom : (b.processToken (.startTag start)).stopped = false →
    (b.run (.startTag start :: inner ++ [.endTag stop])).skipFrom = none
  state : (b.processToken (.startTag start)).stopped = false →
    ∀ b', b' = b.run (.startTag start :: inner ++ [.endTag stop]) →
      b'.style = b.style ∧ b'.link = b.link ∧ b'.lists = b.lists ∧
        b'.quoteDepth = b.quoteDepth ∧ b'.preDepth = b.preDepth ∧ b'.preText = b.preText ∧
        b'.preLanguage = b.preLanguage

/-- The start tag of a skipped element. -/
theorem processToken_startSkip {start : Tag} (hstop : b.stopped = false)
    (hoff : b.skipFrom = none) (hskip : classify (lowercase start.name) = .skip)
    (hchild : childless start = false) :
    b.processToken (.startTag start) = b.flush.inSkip (lowercase start.name) [] := by
  rw [processToken_of_live hstop]
  simp only [handle, startTag, hoff, Option.isSome_none, Bool.false_eq_true, if_false, hskip,
    startSkip, hchild]
  rfl

/-- An element that is skipped up to its end tag leaves a flush behind. -/
theorem run_skipped {start stop : Tag} {inner : List Token} (hstop : b.stopped = false)
    (hoff : b.skipFrom = none) (hskip : classify (lowercase start.name) = .skip)
    (hchild : childless start = false) (hname : lowercase stop.name = lowercase start.name)
    (hinner : WellNested inner) (hfull : b.flush.stopped = false)
    (hstays : StaysInside b.ctx.limits.maxDepth (lowercase start.name :: b.openedNames) inner) :
    b.run (.startTag start :: inner ++ [.endTag stop]) = b.flush := by
  have hflush := b.emits_flush
  have hnames : b.flush.openedNames = b.openedNames := by
    simp only [openedNames, hflush.opened]
  have hoff' : b.flush.skipFrom = none := hflush.skipFrom.trans hoff
  rw [← hflush.ctx, ← hnames] at hstays
  obtain ⟨inside, hfold⟩ := Option.isSome_iff_exists.1 hstays
  obtain rfl := List.suffix_nil.1 (suffix_of_wellNested hinner hfold)
  have hopen : lowercase start.name ∈
      [] ++ lowercase start.name :: b.flush.openedNames := by simp
  have hrun : b.run (.startTag start :: inner ++ [.endTag stop]) =
      ((b.flush.inSkip (lowercase start.name) []).run inner).processToken (.endTag stop) := by
    rw [← processToken_startSkip hstop hoff hskip hchild]
    simp [Builder.run]
  rw [hrun, run_inSkip hfull hfold, processToken_of_live (stopped_inSkip.trans hfull)]
  simp only [handle, endTag, opened_any_iff, openedNames_inSkip, hname, hopen, if_true]
  exact closeDown_inSkip_self hoff'

end Builder

open Builder

/-- A skipped element contains its text exactly if the article has ended, or if
every end tag inside it finds an element opened inside it, or none. -/
theorem skipped_contained_iff [UrlLibrary] {b : Builder} {start stop : Tag} {inner : List Token}
    (hoff : b.skipFrom = none) (hskip : classify (lowercase start.name) = .skip)
    (hchild : childless start = false) (hname : lowercase stop.name = lowercase start.name)
    (hinner : WellNested inner) :
    b.Contains start inner stop ↔
      b.stopped = true ∨ b.flush.stopped = true ∨
        StaysInside b.ctx.limits.maxDepth (lowercase start.name :: b.openedNames) inner := by
  cases hstop : b.stopped with
  | true =>
      simp only [true_or, iff_true]
      have hstart := processToken_of_stopped hstop (.startTag start)
      refine ⟨fun p _ => ?_, ?_, ?_, ?_⟩
      · rw [hstart, run_of_stopped hstop]
        exact takesNoText_iff.2 (.inl hstop)
      · rw [hstart, hstop]
        simp
      · rw [hstart, hstop]
        simp
      · rw [hstart, hstop]
        simp
  | false =>
      have hflush := b.emits_flush
      have hnames : b.flush.openedNames = b.openedNames := by
        simp only [openedNames, hflush.opened]
      have hstart := processToken_startSkip hstop hoff hskip hchild
      simp only [Bool.false_eq_true, false_or]
      cases hfull : b.flush.stopped with
      | true =>
          simp only [true_or, iff_true]
          refine ⟨fun p _ => ?_, ?_, ?_, ?_⟩
          · rw [hstart, run_of_stopped (by simpa using hfull)]
            exact takesNoText_iff.2 (.inl (by simpa using hfull))
          · rw [hstart, stopped_inSkip, hfull]
            simp
          · rw [hstart, stopped_inSkip, hfull]
            simp
          · rw [hstart, stopped_inSkip, hfull]
            simp
      | false =>
          simp only [Bool.false_eq_true, false_or]
          have hlive : (b.processToken (.startTag start)).stopped = false := by
            rw [hstart, stopped_inSkip, hfull]
          rw [← hflush.ctx, ← hnames]
          constructor
          · intro h
            by_contra hnot
            have hnone := Option.not_isSome_iff_eq_none.1 hnot
            obtain ⟨p, ⟨rest, hp⟩, hskipped⟩ := exists_skipFrom_eq_none hfull hnone
            -- Skipping has ended there, so the article must have ended too.
            have htext := takesNoText_iff.1 (h.text p ⟨rest, hp⟩)
            rw [hstart, hskipped] at htext
            have hended := htext.resolve_right (by simp)
            have hreached := h.reached hlive
            rw [hstart, ← hp, run_append, run_of_stopped hended, hended] at hreached
            cases hreached
          · intro h
            obtain ⟨inside, hfold⟩ := Option.isSome_iff_exists.1 h
            obtain rfl := List.suffix_nil.1 (suffix_of_wellNested hinner hfold)
            have hinside := run_inSkip hfull hfold
            have hoff' : b.flush.skipFrom = none := hflush.skipFrom.trans hoff
            have hend := run_skipped hstop hoff hskip hchild hname hinner hfull
              (by rwa [← hflush.ctx, ← hnames])
            refine ⟨fun p hp => ?_, fun _ => ?_, fun _ => ?_, fun _ b' hb' => ?_⟩
            · obtain ⟨rest, rfl⟩ := hp
              obtain ⟨before, hbefore⟩ := Option.isSome_iff_exists.1 (staysInside_of_append h)
              rw [hstart, run_inSkip hfull hbefore]
              exact takesNoText_iff.2 (.inr rfl)
            · rw [hstart, hinside, stopped_inSkip, hfull]
            · rw [hend, hoff']
            · rw [hb', hend]
              exact ⟨hflush.style, hflush.link, hflush.lists, hflush.quoteDepth,
                hflush.preDepth, hflush.preText, hflush.preLanguage⟩

section Plain

/-- A library for articles without addresses. -/
abbrev plainUrls : UrlLibrary where
  parse _ := none
  join _ _ := none

namespace Plain

scoped instance : UrlLibrary := plainUrls

end Plain

open scoped Plain

/-- A tag without attributes. -/
def plainTag (name : String) : Tag :=
  ⟨name, false, []⟩

/-- Caps that allow two open elements. -/
def shallow : TransformContext where
  baseUrl := none
  media := .direct
  limits := ⟨2, 100, 1000, 8, 8, 512, 64⟩

/-- A form with a label inside keeps its text to itself. -/
theorem contains_form :
    (Builder.new shallow).Contains (plainTag "form")
      [.startTag (plainTag "label"), .characters ['N', 'a', 'm', 'e'],
        .endTag (plainTag "label")] (plainTag "form") := by
  refine (skipped_contained_iff rfl (by decide) (by decide) (by decide) ?_).2
    (.inr (.inr (by unfold StaysInside; decide)))
  exact .element (by decide) (by decide) (.leaf (leaf_characters _) .nil) .nil

/-- A form at the depth cap: the end tag of a `div` inside it closes the `div`
around it, and what follows is shown. -/
theorem form_leaks :
    WellNested [.startTag (plainTag "div"), .characters ['k', 'e', 'y'],
        .endTag (plainTag "div"), .characters ['p', 'i', 'n']] ∧
      ¬ ((Builder.new shallow).run [.startTag (plainTag "div")]).Contains (plainTag "form")
        [.startTag (plainTag "div"), .characters ['k', 'e', 'y'], .endTag (plainTag "div"),
          .characters ['p', 'i', 'n']] (plainTag "form") ∧
      transform shallow none
        [.startTag (plainTag "div"), .startTag (plainTag "form"), .startTag (plainTag "div"),
          .characters ['k', 'e', 'y'], .endTag (plainTag "div"), .characters ['p', 'i', 'n'],
          .endTag (plainTag "form"), .endTag (plainTag "div")] =
        ⟨[⟨.paragraph [⟨['p', 'i', 'n'], {}, none⟩], 0⟩], none⟩ := by
  refine ⟨.element (by decide) (by decide) (.leaf (leaf_characters _) .nil)
    (.leaf (leaf_characters _) .nil), ?_, by decide⟩
  intro h
  have htext := h.text _ (List.prefix_refl _) ['x']
  have hbytes := congrArg Builder.textBytes htext
  revert hbytes
  decide

end Plain

end Vuo.Content
