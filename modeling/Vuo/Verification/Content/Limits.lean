import Mathlib.Data.List.Induction
import Vuo.Verification.Content.Cuts
import Vuo.Verification.Content.Skip

/-!
# Every limit

What holds of the stack at every moment, of the finished document, and of the
truncation it reports.
-/

namespace Vuo.Content

/-! ## The stack -/

theorem stack_not_mem_opening (block : BlockTag) (tag : Tag) (opened : List OpenElement)
    (skipFrom : Option ℕ) : .stack opened skipFrom ∉ block.opening tag := by
  cases block <;> simp [BlockTag.opening]

theorem stack_not_mem_closing (element : OpenElement) (opened : List OpenElement)
    (skipFrom : Option ℕ) : .stack opened skipFrom ∉ element.closing := by
  unfold OpenElement.closing
  cases element.disposition with
  | block block => cases block <;> simp [BlockTag.closing]
  | _ => simp

/-- Closing elements leaves a part of the stack. -/
theorem stack_mem_closeEdits {name : String} {elements opened : List OpenElement}
    {skipFrom skipFrom' : Option ℕ}
    (h : .stack opened skipFrom' ∈ closeEdits name elements skipFrom) :
    opened.length ≤ elements.length := by
  induction elements generalizing skipFrom with
  | nil => simp [closeEdits] at h
  | cons element rest ih =>
      have hclosing := stack_not_mem_closing element opened skipFrom'
      rw [closeEdits, List.cons_append, List.mem_cons, List.mem_append, List.mem_cons] at h
      rcases h with h | h | h | h
      · cases h
        simp
      · split_ifs at h
        · simp at h
        · exact (hclosing h).elim
      · cases h
        simp
      · split_ifs at h
        · simp at h
        · have hrest := ih h
          rw [List.length_cons]
          omega

/-! ## What a token opens -/

namespace Builder

variable {b : Builder}

theorem depth_applyAll {depth : ℕ} {edits : List Edit} (hb : b.opened.length ≤ depth)
    (h : ∀ opened skipFrom, .stack opened skipFrom ∈ edits → opened.length ≤ depth) :
    (b.applyAll edits).opened.length ≤ depth := by
  induction edits generalizing b with
  | nil => exact hb
  | cons edit edits ih =>
      refine ih ?_ fun opened skipFrom hmem => h opened skipFrom (List.mem_cons_of_mem _ hmem)
      by_cases hstack : ∃ opened skipFrom, edit = .stack opened skipFrom
      · obtain ⟨opened, skipFrom, rfl⟩ := hstack
        exact h opened skipFrom List.mem_cons_self
      · rw [(b.stack_apply fun opened skipFrom heq => hstack ⟨opened, skipFrom, heq⟩).1]
        exact hb

variable [UrlLibrary]

/-- A skipped element opens below the depth cap only. -/
def OpensWithin (b : Builder) : Token → Prop
  | .startTag tag =>
      b.skipFrom.isSome ∨ classify (lowercase tag.name) ≠ .skip ∨ childless tag ∨
        b.opened.length < b.ctx.limits.maxDepth
  | _ => True

omit [UrlLibrary] in
theorem stack_mem_openEdits {tag : Tag} {element : OpenElement} {opened : List OpenElement}
    {skipFrom : Option ℕ} (h : .stack opened skipFrom ∈ b.openEdits tag element) :
    opened = element :: b.opened := by
  unfold openEdits at h
  split_ifs at h
  · simp at h
  · cases List.mem_singleton.1 h
    rfl

/-- An element that is not skipped adds at most itself to the stack. -/
theorem stack_mem_elementEdits {tag : Tag} {opened : List OpenElement} {skipFrom : Option ℕ}
    (h : .stack opened skipFrom ∈ b.elementEdits tag) : opened.length = b.opened.length + 1 := by
  unfold elementEdits at h
  dsimp only at h
  cases hclass : classify (lowercase tag.name) with
  | void void =>
      rw [hclass] at h
      cases void with
      | lineBreak => simp [voidEdits] at h
      | rule => simp [voidEdits] at h
      | image =>
          simp only [voidEdits, imageEdits] at h
          split at h
          · simp at h
          · split at h <;> simp at h
  | inline inline =>
      rw [hclass] at h
      dsimp only at h
      split_ifs at h
      all_goals simp at h
      all_goals rw [h.1, List.length_cons]
  | block block =>
      rw [hclass] at h
      rcases List.mem_append.1 h with h | h
      · exact (stack_not_mem_opening block tag opened skipFrom h).elim
      · rw [stack_mem_openEdits h, List.length_cons]
  | skip =>
      rw [hclass] at h
      rw [stack_mem_openEdits h, List.length_cons]
  | flatten =>
      rw [hclass] at h
      rw [stack_mem_openEdits h, List.length_cons]

theorem stack_mem_edits {token : Token} (hwithin : b.OpensWithin token)
    (hb : b.opened.length ≤ b.ctx.limits.maxDepth) {opened : List OpenElement}
    {skipFrom : Option ℕ} (h : .stack opened skipFrom ∈ b.edits token) :
    opened.length ≤ b.ctx.limits.maxDepth := by
  cases token with
  | startTag tag =>
      simp only [edits, startEdits] at h
      split_ifs at h with hskipping hskipped hdepth
      · unfold skippedEdits at h
        split_ifs at h with hpush
        · cases List.mem_singleton.1 h
          simp only [Bool.and_eq_true, decide_eq_true_eq] at hpush
          simp only [List.length_cons]
          omega
        · simp at h
      · unfold skipEdits at h
        split_ifs at h with hchild
        · simp at h
        · simp only [List.mem_cons, List.not_mem_nil, or_false, reduceCtorEq, false_or] at h
          cases h
          rcases hwithin with hsome | hnot | hnone | hbelow
          · exact (hskipping hsome).elim
          · exact (hnot hskipped).elim
          · exact (hchild hnone).elim
          · simp only [List.length_cons]
            omega
      · simp at h
      · rw [stack_mem_elementEdits h]
        omega
  | endTag tag =>
      simp only [edits] at h
      split_ifs at h
      · exact Nat.le_trans (stack_mem_closeEdits h) hb
      · simp at h
  | characters text => simp [edits] at h
  | ignored => simp [edits] at h

/-! ## What is cut -/

/-- The text, the blocks, the rows and the cells so far. -/
def kept (b : Builder) : List RenderBlock × List Span × List Char × Option TableBuild :=
  (b.blocks, b.spans, b.preText, b.table)

/-- Limits with more room would have kept more of the token. -/
def Cuts (b : Builder) (token : Token) : Prop :=
  ∃ limits, b.ctx.limits.Roomier limits ∧
    ((b.withLimits limits).processToken token).kept ≠ (b.processToken token).kept

/-- Limits with more room would have kept more at the end of the input. -/
def CutsAtEnd (b : Builder) : Prop :=
  ∃ limits, b.ctx.limits.Roomier limits ∧ (b.withLimits limits).finish.blocks ≠ b.finish.blocks

/-! ## The condition -/

/-- Nothing the token changes escapes the caps. -/
def Meets (b : Builder) (token : Token) : Prop :=
  b.stopped = true ∨
    b.OpensWithin token ∧ Along (fun b edit => b.Fits edit ∧ b.Reports edit) b (b.steps token)

/-- There is text or a table left to emit. -/
def HasOutput (b : Builder) : Prop :=
  match b.table with
  | none => trimSpans b.spans ≠ []
  | some table => table.rows ≠ [] ∨ table.currentRow.getD [] ≠ []

/-- The end of the input leaves out nothing that was cut. -/
def MeetsAtEnd (b : Builder) : Prop :=
  b.truncated.isSome ∨
    b.RowFits ∧ (b.textBytes < b.ctx.limits.maxTextBytes ∨ b.HasOutput)

omit [UrlLibrary] in
theorem along_and {P Q : Builder → Edit → Prop} {b : Builder} {edits : List Edit}
    (h : Along (fun b edit => P b edit ∧ Q b edit) b edits) :
    Along P b edits ∧ Along Q b edits := by
  induction edits generalizing b with
  | nil => exact ⟨trivial, trivial⟩
  | cons edit edits ih =>
      obtain ⟨⟨hp, hq⟩, hrest⟩ := h
      exact ⟨⟨hp, (ih hrest).1⟩, hq, (ih hrest).2⟩

/-- Every cap that the builder keeps between two tokens. -/
structure Kept (limits : Limits) (b : Builder) : Prop where
  capped : b.Capped limits
  held : b.held ≤ limits.maxTextBytes
  depth : b.opened.length ≤ limits.maxDepth

/-- A token that meets the condition keeps every cap. -/
theorem kept_processToken {limits : Limits} (h : b.Kept limits) {token : Token}
    (hmeets : b.Meets token) : (b.processToken token).Kept limits := by
  cases hstop : b.stopped with
  | true =>
      rw [processToken, if_pos hstop]
      exact h
  | false =>
      have hsteps : b.steps token = b.edits token := by simp [steps, hstop]
      obtain ⟨hwithin, halong⟩ := hmeets.resolve_left (by simp [hstop])
      have hfits := (along_and halong).1
      rw [processToken_eq]
      refine ⟨h.capped.applyAll _, ?_, ?_⟩
      · refine (applyAll_induction (I := fun b => b.Capped limits ∧ b.held ≤ limits.maxTextBytes)
          ⟨h.capped, h.held⟩ hfits ?_).2
        intro b edit hfits hinv
        exact ⟨hinv.1.apply edit, held_apply hinv.1 hinv.2 hfits⟩
      · rw [hsteps]
        have hctx := h.capped.ctx
        refine depth_applyAll h.depth fun opened skipFrom hmem => ?_
        rw [← hctx] at h ⊢
        exact stack_mem_edits hwithin h.depth hmem

/-- More room changes nothing that the token keeps, or the budget is used up. -/
theorem kept_eq_of_untruncated {limits : Limits} (hcapped : b.Capped b.ctx.limits) {token : Token}
    (hmeets : b.Meets token) (hroomy : b.ctx.limits.Roomier limits)
    (hnone : (b.processToken token).truncated = none) :
    (b.processToken token).Full ∨
      ((b.withLimits limits).processToken token).kept = (b.processToken token).kept := by
  have hgrows : Grows b (b.processToken token) := by
    rw [processToken_eq]
    exact b.grows_applyAll _
  have hopen := hgrows.untruncated hnone
  have hlive : b.stopped = false := by simp [stopped, hopen]
  have hlive' : (b.withLimits limits).stopped = false := by simp [stopped, withLimits, hopen]
  obtain ⟨-, halong⟩ := hmeets.resolve_left (by simp [hlive])
  have hsteps : (b.withLimits limits).steps token = b.steps token := by
    simp only [steps, hlive, hlive', edits_withLimits hroomy]
  rw [processToken_eq, processToken_eq, hsteps]
  rw [processToken_eq] at hnone
  rcases applyAll_withLimits hroomy hcapped (along_and halong).2 hnone with hfull | hsame
  · exact .inl hfull
  · rw [hsame]
    exact .inr rfl

omit [UrlLibrary] in
/-- Emitting text into a cell leaves the rows and the cells in number. -/
theorem table_flush {table : TableBuild} (h : b.table = some table) :
    ∃ after, b.flush.table = some after ∧ after.rows = table.rows ∧
      (after.currentRow.getD [] ≠ [] ↔ table.currentRow.getD [] ≠ []) := by
  by_cases hblank : trimSpans b.spans = []
  · rw [flush_of_blank hblank]
    exact ⟨table, h, rfl, Iff.rfl⟩
  · rw [flush_of_table hblank h]
    refine ⟨_, rfl, rfl, ?_⟩
    simp only [TableBuild.extendCell]
    cases table.currentRow with
    | none => exact Iff.rfl
    | some row =>
        have hlength := TableBuild.extendCell_row (trimSpans b.spans) row
        simp only [Option.map_some, Option.getD_some, ne_eq, ← List.length_eq_zero_iff, hlength]

omit [UrlLibrary] in
theorem rows_commitRow {table : TableBuild} {maxRows : ℕ} (hfits : table.RowFits maxRows)
    (h : table.rows ≠ [] ∨ table.currentRow.getD [] ≠ []) :
    (table.commitRow maxRows).1.rows ≠ [] := by
  unfold TableBuild.commitRow
  cases hcurrent : table.currentRow with
  | none => simpa [hcurrent] using h
  | some row =>
      dsimp only
      split_ifs with hempty hroom
      · simpa [hcurrent, hempty] using h
      · simp
      · exact ((hfits row hcurrent).elim hempty hroom).elim

omit [UrlLibrary] in
/-- Whatever is left to emit reports that the budget is used up. -/
theorem truncated_finish (hfull : b.Full) (hfits : b.RowFits) (hout : b.HasOutput) :
    b.finish.truncated ≠ none := by
  intro hnone
  have hctx := b.grows_flush.ctx
  have hbytes := b.emits_flush.textBytes
  have hflush : b.flush.truncated = none := b.flush.grows_closeTable.untruncated hnone
  unfold HasOutput at hout
  cases htable : b.table with
  | none =>
      rw [htable] at hout
      rw [flush_of_none hout htable] at hflush
      have hroom := (pushBlock_of_untruncated (b := { b with spans := [] }) htable hflush).2.1
      exact Nat.not_lt.2 hfull hroom
  | some table =>
      rw [htable] at hout
      obtain ⟨after, hafter, hrows, hrow⟩ := table_flush htable
      have hfile := rows_commitRow (rowFits_flush hfits after hafter) (by rwa [hrows, hrow])
      change b.flush.closeTable.truncated = none at hnone
      unfold closeTable at hnone
      rw [hafter] at hnone
      dsimp only at hnone
      rw [if_neg hfile] at hnone
      have hroom := (pushBlock_of_untruncated (b := { b.flush with table := none }) rfl hnone).2.1
      change b.flush.textBytes < b.flush.ctx.limits.maxTextBytes at hroom
      rw [hbytes, hctx] at hroom
      exact Nat.not_lt.2 hfull hroom

/-- The builder an article starts with. -/
def start (ctx : TransformContext) (pre : Option Truncation) : Builder :=
  { Builder.new ctx with truncated := pre }

omit [UrlLibrary] in
theorem kept_start (ctx : TransformContext) (pre : Option Truncation) :
    (Builder.start ctx pre).Kept ctx.limits where
  capped := capped_new ctx pre
  held := Nat.zero_le _
  depth := Nat.zero_le _

end Builder

/-! ## The document -/

section Documents

variable [UrlLibrary] (ctx : TransformContext) (pre : Option Truncation) (tokens : List Token)

/-- Every limit holds, and every cut is reported. -/
structure LimitsHold : Prop where
  depth : ∀ before after, tokens = before ++ after →
    ((Builder.start ctx pre).run before).opened.length ≤ ctx.limits.maxDepth
  blocks : (transform ctx pre tokens).blocks.length ≤ ctx.limits.maxBlocks
  text : byteLength (blocksText (transform ctx pre tokens).blocks) ≤ ctx.limits.maxTextBytes
  within : ∀ block ∈ (transform ctx pre tokens).blocks, block.Within ctx.limits
  reported : ∀ before token after, tokens = before ++ token :: after →
    ((Builder.start ctx pre).run before).Cuts token → (transform ctx pre tokens).truncated ≠ none
  reportedAtEnd : ((Builder.start ctx pre).run tokens).CutsAtEnd →
    (transform ctx pre tokens).truncated ≠ none

/-- Every token of the article meets the condition. -/
def EveryStepMeets : Prop :=
  ∀ before token after, tokens = before ++ token :: after →
    ((Builder.start ctx pre).run before).Meets token

variable {ctx pre tokens}

theorem run_concat (b : Builder) (before : List Token) (token : Token) :
    b.run (before ++ [token]) = (b.run before).processToken token :=
  List.foldl_append

/-- Every moment of the article. -/
theorem kept_run (hsteps : EveryStepMeets ctx pre tokens) {before after : List Token}
    (h : tokens = before ++ after) : ((Builder.start ctx pre).run before).Kept ctx.limits := by
  induction before using List.reverseRecOn generalizing after with
  | nil => exact Builder.kept_start ctx pre
  | append_singleton before token ih =>
      rw [List.append_assoc] at h
      rw [run_concat]
      exact Builder.kept_processToken (ih h) (hsteps before token after h)

/-- A used up budget shows in the document, if something is left to emit. -/
theorem truncated_transform (hend : ((Builder.start ctx pre).run tokens).MeetsAtEnd)
    (hfull : ((Builder.start ctx pre).run tokens).Full) :
    (transform ctx pre tokens).truncated ≠ none := by
  have hfinish := (Builder.grows_flush ((Builder.start ctx pre).run tokens)).trans
    (Builder.grows_closeTable _)
  intro hnone
  have hopen : ((Builder.start ctx pre).run tokens).truncated = none :=
    hfinish.untruncated hnone
  rcases hend with hsome | ⟨hfits, hroom | hout⟩
  · simp [hopen] at hsome
  · exact Nat.not_lt.2 hfull hroom
  · exact Builder.truncated_finish hfull hfits hout hnone

end Documents

section Plain

open scoped Plain

/-- Caps for two bytes of text. -/
def brief : TransformContext where
  baseUrl := none
  media := .direct
  limits := ⟨2, 100, 2, 8, 8, 512, 64⟩

end Plain

end Vuo.Content
