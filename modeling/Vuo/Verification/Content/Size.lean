import Mathlib.Algebra.BigOperators.Group.List.Basic
import Mathlib.Algebra.Order.Ring.Nat
import Vuo.Verification.Content.Chunks
import Vuo.Verification.Content.PlainText

/-!
# The size of a document

The bytes of all strings a document stores, an address as often as it is stored.
The builder holds as many on the way. Each change adds what it read, and what it
copies: an address in a span or a picture that one of the caps counts, or an
address in a span that no cap counts.
-/

namespace Vuo.Content

/-! ## Bytes -/

/-- An address as it is stored. -/
def urlBytes (u : MediaUrl) : ℕ :=
  byteLength u.asStr.toList

def linkBytes (link : Option MediaUrl) : ℕ :=
  link.elim 0 urlBytes

def Span.bytes (span : Span) : ℕ :=
  byteLength span.text + linkBytes span.link

def spansBytes (spans : List Span) : ℕ :=
  (spans.map Span.bytes).sum

def rowBytes (row : List TableCell) : ℕ :=
  (row.map fun cell => spansBytes cell.spans).sum

def rowsBytes (rows : List (List TableCell)) : ℕ :=
  (rows.map rowBytes).sum

/-- The strings of a block. -/
def BlockKind.bytes : BlockKind → ℕ
  | .heading _ spans => spansBytes spans
  | .paragraph spans => spansBytes spans
  | .listItem _ _ _ spans => spansBytes spans
  | .code language text => byteLength (language.getD []) + byteLength text
  | .image src alt title _ _ link =>
      urlBytes src + byteLength alt + byteLength (title.getD []) + linkBytes link
  | .table rows => rowsBytes rows
  | .rule => 0

def blocksBytes (blocks : List RenderBlock) : ℕ :=
  (blocks.map fun block => block.kind.bytes).sum

/-- All strings of a document. -/
def Document.bytes (document : Document) : ℕ :=
  blocksBytes document.blocks

section Bytes

@[simp]
theorem spansBytes_append (spans more : List Span) :
    spansBytes (spans ++ more) = spansBytes spans + spansBytes more := by
  simp [spansBytes]

@[simp]
theorem spansBytes_nil : spansBytes [] = 0 :=
  rfl

theorem spansBytes_singleton (span : Span) : spansBytes [span] = span.bytes := by
  simp [spansBytes]

theorem spansBytes_reverse (spans : List Span) : spansBytes spans.reverse = spansBytes spans := by
  rw [spansBytes, List.map_reverse, List.sum_reverse, spansBytes]

theorem rowsBytes_append (rows more : List (List TableCell)) :
    rowsBytes (rows ++ more) = rowsBytes rows + rowsBytes more := by
  simp [rowsBytes]

theorem blocksBytes_concat (blocks : List RenderBlock) (block : RenderBlock) :
    blocksBytes (blocks ++ [block]) = blocksBytes blocks + block.kind.bytes := by
  simp [blocksBytes]

theorem byteLength_renderPlainText_le (spans : List Span) :
    byteLength (Span.renderPlainText spans) ≤ spansBytes spans := by
  induction spans with
  | nil => exact Nat.le_refl _
  | cons span spans ih =>
      have hcons : spansBytes (span :: spans) = span.bytes + spansBytes spans := by
        simp [spansBytes]
      have hspan : byteLength span.text ≤ span.bytes := Nat.le_add_right _ _
      rw [Span.renderPlainText] at ih ⊢
      rw [List.flatMap_cons, byteLength_append, hcons]
      omega

theorem spansBytes_trimFirst_le {trim : List Char → List Char}
    (htrim : ∀ text, (trim text).Sublist text) (spans : List Span) :
    spansBytes (trimFirst trim spans) ≤ spansBytes spans := by
  induction spans with
  | nil => exact Nat.le_refl _
  | cons first rest ih =>
      have hcons (span : Span) : spansBytes (span :: rest) = span.bytes + spansBytes rest := by
        simp [spansBytes]
      have htext := byteLength_le_of_sublist (htrim first.text)
      rw [trimFirst, hcons]
      split_ifs
      · omega
      · rw [hcons, Span.bytes, Span.bytes]
        dsimp only
        omega

theorem spansBytes_trimSpans_le (spans : List Span) :
    spansBytes (trimSpans spans) ≤ spansBytes spans := by
  have hstart := spansBytes_trimFirst_le trimStart_sublist spans
  have hend := spansBytes_trimFirst_le trimEnd_sublist (trimFirst trimStart spans).reverse
  rw [spansBytes_reverse] at hend
  rw [trimSpans, spansBytes_reverse]
  omega

end Bytes

/-! ## Tables -/

namespace TableBuild

def bytes (table : TableBuild) : ℕ :=
  rowsBytes (table.rows ++ table.currentRow.toList)

theorem bytes_extendCell_le (table : TableBuild) (spans : List Span) :
    (table.extendCell spans).bytes ≤ table.bytes + spansBytes spans := by
  simp only [bytes, extendCell, rowsBytes_append]
  cases table.currentRow with
  | none => exact Nat.le_add_right _ _
  | some row =>
      rcases row.eq_nil_or_concat with rfl | ⟨front, last, rfl⟩
      · exact Nat.le_add_right _ _
      · simp [List.concat_eq_append, List.modifyLast_concat, rowsBytes, rowBytes]
        omega

theorem bytes_commitRow_le (table : TableBuild) (maxRows : ℕ) :
    rowsBytes (table.commitRow maxRows).1.rows ≤ table.bytes ∧
      (table.commitRow maxRows).1.bytes ≤ table.bytes := by
  simp only [bytes, rowsBytes_append, commitRow]
  cases hrow : table.currentRow with
  | none => exact ⟨Nat.le_add_right _ _, by rw [hrow]⟩
  | some row =>
      dsimp only
      split_ifs
      · exact ⟨Nat.le_add_right _ _, Nat.le_add_right _ _⟩
      · simp [rowsBytes]
      · exact ⟨Nat.le_add_right _ _, Nat.le_add_right _ _⟩

end TableBuild

/-! ## The builder -/

namespace Builder

/-- The strings the builder holds. -/
def bytes (b : Builder) : ℕ :=
  blocksBytes b.blocks + spansBytes b.spans + byteLength b.preText +
    byteLength (b.preLanguage.getD []) + b.table.elim 0 TableBuild.bytes

/-- What the caps have counted: text, and two addresses for a block. -/
def counted (b : Builder) : ℕ :=
  b.textBytes + 2 * b.blocks.length

/-- Nothing is added, and nothing counted is taken back. -/
structure Keeps (b b' : Builder) : Prop where
  bytes : b'.bytes ≤ b.bytes
  blocks : b.blocks.length ≤ b'.blocks.length
  textBytes : b.textBytes ≤ b'.textBytes

theorem Keeps.trans {b b' b'' : Builder} (h : Keeps b b') (h' : Keeps b' b'') : Keeps b b'' :=
  ⟨h'.bytes.trans h.bytes, h.blocks.trans h'.blocks, h.textBytes.trans h'.textBytes⟩

variable {b : Builder}

/-- A block is emitted, or nothing is. -/
theorem bytes_pushBlock_of_none (h : b.table = none) (kind : BlockKind) :
    ((b.pushBlock kind).bytes = b.bytes ∧
        (b.pushBlock kind).blocks.length = b.blocks.length) ∨
      ((b.pushBlock kind).bytes = b.bytes + kind.bytes ∧
        (b.pushBlock kind).blocks.length = b.blocks.length + 1) := by
  rw [pushBlock_of_none h]
  split
  · exact .inl ⟨rfl, rfl⟩
  · split
    · exact .inl ⟨rfl, rfl⟩
    · refine .inr ⟨?_, by simp⟩
      simp only [bytes, blocksBytes_concat]
      omega

/-- In a table its text goes to a cell. -/
theorem bytes_pushBlock_of_some {table : TableBuild} (h : b.table = some table)
    (kind : BlockKind) :
    (b.pushBlock kind).bytes ≤ b.bytes + byteLength kind.plainText ∧
      (b.pushBlock kind).blocks = b.blocks := by
  have hextend := table.bytes_extendCell_le [⟨kind.plainText, {}, none⟩]
  have hspan : spansBytes [⟨kind.plainText, {}, none⟩] = byteLength kind.plainText := by
    simp [spansBytes_singleton, Span.bytes, linkBytes]
  rw [hspan] at hextend
  rw [pushBlock_of_table h]
  split_ifs
  · exact ⟨Nat.le_add_right _ _, rfl⟩
  · refine ⟨?_, rfl⟩
    simp only [bytes, h, Option.elim_some]
    omega

/-- Strings the builder held already, emitted as a block. -/
theorem bytes_pushBlock_le {kind : BlockKind} (hkind : byteLength kind.plainText ≤ kind.bytes) :
    (b.pushBlock kind).bytes ≤ b.bytes + kind.bytes ∧
      b.blocks.length ≤ (b.pushBlock kind).blocks.length := by
  cases htable : b.table with
  | none =>
      rcases bytes_pushBlock_of_none htable kind with ⟨hbytes, hblocks⟩ | ⟨hbytes, hblocks⟩
      · omega
      · omega
  | some table =>
      obtain ⟨hbytes, hblocks⟩ := bytes_pushBlock_of_some htable kind
      rw [hblocks]
      omega

theorem Pending.bytes_kind (pending : Pending) (spans : List Span) :
    (pending.kind spans).bytes = spansBytes spans ∧
      (pending.kind spans).plainText = Span.renderPlainText spans := by
  cases pending <;> exact ⟨rfl, rfl⟩

theorem bytes_flush (b : Builder) :
    b.flush.bytes ≤ b.bytes ∧ b.blocks.length ≤ b.flush.blocks.length := by
  have htrim := spansBytes_trimSpans_le b.spans
  have hemptied : bytes { b with spans := [] } + spansBytes b.spans = b.bytes := by
    simp only [bytes, spansBytes_nil]
    omega
  by_cases hblank : trimSpans b.spans = []
  · rw [flush_of_blank hblank]
    change bytes { b with spans := [] } ≤ b.bytes ∧ _
    exact ⟨by omega, Nat.le_refl _⟩
  · cases htable : b.table with
    | some table =>
        have hextend := table.bytes_extendCell_le (trimSpans b.spans)
        rw [flush_of_table hblank htable]
        simp only [bytes, htable, Option.elim_some, spansBytes_nil] at hextend ⊢
        exact ⟨by omega, Nat.le_refl _⟩
    | none =>
        obtain ⟨hkind, hplain⟩ := Pending.bytes_kind b.pending (trimSpans b.spans)
        have hle := byteLength_renderPlainText_le (trimSpans b.spans)
        rw [← hplain, ← hkind] at hle
        obtain ⟨hpush, hblocks⟩ := bytes_pushBlock_le (b := { b with spans := [] }) hle
        rw [hkind] at hpush
        rw [flush_of_none hblank htable]
        change bytes (pushBlock { b with spans := [] } _) ≤ b.bytes ∧ _
        exact ⟨by omega, hblocks⟩

theorem keeps_flush (b : Builder) : Keeps b b.flush :=
  ⟨b.bytes_flush.1, b.bytes_flush.2, b.emits_flush.textBytes.ge⟩

theorem keeps_closeTable (b : Builder) : Keeps b b.closeTable := by
  have htext := b.emits_closeTable.textBytes
  unfold closeTable at htext ⊢
  split
  · exact ⟨Nat.le_refl _, Nat.le_refl _, Nat.le_refl _⟩
  · next table htable =>
      have hrows := (table.bytes_commitRow_le b.ctx.limits.maxTableRows).1
      have hclosed : bytes { b with table := none } + table.bytes = b.bytes := by
        simp [bytes, htable]
      dsimp only at htext ⊢
      split_ifs
      · exact ⟨by omega, Nat.le_refl _, Nat.le_refl _⟩
      · have hpush := bytes_pushBlock_of_none (b := { b with table := none }) rfl
          (.table (table.commitRow b.ctx.limits.maxTableRows).1.rows)
        have hframe := emits_pushBlock { b with table := none }
          (.table (table.commitRow b.ctx.limits.maxTableRows).1.rows)
        rw [BlockKind.bytes] at hpush
        refine ⟨?_, ?_, hframe.textBytes.ge⟩
        · omega
        · rcases hpush with ⟨_, hblocks⟩ | ⟨_, hblocks⟩
          · exact hblocks.ge
          · exact Nat.le_of_lt (hblocks ▸ Nat.lt_succ_self _)

theorem keeps_commitRow (b : Builder) : Keeps b b.commitRow := by
  unfold commitRow
  split
  · exact ⟨Nat.le_refl _, Nat.le_refl _, Nat.le_refl _⟩
  · next table htable =>
      have hrow := (table.bytes_commitRow_le b.ctx.limits.maxTableRows).2
      have hfiled : Keeps b { b with
          table := some (table.commitRow b.ctx.limits.maxTableRows).1 } := by
        refine ⟨?_, Nat.le_refl _, Nat.le_refl _⟩
        simp only [bytes, htable, Option.elim_some]
        omega
      dsimp only
      split_ifs
      · exact ⟨hfiled.bytes, hfiled.blocks, hfiled.textBytes⟩
      · exact hfiled

theorem keeps_startCell (b : Builder) (header : Bool) : Keeps b (b.startCell header) := by
  unfold startCell
  split
  · exact ⟨Nat.le_refl _, Nat.le_refl _, Nat.le_refl _⟩
  · next table htable =>
      have hrow : rowsBytes [table.currentRow.getD []] = rowsBytes table.currentRow.toList := by
        cases table.currentRow <;> rfl
      have hcell : rowsBytes [table.currentRow.getD [] ++ [⟨[], header⟩]] =
          rowsBytes table.currentRow.toList := by
        rw [← hrow]
        simp [rowsBytes, rowBytes]
      dsimp only
      split_ifs
      · refine ⟨?_, Nat.le_refl _, Nat.le_refl _⟩
        simp [bytes, htable, TableBuild.bytes, rowsBytes_append, hcell]
      · refine ⟨?_, Nat.le_refl _, Nat.le_refl _⟩
        simp [bytes, htable, TableBuild.bytes, rowsBytes_append, hrow, recordTruncation]

theorem keeps_openRow (b : Builder) : Keeps b b.openRow := by
  refine b.keeps_commitRow.trans ⟨?_, Nat.le_refl _, Nat.le_refl _⟩
  simp only [openRow, bytes]
  cases b.commitRow.table with
  | none => exact Nat.le_refl _
  | some table => simp [TableBuild.bytes, rowsBytes, rowBytes]

theorem keeps_openTable (b : Builder) : Keeps b b.openTable := by
  refine ⟨?_, Nat.le_refl _, Nat.le_refl _⟩
  simp only [openTable, bytes]
  cases b.table with
  | none => exact Nat.le_refl _
  | some table => exact Nat.le_refl _

/-- An open code block moves its text into a block, or into a cell. -/
theorem keeps_closePre (b : Builder) : Keeps b b.closePre := by
  have hcleared (b' : Builder) : Keeps b' { b' with spans := [] } := by
    refine ⟨?_, Nat.le_refl _, Nat.le_refl _⟩
    simp only [bytes, spansBytes_nil]
    omega
  have hpast : b.pastPre.bytes + byteLength b.preText + byteLength (b.preLanguage.getD []) =
      b.bytes := by
    simp only [pastPre, bytes, byteLength, Option.getD_none]
    omega
  have htext := byteLength_le_of_sublist b.codeText_sublist
  by_cases hdepth : b.preDepth - 1 = 0
  · by_cases hblank : b.codeText = []
    · rw [closePre_of_blank hdepth hblank]
      have hmoved : Keeps b b.pastPre := ⟨by omega, Nat.le_refl _, Nat.le_refl _⟩
      exact hmoved.trans (hcleared _)
    · have hkind : byteLength (BlockKind.code b.preLanguage b.codeText).plainText ≤
          (BlockKind.code b.preLanguage b.codeText).bytes := Nat.le_add_left _ _
      obtain ⟨hpush, hblocks⟩ := bytes_pushBlock_le (b := b.pastPre) hkind
      rw [BlockKind.bytes] at hpush
      rw [closePre_of_outer hdepth hblank]
      have hmoved : Keeps b (b.pastPre.pushBlock (.code b.preLanguage b.codeText)) :=
        ⟨by omega, hblocks, (b.pastPre.emits_pushBlock _).textBytes.ge⟩
      exact hmoved.trans (hcleared _)
  · rw [closePre_of_inner hdepth]
    exact ⟨Nat.le_refl _, Nat.le_refl _, Nat.le_refl _⟩

theorem keeps_rule (b : Builder) : Keeps b (b.pushBlock .rule) := by
  have hkind : byteLength BlockKind.rule.plainText ≤ BlockKind.rule.bytes := Nat.le_refl _
  obtain ⟨hbytes, hblocks⟩ := bytes_pushBlock_le (b := b) hkind
  exact ⟨hbytes, hblocks, (b.emits_pushBlock .rule).textBytes.ge⟩

end Builder

end Vuo.Content
