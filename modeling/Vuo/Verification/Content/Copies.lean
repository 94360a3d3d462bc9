import Mathlib.Algebra.Order.BigOperators.Group.List
import Vuo.Verification.Content.Consent
import Vuo.Verification.Content.Inline
import Vuo.Verification.Content.Size

/-!
# Addresses that no cap counts

A line break under a link stores the address of the link once more, and no cap
counts it. So does a text of which nothing fits into what is left of the text
cap. Everything else a document stores is linear in what was read.
-/

namespace Vuo.Content

/-! ## What is read -/

def Attribute.bytes (a : Attribute) : ℕ :=
  byteLength a.name.toList + byteLength a.value.toList

def Tag.bytes (tag : Tag) : ℕ :=
  byteLength tag.name.toList + (tag.attrs.map Attribute.bytes).sum

/-- A lower bound of what the token took in the article. -/
def Token.bytes : Token → ℕ
  | .startTag tag => tag.bytes
  | .endTag tag => tag.bytes
  | .characters text => byteLength text
  | .ignored => 0

/-- The tokens, and the address that references are resolved against. -/
def inputBytes (ctx : TransformContext) (tokens : List Token) : ℕ :=
  ctx.baseUrl.elim 0 (fun base => byteLength base.href.toList) + (tokens.map Token.bytes).sum

section Read

theorem bytes_le_inputBytes (ctx : TransformContext) {tokens : List Token} {token : Token}
    (h : token ∈ tokens) : token.bytes ≤ inputBytes ctx tokens := by
  have hsum := List.le_sum_of_mem (List.mem_map_of_mem (f := Token.bytes) h)
  rw [inputBytes]
  omega

theorem byteLength_attr_le {tag : Tag} {name : String} {value : List Char}
    (h : attr tag name = some value) : byteLength value ≤ tag.bytes := by
  obtain ⟨a, hfound, rfl⟩ := Option.map_eq_some_iff.1 h
  have hsum := List.le_sum_of_mem
    (List.mem_map_of_mem (f := Attribute.bytes) (List.mem_of_find?_eq_some hfound))
  rw [Attribute.bytes] at hsum
  rw [Tag.bytes]
  omega

theorem byteLength_nonEmptyAttr_le {tag : Tag} {name : String} {value : List Char}
    (h : nonEmptyAttr tag name = some value) : byteLength value ≤ tag.bytes :=
  byteLength_attr_le (Option.filter_eq_some_iff.1 h).1

theorem byteLength_trim_le (text : List Char) : byteLength (trim text) ≤ byteLength text :=
  byteLength_le_of_sublist ((trimEnd_sublist _).trans (trimStart_sublist text))

theorem sublist_of_mem_splitOnP {p : Char → Bool} {text word : List Char}
    (h : word ∈ text.splitOnP p) : word.Sublist text := by
  induction text generalizing word with
  | nil =>
      rw [List.splitOnP_nil, List.mem_singleton] at h
      exact h ▸ .slnil
  | cons c text ih =>
      rw [List.splitOnP_cons_eq_if_modifyHead] at h
      split_ifs at h
      · rcases List.mem_cons.1 h with rfl | h
        · exact List.nil_sublist _
        · exact (ih h).cons c
      · cases hparts : text.splitOnP p with
        | nil => simp [hparts] at h
        | cons first rest =>
            rw [hparts] at h ih
            rcases List.mem_cons.1 h with rfl | h
            · exact (ih List.mem_cons_self).cons_cons c
            · exact (ih (List.mem_cons_of_mem _ h)).cons c

theorem utf8Size_toLower_le (c : Char) : c.toLower.utf8Size ≤ c.utf8Size := by
  unfold Char.toLower
  split
  · next hupper =>
      have hascii : (c.val + ('a'.val - 'A'.val)) ≤ 127 := by
        obtain ⟨_, hz⟩ := hupper
        have hz : c.val.toNat ≤ 90 := hz
        have h32 : ('a'.val - 'A'.val).toNat = 32 := by decide
        rw [UInt32.le_iff_toNat_le, UInt32.toNat_add, h32]
        change _ ≤ 127
        omega
      rw [Char.utf8Size_eq_one_iff.2 hascii]
      exact c.utf8Size_pos
  · exact Nat.le_refl _

theorem byteLength_map_toLower_le (text : List Char) :
    byteLength (text.map Char.toLower) ≤ byteLength text := by
  induction text with
  | nil => exact Nat.le_refl _
  | cons c text ih =>
      have hc := utf8Size_toLower_le c
      rw [List.map_cons, byteLength, byteLength]
      omega

/-- The language of a code block is a part of its class. -/
theorem byteLength_classLanguage_le (tag : Tag) :
    byteLength ((classLanguage tag).getD []) ≤ tag.bytes := by
  cases hlanguage : classLanguage tag with
  | none => exact Nat.zero_le _
  | some language =>
      obtain ⟨value, hvalue, hfound⟩ := Option.bind_eq_some_iff.1 hlanguage
      obtain ⟨word, hword, hfound⟩ := List.exists_of_findSome?_eq_some hfound
      obtain ⟨start, -, hstart⟩ := List.exists_of_findSome?_eq_some hfound
      have hclass := byteLength_attr_le hvalue
      have hpart := byteLength_le_of_sublist (sublist_of_mem_splitOnP (List.mem_filter.1 hword).1)
      have hlower := byteLength_map_toLower_le word
      have hdrop := byteLength_le_of_sublist
        (List.drop_sublist start.length (word.map Char.toLower))
      split_ifs at hstart
      obtain rfl := Option.some.inj hstart
      rw [Option.getD_some]
      omega

end Read

/-! ## What a change adds -/

/-- The bytes a change brings along. -/
def Edit.cost : Edit → ℕ
  | .text read => byteLength read
  | .lineBreak => 1
  | .image _ alt title _ _ _ => byteLength alt + byteLength (title.getD [])
  | .openPre tag => byteLength ((classLanguage tag).getD [])
  | _ => 0

namespace Builder

/-- The bytes of an address that a change stores although no cap counts it. -/
def copied (b : Builder) : Edit → ℕ
  | .text read =>
      if b.skipFrom = none ∧ b.preDepth = 0 ∧ b.wanted read ≠ [] ∧ b.budget ≠ 0 ∧
          b.taken read = [] then linkBytes b.link
      else 0
  | .lineBreak => if b.preDepth = 0 ∧ b.spans ≠ [] then linkBytes b.link else 0
  | _ => 0

/-- The addresses that a change stores and a cap counts are no longer than that. -/
def Addressed (most : ℕ) (b : Builder) : Edit → Prop
  | .text _ => linkBytes b.link ≤ most
  | .image src _ _ _ _ link => urlBytes src ≤ most ∧ linkBytes link ≤ most
  | _ => True

variable {b : Builder} {most : ℕ}

theorem counted_le_of_keeps {b' : Builder} (h : Keeps b b') : b.counted ≤ b'.counted := by
  have hblocks := h.blocks
  have htext := h.textBytes
  rw [counted, counted]
  omega

theorem spansBytes_appendSpan_le (b : Builder) (text : List Char) :
    spansBytes (b.appendSpan text) ≤ spansBytes b.spans + byteLength text + linkBytes b.link := by
  have hnew : spansBytes (b.spans ++ [⟨text, b.style, b.link⟩]) =
      spansBytes b.spans + byteLength text + linkBytes b.link := by
    rw [spansBytes_append, spansBytes_singleton, Span.bytes, Nat.add_assoc]
  unfold appendSpan
  split
  · next last hlast =>
      obtain ⟨front, hspans⟩ := List.getLast?_eq_some_iff.1 hlast
      split_ifs
      · rw [hspans, List.dropLast_concat, spansBytes_append, spansBytes_append,
          spansBytes_singleton, spansBytes_singleton, Span.bytes, Span.bytes, byteLength_append]
        dsimp only
        omega
      · exact hnew.le
  · exact hnew.le

theorem byteLength_taken_le (b : Builder) (text : List Char) :
    byteLength (b.taken text) ≤ byteLength text := by
  have hclamp := byteLength_le_of_sublist
    (clampToCharBoundary_isPrefix (b.wanted text) b.budget).sublist
  have hwanted : byteLength (b.wanted text) ≤ byteLength text := by
    unfold wanted
    split_ifs
    · exact Nat.le_refl _
    · rw [collapsed_eq]
      exact byteLength_collapseFrom_le _ text
  exact hclamp.trans hwanted

/-- A text that is taken pays for the address of its span. -/
theorem pays_pushText (h : linkBytes b.link ≤ most) (text : List Char) :
    (b.pushText text).bytes + most * b.counted ≤
      b.bytes + byteLength text + b.copied (.text text) + most * (b.pushText text).counted := by
  have htaken := b.byteLength_taken_le text
  cases hskip : b.skipFrom with
  | some depth =>
      rw [pushText_of_skip (by simp [hskip])]
      omega
  | none =>
      by_cases hpre : 0 < b.preDepth
      · rw [pushText_of_pre hskip hpre]
        split_ifs
        · exact Nat.add_le_add_right ((Nat.le_add_right _ _).trans (Nat.le_add_right _ _)) _
        · simp only [bytes, counted, byteLength_append, Nat.mul_add]
          omega
      · have hflow : b.preDepth = 0 := by omega
        rw [pushText_of_flow hskip hflow]
        split_ifs with hwanted hbudget
        · omega
        · exact Nat.add_le_add_right ((Nat.le_add_right _ _).trans (Nat.le_add_right _ _)) _
        · have hspan := b.spansBytes_appendSpan_le (b.taken text)
          by_cases hnothing : b.taken text = []
          · have hcopied : b.copied (.text text) = linkBytes b.link :=
              if_pos ⟨hskip, hflow, hwanted, hbudget, hnothing⟩
            simp only [bytes, counted, hcopied, Nat.mul_add]
            omega
          · have hpaid : most ≤ most * byteLength (b.taken text) :=
              Nat.le_mul_of_pos_right most (byteLength_pos hnothing)
            simp only [bytes, counted, Nat.mul_add]
            omega

theorem pays_lineBreak (b : Builder) :
    b.breakLine.bytes ≤ b.bytes + 1 + b.copied .lineBreak ∧ b.breakLine.counted = b.counted := by
  have hbreak : byteLength ['\n'] = 1 := by decide
  unfold breakLine copied
  by_cases hpre : 0 < b.preDepth
  · rw [if_pos hpre]
    refine ⟨?_, rfl⟩
    simp only [bytes, byteLength_append, hbreak]
    omega
  · rw [if_neg hpre]
    by_cases hspans : b.spans = []
    · rw [if_pos hspans]
      exact ⟨by omega, rfl⟩
    · have hflow : b.preDepth = 0 := by omega
      rw [if_neg hspans, if_pos ⟨hflow, hspans⟩]
      refine ⟨?_, rfl⟩
      simp only [bytes, spansBytes_append, spansBytes_singleton, Span.bytes, hbreak]
      omega

/-- A picture that is emitted is a block, and pays for two addresses. -/
theorem pays_image {src : MediaUrl} {alt : List Char} {title : Option (List Char)}
    {fetch : MediaFetch} {intrinsic : Option (ℕ × ℕ)} {link : Option MediaUrl}
    (hsrc : urlBytes src ≤ most) (hlink : linkBytes link ≤ most) :
    (b.pushBlock (.image src alt title fetch intrinsic link)).bytes + most * b.counted ≤
      b.bytes + (byteLength alt + byteLength (title.getD [])) +
        most * (b.pushBlock (.image src alt title fetch intrinsic link)).counted := by
  have htext := (b.emits_pushBlock (.image src alt title fetch intrinsic link)).textBytes
  cases htable : b.table with
  | none =>
      rcases bytes_pushBlock_of_none htable (.image src alt title fetch intrinsic link) with
        ⟨hbytes, hblocks⟩ | ⟨hbytes, hblocks⟩
      · rw [counted, counted, htext, hblocks]
        omega
      · rw [BlockKind.bytes] at hbytes
        rw [counted, counted, htext, hblocks]
        simp only [Nat.mul_add]
        omega
  | some table =>
      obtain ⟨hbytes, hblocks⟩ :=
        bytes_pushBlock_of_some htable (.image src alt title fetch intrinsic link)
      rw [BlockKind.plainText] at hbytes
      rw [counted, counted, htext, hblocks]
      omega

/-- What a change adds is what it brings along, what a cap counts and what it copies. -/
theorem pays_apply {edit : Edit} (h : b.Addressed most edit) :
    (b.apply edit).bytes + most * b.counted ≤
      b.bytes + edit.cost + b.copied edit + most * (b.apply edit).counted := by
  have hkeeps {b' : Builder} (hkeeps : Keeps b b') :
      b'.bytes + most * b.counted ≤ b.bytes + 0 + 0 + most * b'.counted :=
    Nat.add_le_add hkeeps.bytes (Nat.mul_le_mul_left most (counted_le_of_keeps hkeeps))
  have hsame {b' : Builder} (hbytes : b'.bytes ≤ b.bytes) (hcounted : b'.counted = b.counted) :
      b'.bytes + most * b.counted ≤ b.bytes + 0 + 0 + most * b'.counted := by
    rw [hcounted]
    exact Nat.add_le_add_right hbytes _
  cases edit with
  | flush => exact hkeeps b.keeps_flush
  | text text => exact pays_pushText h text
  | lineBreak =>
      obtain ⟨hbytes, hcounted⟩ := b.pays_lineBreak
      change b.breakLine.bytes + _ ≤ b.bytes + 1 + _ + most * b.breakLine.counted
      rw [hcounted]
      exact Nat.add_le_add_right hbytes _
  | rule => exact hkeeps b.keeps_rule
  | image src alt title fetch intrinsic link => exact pays_image h.1 h.2
  | openList ordered =>
      simp only [apply, openList]
      split_ifs <;> exact hsame (Nat.le_refl _) rfl
  | nextItem =>
      simp only [apply, nextItem]
      split <;> exact hsame (Nat.le_refl _) rfl
  | openPre tag =>
      simp only [apply, openPre, Edit.cost]
      split_ifs
      · simp only [bytes, counted, byteLength]
        omega
      · exact Nat.add_le_add_right ((Nat.le_add_right _ _).trans (Nat.le_add_right _ _)) _
  | closePre => exact hkeeps b.keeps_closePre
  | openTable => exact hkeeps b.keeps_openTable
  | leaveTable =>
      have hleft : Keeps b { b with tableDepth := b.tableDepth - 1 } :=
        ⟨Nat.le_refl _, Nat.le_refl _, Nat.le_refl _⟩
      simp only [apply, leaveTable]
      split_ifs
      · exact hkeeps (hleft.trans (keeps_closeTable _))
      · exact hkeeps hleft
  | openRow => exact hkeeps b.keeps_openRow
  | closeRow => exact hkeeps b.keeps_commitRow
  | openCell header => exact hkeeps (b.keeps_startCell header)
  | _ => exact hsame (Nat.le_refl _) rfl

/-- The bytes of the addresses that changes in a row copy. -/
def copies : Builder → List Edit → ℕ
  | _, [] => 0
  | b, edit :: edits => b.copied edit + copies (b.apply edit) edits

theorem copies_append (b : Builder) (edits more : List Edit) :
    b.copies (edits ++ more) = b.copies edits + (b.applyAll edits).copies more := by
  induction edits generalizing b with
  | nil => simp [copies]
  | cons edit edits ih =>
      rw [List.cons_append, copies, copies, ih, applyAll_cons, Nat.add_assoc]

theorem pays_applyAll {edits : List Edit} (h : Along (Addressed most) b edits) :
    (b.applyAll edits).bytes + most * b.counted ≤
      b.bytes + (edits.map Edit.cost).sum + b.copies edits + most * (b.applyAll edits).counted := by
  induction edits generalizing b with
  | nil => simp [copies]
  | cons edit edits ih =>
      have hfirst := pays_apply h.1
      have hrest := ih h.2
      rw [applyAll_cons, copies, List.map_cons, List.sum_cons]
      omega

end Builder

/-! ## What a token adds -/

section Tokens

variable [UrlLibrary]

/-- The addresses in the tag are no longer than that. -/
def Tag.Addressed (ctx : TransformContext) (most : ℕ) (tag : Tag) : Prop :=
  ∀ name u, (nonEmptyAttr tag name).bind (Builder.new ctx).resolve = some u → urlBytes u ≤ most

def Token.Addressed (ctx : TransformContext) (most : ℕ) : Token → Prop
  | .startTag tag => tag.Addressed ctx most
  | _ => True

theorem linkBytes_le {ctx : TransformContext} {most : ℕ} {tag : Tag}
    (h : tag.Addressed ctx most) (name : String) :
    linkBytes ((nonEmptyAttr tag name).bind (Builder.new ctx).resolve) ≤ most := by
  cases hresolve : (nonEmptyAttr tag name).bind (Builder.new ctx).resolve with
  | none => exact Nat.zero_le _
  | some u => exact h name u hresolve

/-- The link in force is one of the links around it. -/
theorem linkBytes_inlineFold_le {ctx : TransformContext} {most : ℕ} {tags : List Tag}
    (h : ∀ tag ∈ tags, tag.Addressed ctx most) : linkBytes (inlineFold ctx tags).2 ≤ most := by
  induction tags with
  | nil => exact Nat.zero_le _
  | cons tag tags ih =>
      have hrest := ih fun tag hmem => h tag (List.mem_cons_of_mem _ hmem)
      rw [inlineFold, inlineEffect]
      split
      case h_7 => exact linkBytes_le (h tag List.mem_cons_self) "href"
      all_goals exact hrest

namespace Builder

variable {b : Builder} {most : ℕ}

omit [UrlLibrary] in
theorem cost_opening_le (block : BlockTag) (tag : Tag) :
    ((block.opening tag).map Edit.cost).sum ≤ tag.bytes := by
  have hlanguage := byteLength_classLanguage_le tag
  cases block <;> simp [BlockTag.opening, Edit.cost, hlanguage]

omit [UrlLibrary] in
theorem cost_openEdits (b : Builder) (tag : Tag) (element : OpenElement) :
    ((b.openEdits tag element).map Edit.cost).sum = 0 := by
  unfold openEdits
  split_ifs <;> rfl

theorem cost_imageEdits_le (b : Builder) (tag : Tag) :
    ((b.imageEdits tag).map Edit.cost).sum ≤ 2 * tag.bytes := by
  have halt : byteLength ((attr tag "alt").getD []) ≤ tag.bytes := by
    cases hattr : attr tag "alt" with
    | none => exact Nat.zero_le _
    | some alt => exact byteLength_attr_le hattr
  have htitle : byteLength (((attr tag "title").filter fun t => t ≠ []).getD []) ≤ tag.bytes := by
    cases hattr : (attr tag "title").filter fun t => t ≠ [] with
    | none => exact Nat.zero_le _
    | some title => exact byteLength_attr_le (Option.filter_eq_some_iff.1 hattr).1
  have hshown (src : MediaUrl) (fetch : MediaFetch) :
      (([.flush, .image src ((attr tag "alt").getD [])
        ((attr tag "title").filter fun t => t ≠ []) fetch (intrinsicSize tag) b.link].map
          Edit.cost).sum) ≤ 2 * tag.bytes := by
    simp only [List.map_cons, List.map_nil, List.sum_cons, List.sum_nil, Edit.cost]
    omega
  unfold imageEdits
  cases (nonEmptyAttr tag "src").bind b.resolve with
  | none => exact Nat.zero_le _
  | some src =>
      dsimp only
      cases b.ctx.media.decideWithConsent src [] with
      | fetch shown => exact hshown shown .allowed
      | needsConsent shown => exact hshown shown .needsConsent
      | drop => exact Nat.zero_le _

theorem cost_startEdits_le (b : Builder) (tag : Tag) :
    ((b.startEdits tag).map Edit.cost).sum ≤ 2 * tag.bytes := by
  unfold startEdits
  split_ifs
  · unfold skippedEdits
    split_ifs <;> exact Nat.zero_le _
  · unfold skipEdits
    split_ifs <;> exact Nat.zero_le _
  · exact Nat.zero_le _
  · unfold elementEdits
    dsimp only
    cases hclass : classify (lowercase tag.name) with
    | void void =>
        cases void with
        | lineBreak =>
            have hname : tag.name.toList ≠ [] := by
              intro hempty
              rw [lowercase, hempty] at hclass
              revert hclass
              decide
            have hpos := byteLength_pos hname
            simp only [voidEdits, List.map_cons, List.map_nil, List.sum_cons, List.sum_nil,
              Edit.cost, Tag.bytes]
            omega
        | rule => exact Nat.zero_le _
        | image => exact b.cost_imageEdits_le tag
    | inline inline =>
        dsimp only
        split_ifs <;> exact Nat.zero_le _
    | block block =>
        have hopening := cost_opening_le block tag
        have hstack := b.cost_openEdits tag ⟨lowercase tag.name, .block block, none, none⟩
        dsimp only
        rw [List.map_append, List.sum_append, hstack]
        omega
    | skip => exact (b.cost_openEdits tag _).le.trans (Nat.zero_le _)
    | flatten => exact (b.cost_openEdits tag _).le.trans (Nat.zero_le _)

theorem cost_edits_le (b : Builder) (token : Token) :
    ((b.edits token).map Edit.cost).sum ≤ 2 * token.bytes := by
  cases token with
  | startTag tag => exact b.cost_startEdits_le tag
  | endTag tag =>
      have hcloses := closes_closeEdits (lowercase tag.name) b.opened b.skipFrom
      have hnone : ∀ cost ∈ (closeEdits (lowercase tag.name) b.opened b.skipFrom).map Edit.cost,
          cost = 0 := by
        intro cost hmem
        obtain ⟨edit, hedit, rfl⟩ := List.mem_map.1 hmem
        have hclose := hcloses edit hedit
        cases edit <;> first | rfl | exact hclose.elim
      unfold edits
      dsimp only
      split_ifs
      · rw [List.sum_eq_zero hnone]
        exact Nat.zero_le _
      · exact Nat.zero_le _
  | characters text =>
      simp only [edits, List.map_cons, List.map_nil, List.sum_cons, List.sum_nil, Edit.cost,
        Token.bytes]
      omega
  | ignored => exact Nat.zero_le _

theorem addressed_imageEdits {tag : Tag} (hlink : linkBytes b.link ≤ most)
    (htag : tag.Addressed b.ctx most) : Along (Addressed most) b (b.imageEdits tag) := by
  unfold imageEdits
  cases hresolve : (nonEmptyAttr tag "src").bind b.resolve with
  | none => trivial
  | some src =>
      have hsrc : urlBytes src ≤ most := htag "src" src hresolve
      dsimp only
      cases hdecide : b.ctx.media.decideWithConsent src [] with
      | fetch shown =>
          obtain rfl := url_of_decide (.inl hdecide)
          exact ⟨trivial, ⟨hsrc, hlink⟩, trivial⟩
      | needsConsent shown =>
          obtain rfl := url_of_decide (.inr hdecide)
          exact ⟨trivial, ⟨hsrc, hlink⟩, trivial⟩
      | drop => trivial

theorem addressed_edits {token : Token} (hlink : linkBytes b.link ≤ most)
    (htoken : token.Addressed b.ctx most) : Along (Addressed most) b (b.edits token) := by
  cases token with
  | startTag tag =>
      rcases startEdits_cases b tag with hsilent | ⟨-, ⟨-, hbreak⟩ | ⟨-, himage⟩⟩
      · refine along_of_forall fun edit hmem b => ?_
        have hsilent := hsilent edit hmem
        cases edit <;> trivial
      · rw [edits, hbreak]
        exact ⟨trivial, trivial⟩
      · rw [edits, himage]
        exact addressed_imageEdits hlink htoken
  | endTag tag =>
      rw [edits]
      split_ifs
      · refine along_of_forall fun edit hmem b => ?_
        have hcloses := closes_closeEdits _ _ _ edit hmem
        cases edit <;> trivial
      · trivial
  | characters text => exact ⟨hlink, trivial⟩
  | ignored => trivial

theorem pays_processToken {inside outer : List Tag} (hfollows : b.Follows inside outer)
    (htags : ∀ tag ∈ inside ++ outer, tag.Addressed b.ctx most) {token : Token}
    (htoken : token.Addressed b.ctx most) :
    (b.processToken token).bytes + most * b.counted ≤
      b.bytes + 2 * token.bytes + b.copies (b.steps token) +
        most * (b.processToken token).counted := by
  have hlink : linkBytes b.link ≤ most := by
    rw [hfollows.link]
    exact linkBytes_inlineFold_le fun tag hmem => htags tag (List.mem_append_right _ hmem)
  rw [processToken_eq, steps]
  split_ifs
  · rw [applyAll_nil, copies]
    omega
  · have hpays := pays_applyAll (addressed_edits hlink htoken)
    have hcost := b.cost_edits_le token
    omega

theorem mem_tagsAfter {tags : List Tag} {token : Token} {tag : Tag}
    (h : tag ∈ b.tagsAfter tags token) : tag ∈ tags ∨ token = .startTag tag := by
  cases token with
  | startTag opened =>
      rw [tagsAfter] at h
      split_ifs at h
      · rcases List.mem_cons.1 h with rfl | h
        · exact .inr rfl
        · exact .inl h
      · exact .inl h
  | _ => exact .inl (List.mem_of_mem_drop h)

/-- What a run adds is linear in what it reads, but for the addresses it copies. -/
theorem pays_run {inside outer : List Tag} (hfollows : b.Follows inside outer)
    (htags : ∀ tag ∈ inside ++ outer, tag.Addressed b.ctx most) {tokens : List Token}
    (htokens : ∀ token ∈ tokens, token.Addressed b.ctx most) :
    (b.run tokens).bytes + most * b.counted ≤
      b.bytes + 2 * (tokens.map Token.bytes).sum + b.copies (b.script tokens) +
        most * (b.run tokens).counted := by
  induction tokens generalizing b inside outer with
  | nil => simp [run, script, copies]
  | cons token tokens ih =>
      have htoken := htokens token List.mem_cons_self
      have hfirst := pays_processToken hfollows htags htoken
      obtain ⟨inside', outer', hfollows', hafter⟩ := follows_processToken hfollows token
      have hctx := b.ctx_processToken token
      have hrest := ih hfollows' (by
          intro tag hmem
          rw [hafter] at hmem
          rw [hctx]
          rcases mem_tagsAfter hmem with hmem | rfl
          · exact htags tag hmem
          · exact htoken)
        (fun token hmem => hctx ▸ htokens token (List.mem_cons_of_mem _ hmem))
      have hrun : b.run (token :: tokens) = (b.processToken token).run tokens := rfl
      rw [hrun, script, copies_append, ← processToken_eq, List.map_cons, List.sum_cons]
      omega

omit [UrlLibrary] in
theorem bytes_finish_le (b : Builder) : b.finish.bytes ≤ b.bytes := by
  have hflush := b.keeps_flush.bytes
  have hclose := b.flush.keeps_closeTable.bytes
  have hblocks : b.finish.bytes ≤ b.flush.closeTable.bytes := by
    simp only [bytes, Nat.add_assoc]
    exact Nat.le_add_right _ _
  omega

end Builder

/-- The bytes of the addresses that an article copies. -/
def copiedBytes (ctx : TransformContext) (pre : Option Truncation) (tokens : List Token) : ℕ :=
  (Builder.start ctx pre).copies ((Builder.start ctx pre).script tokens)

/-- What the caps can count. -/
def Limits.counted (limits : Limits) : ℕ :=
  limits.maxTextBytes + 2 * limits.maxBlocks

theorem bytes_transform_le {ctx : TransformContext} {most : ℕ} (pre : Option Truncation)
    {tokens : List Token} (h : ∀ token ∈ tokens, token.Addressed ctx most) :
    (transform ctx pre tokens).bytes ≤
      2 * inputBytes ctx tokens + most * ctx.limits.counted + copiedBytes ctx pre tokens := by
  have hpays := Builder.pays_run (Builder.follows_start ctx pre)
    (fun _ hmem => by cases hmem) h
  have hstart : (Builder.start ctx pre).bytes = 0 ∧ (Builder.start ctx pre).counted = 0 :=
    ⟨rfl, rfl⟩
  have hcapped := (Builder.capped_new ctx pre).applyAll ((Builder.start ctx pre).script tokens)
  have hrun : { Builder.new ctx with truncated := pre }.applyAll
      ((Builder.start ctx pre).script tokens) = (Builder.start ctx pre).run tokens :=
    ((Builder.start ctx pre).run_eq tokens).symm
  rw [hrun] at hcapped
  have hcounted : ((Builder.start ctx pre).run tokens).counted ≤ ctx.limits.counted := by
    have htext := hcapped.text
    have hblocks := hcapped.count
    rw [Builder.counted, Limits.counted]
    omega
  have hmost := Nat.mul_le_mul_left most hcounted
  have hfinish := ((Builder.start ctx pre).run tokens).bytes_finish_le
  have htransform : transform ctx pre tokens = ((Builder.start ctx pre).run tokens).finish := rfl
  rw [hstart.1, hstart.2] at hpays
  rw [htransform, copiedBytes, inputBytes]
  omega

end Tokens

end Vuo.Content
