import Mathlib.Tactic.Ring
import Vuo.Verification.Content.Copies
import Vuo.Verification.Text

/-!
# Linear documents

A document is linear in its article as long as the addresses that no cap counts
are, and not longer: line breaks under one long link store it once each.
-/

namespace Vuo.Content

/-! ## The URL library -/

section Library

variable [UrlLibrary]

/-- An address grows by a factor at most when it is parsed or resolved. -/
structure Stretches (c d : ℕ) : Prop where
  parse : ∀ raw u, UrlLibrary.parse raw = some u →
    byteLength u.href.toList ≤ c + d * byteLength raw.toList
  join : ∀ base raw u, UrlLibrary.join base raw = some u →
    byteLength u.href.toList ≤ c + d * (byteLength base.href.toList + byteLength raw.toList)

/-- The address of a host. -/
def host : List Char :=
  ['h', 't', 't', 'p', ':', '/', '/', 'e', '/']

/-- An address of the web with a long path. -/
def longAddress (n : ℕ) : List Char :=
  host ++ List.replicate n 'a'

/-- An address in its normal form is parsed as it is. -/
def ReadsPlain : Prop :=
  ∀ n, ∃ u, UrlLibrary.parse (String.ofList (longAddress n)) = some u ∧ u.scheme = "http" ∧
    u.href = String.ofList (longAddress n)

theorem addressed_of_stretches {c d : ℕ} (h : Stretches c d) (ctx : TransformContext)
    {tokens : List Token} {token : Token} (hmem : token ∈ tokens) :
    token.Addressed ctx (c + d * inputBytes ctx tokens) := by
  cases token with
  | startTag tag =>
      intro name u hresolve
      obtain ⟨raw, hraw, hresolve⟩ := Option.bind_eq_some_iff.1 hresolve
      have hattr := byteLength_nonEmptyAttr_le hraw
      have htrim := byteLength_trim_le raw
      have hsum : tag.bytes ≤ (tokens.map Token.bytes).sum :=
        List.le_sum_of_mem (List.mem_map_of_mem (f := Token.bytes) hmem)
      have hfrom (web : Url) (hurl : MediaUrl.fromUrl web = some u) : web = u.url := by
        unfold MediaUrl.fromUrl at hurl
        split_ifs at hurl
        exact congrArg MediaUrl.url (Option.some.inj hurl)
      have hmono {read : ℕ} (hread : read ≤ inputBytes ctx tokens) :
          c + d * read ≤ c + d * inputBytes ctx tokens :=
        Nat.add_le_add_left (Nat.mul_le_mul_left d hread) c
      rw [inputBytes] at hmono ⊢
      unfold Builder.resolve at hresolve
      cases hbase : ctx.baseUrl with
      | none =>
          simp only [Builder.new, hbase] at hresolve
          obtain ⟨web, hparse, hweb⟩ := Option.bind_eq_some_iff.1 hresolve
          obtain rfl := hfrom web hweb
          have hgrown := h.parse _ _ hparse
          simp only [String.toList_ofList] at hgrown
          rw [hbase] at hmono
          exact hgrown.trans (hmono (by rw [Option.elim_none]; omega))
      | some base =>
          simp only [Builder.new, hbase] at hresolve
          obtain ⟨web, hjoin, hweb⟩ := Option.bind_eq_some_iff.1 hresolve
          obtain rfl := hfrom web hweb
          have hgrown := h.join _ _ _ hjoin
          simp only [String.toList_ofList] at hgrown
          rw [hbase] at hmono
          exact hgrown.trans (hmono (by rw [Option.elim_some]; omega))
  | _ => trivial

end Library

/-! ## One long link -/

/-- The start tag of a link. -/
def anchor (n : ℕ) : Tag :=
  ⟨"a", false, [⟨"href", String.ofList (longAddress n)⟩]⟩

/-- Line breaks inside a link with a long address. -/
def linked (n m : ℕ) : List Token :=
  .startTag (anchor n) :: .characters ['x'] ::
    (List.replicate m (.startTag (plainTag "br")) ++ [.characters ['y']])

/-- A page with the caps of the client. -/
def page : TransformContext where
  baseUrl := none
  media := .direct
  limits := .default

theorem byteLength_longAddress (n : ℕ) : byteLength (longAddress n) = 9 + n := by
  have hpath : byteLength (List.replicate n 'a') = n := by
    induction n with
    | zero => rfl
    | succ n ih =>
        have ha : ('a').utf8Size = 1 := by decide
        rw [List.replicate_succ, byteLength, ih, ha, Nat.add_comm]
  have hhost : byteLength host = 9 := by decide
  rw [longAddress, byteLength_append, hpath, hhost]

theorem trim_longAddress (n : ℕ) : trim (longAddress n) = longAddress n := by
  have hhost : (host.all fun c => !isWhitespace c) = true := by decide
  have hblack : ∀ c ∈ longAddress n, ¬isWhitespace c = true := by
    intro c hc
    rcases List.mem_append.1 hc with hc | hc
    · simpa using List.all_eq_true.1 hhost c hc
    · rw [List.eq_of_mem_replicate hc]
      decide
  exact trim_of_black fun c hc => by simpa using hblack c hc

theorem inputBytes_linked (n m : ℕ) : inputBytes page (linked n m) = n + 2 * m + 16 := by
  have hbreaks : (List.replicate m (Token.startTag (plainTag "br"))).map Token.bytes =
      List.replicate m 2 := by
    rw [List.map_replicate]
    rfl
  have hhref : byteLength "href".toList = 4 := by decide
  have ha : byteLength "a".toList = 1 := by decide
  have hx : byteLength ['x'] = 1 := by decide
  have hy : byteLength ['y'] = 1 := by decide
  simp only [inputBytes, page, linked, anchor, List.map_cons, List.map_append, hbreaks,
    List.sum_cons, List.sum_append, List.sum_replicate_nat, Token.bytes, Tag.bytes,
    Attribute.bytes, List.map_nil, List.sum_nil, String.toList_ofList, byteLength_longAddress,
    hhref, ha, hx, hy, Option.elim_none]
  omega

section Run

variable [UrlLibrary]

namespace Builder

variable {b : Builder}

/-- Line breaks after a text outside code blocks each add a span with the link. -/
theorem run_breaks (hskip : b.skipFrom = none) (hpre : b.preDepth = 0) (hspans : b.spans ≠ [])
    (hdepth : b.opened.length < b.ctx.limits.maxDepth) (hlive : b.stopped = false) (m : ℕ) :
    b.run (List.replicate m (.startTag (plainTag "br"))) =
        { b with spans := b.spans ++ List.replicate m ⟨['\n'], b.style, b.link⟩ } ∧
      b.copies (b.script (List.replicate m (.startTag (plainTag "br")))) =
        m * linkBytes b.link := by
  induction m generalizing b with
  | zero =>
      refine ⟨?_, ?_⟩
      · simp [run]
      · simp [script, copies]
  | succ m ih =>
      have hclass : classify (lowercase (plainTag "br").name) = .void .lineBreak := by decide
      have hsteps : b.steps (.startTag (plainTag "br")) = [.lineBreak] := by
        simp [steps, hlive, edits, startEdits, hskip, hclass, Nat.not_le.2 hdepth, elementEdits,
          voidEdits]
      have hfirst : b.processToken (.startTag (plainTag "br")) =
          { b with spans := b.spans ++ [⟨['\n'], b.style, b.link⟩] } := by
        rw [processToken_eq, hsteps]
        simp [apply, breakLine, hpre, hspans]
      have hcopied : b.copies [.lineBreak] = linkBytes b.link := by
        simp [copies, copied, hpre, hspans]
      have hrun :
          b.run (.startTag (plainTag "br") :: List.replicate m (.startTag (plainTag "br"))) =
          (b.processToken (.startTag (plainTag "br"))).run
            (List.replicate m (.startTag (plainTag "br"))) := rfl
      obtain ⟨hrest, hcopies⟩ := @ih { b with spans := b.spans ++ [⟨['\n'], b.style, b.link⟩] }
        hskip hpre (by simp) hdepth hlive
      rw [List.replicate_succ, hrun, script, copies_append, ← processToken_eq, hsteps, hfirst,
        hrest, hcopies, hcopied]
      refine ⟨?_, ?_⟩
      · simp [List.replicate_succ]
      · rw [Nat.succ_mul, Nat.add_comm]

theorem resolve_longAddress (hplain : ReadsPlain) (n : ℕ) :
    ∃ u : MediaUrl, (Builder.new page).resolve (longAddress n) = some u ∧
      urlBytes u = 9 + n := by
  obtain ⟨web, hparse, hscheme, hhref⟩ := hplain n
  have hmedia : MediaUrl.fromUrl web = some ⟨web, .inl hscheme⟩ := dif_pos (.inl hscheme)
  refine ⟨⟨web, .inl hscheme⟩, ?_, ?_⟩
  · simp [resolve, Builder.new, page, MediaUrl.parse, String.toList_ofList, trim_longAddress,
      hparse, hmedia]
  · rw [urlBytes, MediaUrl.asStr, hhref, String.toList_ofList, byteLength_longAddress]

/-- Inside a link. -/
def inAnchor (u : MediaUrl) : Builder :=
  { Builder.new page with
    opened := [⟨"a", .inline .anchor, some {}, some none⟩]
    link := some u }

/-- Inside a link, after a text. -/
def inLink (u : MediaUrl) : Builder :=
  { inAnchor u with spans := [⟨['x'], {}, some u⟩], textBytes := 1 }

omit [UrlLibrary] in
theorem classify_anchor (n : ℕ) : classify (lowercase (anchor n).name) = .inline .anchor := by
  have hclass : classify (lowercase "a") = .inline .anchor := by decide
  exact hclass

theorem processToken_anchor {u : MediaUrl} {n : ℕ}
    (hresolve : (Builder.new page).resolve (longAddress n) = some u) :
    (Builder.start page none).processToken (.startTag (anchor n)) = inAnchor u := by
  have hclass := classify_anchor n
  have hname : lowercase "a" = "a" := by decide
  have hhref : lowercase "href" = "href" := by decide
  have hvoid : isVoid "a" = false := by decide
  have hattr : nonEmptyAttr (anchor n) "href" = some (longAddress n) := by
    have hfull : trim (longAddress n) ≠ [] := by
      rw [trim_longAddress]
      exact List.cons_ne_nil _ _
    simp [nonEmptyAttr, attr, anchor, hhref, String.toList_ofList, hfull]
  have hchild : childless (anchor n) = false := by
    simp [childless, anchor, hname, hvoid]
  rw [processToken_of_live rfl]
  change startTag _ _ = _
  rw [startTag, if_neg (by decide), if_neg (by rw [hclass]; decide), if_neg (by decide),
    startElement, hclass, hchild]
  simp only [Bool.false_eq_true, if_false, if_true, applyInline, hattr, Option.bind_some]
  change openElement { Builder.start page none with
    link := (Builder.new page).resolve (longAddress n) } ⟨lowercase "a", _, _, _⟩ = _
  rw [hresolve, hname]
  rfl

theorem processToken_first (u : MediaUrl) :
    (inAnchor u).processToken (.characters ['x']) = inLink u :=
  rfl

/-- The spans of the paragraph. -/
def linkSpans (u : MediaUrl) (k : ℕ) : List Span :=
  ⟨['x'], {}, some u⟩ :: (List.replicate k ⟨['\n'], {}, some u⟩ ++ [⟨['\n', 'y'], {}, some u⟩])

theorem processToken_end (u : MediaUrl) (k : ℕ) :
    processToken { inLink u with
        spans := (inLink u).spans ++ List.replicate (k + 1) (⟨['\n'], {}, some u⟩ : Span) }
      (.characters ['y']) = { inLink u with spans := linkSpans u k, textBytes := 2 } := by
  have hspans : (inLink u).spans ++ List.replicate (k + 1) (⟨['\n'], {}, some u⟩ : Span) =
      (⟨['x'], {}, some u⟩ :: List.replicate k ⟨['\n'], {}, some u⟩) ++
        [⟨['\n'], {}, some u⟩] := by
    rw [List.replicate_succ']
    rfl
  have htrailing : trailingSpace { inLink u with
      spans := (⟨['x'], {}, some u⟩ :: List.replicate k ⟨['\n'], {}, some u⟩) ++
        [⟨['\n'], {}, some u⟩] } = false := by
    simp only [trailingSpace, List.getLast?_concat]
    rfl
  rw [hspans, processToken_of_live rfl]
  change pushText _ _ = _
  rw [pushText_of_flow rfl rfl, taken, wanted, collapsed_eq, htrailing]
  change (if ['y'] = [] then _ else if (1048575 : ℕ) = 0 then _ else _) = _
  rw [if_neg (by decide), if_neg (by decide)]
  have happend : appendSpan { inLink u with
      spans := (⟨['x'], {}, some u⟩ :: List.replicate k ⟨['\n'], {}, some u⟩) ++
        [⟨['\n'], {}, some u⟩] } ['y'] = linkSpans u k := by
    simp only [appendSpan, List.getLast?_concat, List.dropLast_concat]
    exact if_pos ⟨rfl, rfl⟩
  change { inLink u with
    spans := appendSpan _ ['y'], textBytes := 1 + byteLength ['y'] : Builder } = _
  rw [happend]
  rfl

omit [UrlLibrary] in
theorem trimSpans_linkSpans (u : MediaUrl) (k : ℕ) : trimSpans (linkSpans u k) = linkSpans u k := by
  have hx : trimStart ['x'] = ['x'] := by decide
  have hy : trimEnd ['\n', 'y'] = ['\n', 'y'] := by decide
  have hreverse : (linkSpans u k).reverse = ⟨['\n', 'y'], {}, some u⟩ ::
      (List.replicate k ⟨['\n'], {}, some u⟩ ++ [⟨['x'], {}, some u⟩]) := by
    simp [linkSpans]
  have hfirst : trimFirst trimStart (linkSpans u k) = linkSpans u k := by
    rw [linkSpans, trimFirst, hx]
    rfl
  rw [trimSpans, hfirst, hreverse, trimFirst, hy, if_neg (by decide)]
  rw [← hreverse, List.reverse_reverse]

omit [UrlLibrary] in
theorem finish_link (u : MediaUrl) (k : ℕ) :
    (finish { inLink u with spans := linkSpans u k, textBytes := 2 }).blocks =
      [⟨.paragraph (linkSpans u k), 0⟩] := by
  have htrim := trimSpans_linkSpans u k
  have hflush := @flush_of_none { inLink u with spans := linkSpans u k, textBytes := 2 }
    (by rw [htrim]; exact List.cons_ne_nil _ _) rfl
  rw [finish, hflush, htrim]
  rfl

omit [UrlLibrary] in
theorem copies_of_silent {b : Builder} {edits : List Edit} (h : ∀ edit ∈ edits, edit.Silent) :
    b.copies edits = 0 := by
  induction edits generalizing b with
  | nil => rfl
  | cons edit edits ih =>
      have hsilent := h edit List.mem_cons_self
      have hnone : b.copied edit = 0 := by
        cases edit <;> first | rfl | exact hsilent.elim
      rw [copies, hnone, ih fun edit hmem => h edit (List.mem_cons_of_mem _ hmem)]

/-- A character that fits and is not white space is taken, and copies nothing. -/
theorem copies_characters {b : Builder} {c : Char} (hc : isWhitespace c = false)
    (hfits : c.utf8Size ≤ b.budget) : b.copies (b.steps (.characters [c])) = 0 := by
  have hwanted : b.wanted [c] = [c] := by
    unfold wanted
    split_ifs
    · rfl
    · rw [collapsed_eq]
      simp [collapseFrom, hc]
  have htaken : b.taken [c] = [c] := by
    rw [taken, hwanted]
    simp [clampToCharBoundary, hfits]
  unfold steps
  split_ifs
  · rfl
  · simp [edits, copies, copied, htaken]

end Builder

/-- The article repeats its link for every line break. -/
theorem bytes_linked (hplain : ReadsPlain) (n k : ℕ) :
    copiedBytes page none (linked n (k + 1)) = (k + 1) * (9 + n) ∧
      (k + 1) * (9 + n) ≤ (transform page none (linked n (k + 1))).bytes := by
  obtain ⟨u, hresolve, hbytes⟩ := Builder.resolve_longAddress hplain n
  have hanchor := Builder.processToken_anchor hresolve
  have hfirst := Builder.processToken_first u
  have hlink : linkBytes (Builder.inLink u).link = 9 + n := hbytes
  have hdepth : (Builder.inLink u).opened.length < (Builder.inLink u).ctx.limits.maxDepth := by
    change 1 < 128
    omega
  obtain ⟨hbreaks, hcopies⟩ := @Builder.run_breaks _ (Builder.inLink u) rfl rfl
    (List.cons_ne_nil _ _) hdepth rfl (k + 1)
  have hend := Builder.processToken_end u k
  constructor
  · have hsilent : ∀ edit ∈ (Builder.start page none).steps (.startTag (anchor n)),
        edit.Silent := by
      have hclass := Builder.classify_anchor n
      rcases Builder.startEdits_cases (Builder.start page none) (anchor n) with
        hsilent | ⟨-, ⟨hbreak, -⟩ | ⟨himage, -⟩⟩
      · exact hsilent
      · rw [hclass] at hbreak
        cases hbreak
      · rw [hclass] at himage
        cases himage
    rw [copiedBytes, linked, Builder.script, Builder.script, Builder.script_append,
      Builder.copies_append, Builder.copies_of_silent hsilent, ← Builder.processToken_eq,
      hanchor, Builder.copies_append, ← Builder.processToken_eq, hfirst, Builder.copies_append,
      hcopies, hlink, ← Builder.run_eq, hbreaks, Builder.script, Builder.script, List.append_nil,
      Builder.copies_characters (by decide) (by change 1 ≤ 1048576; omega),
      Builder.copies_characters (by decide) (by change 1 ≤ 1048575; omega)]
    omega
  · have hrun : (Builder.start page none).run (linked n (k + 1)) =
        { Builder.inLink u with spans := Builder.linkSpans u k, textBytes := 2 } := by
      rw [Builder.run] at hbreaks
      rw [linked, Builder.run, List.foldl_cons, List.foldl_cons, hanchor, hfirst,
        List.foldl_append, hbreaks]
      exact hend
    have hblocks := Builder.finish_link u k
    have hspans : spansBytes (Builder.linkSpans u k) = (k + 2) * (9 + n) + (k + 3) := by
      have hx : byteLength ['x'] = 1 := by decide
      have hbreak : byteLength ['\n'] = 1 := by decide
      have hy : byteLength ['\n', 'y'] = 2 := by decide
      have hu : linkBytes (some u) = 9 + n := hbytes
      simp only [Builder.linkSpans, spansBytes, List.map_cons, List.map_append, List.map_replicate,
        List.map_nil, List.sum_cons, List.sum_append, List.sum_replicate_nat, List.sum_nil,
        Span.bytes, hx, hbreak, hy, hu]
      ring
    have hmore : (k + 1) * (9 + n) ≤ (k + 2) * (9 + n) := Nat.mul_le_mul_right _ (by omega)
    rw [← hrun] at hblocks
    change _ ≤ blocksBytes ((Builder.start page none).run (linked n (k + 1))).finish.blocks
    rw [hblocks]
    change _ ≤ spansBytes (Builder.linkSpans u k) + 0
    omega

end Run

/-! ## The bound -/

/-- The factor of a linear bound, once it is known to hold from some size on. -/
theorem exists_linear {w : ℕ → ℕ} {m size : ℕ} (h : ∀ n, size ≤ n → w n ≤ m * n) :
    ∃ a b, ∀ n, w n ≤ a + b * n := by
  refine ⟨((List.range size).map w).sum, m, fun n => ?_⟩
  by_cases hsmall : n < size
  · have hsum : w n ≤ ((List.range size).map w).sum :=
      List.le_sum_of_mem (List.mem_map_of_mem (List.mem_range.2 hsmall))
    omega
  · have hlarge := h n (by omega)
    omega

section Bound

variable [UrlLibrary]

/-- No factor is enough for all articles with one long link. -/
theorem linked_outgrows (hplain : ReadsPlain) (a b : ℕ) {n : ℕ}
    (hn : a + (b + 1) * (2 * b + 9) + 2 * b + 18 < n) :
    ∃ tokens, inputBytes page tokens = n ∧ copiedBytes page none tokens ≤ (b + 1) * n ∧
      a + b * n < (transform page none tokens).bytes := by
  obtain ⟨path, hpath⟩ : ∃ path, n = path + 2 * (b + 1) + 16 :=
    ⟨n - 2 * (b + 1) - 16, by omega⟩
  obtain ⟨hcopied, hbytes⟩ := bytes_linked hplain path b
  refine ⟨linked path (b + 1), ?_, ?_, ?_⟩
  · rw [inputBytes_linked, hpath]
  · rw [hcopied]
    exact Nat.mul_le_mul_left _ (by omega)
  · have hsplit : (b + 1) * n = (b + 1) * (9 + path) + (b + 1) * (2 * b + 9) := by
      rw [← Nat.mul_add, hpath]
      congr 1
      omega
    have hmore : (b + 1) * n = b * n + n := Nat.succ_mul b n
    omega

/-- The strings of documents are linear in the articles exactly if the addresses
are that a line break, or a text of which nothing fits, stores under a link. -/
theorem linear_iff {c d : ℕ} (hstretch : Stretches c d) (hplain : ReadsPlain) (w : ℕ → ℕ) :
    (∀ limits, ∃ a b, ∀ ctx pre tokens, ctx.limits = limits →
        copiedBytes ctx pre tokens ≤ w (inputBytes ctx tokens) →
        (transform ctx pre tokens).bytes ≤ a + b * inputBytes ctx tokens) ↔
      ∃ a b, ∀ n, w n ≤ a + b * n := by
  constructor
  · intro hlinear
    obtain ⟨a, b, hbound⟩ := hlinear .default
    refine @exists_linear w (b + 1) (a + (b + 1) * (2 * b + 9) + 2 * b + 19) fun n hn => ?_
    obtain ⟨tokens, hinput, hcopied, hbytes⟩ := @linked_outgrows _ hplain a b n (by omega)
    by_contra hmore
    have hwithin := hbound page none tokens rfl (by rw [hinput]; omega)
    rw [hinput] at hwithin
    omega
  · rintro ⟨a, b, hw⟩ limits
    refine ⟨c * limits.counted + a, 2 + d * limits.counted + b, ?_⟩
    intro ctx pre tokens hlimits hcopied
    have hbytes := bytes_transform_le pre fun token (hmem : token ∈ tokens) =>
      addressed_of_stretches hstretch ctx hmem
    have hsmall := hw (inputBytes ctx tokens)
    rw [hlimits] at hbytes
    calc
      (transform ctx pre tokens).bytes ≤
          2 * inputBytes ctx tokens + (c + d * inputBytes ctx tokens) * limits.counted +
            (a + b * inputBytes ctx tokens) := by omega
      _ = c * limits.counted + a + (2 + d * limits.counted + b) * inputBytes ctx tokens := by
        ring

end Bound

/-! ## A library -/

/-- A library that reads plain addresses of one host and leaves them as they are. -/
abbrev echoUrls : UrlLibrary where
  parse raw :=
    if host <+: raw.toList then some ⟨"http", some "e", some 80, raw⟩ else none
  join _ raw :=
    if host <+: raw.toList then some ⟨"http", some "e", some 80, raw⟩ else none

namespace Echo

scoped instance : UrlLibrary := echoUrls

end Echo

section Echo

open scoped Echo

theorem stretches_echo : Stretches 0 1 where
  parse raw u h := by
    change (if _ then _ else _) = _ at h
    split_ifs at h
    obtain rfl := Option.some.inj h
    change byteLength raw.toList ≤ _
    omega
  join base raw u h := by
    change (if _ then _ else _) = _ at h
    split_ifs at h
    obtain rfl := Option.some.inj h
    change byteLength raw.toList ≤ _
    omega

theorem readsPlain_echo : ReadsPlain := by
  intro n
  have hhost : host <+: (String.ofList (longAddress n)).toList := by
    rw [String.toList_ofList]
    exact List.prefix_append _ _
  exact ⟨⟨"http", some "e", some 80, String.ofList (longAddress n)⟩, if_pos hhost, rfl, rfl⟩

/-- Squares are too much, and twice the size is not. -/
theorem linear_iff_echo :
    ∃ a b, ∀ ctx pre tokens, ctx.limits = Limits.default →
      copiedBytes ctx pre tokens ≤ 2 * inputBytes ctx tokens →
      (transform ctx pre tokens).bytes ≤ a + b * inputBytes ctx tokens :=
  (linear_iff stretches_echo readsPlain_echo fun n => 2 * n).2 ⟨0, 2, fun n => by omega⟩ .default

/-- A document of the client's caps has no linear bound. -/
theorem not_linear :
    ¬ ∀ limits, ∃ a b, ∀ ctx pre tokens, ctx.limits = limits →
      (transform ctx pre tokens).bytes ≤ a + b * inputBytes ctx tokens := by
  intro hlinear
  obtain ⟨a, b, hbound⟩ := hlinear .default
  obtain ⟨tokens, hinput, -, hbytes⟩ := linked_outgrows readsPlain_echo a b (Nat.lt_succ_self _)
  have hwithin := hbound page none tokens rfl
  rw [hinput] at hwithin
  omega

end Echo

end Vuo.Content
