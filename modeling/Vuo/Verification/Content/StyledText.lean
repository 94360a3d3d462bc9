import Vuo.Model.Content.Block
import Vuo.Model.Search

/-!
# Styled text

What the spans of a block are rendered to, and what the search makes of it
again.
-/

namespace Vuo.Content

open Vuo.Search

/-! ## Reading references and tags -/

theorem htmlTextFrom_skip (skipped rest : List Char) :
    htmlTextFrom skipped.length (skipped ++ rest) = htmlText rest := by
  induction skipped with
  | nil => rfl
  | cons c skipped ih => simpa [htmlTextFrom] using ih

theorem takeBytes_append {name : List Char} (h : ∀ c ∈ name, c.utf8Size = 1) (s : List Char)
    (n : ℕ) : takeBytes (name ++ s) (name.length + n) = (takeBytes s n).map (name ++ ·) := by
  induction name with
  | nil => simp
  | cons c name ih =>
      have hc : c.utf8Size = 1 := h c List.mem_cons_self
      have hlength : (c :: name).length + n = (name.length + n) + 1 := by
        simp only [List.length_cons]
        omega
      rw [hlength, List.cons_append, takeBytes, if_pos (by omega), hc, Nat.add_sub_cancel,
        ih fun d hd => h d (List.mem_cons_of_mem _ hd), Option.map_map]
      rfl

theorem takeWhile_append_stop {name : List Char} {stop : Char} (h : stop ∉ name)
    (rest : List Char) : (name ++ stop :: rest).takeWhile (· ≠ stop) = name := by
  induction name with
  | nil => simp
  | cons c name ih =>
      have hc : c ≠ stop := fun hcs => h (hcs ▸ List.mem_cons_self)
      have hname : stop ∉ name := fun hmem => h (List.mem_cons_of_mem _ hmem)
      simpa [hc] using ih hname

/-- A short reference ends within the window. -/
theorem window_append {name : List Char} (hascii : ∀ c ∈ name, c.utf8Size = 1)
    (hshort : name.length ≤ 10) (rest : List Char) :
    ∃ more, window (name ++ ';' :: rest) = name ++ ';' :: more := by
  have hbytes : takeBytes (name ++ ';' :: rest) 11 =
      (takeBytes (';' :: rest) (11 - name.length)).map (name ++ ·) := by
    have h := takeBytes_append hascii (';' :: rest) (11 - name.length)
    rwa [Nat.add_sub_cancel' (by omega)] at h
  have hsemi : ∃ more, (takeBytes (';' :: rest) (11 - name.length)).getD (';' :: rest) =
      ';' :: more := by
    obtain ⟨n, hn⟩ : ∃ n, 11 - name.length = n + 1 := ⟨10 - name.length, by omega⟩
    have hsize : (';').utf8Size = 1 := by decide
    rw [hn, takeBytes, if_pos (by omega)]
    cases takeBytes rest (n + 1 - (';').utf8Size) with
    | none => exact ⟨rest, rfl⟩
    | some more => exact ⟨more, rfl⟩
  obtain ⟨more, hmore⟩ := hsemi
  refine ⟨more, ?_⟩
  unfold window
  rw [hbytes]
  cases htaken : takeBytes (';' :: rest) (11 - name.length) with
  | none =>
      rw [htaken] at hmore
      simpa using hmore
  | some taken =>
      rw [htaken] at hmore
      simpa using hmore

theorem decodeEntity_append {name : List Char} (hascii : ∀ c ∈ name, c.utf8Size = 1)
    (hshort : name.length ≤ 10) (hstop : ';' ∉ name) (rest : List Char) :
    decodeEntity (name ++ ';' :: rest) = (entity name).map fun c => (c, name.length + 1) := by
  obtain ⟨more, hwindow⟩ := window_append hascii hshort rest
  unfold decodeEntity
  rw [hwindow, if_pos (by simp), takeWhile_append_stop hstop]

/-- The references the renderer writes, with what they stand for. -/
def references : List (List Char × Char) :=
  [(['a', 'm', 'p'], '&'), (['l', 't'], '<'), (['g', 't'], '>'), (['q', 'u', 'o', 't'], '"'),
    (['#', '3', '9'], '\'')]

theorem htmlText_reference {name : List Char} {c : Char} (h : (name, c) ∈ references)
    (rest : List Char) : htmlText ('&' :: name ++ ';' :: rest) = c :: htmlText rest := by
  have hname : (name.all fun d => d.utf8Size = 1) = true ∧ name.length ≤ 10 ∧ ';' ∉ name ∧
      entity name = some c := by
    simp only [references, List.mem_cons, List.not_mem_nil, or_false, Prod.mk.injEq] at h
    rcases h with ⟨rfl, rfl⟩ | ⟨rfl, rfl⟩ | ⟨rfl, rfl⟩ | ⟨rfl, rfl⟩ | ⟨rfl, rfl⟩ <;> decide
  obtain ⟨hascii, hshort, hstop, hentity⟩ := hname
  have hascii : ∀ d ∈ name, d.utf8Size = 1 := by simpa using hascii
  have hskip := htmlTextFrom_skip (name ++ [';']) rest
  rw [htmlText, List.cons_append, htmlTextFrom, if_neg (by decide), if_pos rfl,
    decodeEntity_append hascii hshort hstop, hentity]
  simp only [Option.map_some]
  simpa using hskip

theorem htmlText_char {c : Char} (hlt : c ≠ '<') (hamp : c ≠ '&') (rest : List Char) :
    htmlText (c :: rest) = c :: htmlText rest := by
  rw [htmlText, htmlTextFrom, if_neg hlt, if_neg hamp]
  rfl

/-- The tag of an inline element leaves no trace. -/
theorem htmlText_tag {tag : List Char} (hclose : '>' ∉ tag) (hinline : isInline tag = true)
    (rest : List Char) : htmlText ('<' :: tag ++ '>' :: rest) = htmlText rest := by
  have hskip := htmlTextFrom_skip (tag ++ ['>']) rest
  rw [htmlText, List.cons_append, htmlTextFrom, if_pos rfl, if_pos (by simp),
    takeWhile_append_stop hclose]
  simpa [hinline] using hskip

/-! ## Escaped text -/

theorem escapeChar_cases (c : Char) :
    (∃ name, (name, c) ∈ references ∧ escapeChar c = '&' :: name ++ [';']) ∨
      (c ∉ ['&', '<', '>', '"', '\''] ∧ escapeChar c = [c]) := by
  unfold escapeChar references
  split_ifs with hamp hlt hgt hquot hapos
  · exact .inl ⟨['a', 'm', 'p'], by simp [hamp], rfl⟩
  · exact .inl ⟨['l', 't'], by simp [hlt], rfl⟩
  · exact .inl ⟨['g', 't'], by simp [hgt], rfl⟩
  · exact .inl ⟨['q', 'u', 'o', 't'], by simp [hquot], rfl⟩
  · exact .inl ⟨['#', '3', '9'], by simp [hapos], rfl⟩
  · exact .inr ⟨by simp [hamp, hlt, hgt, hquot, hapos], rfl⟩

theorem escape_cons (c : Char) (raw : List Char) :
    escape (c :: raw) = escapeChar c ++ escape raw := rfl

theorem escape_append (raw rest : List Char) :
    escape (raw ++ rest) = escape raw ++ escape rest :=
  List.flatMap_append

/-- Escaping and reading give the text back. -/
theorem htmlText_escape (raw rest : List Char) :
    htmlText (escape raw ++ rest) = raw ++ htmlText rest := by
  induction raw with
  | nil => rfl
  | cons c raw ih =>
      rw [escape_cons, List.append_assoc]
      rcases escapeChar_cases c with ⟨name, hname, heq⟩ | ⟨hplain, heq⟩
      · have href := htmlText_reference hname (escape raw ++ rest)
        rw [heq]
        simpa [ih] using href
      · simp only [List.mem_cons, List.not_mem_nil, or_false, not_or] at hplain
        rw [heq, List.singleton_append, htmlText_char hplain.2.1 hplain.1, ih]
        rfl

/-- No escaped text holds a character that ends an attribute or a tag. -/
theorem notMem_escape {c : Char} (h : c ∈ ['<', '>', '"', '\'']) (raw : List Char) :
    c ∉ escape raw := by
  intro hmem
  obtain ⟨d, -, hd⟩ := List.mem_flatMap.1 hmem
  simp only [List.mem_cons, List.not_mem_nil, or_false] at h
  rcases escapeChar_cases d with ⟨name, hname, heq⟩ | ⟨hplain, heq⟩
  · simp only [references, List.mem_cons, List.not_mem_nil, or_false, Prod.mk.injEq] at hname
    rw [heq] at hd
    rcases hname with ⟨rfl, -⟩ | ⟨rfl, -⟩ | ⟨rfl, -⟩ | ⟨rfl, -⟩ | ⟨rfl, -⟩ <;>
      rcases h with rfl | rfl | rfl | rfl <;> revert hd <;> decide
  · rw [heq, List.mem_singleton] at hd
    rw [← hd] at hplain
    rcases h with rfl | rfl | rfl | rfl <;> exact hplain (by simp)

/-! ## Styled text -/

/-- The text of a link is its address in full. -/
def Serialised (link : MediaUrl) : Prop :=
  "http://".toList <+: link.asStr.toList ∨ "https://".toList <+: link.asStr.toList

/-- The value of an attribute that leads to one of the links: the escaped
address, with nothing that ends the attribute or the tag. -/
structure Href (links : List MediaUrl) (value : List Char) : Prop where
  escaped : ∃ link ∈ links, value = escape link.asStr.toList
  web : "http://".toList <+: value ∨ "https://".toList <+: value
  closed : '"' ∉ value ∧ '<' ∉ value ∧ '>' ∉ value

/-- The tags without attributes that the renderer may write. -/
def plainTags : List (List Char) :=
  [['b'], ['i'], ['s'], ['s', 'u', 'p'], ['s', 'u', 'b']]

/-- Text and references, between tags that are nested properly. -/
inductive Styled (links : List MediaUrl) : List Char → Prop
  | nil : Styled links []
  | char {c : Char} (hc : c ∉ ['&', '<', '>', '"', '\'']) : Styled links [c]
  | reference {name : List Char} {c : Char} (hname : (name, c) ∈ references) :
      Styled links ('&' :: name ++ [';'])
  | element {tag inner : List Char} (htag : tag ∈ plainTags) (hinner : Styled links inner) :
      Styled links (['<'] ++ tag ++ ['>'] ++ inner ++ ['<', '/'] ++ tag ++ ['>'])
  | anchor {value inner : List Char} (hvalue : Href links value)
      (hinner : Styled links inner) :
      Styled links (['<', 'a', ' ', 'h', 'r', 'e', 'f', '=', '"'] ++ value ++ ['"', '>'] ++
        inner ++ ['<', '/', 'a', '>'])
  | append {first second : List Char} (hfirst : Styled links first)
      (hsecond : Styled links second) : Styled links (first ++ second)

section Render

variable {links : List MediaUrl}

theorem styled_escape (raw : List Char) : Styled links (escape raw) := by
  induction raw with
  | nil => exact .nil
  | cons c raw ih =>
      rw [escape_cons]
      refine .append ?_ ih
      rcases escapeChar_cases c with ⟨name, hname, heq⟩ | ⟨hplain, heq⟩
      · rw [heq]
        exact .reference hname
      · rw [heq]
        exact .char hplain

/-- Tags opened in one order and closed in the other. -/
theorem styled_tags {inner : List Char} {tags : List (List Char)}
    (htags : ∀ tag ∈ tags, tag ∈ plainTags) (hinner : Styled links inner) :
    Styled links (tags.flatMap Span.openTag ++ inner ++ tags.reverse.flatMap Span.closeTag) := by
  induction tags with
  | nil => simpa using hinner
  | cons tag tags ih =>
      have hbody := ih fun t ht => htags t (List.mem_cons_of_mem _ ht)
      have helement := Styled.element (htags tag List.mem_cons_self) hbody
      simpa [Span.openTag, Span.closeTag] using helement

theorem mem_plainTags {style : SpanStyle} {tag : List Char} (h : tag ∈ style.tags) :
    tag ∈ plainTags := by
  simp only [SpanStyle.tags, List.mem_append] at h
  rcases h with (((h | h) | h) | h) | h <;>
    · split_ifs at h
      · rw [List.mem_singleton.1 h]
        decide
      · cases h

theorem href_escape {link : MediaUrl} (hlink : link ∈ links) (h : Serialised link) :
    Href links (escape link.asStr.toList) := by
  have hescape : ∀ start : List Char, escape start = start → start <+: link.asStr.toList →
      start <+: escape link.asStr.toList := by
    rintro start hplain ⟨rest, hrest⟩
    exact ⟨escape rest, by rw [← hrest, escape_append, hplain]⟩
  refine ⟨⟨link, hlink, rfl⟩, ?_, notMem_escape (by decide) _, notMem_escape (by decide) _,
    notMem_escape (by decide) _⟩
  rcases h with h | h
  · exact .inl (hescape _ (by decide) h)
  · exact .inr (hescape _ (by decide) h)

theorem styled_renderOne {span : Span}
    (hlink : ∀ link, span.link = some link → link ∈ links ∧ Serialised link) :
    Styled links (Span.renderOne span) := by
  have hbody : Styled links (span.style.tags.flatMap Span.openTag ++ escape span.text ++
      span.style.tags.reverse.flatMap Span.closeTag) :=
    styled_tags (fun _ htag => mem_plainTags htag) (styled_escape span.text)
  cases hspan : span.link with
  | none => simpa [Span.renderOne, hspan] using hbody
  | some link =>
      obtain ⟨hmem, hserial⟩ := hlink link hspan
      have hanchor := Styled.anchor (href_escape hmem hserial) hbody
      simpa [Span.renderOne, Span.openLink, Span.closeTag, hspan] using hanchor

theorem styled_renderStyledText {spans : List Span}
    (h : ∀ span ∈ spans, ∀ link, span.link = some link → link ∈ links ∧ Serialised link) :
    Styled links (Span.renderStyledText spans) := by
  induction spans with
  | nil => exact .nil
  | cons span spans ih =>
      exact .append (styled_renderOne (h span List.mem_cons_self))
        (ih fun s hs => h s (List.mem_cons_of_mem _ hs))

end Render

/-! ## Reading styled text -/

theorem htmlText_openTags {tags : List (List Char)} (h : ∀ tag ∈ tags, tag ∈ plainTags)
    (rest : List Char) : htmlText (tags.flatMap Span.openTag ++ rest) = htmlText rest := by
  induction tags with
  | nil => rfl
  | cons tag tags ih =>
      have htag : '>' ∉ tag ∧ isInline tag = true := by
        have hall : ∀ t ∈ plainTags, '>' ∉ t ∧ isInline t = true := by decide
        exact hall tag (h tag List.mem_cons_self)
      have hread := htmlText_tag htag.1 htag.2 (tags.flatMap Span.openTag ++ rest)
      have hrest := ih fun t ht => h t (List.mem_cons_of_mem _ ht)
      rw [← hrest, ← hread]
      simp [Span.openTag]

theorem htmlText_closeTags {tags : List (List Char)}
    (h : ∀ tag ∈ tags, tag ∈ ['a'] :: plainTags) (rest : List Char) :
    htmlText (tags.flatMap Span.closeTag ++ rest) = htmlText rest := by
  induction tags with
  | nil => rfl
  | cons tag tags ih =>
      have htag : '>' ∉ '/' :: tag ∧ isInline ('/' :: tag) = true := by
        have hall : ∀ t ∈ ['a'] :: plainTags, '>' ∉ '/' :: t ∧ isInline ('/' :: t) = true := by
          decide
        exact hall tag (h tag List.mem_cons_self)
      have hread := htmlText_tag htag.1 htag.2 (tags.flatMap Span.closeTag ++ rest)
      have hrest := ih fun t ht => h t (List.mem_cons_of_mem _ ht)
      rw [← hrest, ← hread]
      simp [Span.closeTag]

theorem htmlText_openLink (link : MediaUrl) (rest : List Char) :
    htmlText (Span.openLink link ++ rest) = htmlText rest := by
  have hclose : '>' ∉ ['a', ' ', 'h', 'r', 'e', 'f', '=', '"'] ++
      escape link.asStr.toList ++ ['"'] := by
    have hvalue := notMem_escape (c := '>') (by decide) link.asStr.toList
    simp [hvalue]
  have hinline : isInline (['a', ' ', 'h', 'r', 'e', 'f', '=', '"'] ++
      escape link.asStr.toList ++ ['"']) = true := by
    have hname : ∀ more : List Char, isInline ('a' :: ' ' :: more) = true := by
      intro more
      have hword : ('a' :: ' ' :: more).takeWhile Char.isAlphanum = ['a'] := by
        have ha : Char.isAlphanum 'a' = true := by decide
        have hspace : Char.isAlphanum ' ' = false := by decide
        simp [ha, hspace]
      have hmem : ['a'] ∈ inlineNames := by decide
      simpa [isInline, hword] using hmem
    simp only [List.cons_append]
    exact hname _
  have hread := htmlText_tag hclose hinline rest
  rw [← hread]
  simp [Span.openLink]

theorem htmlText_renderOne (span : Span) (rest : List Char) :
    htmlText (Span.renderOne span ++ rest) = span.text ++ htmlText rest := by
  have hclosed : ∀ tag ∈ ((if span.link.isSome then [['a']] else []) ++ span.style.tags).reverse,
      tag ∈ ['a'] :: plainTags := by
    intro tag htag
    rcases List.mem_append.1 (List.mem_reverse.1 htag) with hlink | hstyle
    · split_ifs at hlink
      · exact List.mem_cons.2 (.inl (List.mem_singleton.1 hlink))
      · cases hlink
    · exact List.mem_cons_of_mem _ (mem_plainTags hstyle)
  have hopen : ∀ more : List Char,
      htmlText ((span.link.elim [] Span.openLink) ++ more) = htmlText more := by
    intro more
    cases span.link with
    | none => rfl
    | some link => exact htmlText_openLink link more
  unfold Span.renderOne
  simp only [List.append_assoc]
  rw [hopen, htmlText_openTags (fun _ => mem_plainTags), htmlText_escape,
    htmlText_closeTags hclosed]

theorem htmlText_renderStyledText (spans : List Span) :
    htmlText (Span.renderStyledText spans) = Span.renderPlainText spans := by
  induction spans with
  | nil => rfl
  | cons span spans ih =>
      have hcons : Span.renderStyledText (span :: spans) =
          Span.renderOne span ++ Span.renderStyledText spans := rfl
      rw [hcons, htmlText_renderOne, ih]
      rfl

/-- Styled text is text between well nested tags of the renderer's own, and the
text can be read back from it. -/
theorem styled_text_faithful {spans : List Span}
    (h : ∀ span ∈ spans, ∀ link, span.link = some link → Serialised link) :
    Styled (spans.filterMap Span.link) (Span.renderStyledText spans) ∧
      htmlText (Span.renderStyledText spans) = Span.renderPlainText spans := by
  refine ⟨styled_renderStyledText fun span hspan link hlink => ⟨?_, h span hspan link hlink⟩,
    htmlText_renderStyledText spans⟩
  exact List.mem_filterMap.2 ⟨span, hspan, hlink⟩

/-- A bold and linked piece of text that looks like a truncated reference. -/
theorem styled_text_faithful_reference :
    ∃ spans : List Span, (∃ span ∈ spans, span.link.isSome = true) ∧
      htmlText (Span.renderStyledText spans) = ['<', '&', '#', '3'] := by
  refine ⟨[⟨['<', '&', '#', '3'], { bold := true },
    some ⟨⟨"https", some "a.example", some 443, "https://a.example/?b=1&c=\"d\""⟩, .inr rfl⟩⟩],
    ⟨_, List.mem_cons_self, rfl⟩, ?_⟩
  refine (styled_text_faithful ?_).2
  intro span hspan link hlink
  obtain rfl := List.mem_singleton.1 hspan
  obtain rfl := Option.some.inj hlink
  exact .inr (show "https://".toList <+: "https://a.example/?b=1&c=\"d\"".toList by decide)

end Vuo.Content
