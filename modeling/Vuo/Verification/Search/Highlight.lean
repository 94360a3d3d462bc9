import Vuo.Verification.Content.StyledText
import Vuo.Verification.Search.Spans

/-!
# Highlighting

The markup is the text in stretches, each with a bold run at its end. What is
bold is what the folded terms cover.
-/

namespace Vuo.Search

open Foundation
open Content (byteLength byteLength_append byteLength_pos escape escape_append htmlText_escape
  htmlText_tag notMem_escape)

/-! ## Stretches -/

/-- A piece of the text that ends with a bold run. -/
structure Stretch where
  plain : List Char
  bold : List Char

namespace Stretch

def text (r : Stretch) : List Char :=
  r.plain ++ r.bold

def markup (r : Stretch) : List Char :=
  escape r.plain ++ ['<', 'b', '>'] ++ escape r.bold ++ ['<', '/', 'b', '>']

/-- The character at `k` is in a bold run. -/
def Bold : List Stretch → ℕ → Prop
  | [], _ => False
  | r :: rest, k =>
      (r.plain.length ≤ k ∧ k < r.text.length) ∨
        (r.text.length ≤ k ∧ Bold rest (k - r.text.length))

/-- What is copied and marked range after range, from `copied` on. -/
def ofSpans (text : List Char) (copied : ℕ) : List (ℕ × ℕ) → List Stretch
  | [] => []
  | span :: rest =>
      ⟨(slice text copied span.1).getD [], (slice text span.1 span.2).getD []⟩ ::
        ofSpans text span.2 rest

/-- How far the ranges lead. -/
def reached (copied : ℕ) : List (ℕ × ℕ) → ℕ
  | [] => copied
  | span :: rest => reached span.2 rest

theorem foldl_mark (text out : List Char) (copied : ℕ) (spans : List (ℕ × ℕ)) :
    spans.foldl (SearchQuery.mark text) (out, copied) =
      (out ++ (ofSpans text copied spans).flatMap markup, reached copied spans) := by
  induction spans generalizing out copied with
  | nil => simp [ofSpans, reached]
  | cons span rest ih =>
      rw [List.foldl_cons, SearchQuery.mark, ih, ofSpans, reached]
      simp [markup]

/-! ## Cutting at the ranges -/

/-- Ranges of a text that is copied up to the end of `done`. -/
structure Cuts (text done : List Char) (spans : List (ℕ × ℕ)) : Prop where
  prefix_text : done <+: text
  boundary : ∀ s ∈ spans, Boundary text s.1 ∧ Boundary text s.2
  nonempty : ∀ s ∈ spans, s.1 < s.2
  apart : spans.Pairwise fun a b => a.2 < b.1
  after : ∀ s ∈ spans, byteLength done ≤ s.1

variable {text done todo : List Char} {span : ℕ × ℕ} {spans : List (ℕ × ℕ)}

theorem exists_of_boundary {n : ℕ} (h : Boundary (done ++ todo) n) (hn : byteLength done ≤ n) :
    ∃ m rest, todo = m ++ rest ∧ n = byteLength (done ++ m) := by
  obtain ⟨p, s, htext, rfl⟩ := h
  have hdone : done <+: done ++ todo := List.prefix_append _ _
  have hp : p <+: done ++ todo := ⟨s, htext.symm⟩
  have hle := (byteLength_le_iff hdone hp).1 hn
  obtain ⟨m, rfl⟩ := List.prefix_of_prefix_length_le hdone hp hle
  rw [List.append_assoc] at htext
  exact ⟨m, s, List.append_cancel_left htext, rfl⟩

/-- The first range cuts what is still to be copied in three. -/
theorem Cuts.exists_cut (h : Cuts (done ++ todo) done (span :: spans)) :
    ∃ m n rest, todo = m ++ (n ++ rest) ∧ n ≠ [] ∧ span.1 = byteLength (done ++ m) ∧
      span.2 = byteLength (done ++ m ++ n) ∧ Cuts (done ++ todo) (done ++ m ++ n) spans := by
  obtain ⟨hfirst, hlast⟩ := h.boundary span List.mem_cons_self
  have hlt := h.nonempty span List.mem_cons_self
  obtain ⟨m, rest, rfl, hm⟩ := exists_of_boundary hfirst (h.after span List.mem_cons_self)
  rw [← List.append_assoc] at hlast
  obtain ⟨n, rest, rfl, hn⟩ := exists_of_boundary hlast (by omega)
  refine ⟨m, n, rest, rfl, ?_, hm, hn, ?_⟩
  · rintro rfl
    rw [List.append_nil] at hn
    omega
  · obtain ⟨hafter, hapart⟩ := List.pairwise_cons.1 h.apart
    refine ⟨⟨rest, by simp⟩, fun s hs => h.boundary s (List.mem_cons_of_mem _ hs),
      fun s hs => h.nonempty s (List.mem_cons_of_mem _ hs), hapart, fun s hs => ?_⟩
    have hs := hafter s hs
    omega

theorem ofSpans_cons {m n rest : List Char} (hm : span.1 = byteLength (done ++ m))
    (hn : span.2 = byteLength (done ++ m ++ n)) :
    ofSpans (done ++ (m ++ (n ++ rest))) (byteLength done) (span :: spans) =
      ⟨m, n⟩ :: ofSpans (done ++ (m ++ (n ++ rest))) (byteLength (done ++ m ++ n)) spans := by
  have hplain : slice (done ++ (m ++ (n ++ rest))) (byteLength done) span.1 = some m := by
    rw [hm]
    exact slice_append done m _
  have hbold : slice (done ++ (m ++ (n ++ rest))) span.1 span.2 = some n := by
    have h := slice_append (done ++ m) n rest
    rw [hm, hn, ← h]
    simp
  rw [ofSpans, hplain, hbold, ← hn]
  rfl

/-- The stretches and what is left after them are the text. -/
theorem Cuts.text_eq (h : Cuts (done ++ todo) done spans) :
    ∃ tail, todo = (ofSpans (done ++ todo) (byteLength done) spans).flatMap Stretch.text ++ tail ∧
      dropBytes (done ++ todo) (reached (byteLength done) spans) = some tail := by
  induction spans generalizing done todo with
  | nil => exact ⟨todo, by simp [ofSpans], dropBytes_append done todo⟩
  | cons span spans ih =>
      obtain ⟨m, n, rest, rfl, -, hm, hn, hrest⟩ := h.exists_cut
      have htext : done ++ (m ++ (n ++ rest)) = (done ++ m ++ n) ++ rest := by simp
      rw [htext] at hrest
      obtain ⟨tail, htail, hdrop⟩ := ih hrest
      refine ⟨tail, ?_, ?_⟩
      · rw [ofSpans_cons hm hn, List.flatMap_cons, Stretch.text, htext, List.append_assoc,
          List.append_assoc, ← htail]
      · rw [reached, hn, htext]
        exact hdrop

theorem Cuts.bold_ne_nil (h : Cuts (done ++ todo) done spans) :
    ∀ r ∈ ofSpans (done ++ todo) (byteLength done) spans, r.bold ≠ [] := by
  induction spans generalizing done todo with
  | nil => exact fun r hr => by cases hr
  | cons span spans ih =>
      obtain ⟨m, n, rest, rfl, hne, hm, hn, hrest⟩ := h.exists_cut
      have htext : done ++ (m ++ (n ++ rest)) = (done ++ m ++ n) ++ rest := by simp
      rw [htext] at hrest
      rw [ofSpans_cons hm hn, htext]
      intro r hr
      rcases List.mem_cons.1 hr with rfl | hr
      · exact hne
      · exact ih hrest r hr

/-- Ranges that do not even touch leave text between the bold runs. -/
theorem Cuts.plain_ne_nil (h : Cuts (done ++ todo) done spans)
    (hafter : ∀ s ∈ spans, byteLength done < s.1) :
    ∀ r ∈ ofSpans (done ++ todo) (byteLength done) spans, r.plain ≠ [] := by
  induction spans generalizing done todo with
  | nil => exact fun r hr => by cases hr
  | cons span spans ih =>
      have hspan := hafter span List.mem_cons_self
      have hapart := (List.pairwise_cons.1 h.apart).1
      obtain ⟨m, n, rest, rfl, -, hm, hn, hrest⟩ := h.exists_cut
      have htext : done ++ (m ++ (n ++ rest)) = (done ++ m ++ n) ++ rest := by simp
      rw [htext] at hrest
      rw [ofSpans_cons hm hn, htext]
      intro r hr
      rcases List.mem_cons.1 hr with rfl | hr
      · rintro rfl
        rw [List.append_nil] at hm
        omega
      · exact ih hrest (fun s hs => hn ▸ hapart s hs) r hr

/-- Each bold run but the first has plain text before it. -/
theorem Cuts.plain_ne_nil_tail (h : Cuts (done ++ todo) done spans) :
    ∀ r ∈ (ofSpans (done ++ todo) (byteLength done) spans).tail, r.plain ≠ [] := by
  cases spans with
  | nil => exact fun r hr => by cases hr
  | cons span spans =>
      have hapart := (List.pairwise_cons.1 h.apart).1
      obtain ⟨m, n, rest, rfl, -, hm, hn, hrest⟩ := h.exists_cut
      have htext : done ++ (m ++ (n ++ rest)) = (done ++ m ++ n) ++ rest := by simp
      rw [htext] at hrest
      rw [ofSpans_cons hm hn, htext, List.tail_cons]
      exact hrest.plain_ne_nil fun s hs => hn ▸ hapart s hs

/-- Bold is what the ranges cover. -/
theorem Cuts.bold_iff (h : Cuts (done ++ todo) done spans) {p s : List Char} {c : Char}
    (htodo : todo = p ++ c :: s) :
    Bold (ofSpans (done ++ todo) (byteLength done) spans) p.length ↔
      Covers spans (byteLength (done ++ p)) := by
  induction spans generalizing done todo p with
  | nil => simp [ofSpans, Bold, Covers]
  | cons span spans ih =>
      have hapart := (List.pairwise_cons.1 h.apart).1
      obtain ⟨m, n, rest, rfl, -, hm, hn, hrest⟩ := h.exists_cut
      have htext : done ++ (m ++ (n ++ rest)) = (done ++ m ++ n) ++ rest := by simp
      have hp : done ++ p <+: done ++ (m ++ (n ++ rest)) := ⟨c :: s, by simp [htodo]⟩
      have hprem : done ++ m <+: done ++ (m ++ (n ++ rest)) := ⟨n ++ rest, by simp⟩
      have hpren : done ++ m ++ n <+: done ++ (m ++ (n ++ rest)) := ⟨rest, by simp⟩
      have hlem := byteLength_le_iff hprem hp
      have hlen := byteLength_le_iff hpren hp
      simp only [List.length_append] at hlem hlen
      rw [htext] at hrest
      rw [ofSpans_cons hm hn, Bold, covers_cons, Stretch.text, List.length_append, hm, hn]
      dsimp only
      by_cases hlast : m.length + n.length ≤ p.length
      · obtain ⟨p', rfl⟩ : m ++ n <+: p := by
          have hmn : m ++ n <+: m ++ (n ++ rest) := ⟨rest, by simp⟩
          exact List.prefix_of_prefix_length_le hmn ⟨c :: s, htodo.symm⟩ (by simpa using hlast)
        have hrest' : rest = p' ++ c :: s := by
          have heq : (m ++ n) ++ rest = (m ++ n) ++ (p' ++ c :: s) := by simpa using htodo
          exact List.append_cancel_left heq
        have hbold := ih hrest hrest'
        rw [← htext] at hbold
        have hlength : (m ++ n ++ p').length - (m.length + n.length) = p'.length := by
          simp only [List.length_append]
          omega
        have hbytes : byteLength (done ++ m ++ n ++ p') = byteLength (done ++ (m ++ n ++ p')) := by
          simp
        rw [hlength, hbold, hbytes]
        refine or_congr ⟨fun hin => ?_, fun hin => ?_⟩ ⟨fun hin => hin.2, fun hin => ⟨hlast, hin⟩⟩
        · omega
        · omega
      · have hnot : ¬Covers spans (byteLength (done ++ p)) := by
          rintro ⟨s', hs', hlo, -⟩
          have hs' := hapart s' hs'
          omega
        constructor
        · rintro (hin | ⟨hin, -⟩)
          · exact .inl ⟨by omega, by omega⟩
          · exact absurd hin hlast
        · rintro (hin | hin)
          · exact .inl ⟨by omega, by omega⟩
          · exact absurd hin hnot

end Stretch

/-! ## Deleting the tags -/

/-- The markup with the tags of bold runs deleted. -/
def withoutBold : List Char → List Char
  | [] => []
  | '<' :: 'b' :: '>' :: rest => withoutBold rest
  | '<' :: '/' :: 'b' :: '>' :: rest => withoutBold rest
  | c :: rest => c :: withoutBold rest

theorem withoutBold_append {s : List Char} (h : '<' ∉ s) (rest : List Char) :
    withoutBold (s ++ rest) = s ++ withoutBold rest := by
  induction s with
  | nil => rfl
  | cons c s ih =>
      have hc : c ≠ '<' := fun hc => h (hc ▸ List.mem_cons_self)
      have hs := ih fun hmem => h (List.mem_cons_of_mem _ hmem)
      rw [List.cons_append, withoutBold.eq_4 c (s ++ rest) (fun _ h' _ => hc h')
        (fun _ h' _ => hc h'), hs, List.cons_append]

theorem withoutBold_escape (raw rest : List Char) :
    withoutBold (escape raw ++ rest) = escape raw ++ withoutBold rest :=
  withoutBold_append (notMem_escape (by decide) raw) rest

theorem withoutBold_markup (r : Stretch) (rest : List Char) :
    withoutBold (r.markup ++ rest) = escape r.text ++ withoutBold rest := by
  simp only [Stretch.markup, Stretch.text, List.append_assoc, escape_append]
  rw [withoutBold_escape]
  simp only [List.cons_append, List.nil_append, withoutBold]
  rw [withoutBold_escape]
  simp only [withoutBold]

theorem htmlText_markup (r : Stretch) (rest : List Char) :
    htmlText (r.markup ++ rest) = r.text ++ htmlText rest := by
  have hopen (more : List Char) : htmlText ('<' :: 'b' :: '>' :: more) = htmlText more :=
    @htmlText_tag ['b'] (by decide) (by decide) more
  have hclose (more : List Char) : htmlText ('<' :: '/' :: 'b' :: '>' :: more) = htmlText more :=
    @htmlText_tag ['/', 'b'] (by decide) (by decide) more
  simp only [Stretch.markup, Stretch.text, List.append_assoc]
  rw [htmlText_escape]
  simp only [List.cons_append, List.nil_append]
  rw [hopen, htmlText_escape, hclose]

theorem htmlText_stretches (rs : List Stretch) (tail : List Char) :
    htmlText (rs.flatMap Stretch.markup ++ escape tail) = rs.flatMap Stretch.text ++ tail := by
  induction rs with
  | nil =>
      have h := htmlText_escape tail []
      rw [List.append_nil] at h
      exact h.trans (List.append_nil tail)
  | cons r rs ih =>
      rw [List.flatMap_cons, List.flatMap_cons, List.append_assoc, htmlText_markup, ih,
        List.append_assoc]

theorem withoutBold_stretches (rs : List Stretch) (tail : List Char) :
    withoutBold (rs.flatMap Stretch.markup ++ escape tail) =
      escape (rs.flatMap Stretch.text ++ tail) := by
  induction rs with
  | nil =>
      have h := withoutBold_escape tail []
      rw [List.append_nil] at h
      exact h.trans (List.append_nil (escape tail))
  | cons r rs ih =>
      rw [List.flatMap_cons, List.flatMap_cons, List.append_assoc, withoutBold_markup, ih,
        List.append_assoc, escape_append _ (rs.flatMap Stretch.text ++ tail)]

/-! ## Occurrences -/

section Tables

variable [Unicode]

open Unicode

/-- The folding of the first `k` characters. -/
def foldedTo (text : List Char) (k : ℕ) : List Char :=
  ((foldings [] text).take k).flatten

theorem prefix_foldedTo (text : List Char) (k : ℕ) : foldedTo text k <+: fold text := by
  rw [fold, toLowercaseFrom_eq]
  refine ⟨((foldings [] text).drop k).flatten, ?_⟩
  rw [foldedTo, ← List.flatten_append, List.take_append_drop]

theorem byteLength_foldedTo (hdoc : Documented) (text : List Char) (k : ℕ) :
    byteLength (foldedTo text k) = width (text.take k) :=
  byteLength_take_foldings hdoc [] text k

namespace SearchQuery

variable {q : SearchQuery} {text : List Char} {k : ℕ}

/-- The folding of the character at `k` lies inside an occurrence of a term. -/
def Inside (q : SearchQuery) (text : List Char) (k : ℕ) : Prop :=
  ∃ t ∈ q.terms, ∃ u v, fold text = u ++ (t ++ v) ∧
    u.length ≤ (foldedTo text k).length ∧ (foldedTo text (k + 1)).length ≤ (u ++ t).length

/-- It is not disjoint from all occurrences. -/
def Touches (q : SearchQuery) (text : List Char) (k : ℕ) : Prop :=
  ∃ t ∈ q.terms, ∃ u v, fold text = u ++ (t ++ v) ∧
    u.length < (foldedTo text (k + 1)).length ∧ (foldedTo text k).length < (u ++ t).length

/-- What is inside an occurrence is covered, and what is covered touches one. -/
theorem covers_of_inside (hdoc : Documented) (hk : k < text.length) (h : q.Inside text k) :
    Covers (q.spans text) (byteLength (text.take k)) := by
  obtain ⟨t, ht, u, v, hfold, hlo, hhi⟩ := h
  have htext : text = text.take k ++ text[k] :: text.drop (k + 1) := by simp
  have hu : u <+: fold text := ⟨t ++ v, hfold.symm⟩
  have hut : u ++ t <+: fold text := ⟨v, by rw [hfold, List.append_assoc]⟩
  have hsucc : text.take k ++ [text[k]] = text.take (k + 1) := List.take_concat_get' text k hk
  rw [covers_spans_iff hdoc, covers_found_iff hdoc htext]
  refine ⟨t, ht, u, v, hfold, ?_, ?_⟩
  · have hle := (byteLength_le_iff hu (prefix_foldedTo text k)).2 hlo
    have hpos := byteLength_pos (hdoc.ne_nil text[k])
    rw [byteLength_foldedTo hdoc] at hle
    rw [width_append]
    simp only [width]
    omega
  · have hle := (byteLength_le_iff (prefix_foldedTo text (k + 1)) hut).2 hhi
    rwa [byteLength_foldedTo hdoc, ← hsucc] at hle

theorem touches_of_covers (hdoc : Documented) (hk : k < text.length)
    (h : Covers (q.spans text) (byteLength (text.take k))) : q.Touches text k := by
  have htext : text = text.take k ++ text[k] :: text.drop (k + 1) := by simp
  have hsucc : text.take k ++ [text[k]] = text.take (k + 1) := List.take_concat_get' text k hk
  rw [covers_spans_iff hdoc, covers_found_iff hdoc htext] at h
  obtain ⟨t, ht, u, v, hfold, hlo, hhi⟩ := h
  have hu : u <+: fold text := ⟨t ++ v, hfold.symm⟩
  have hut : u ++ t <+: fold text := ⟨v, by rw [hfold, List.append_assoc]⟩
  refine ⟨t, ht, u, v, hfold, ?_, ?_⟩
  · have hle := byteLength_le_iff (prefix_foldedTo text (k + 1)) hu
    rw [byteLength_foldedTo hdoc, ← hsucc] at hle
    omega
  · have hle := byteLength_le_iff hut (prefix_foldedTo text k)
    have hpos := byteLength_pos (hdoc.ne_nil text[k])
    rw [byteLength_foldedTo hdoc] at hle
    rw [width_append] at hhi
    simp only [width] at hhi
    omega

theorem cuts_spans (hdoc : Documented) (q : SearchQuery) (text : List Char) :
    Stretch.Cuts text [] (q.spans text) where
  prefix_text := List.nil_prefix
  boundary _ hs := boundary_of_mem_spans hdoc hs
  nonempty _ hs := nonempty_of_mem_spans hdoc hs
  apart := apart_spans hdoc q text
  after _ _ := Nat.zero_le _

/-- Highlighting changes nothing but what is bold: the markup reads as the text,
its bold runs are apart from each other, and they hold what is inside an
occurrence of a folded term and nothing that is outside of all. -/
theorem highlight_faithful (hdoc : Documented) (q : SearchQuery) (text : List Char) :
    htmlText (q.highlight text) = text ∧ withoutBold (q.highlight text) = escape text ∧
      ∃ rs tail, q.highlight text = rs.flatMap Stretch.markup ++ escape tail ∧
        text = rs.flatMap Stretch.text ++ tail ∧ (∀ r ∈ rs, r.bold ≠ []) ∧
        (∀ r ∈ rs.tail, r.plain ≠ []) ∧
        ∀ k < text.length, (q.Inside text k → Stretch.Bold rs k) ∧
          (Stretch.Bold rs k → q.Touches text k) := by
  have hcuts := cuts_spans hdoc q text
  obtain ⟨tail, htail, hdrop⟩ := @Stretch.Cuts.text_eq [] text _ hcuts
  have hmarkup : q.highlight text =
      (Stretch.ofSpans text 0 (q.spans text)).flatMap Stretch.markup ++ escape tail := by
    have hdrop : dropBytes text (Stretch.reached 0 (q.spans text)) = some tail := hdrop
    rw [highlight, Stretch.foldl_mark]
    dsimp only
    rw [hdrop]
    rfl
  have htext : text = (Stretch.ofSpans text 0 (q.spans text)).flatMap Stretch.text ++ tail := htail
  refine ⟨?_, ?_, Stretch.ofSpans text 0 (q.spans text), tail, hmarkup, htext,
    @Stretch.Cuts.bold_ne_nil [] text _ hcuts, ?_, ?_⟩
  · rw [hmarkup, htmlText_stretches, ← htext]
  · rw [hmarkup, withoutBold_stretches, ← htext]
  · exact @Stretch.Cuts.plain_ne_nil_tail [] text _ hcuts
  · intro k hk
    have hsplit : text = text.take k ++ text[k] :: text.drop (k + 1) := by simp
    have hbold := @Stretch.Cuts.bold_iff [] text _ hcuts _ _ _ hsplit
    have hlength : (text.take k).length = k := by simp [hk.le]
    rw [hlength] at hbold
    exact ⟨fun hin => hbold.2 (covers_of_inside hdoc hk hin),
      fun hin => touches_of_covers hdoc hk (hbold.1 hin)⟩

end SearchQuery

end Tables

open scoped Letters in
/-- Occurrences that overlap, next to characters that are escaped. -/
theorem highlight_faithful_overlapping :
    ∃ q : SearchQuery, q.terms = ["ää".toList] ∧
      q.highlight "<Äää>".toList = "&lt;<b>Äää</b>&gt;".toList ∧
      htmlText (q.highlight "<Äää>".toList) = "<Äää>".toList := by
  refine ⟨⟨["ää".toList], by decide⟩, rfl, by decide, ?_⟩
  exact (SearchQuery.highlight_faithful documented_fewLetters _ _).1

end Vuo.Search
