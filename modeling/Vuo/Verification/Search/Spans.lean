import Vuo.Model.Marks
import Vuo.Verification.Search.Folding

/-!
# From the folded text back to the text

A text cut in two has its folding cut in two, at the widths of the foldings.
The table that leads back compares with every cut as the folded text does.
-/

namespace Vuo.Search

open Foundation
open Content (byteLength byteLength_append byteLength_pos)

/-! ## Cuts -/

theorem byteLength_cons (c : Char) (s : List Char) :
    byteLength (c :: s) = c.utf8Size + byteLength s := rfl

theorem dropBytes_append (p s : List Char) : dropBytes (p ++ s) (byteLength p) = some s := by
  induction p with
  | nil => cases s <;> rfl
  | cons c p ih =>
      have hc := c.utf8Size_pos
      obtain ⟨n, hn⟩ : ∃ n, c.utf8Size + byteLength p = n + 1 :=
        ⟨c.utf8Size + byteLength p - 1, by omega⟩
      rw [List.cons_append, byteLength_cons, hn, dropBytes, if_pos (by omega), ← hn,
        Nat.add_sub_cancel_left, ih]

theorem takeBytes_byteLength (p s : List Char) : takeBytes (p ++ s) (byteLength p) = some p := by
  induction p with
  | nil => cases s <;> rfl
  | cons c p ih =>
      have hc := c.utf8Size_pos
      obtain ⟨n, hn⟩ : ∃ n, c.utf8Size + byteLength p = n + 1 :=
        ⟨c.utf8Size + byteLength p - 1, by omega⟩
      rw [List.cons_append, byteLength_cons, hn, takeBytes, if_pos (by omega), ← hn,
        Nat.add_sub_cancel_left, ih]
      rfl

theorem slice_append (p m s : List Char) :
    slice (p ++ (m ++ s)) (byteLength p) (byteLength (p ++ m)) = some m := by
  rw [slice, dropBytes_append, Option.bind_some, byteLength_append, if_pos (by omega),
    Nat.add_sub_cancel_left, takeBytes_byteLength]

theorem byteLength_le_of_prefix {p s : List Char} (h : p <+: s) : byteLength p ≤ byteLength s := by
  obtain ⟨t, rfl⟩ := h
  rw [byteLength_append]
  omega

/-- Among the beginnings of one text, the shorter one has fewer bytes. -/
theorem byteLength_le_iff {s p p' : List Char} (h : p <+: s) (h' : p' <+: s) :
    byteLength p ≤ byteLength p' ↔ p.length ≤ p'.length := by
  rcases List.prefix_or_prefix_of_prefix h h' with hp | hp
  · exact ⟨fun _ => hp.length_le, fun _ => byteLength_le_of_prefix hp⟩
  · constructor
    · intro hle
      obtain ⟨t, rfl⟩ := hp
      cases t with
      | nil => simp
      | cons c t =>
          have hpos := byteLength_pos (List.cons_ne_nil c t)
          rw [byteLength_append] at hle
          omega
    · intro hle
      rw [hp.eq_of_length_le hle]

/-! ## Hits -/

theorem mem_hits {term s : List Char} {start n : ℕ} :
    n ∈ hits term start s ↔ ∃ u v, s = u ++ (term ++ v) ∧ n = start + byteLength u := by
  induction s generalizing start with
  | nil =>
      rw [hits]
      constructor
      · intro hn
        split_ifs at hn with hterm
        · exact ⟨[], [], by simp [hterm], by simpa [byteLength] using hn⟩
        · cases hn
      · rintro ⟨u, v, hs, rfl⟩
        simp only [List.nil_eq, List.append_eq_nil_iff] at hs
        obtain ⟨rfl, rfl, rfl⟩ := hs
        simp [byteLength]
  | cons c s ih =>
      rw [hits, List.mem_append, ih]
      constructor
      · rintro (hn | ⟨u, v, rfl, rfl⟩)
        · split_ifs at hn with hterm
          · obtain ⟨v, hv⟩ := hterm
            exact ⟨[], v, by simp [hv], by simpa [byteLength] using hn⟩
          · cases hn
        · exact ⟨c :: u, v, rfl, by rw [byteLength_cons]; omega⟩
      · rintro ⟨u, v, hs, rfl⟩
        cases u with
        | nil =>
            have hterm : term <+: c :: s := ⟨v, by simpa using hs.symm⟩
            left
            rw [if_pos hterm]
            simp [byteLength]
        | cons d u =>
            obtain ⟨rfl, rfl⟩ := List.cons.inj hs
            exact .inr ⟨u, v, rfl, by rw [byteLength_cons]; omega⟩

section Tables

variable [Unicode]

open Unicode

/-! ## Widths -/

/-- The bytes of a folded text, each character folded on its own. -/
def width : List Char → ℕ
  | [] => 0
  | c :: s => byteLength (toLower c) + width s

theorem width_append (p s : List Char) : width (p ++ s) = width p + width s := by
  induction p with
  | nil => simp [width]
  | cons c p ih =>
      rw [List.cons_append, width, width, ih]
      omega

theorem width_le_of_prefix {p s : List Char} (h : p <+: s) : width p ≤ width s := by
  obtain ⟨t, rfl⟩ := h
  rw [width_append]
  omega

theorem byteLength_foldChar (hdoc : Documented) (before : List Char) (c : Char)
    (rest : List Char) : byteLength (foldChar before c rest) = byteLength (toLower c) := by
  unfold foldChar
  split_ifs with hc
  · rw [hc, hdoc.sigma]
    rcases mapUppercaseSigma_cases before rest with heq | heq
    · rw [heq]
      rfl
    · rw [heq]
  · rfl

/-- The foldings of the characters, each in its place. -/
def foldings (before : List Char) : List Char → List (List Char)
  | [] => []
  | c :: rest => foldChar before c rest :: foldings (c :: before) rest

theorem toLowercaseFrom_eq (before text : List Char) :
    toLowercaseFrom before text = (foldings before text).flatten := by
  induction text generalizing before with
  | nil => rfl
  | cons c text ih => rw [toLowercaseFrom_cons, foldings, List.flatten_cons, ih]

theorem byteLength_take_foldings (hdoc : Documented) (before text : List Char) (k : ℕ) :
    byteLength ((foldings before text).take k).flatten = width (text.take k) := by
  induction text generalizing before k with
  | nil => simp [foldings, byteLength, width]
  | cons c text ih =>
      cases k with
      | zero => simp [byteLength, width]
      | succ k =>
          rw [foldings, List.take_succ_cons, List.take_succ_cons, List.flatten_cons,
            byteLength_append, byteLength_foldChar hdoc, ih, width]

theorem length_foldings (before text : List Char) :
    (foldings before text).length = text.length := by
  induction text generalizing before with
  | nil => rfl
  | cons c text ih => rw [foldings, List.length_cons, List.length_cons, ih]

theorem byteLength_fold (hdoc : Documented) (text : List Char) :
    byteLength (fold text) = width text := by
  have h := byteLength_take_foldings hdoc [] text text.length
  rw [List.take_of_length_le (length_foldings [] text).le, List.take_length] at h
  rw [fold, toLowercaseFrom_eq, h]

/-! ## The way back -/

/-- The table of a text that is itself at `start`. -/
def originFrom (start : ℕ) (text : List Char) : List ℕ :=
  ((charIndicesFrom start text).flatMap fun p =>
    List.replicate (byteLength (toLower p.2)) p.1) ++ [start + byteLength text]

theorem origin_eq (text : List Char) : origin text = originFrom 0 text := by
  simp [origin, originFrom, charIndices]

theorem originFrom_cons (start : ℕ) (c : Char) (s : List Char) :
    originFrom start (c :: s) =
      List.replicate (byteLength (toLower c)) start ++ originFrom (start + c.utf8Size) s := by
  simp [originFrom, charIndicesFrom, byteLength_cons, Nat.add_assoc]

theorem length_originFrom (start : ℕ) (text : List Char) :
    (originFrom start text).length = width text + 1 := by
  induction text generalizing start with
  | nil => rfl
  | cons c s ih =>
      rw [originFrom_cons, List.length_append, List.length_replicate, ih, width]
      omega

/-- The table leads back to the beginning of a character, and compares with
every cut of the text as the folded text does. -/
theorem getElem?_originFrom {start n a : ℕ} {text : List Char}
    (h : (originFrom start text)[n]? = some a) :
    (∃ p s, text = p ++ s ∧ a = start + byteLength p) ∧
      ∀ p s, text = p ++ s → (start + byteLength p ≤ a ↔ width p ≤ n) := by
  induction text generalizing start n with
  | nil =>
      have hn : n = 0 := by
        by_contra hne
        have hnone : (originFrom start [])[n]? = none := by
          rw [List.getElem?_eq_none_iff, length_originFrom, width]
          omega
        rw [hnone] at h
        cases h
      subst hn
      obtain rfl : start = a := by simpa [originFrom, charIndicesFrom, byteLength] using h
      refine ⟨⟨[], [], rfl, rfl⟩, fun p s hs => ?_⟩
      obtain ⟨rfl, rfl⟩ := List.append_eq_nil_iff.1 hs.symm
      simp [byteLength, width]
  | cons c text ih =>
      have hc := c.utf8Size_pos
      rw [originFrom_cons] at h
      by_cases hn : n < byteLength (toLower c)
      · rw [List.getElem?_append_left (by simpa using hn), List.getElem?_replicate,
          if_pos hn] at h
        obtain rfl := Option.some.inj h
        refine ⟨⟨[], c :: text, rfl, rfl⟩, fun p s hs => ?_⟩
        cases p with
        | nil => simp [byteLength, width]
        | cons d p =>
            obtain ⟨rfl, -⟩ := List.cons.inj hs
            rw [byteLength_cons, width]
            omega
      · rw [List.getElem?_append_right (by simpa using hn), List.length_replicate] at h
        obtain ⟨⟨p, s, rfl, rfl⟩, hcut⟩ := ih h
        refine ⟨⟨c :: p, s, rfl, by rw [byteLength_cons]; omega⟩, fun p' s' hs => ?_⟩
        cases p' with
        | nil =>
            simp only [byteLength, width]
            omega
        | cons d p' =>
            obtain ⟨rfl, hrest⟩ := List.cons.inj hs
            have hcut' := hcut p' s' hrest
            rw [byteLength_cons, width]
            omega

theorem exists_origin {n : ℕ} {text : List Char} (hn : n ≤ width text) :
    ∃ a, (originFrom 0 text)[n]? = some a := by
  have hlt : n < (originFrom 0 text).length := by
    rw [length_originFrom]
    omega
  exact ⟨_, List.getElem?_eq_getElem hlt⟩

/-! ## The ranges found -/

/-- Between two characters of the text, or at an end of it. -/
def Boundary (text : List Char) (n : ℕ) : Prop :=
  ∃ p s, text = p ++ s ∧ n = byteLength p

omit [Unicode] in
/-- A boundary is not inside a character. -/
theorem Boundary.cases {p s : List Char} {c : Char} {n : ℕ} (h : Boundary (p ++ c :: s) n) :
    n ≤ byteLength p ∨ byteLength (p ++ [c]) ≤ n := by
  obtain ⟨p', s', htext, rfl⟩ := h
  have hp : p <+: p ++ c :: s := List.prefix_append p _
  have hpc : p ++ [c] <+: p ++ c :: s := ⟨s, by simp⟩
  have hp' : p' <+: p ++ c :: s := ⟨s', htext.symm⟩
  rw [byteLength_le_iff hp' hp, byteLength_le_iff hpc hp', List.length_append,
    List.length_singleton]
  omega

omit [Unicode] in
theorem original_eq_some {origin : List ℕ} {term : List Char} {start a b : ℕ} :
    original origin term start = some (a, b) ↔
      origin[start]? = some a ∧ origin[start + byteLength term]? = some b ∧ a < b := by
  simp only [original, Option.bind_eq_some_iff, Option.ite_none_right_eq_some, Option.some.injEq,
    Prod.mk.injEq]
  constructor
  · rintro ⟨a', ha, b', hb, hlt, rfl, rfl⟩
    exact ⟨ha, hb, hlt⟩
  · rintro ⟨ha, hb, hlt⟩
    exact ⟨a, ha, b, hb, hlt, rfl, rfl⟩

namespace SearchQuery

variable {q : SearchQuery} {text : List Char}

/-- The ranges before they are sorted and merged. -/
def found (q : SearchQuery) (text : List Char) : List (ℕ × ℕ) :=
  q.terms.flatMap fun term =>
    (hits term 0 (fold text)).filterMap (original (originFrom 0 text) term)

/-- A character folds to as many bytes in a text as on its own: the ranges are
never given up. -/
theorem spans_eq (hdoc : Documented) (q : SearchQuery) (text : List Char) :
    q.spans text = mergeSpans ((q.found text).insertionSort spanLe) := by
  unfold spans found
  dsimp only
  rw [origin_eq, length_originFrom, byteLength_fold hdoc, if_neg (by simp)]

theorem mem_found {span : ℕ × ℕ} :
    span ∈ q.found text ↔ ∃ t ∈ q.terms, ∃ u v, fold text = u ++ (t ++ v) ∧
      (originFrom 0 text)[byteLength u]? = some span.1 ∧
      (originFrom 0 text)[byteLength (u ++ t)]? = some span.2 ∧ span.1 < span.2 := by
  simp only [found, List.mem_flatMap, List.mem_filterMap, mem_hits, byteLength_append]
  constructor
  · rintro ⟨t, ht, n, ⟨u, v, htext, rfl⟩, hspan⟩
    rw [Nat.zero_add] at hspan
    exact ⟨t, ht, u, v, htext, original_eq_some.1 hspan⟩
  · rintro ⟨t, ht, u, v, htext, hspan⟩
    exact ⟨t, ht, byteLength u, ⟨u, v, htext, by simp⟩, original_eq_some.2 hspan⟩

theorem boundary_of_mem_found {span : ℕ × ℕ} (h : span ∈ q.found text) :
    Boundary text span.1 ∧ Boundary text span.2 := by
  obtain ⟨t, -, u, v, -, ha, hb, -⟩ := mem_found.1 h
  obtain ⟨p, s, htext, hp⟩ := (getElem?_originFrom ha).1
  obtain ⟨p', s', htext', hp'⟩ := (getElem?_originFrom hb).1
  exact ⟨⟨p, s, htext, by omega⟩, p', s', htext', by omega⟩

/-- A character is in a range exactly if the end of its folding is in an
occurrence of a term. -/
theorem covers_found_iff (hdoc : Documented) {p s : List Char} {c : Char}
    (htext : text = p ++ c :: s) :
    Covers (q.found text) (byteLength p) ↔
      ∃ t ∈ q.terms, ∃ u v, fold text = u ++ (t ++ v) ∧
        byteLength u < width (p ++ [c]) ∧ width (p ++ [c]) ≤ byteLength (u ++ t) := by
  have hcut : text = (p ++ [c]) ++ s := by simp [htext]
  have hlt : byteLength p < byteLength (p ++ [c]) := by
    have hpos := byteLength_pos (List.cons_ne_nil c [])
    rw [byteLength_append]
    omega
  constructor
  · rintro ⟨span, hspan, hlo, hhi⟩
    obtain ⟨hfirst, hlast⟩ := boundary_of_mem_found hspan
    obtain ⟨t, ht, u, v, hfold, ha, hb, -⟩ := mem_found.1 hspan
    have hcuta := (getElem?_originFrom ha).2 _ _ hcut
    have hcutb := (getElem?_originFrom hb).2 _ _ hcut
    rw [htext] at hlast
    refine ⟨t, ht, u, v, hfold, ?_, ?_⟩
    · omega
    · rcases hlast.cases with hle | hle
      · omega
      · omega
  · rintro ⟨t, ht, u, v, hfold, hlo, hhi⟩
    have hwidth : byteLength (u ++ t) ≤ width text := by
      rw [← byteLength_fold hdoc]
      exact byteLength_le_of_prefix ⟨v, by rw [hfold, List.append_assoc]⟩
    obtain ⟨a, ha⟩ : ∃ a, (originFrom 0 text)[byteLength u]? = some a := exists_origin (by omega)
    obtain ⟨b, hb⟩ : ∃ b, (originFrom 0 text)[byteLength (u ++ t)]? = some b :=
      exists_origin hwidth
    have hcuta := (getElem?_originFrom ha).2 _ _ hcut
    have hcutb := (getElem?_originFrom hb).2 _ _ hcut
    obtain ⟨p', s', htext', hp'⟩ := (getElem?_originFrom ha).1
    have hbound : Boundary text a := ⟨p', s', htext', by omega⟩
    rw [htext] at hbound
    have hle : a ≤ byteLength p := by
      rcases hbound.cases with hle | hle
      · exact hle
      · omega
    exact ⟨(a, b), mem_found.2 ⟨t, ht, u, v, hfold, ha, hb, by omega⟩, hle, by omega⟩

/-! ## The ranges marked -/

theorem covers_spans_iff (hdoc : Documented) {x : ℕ} :
    Covers (q.spans text) x ↔ Covers (q.found text) x := by
  rw [spans_eq hdoc, covers_mergeSpans (ascending_insertionSort _)]
  simp only [Covers, List.mem_insertionSort]

theorem boundary_of_mem_spans (hdoc : Documented) {span : ℕ × ℕ} (h : span ∈ q.spans text) :
    Boundary text span.1 ∧ Boundary text span.2 := by
  rw [spans_eq hdoc] at h
  obtain ⟨⟨a, ha, hfirst⟩, b, hb, hlast⟩ := ends_mergeSpans h
  rw [List.mem_insertionSort] at ha hb
  rw [hfirst, hlast]
  exact ⟨(boundary_of_mem_found ha).1, (boundary_of_mem_found hb).2⟩

theorem nonempty_of_mem_spans (hdoc : Documented) {span : ℕ × ℕ} (h : span ∈ q.spans text) :
    span.1 < span.2 := by
  rw [spans_eq hdoc] at h
  refine nonempty_mergeSpans (fun s hs => ?_) span h
  obtain ⟨-, -, -, -, -, -, -, hlt⟩ := mem_found.1 (List.mem_insertionSort _ |>.1 hs)
  exact hlt

theorem apart_spans (hdoc : Documented) (q : SearchQuery) (text : List Char) :
    (q.spans text).Pairwise fun a b => a.2 < b.1 := by
  rw [spans_eq hdoc]
  exact apart_mergeSpans (ascending_insertionSort _)

end SearchQuery

end Tables

end Vuo.Search
