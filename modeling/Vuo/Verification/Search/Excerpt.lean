import Vuo.Verification.Search.Collapse
import Vuo.Verification.Search.Highlight

/-!
# Excerpts

A body that is a hit has a term marked in its collapsed text, and the excerpt is
cut around the first mark: what it is cut at are the ends of words, unless the
words are too long.
-/

namespace Vuo.Search

open Foundation
open Content (byteLength byteLength_append byteLength_pos)
open SearchQuery (collapse)

section Tables

variable [Unicode] {q : SearchQuery} {t text : List Char}

open Unicode

/-! ## A hit is marked -/

/-- Covering a character covers a point. -/
theorem exists_covers (hdoc : Documented) {p s u v : List Char} {c : Char}
    (htext : text = p ++ c :: s) (ht : t ∈ q.terms) (hfold : fold text = u ++ (t ++ v))
    (hlo : byteLength u < width (p ++ [c])) (hhi : width (p ++ [c]) ≤ byteLength (u ++ t)) :
    ∃ x, Covers (q.spans text) x := by
  refine ⟨byteLength p, (SearchQuery.covers_spans_iff hdoc).2 ?_⟩
  exact (SearchQuery.covers_found_iff hdoc htext).2 ⟨t, ht, u, v, hfold, hlo, hhi⟩

theorem drop_foldings (before p s : List Char) :
    (foldings before (p ++ s)).drop p.length = foldings (p.reverse ++ before) s := by
  induction p generalizing before with
  | nil => rfl
  | cons c p ih =>
      rw [List.cons_append, foldings, List.length_cons, List.drop_succ_cons, ih]
      simp

/-- The folding of a text that is cut. -/
theorem fold_append (p s : List Char) :
    fold (p ++ s) = foldedTo (p ++ s) p.length ++ toLowercaseFrom p.reverse s := by
  have hdrop := drop_foldings [] p s
  rw [List.append_nil] at hdrop
  rw [fold, toLowercaseFrom_eq, toLowercaseFrom_eq, foldedTo, ← hdrop, ← List.flatten_append,
    List.take_append_drop]

/-- Only one letter of ASCII is folded to with more to follow. -/
theorem eq_of_foldChar_eq (hdoc : Documented) {before rest u v : List Char} {c : Char}
    (h : foldChar before c rest = u ++ (t ++ v)) (ht : t ≠ []) (hv : v ≠ []) : t = ['i'] := by
  have hlong : 2 ≤ (u ++ (t ++ v)).length := by
    have ht := List.length_pos_iff.2 ht
    have hv := List.length_pos_iff.2 hv
    simp only [List.length_append]
    omega
  rw [← h] at hlong
  unfold foldChar at h hlong
  split_ifs at h hlong with hsigma
  · simp at hlong
  · have hc : c = Char.ofNat 0x130 := by
      by_contra hne
      rw [hdoc.single c hne] at hlong
      omega
    rw [hc, hdoc.dotted] at h
    have ht := List.length_pos_iff.2 ht
    have hv := List.length_pos_iff.2 hv
    have hlength := congrArg List.length h
    simp only [List.length_append, List.length_cons, List.length_nil] at hlength
    obtain rfl : u = [] := List.eq_nil_of_length_eq_zero (by omega)
    obtain ⟨d, rfl⟩ := List.length_eq_one_iff.1 (show t.length = 1 by omega)
    rw [List.nil_append, List.singleton_append] at h
    rw [(List.cons.inj h).1]

/-- An occurrence covers the character its first byte belongs to, unless it ends
inside the folding of that character; only a term in ASCII can do that. -/
theorem exists_covers_of_fold (hdoc : Documented) (ht : t ∈ q.terms) (hne : t ≠ [])
    (hascii : isAscii t = false) (h : t <:+: fold text) : ∃ x, Covers (q.spans text) x := by
  obtain ⟨u, v, hfold⟩ := h
  rw [List.append_assoc] at hfold
  have hbytes := byteLength_fold hdoc text
  have hpos := byteLength_pos hne
  rw [← hfold, byteLength_append, byteLength_append] at hbytes
  obtain ⟨a, ha⟩ : ∃ a, (originFrom 0 text)[byteLength u]? = some a := exists_origin (by omega)
  obtain ⟨⟨p, s, rfl, hp⟩, hcut⟩ := getElem?_originFrom ha
  have hwidth : width p ≤ byteLength u := (hcut p s rfl).1 (by omega)
  cases s with
  | nil =>
      rw [List.append_nil] at hbytes
      omega
  | cons c s =>
      have hlt : byteLength u < width (p ++ [c]) := by
        have hc := hcut (p ++ [c]) s (by simp)
        have hmore := byteLength_pos (List.cons_ne_nil c [])
        rw [byteLength_append] at hc
        omega
      by_cases hhi : width (p ++ [c]) ≤ byteLength (u ++ t)
      · exact exists_covers hdoc rfl ht hfold.symm hlt hhi
      · -- The occurrence lies inside one folding, with more of it to follow.
        have hcutfold := fold_append p (c :: s)
        rw [toLowercaseFrom_cons] at hcutfold
        have hfirst := byteLength_foldedTo hdoc (p ++ c :: s) p.length
        rw [List.take_left] at hfirst
        have hchar := byteLength_foldChar hdoc p.reverse c s
        rw [width_append] at hhi
        simp only [width] at hhi
        have hle : (foldedTo (p ++ c :: s) p.length).length ≤ u.length := by
          refine (byteLength_le_iff (prefix_foldedTo _ _) ⟨t ++ v, hfold⟩).1 ?_
          omega
        obtain ⟨u', rfl⟩ := List.prefix_of_prefix_length_le (prefix_foldedTo _ _)
          ⟨t ++ v, hfold⟩ hle
        rw [hcutfold, List.append_assoc] at hfold
        have hpiece := List.append_cancel_left hfold
        simp only [byteLength_append] at hhi
        have hpre : u' ++ t <+: foldChar p.reverse c s := by
          have hl : u' ++ t <+: foldChar p.reverse c s ++ toLowercaseFrom (c :: p.reverse) s :=
            ⟨v, by rw [← hpiece]; simp⟩
          have hr := List.prefix_append (foldChar p.reverse c s)
            (toLowercaseFrom (c :: p.reverse) s)
          refine List.prefix_of_prefix_length_le hl hr ((byteLength_le_iff hl hr).1 ?_)
          rw [byteLength_append]
          omega
        obtain ⟨v', hv'⟩ := hpre
        rw [List.append_assoc] at hv'
        have hne' : v' ≠ [] := by
          rintro rfl
          rw [← hv', List.append_nil, byteLength_append] at hchar
          omega
        have hi := eq_of_foldChar_eq hdoc hv'.symm hne hne'
        rw [hi] at hascii
        exact absurd hascii (by decide)

/-- Letters of ASCII fold one by one. -/
theorem toLowercaseFrom_ascii_append (hdoc : Documented) {m : List Char}
    (hm : ∀ c ∈ m, Ascii c) (before rest : List Char) :
    toLowercaseFrom before (m ++ rest) =
      asciiLowercase m ++ toLowercaseFrom (m.reverse ++ before) rest := by
  induction m generalizing before with
  | nil => rfl
  | cons c m ih =>
      have hc := hm c List.mem_cons_self
      have hsigma : c ≠ capitalSigma := by
        rintro rfl
        exact absurd hc (by decide)
      rw [List.cons_append, toLowercaseFrom_cons, ih fun d hd => hm d (List.mem_cons_of_mem _ hd),
        foldChar, if_neg hsigma, hdoc.ascii c hc]
      simp [asciiLowercase]

omit [Unicode] in
/-- What is lowered to a term in ASCII is in ASCII. -/
theorem ascii_of_toLower {c : Char} (h : Ascii c.toLower) : Ascii c := by
  by_contra hc
  rw [toLower_of_not_ascii hc] at h
  exact hc h

/-- A term in ASCII is found letter by letter. -/
theorem exists_covers_of_ascii (hdoc : Documented) (ht : t ∈ q.terms) (hne : t ≠ [])
    (hascii : isAscii t = true) (h : t <:+: asciiLowercase text) :
    ∃ x, Covers (q.spans text) x := by
  obtain ⟨u, v, hlower⟩ := h
  obtain ⟨l, s, rfl, hl, -⟩ := List.map_eq_append_iff.1 hlower.symm
  obtain ⟨p, m, rfl, -, hm⟩ := List.map_eq_append_iff.1 hl
  have hletters : ∀ c ∈ m, Ascii c := by
    intro c hc
    have hterm : ∀ d ∈ t, Ascii d := by simpa [isAscii, Ascii] using hascii
    exact ascii_of_toLower (hterm _ (hm ▸ List.mem_map_of_mem hc))
  have hfold := fold_append p (m ++ s)
  have hwidth := byteLength_foldedTo hdoc (p ++ (m ++ s)) p.length
  rw [List.take_left, ← List.append_assoc] at hwidth
  rw [toLowercaseFrom_ascii_append hdoc hletters, asciiLowercase, hm, ← List.append_assoc p]
    at hfold
  cases m with
  | nil => exact absurd (hm.symm.trans rfl) hne
  | cons c m =>
      have hc := hletters c List.mem_cons_self
      have hchar : width [c] = byteLength [c.toLower] := by
        simp only [width, hdoc.ascii c hc]
        omega
      have hterm : byteLength t = byteLength [c.toLower] + byteLength (m.map Char.toLower) := by
        rw [← hm, ← byteLength_append]
        rfl
      have hpos := byteLength_pos (List.cons_ne_nil c.toLower [])
      have htext : p ++ (c :: m) ++ s = p ++ c :: (m ++ s) := by simp
      refine exists_covers hdoc htext ht hfold ?_ ?_
      · rw [width_append]
        omega
      · rw [width_append, byteLength_append]
        omega

/-- Where no term is in the title, the body has a term beyond ASCII once folded,
or all terms once lowered in ASCII. -/
theorem terms_of_classify {title contentHtml : List Char}
    (h : q.classify title contentHtml = some .text) :
    (∃ t ∈ q.terms, isAscii t = false ∧ t <:+: fold (htmlText contentHtml)) ∨
      ∀ t ∈ q.terms, isAscii t = true ∧ t <:+: asciiLowercase (htmlText contentHtml) := by
  unfold SearchQuery.classify at h
  dsimp only at h
  generalize hbody : (if (q.terms.filter fun t => !contains (fold title) t).all isAscii then
    asciiLowercase (htmlText contentHtml) else fold (htmlText contentHtml)) = body at h
  split_ifs at h with hmissing hshort
  · cases h
  have hfilter : (q.terms.filter fun t => !contains (fold title) t) = q.terms := by
    refine List.filter_eq_self.2 (List.length_filter_eq_length_iff.1 ?_)
    exact le_antisymm (List.length_filter_le _ _) (not_lt.1 hshort)
  rw [hfilter] at hmissing hbody
  have hall : ∀ t ∈ q.terms, t <:+: body := by
    have hall : q.terms.all (contains body) = true := by
      by_contra hnot
      exact hmissing ⟨q.terms_ne, by simpa using hnot⟩
    exact fun t ht => contains_iff.1 (List.all_eq_true.1 hall t ht)
  split_ifs at hbody with hascii
  · exact .inr fun t ht => ⟨List.all_eq_true.1 hascii t ht, hbody ▸ hall t ht⟩
  · obtain ⟨t, ht, hnot⟩ := List.all_eq_false.1 (Bool.not_eq_true _ ▸ hascii)
    exact .inl ⟨t, ht, by simpa using hnot, hbody ▸ hall t ht⟩

theorem spans_ne_nil_of_classify (hdoc : Documented) {raw title contentHtml : List Char}
    (hparse : SearchQuery.parse raw = some q) (h : q.classify title contentHtml = some .text) :
    q.spans (collapse (htmlText contentHtml)) ≠ [] := by
  have hcovers : ∃ x, Covers (q.spans (collapse (htmlText contentHtml))) x := by
    rcases terms_of_classify h with ⟨t, ht, hascii, hin⟩ | hall
    · obtain ⟨hne, hblack⟩ := mem_terms hdoc hparse ht
      have hcollapse := infix_collapse hblack hne hin
      rw [← fold_collapse hdoc] at hcollapse
      exact exists_covers_of_fold hdoc ht hne hascii hcollapse
    · obtain ⟨t, ht⟩ := List.exists_mem_of_ne_nil _ q.terms_ne
      obtain ⟨hne, hblack⟩ := mem_terms hdoc hparse ht
      obtain ⟨hascii, u, v, hlower⟩ := hall t ht
      obtain ⟨l, s, hbody, hl, -⟩ := List.map_eq_append_iff.1 hlower.symm
      obtain ⟨p, m, rfl, -, hm⟩ := List.map_eq_append_iff.1 hl
      have hmne : m ≠ [] := by
        rintro rfl
        exact hne (hm.symm.trans rfl)
      have hmblack : Black m := by
        intro c hc
        by_contra hwhite
        have hlower := (toLower_white (Bool.of_not_eq_false hwhite)).1
        have hterm := hblack _ (hm ▸ List.mem_map_of_mem hc)
        rw [hlower] at hterm
        exact hwhite hterm
      have hin : t <:+: asciiLowercase (collapse (htmlText contentHtml)) := by
        rw [← hm]
        exact (infix_collapse hmblack hmne ⟨p, s, hbody.symm⟩).map Char.toLower
      exact exists_covers_of_ascii hdoc ht hne hascii hin
  obtain ⟨x, span, hspan, -⟩ := hcovers
  exact List.ne_nil_of_mem hspan

/-- No white space is marked. -/
theorem black_of_covers (hdoc : Documented) (hterms : ∀ t ∈ q.terms, Black t) {p s : List Char}
    {c : Char} (htext : text = p ++ c :: s) (h : Covers (q.spans text) (byteLength p)) :
    isWhitespace c = false := by
  rw [SearchQuery.covers_spans_iff hdoc, SearchQuery.covers_found_iff hdoc htext] at h
  obtain ⟨t, ht, u, v, hfold, hlo, hhi⟩ := h
  by_contra hwhite
  have hwhite := Bool.of_not_eq_false hwhite
  have hsigma : c ≠ capitalSigma := by
    rintro rfl
    exact absurd hwhite (by decide)
  have hwidth := byteLength_foldedTo hdoc text p.length
  have hcut := fold_append p (c :: s)
  rw [toLowercaseFrom_cons, foldChar, if_neg hsigma, (hdoc.white c hwhite).1, ← htext] at hcut
  rw [htext, List.take_left, ← htext] at hwidth
  rw [width_append, width, width, (hdoc.white c hwhite).1] at hlo hhi
  have hut : u ++ t <+: fold text := ⟨v, by rw [hfold, List.append_assoc]⟩
  have hu : u <+: fold text := ⟨t ++ v, hfold.symm⟩
  have hfc : foldedTo text p.length ++ [c] <+: fold text := by
    rw [hcut]
    exact ⟨_, by rw [List.append_assoc]⟩
  have hlast := (byteLength_le_iff hfc hut).1 (by rw [byteLength_append]; omega)
  have hfirst : u.length ≤ (foldedTo text p.length).length := by
    have hle := byteLength_le_iff hfc hu
    rw [byteLength_append, List.length_append, List.length_singleton] at hle
    omega
  obtain ⟨z, hz⟩ := List.prefix_of_prefix_length_le hfc hut hlast
  obtain ⟨y, hy⟩ := List.prefix_of_prefix_length_le hu (prefix_foldedTo text p.length) hfirst
  rw [← hy] at hz
  have hterm : y ++ ([c] ++ z) = t := by
    refine @List.append_cancel_left _ u _ _ ?_
    simpa using hz
  have hmem : c ∈ t := by
    rw [← hterm]
    simp
  rw [hterms t ht c hmem] at hwhite
  cases hwhite

/-- The first mark cuts the text, and has no white space in it. -/
theorem exists_first_match (hdoc : Documented) (hterms : ∀ t ∈ q.terms, Black t)
    (hspans : q.spans text ≠ []) :
    ∃ p m s, text = p ++ (m ++ s) ∧ m ≠ [] ∧ Black m ∧
      (q.spans text).head? = some (byteLength p, byteLength (p ++ m)) := by
  obtain ⟨span, rest, hcons⟩ := List.exists_cons_of_ne_nil hspans
  have hcuts := SearchQuery.cuts_spans hdoc q text
  rw [hcons] at hcuts
  obtain ⟨p, m, s, htext, hm, hfirst, hlast, -⟩ :=
    @Stretch.Cuts.exists_cut [] text _ _ hcuts
  rw [List.nil_append] at hfirst hlast
  refine ⟨p, m, s, htext, hm, fun c hc => ?_, ?_⟩
  · obtain ⟨m₁, m₂, rfl⟩ := List.append_of_mem hc
    have hchar : text = p ++ m₁ ++ c :: (m₂ ++ s) := by
      rw [htext]
      simp
    refine black_of_covers hdoc hterms hchar ?_
    refine ⟨span, hcons ▸ List.mem_cons_self, ?_, ?_⟩
    · rw [hfirst, byteLength_append]
      omega
    · have hpos := byteLength_pos (List.cons_ne_nil c m₂)
      rw [hlast]
      simp only [byteLength_append]
      omega
  · rw [hcons, List.head?_cons, ← hfirst, ← hlast]

end Tables

/-! ## The window -/

open SearchQuery (isSpaceAt excerptFrom excerptTo excerptLead excerptLength ellipsis)

theorem getElem?_charIndicesFrom (start : ℕ) (text : List Char) (i : ℕ) :
    (charIndicesFrom start text)[i]? =
      text[i]?.map fun c => (start + byteLength (text.take i), c) := by
  induction text generalizing start i with
  | nil => simp [charIndicesFrom]
  | cons c text ih =>
      cases i with
      | zero => simp [charIndicesFrom, byteLength]
      | succ i =>
          rw [charIndicesFrom, List.getElem?_cons_succ, List.getElem?_cons_succ, ih,
            List.take_succ_cons, byteLength_cons, Nat.add_assoc]

theorem length_charIndices (text : List Char) : (charIndices text).length = text.length := by
  have hall : ∀ start, (charIndicesFrom start text).length = text.length := by
    induction text with
    | nil => exact fun _ => rfl
    | cons c text ih =>
        intro start
        rw [charIndicesFrom, List.length_cons, List.length_cons, ih]
  exact hall 0

theorem isSpaceAt_charIndices {text : List Char} {i : ℕ} :
    isSpaceAt (charIndices text) i = true ↔ text[i]? = some ' ' := by
  simp [isSpaceAt, charIndices, getElem?_charIndicesFrom]

/-- Where the character at `i` begins. -/
theorem byte_charIndices {text : List Char} {i : ℕ} (hi : i ≤ text.length) :
    ((charIndices text)[i]?.map Prod.fst).getD (byteLength text) = byteLength (text.take i) := by
  rw [charIndices, getElem?_charIndicesFrom]
  rcases hi.lt_or_eq with hlt | rfl
  · simp [List.getElem?_eq_getElem hlt]
  · simp

/-- Where in the text a boundary is. -/
theorem findIdx?_charIndices {p s : List Char} (hs : s ≠ []) :
    (charIndices (p ++ s)).findIdx? (fun x => x.1 = byteLength p) = some p.length := by
  have hlt : p.length < (charIndices (p ++ s)).length := by
    have hs := List.length_pos_iff.2 hs
    rw [length_charIndices, List.length_append]
    omega
  have hat (i : ℕ) (hi : i < (charIndices (p ++ s)).length) :
      ((charIndices (p ++ s))[i]).1 = byteLength ((p ++ s).take i) := by
    have h := getElem?_charIndicesFrom 0 (p ++ s) i
    rw [← charIndices, List.getElem?_eq_getElem hi] at h
    obtain ⟨c, -, hc⟩ := Option.map_eq_some_iff.1 h.symm
    rw [← hc, Nat.zero_add]
  rw [List.findIdx?_eq_some_iff_getElem]
  refine ⟨hlt, ?_, fun i hi => ?_⟩
  · rw [hat p.length hlt, List.take_left]
    simp
  · have hle := byteLength_le_iff (List.prefix_append p s) (List.take_prefix i (p ++ s))
    rw [hat i (hi.trans hlt)]
    simp only [List.length_take, List.length_append] at hle
    simp only [decide_eq_true_eq]
    omega

theorem slice_take {text : List Char} {i j : ℕ} (hij : i ≤ j) :
    slice text (byteLength (text.take i)) (byteLength (text.take j)) =
      some ((text.take j).drop i) := by
  have htake : (text.take j).take i = text.take i := by
    rw [List.take_take, min_eq_left hij]
  have h := slice_append (text.take i) ((text.take j).drop i) (text.drop j)
  rw [← htake, ← List.append_assoc, List.take_append_drop, List.take_append_drop, htake] at h
  exact h

theorem excerptFrom_spec (chars : List (ℕ × Char)) (at' : ℕ) :
    excerptFrom chars at' ≤ at' ∧ at' ≤ excerptFrom chars at' + 40 ∧
      (excerptFrom chars at' = 0 ∨
        (0 < excerptFrom chars at' ∧ isSpaceAt chars (excerptFrom chars at' - 1) = true) ∨
          excerptFrom chars at' = at') := by
  unfold excerptFrom excerptLead
  dsimp only
  split_ifs with hfirst
  · cases hfind : (List.range' (at' - 40) (at' - (at' - 40))).find? fun i =>
        isSpaceAt chars (i - 1) with
    | none =>
        rw [Option.getD_none]
        exact ⟨le_rfl, by omega, .inr (.inr rfl)⟩
    | some i =>
        have hmem := List.mem_range'_1.1 (List.mem_of_find?_eq_some hfind)
        have hspace := List.find?_some hfind
        rw [Option.getD_some]
        exact ⟨by omega, by omega, .inr (.inl ⟨by omega, hspace⟩)⟩
  · exact ⟨by omega, by omega, .inl (by omega)⟩

theorem excerptTo_spec {chars : List (ℕ × Char)} {at' first : ℕ} (hat : at' < chars.length) :
    excerptTo chars at' first ≤ chars.length ∧ excerptTo chars at' first ≤ first + 200 ∧
      (excerptTo chars at' first = chars.length ∨
        (at' < excerptTo chars at' first ∧
          isSpaceAt chars (excerptTo chars at' first) = true) ∨
        (excerptTo chars at' first = first + 200 ∧
          ∀ i, at' < i → i < excerptTo chars at' first → isSpaceAt chars i = false)) := by
  unfold excerptTo excerptLength
  dsimp only
  split_ifs with hlast
  · cases hfind : (List.range' (at' + 1)
        (min (first + 200) chars.length - (at' + 1))).reverse.find? (isSpaceAt chars) with
    | none =>
        rw [Option.getD_none]
        refine ⟨by omega, by omega, .inr (.inr ⟨by omega, fun i hlo hhi => ?_⟩)⟩
        have hnone := List.find?_eq_none.1 hfind i
          (List.mem_reverse.2 (List.mem_range'_1.2 ⟨by omega, by omega⟩))
        simpa using hnone
    | some i =>
        have hmem := List.mem_range'_1.1
          (List.mem_reverse.1 (List.mem_of_find?_eq_some hfind))
        have hspace := List.find?_some hfind
        rw [Option.getD_some]
        exact ⟨by omega, by omega, .inr (.inl ⟨by omega, hspace⟩)⟩
  · exact ⟨by omega, by omega, .inl (by omega)⟩

/-! ## Ends of words -/

def BlackAt (text : List Char) (i : ℕ) : Prop :=
  ∃ c, text[i]? = some c ∧ isWhitespace c = false

/-- A word begins at `i`, after a space. -/
def WordStart (text : List Char) (i : ℕ) : Prop :=
  0 < i ∧ text[i - 1]? = some ' ' ∧ BlackAt text i

/-- A word ends before the space at `i`. -/
def WordEnd (text : List Char) (i : ℕ) : Prop :=
  0 < i ∧ text[i]? = some ' ' ∧ BlackAt text (i - 1)

theorem Collapsed.at {text : List Char} (h : Collapsed text) {i : ℕ} {c : Char}
    (hi : text[i]? = some c) (hc : isWhitespace c = true) :
    c = ' ' ∧ 0 < i ∧ BlackAt text (i - 1) ∧ BlackAt text (i + 1) := by
  obtain ⟨hlt, rfl⟩ := List.getElem?_eq_some_iff.1 hi
  have htext : text = text.take i ++ text[i] :: text.drop (i + 1) := by simp
  obtain ⟨hspace, ⟨p, d, hp, hd⟩, e, s, hs, he⟩ := h _ _ _ htext hc
  have hlength := congrArg List.length hp
  simp only [List.length_take, List.length_append, List.length_singleton] at hlength
  refine ⟨hspace, by omega, ⟨d, ?_, hd⟩, e, ?_, he⟩
  · have hbefore : (text.take i)[i - 1]? = some d := by
      rw [hp, List.getElem?_append_right (by omega), show i - 1 - p.length = 0 by omega]
      rfl
    rwa [List.getElem?_take_of_lt (by omega)] at hbefore
  · have hafter : (text.drop (i + 1))[0]? = some e := by
      rw [hs]
      rfl
    rwa [List.getElem?_drop] at hafter

theorem Collapsed.blackAt_zero {text : List Char} (h : Collapsed text) (hne : text ≠ []) :
    BlackAt text 0 := by
  obtain ⟨c, s, rfl⟩ := List.exists_cons_of_ne_nil hne
  refine ⟨c, rfl, ?_⟩
  by_contra hc
  have hpos := (h.at (i := 0) rfl (Bool.of_not_eq_false hc)).2.1
  omega

theorem Collapsed.blackAt_last {text : List Char} (h : Collapsed text) (hne : text ≠ []) :
    BlackAt text (text.length - 1) := by
  have hpos := List.length_pos_iff.2 hne
  refine ⟨_, List.getElem?_eq_getElem (by omega), ?_⟩
  by_contra hc
  obtain ⟨d, hd, -⟩ := (h.at (List.getElem?_eq_getElem (by omega))
    (Bool.of_not_eq_false hc)).2.2.2
  obtain ⟨hlt, -⟩ := List.getElem?_eq_some_iff.1 hd
  omega

theorem Collapsed.blackAt_of_not_space {text : List Char} (h : Collapsed text) {i : ℕ}
    (hi : i < text.length) (hspace : text[i]? ≠ some ' ') : BlackAt text i := by
  refine ⟨text[i], List.getElem?_eq_getElem hi, ?_⟩
  by_contra hc
  have hget := List.getElem?_eq_getElem hi
  rw [(h.at hget (Bool.of_not_eq_false hc)).1] at hget
  exact hspace hget

/-- Trimming leaves alone what neither begins nor ends with white space. -/
theorem trim_eq_self {text : List Char} {first last : ℕ} (hlt : first < last)
    (hfirst : BlackAt text first) (hlast : BlackAt text (last - 1)) :
    trim ((text.take last).drop first) = (text.take last).drop first := by
  obtain ⟨c, hc, hcblack⟩ := hfirst
  obtain ⟨d, hd, hdblack⟩ := hlast
  obtain ⟨hltc, -⟩ := List.getElem?_eq_some_iff.1 hc
  obtain ⟨hltd, -⟩ := List.getElem?_eq_some_iff.1 hd
  have hhead : ((text.take last).drop first).head? = some c := by
    rw [List.head?_drop, List.getElem?_take_of_lt hlt, hc]
  have hend : ((text.take last).drop first).getLast? = some d := by
    rw [List.getLast?_drop, if_neg (by rw [List.length_take]; omega), List.getLast?_eq_getElem?,
      List.length_take, min_eq_left (by omega), List.getElem?_take_of_lt (by omega), hd]
  generalize (text.take last).drop first = piece at hhead hend
  have hstart : trimStart piece = piece := by
    cases piece with
    | nil => rfl
    | cons e piece =>
        obtain rfl : e = c := by simpa using hhead
        rw [trimStart, List.dropWhile_cons_of_neg (by simp [hcblack])]
  have hstop : trimEnd piece = piece := by
    obtain ⟨front, rfl⟩ : ∃ front, piece = front ++ [d] :=
      ⟨piece.dropLast, (List.dropLast_append_getLast? d hend).symm⟩
    rw [trimEnd, List.reverse_append, List.reverse_singleton, List.singleton_append,
      List.dropWhile_cons_of_neg (by simp [hdblack])]
    simp
  rw [trim, hstart, hstop]

/-! ## The excerpt -/

section Excerpt

variable [Unicode] {q : SearchQuery}

open Unicode

/-- An excerpt of the text, from `first` to `last`, around the match `m`. -/
structure Excerpt (q : SearchQuery) (text out p m : List Char) (first last : ℕ) : Prop where
  text_eq : p ++ m <+: text
  first_match : (q.spans text).head? = some (byteLength p, byteLength (p ++ m))
  within : first < last ∧ last ≤ text.length
  out_eq : out = (if 0 < first then [ellipsis] else []) ++ (text.take last).drop first ++
    if last < text.length then [ellipsis] else []
  shows : m.length ≤ 160 → first ≤ p.length ∧ p.length + m.length ≤ last
  begins : first = 0 ∨ WordStart text first ∨ first = p.length
  ends : last = text.length ∨ WordEnd text last ∨ last = first + 200
  short : out.length ≤ 202

omit [Unicode] in
/-- Where the window is, and what it is cut at. -/
theorem window_spec {text p m s : List Char} (hcollapsed : Collapsed text)
    (htext : text = p ++ (m ++ s)) (hm : m ≠ []) (hblack : Black m) {first last : ℕ}
    (hfrom : first = excerptFrom (charIndices text) p.length)
    (hto : last = excerptTo (charIndices text) p.length first) :
    first < last ∧ last ≤ text.length ∧ last ≤ first + 200 ∧ BlackAt text first ∧
      BlackAt text (last - 1) ∧ (first = 0 ∨ WordStart text first ∨ first = p.length) ∧
      (last = text.length ∨ WordEnd text last ∨ last = first + 200) ∧ first ≤ p.length ∧
      (m.length ≤ 160 → p.length + m.length ≤ last) := by
  have hpos := List.length_pos_iff.2 hm
  have hlength : text.length = p.length + m.length + s.length := by
    rw [htext]
    simp only [List.length_append]
    omega
  have hne : text ≠ [] := List.ne_nil_of_length_pos (by omega)
  have hmatch (i : ℕ) (hlo : p.length ≤ i) (hhi : i < p.length + m.length) : BlackAt text i := by
    have hin : i - p.length < m.length := by omega
    have hi : text[i]? = some (m[i - p.length]) := by
      rw [htext, List.getElem?_append_right hlo, List.getElem?_append_left (by omega),
        List.getElem?_eq_getElem (by omega)]
    exact ⟨_, hi, hblack _ (List.getElem_mem _)⟩
  have hspace (i : ℕ) (hi : isSpaceAt (charIndices text) i = true) :
      text[i]? = some ' ' ∧ 0 < i ∧ BlackAt text (i - 1) ∧ BlackAt text (i + 1) := by
    have hget := isSpaceAt_charIndices.1 hi
    exact ⟨hget, (hcollapsed.at hget (by decide)).2⟩
  obtain ⟨hle, hlead, hbegins⟩ := excerptFrom_spec (charIndices text) p.length
  have hto_spec := @excerptTo_spec (charIndices text) p.length first
    (by rw [length_charIndices]; omega)
  rw [length_charIndices, ← hto] at hto_spec
  rw [← hfrom] at hle hlead hbegins
  obtain ⟨hlast, hlong, hends⟩ := hto_spec
  have hlt : first < last := by
    rcases hends with hends | ⟨hends, -⟩ | ⟨hends, -⟩ <;> omega
  have hfirst : first = 0 ∨ WordStart text first ∨ first = p.length := by
    rcases hbegins with hzero | ⟨hpos, hbefore⟩ | hat
    · exact .inl hzero
    · obtain ⟨hget, -, -, hafter⟩ := hspace _ hbefore
      rw [Nat.sub_add_cancel hpos] at hafter
      exact .inr (.inl ⟨hpos, hget, hafter⟩)
    · exact .inr (.inr hat)
  have hblackfirst : BlackAt text first := by
    rcases hfirst with hzero | hword | hat
    · rw [hzero]
      exact hcollapsed.blackAt_zero hne
    · exact hword.2.2
    · exact hmatch first (by omega) (by omega)
  have hblacklast : BlackAt text (last - 1) := by
    rcases hends with hall | ⟨-, hat⟩ | ⟨hfull, hnone⟩
    · rw [hall]
      exact hcollapsed.blackAt_last hne
    · exact (hspace _ hat).2.2.1
    · refine hcollapsed.blackAt_of_not_space (by omega) fun hget => ?_
      have hnot := hnone (last - 1) (by omega) (by omega)
      rw [isSpaceAt_charIndices.2 hget] at hnot
      cases hnot
  refine ⟨hlt, hlast, hlong, hblackfirst, hblacklast, hfirst, ?_, hle, fun hshort => ?_⟩
  · rcases hends with hall | ⟨-, hat⟩ | ⟨hfull, -⟩
    · exact .inl hall
    · obtain ⟨hget, hpos, hbefore, -⟩ := hspace _ hat
      exact .inr (.inl ⟨hpos, hget, hbefore⟩)
    · exact .inr (.inr hfull)
  · rcases hends with hall | ⟨hafter, hat⟩ | ⟨hfull, -⟩
    · omega
    · by_contra hinside
      obtain ⟨c, hget, hc⟩ := hmatch last (by omega) (by omega)
      rw [(hspace _ hat).1] at hget
      obtain rfl := Option.some.inj hget
      cases hc
    · omega

/-- A text with a term marked has an excerpt around the first mark. -/
theorem excerpt_of_spans (hdoc : Documented) (hterms : ∀ t ∈ q.terms, Black t)
    {contentHtml : List Char} (hspans : q.spans (collapse (htmlText contentHtml)) ≠ []) :
    ∃ out p m first last, q.excerpt contentHtml = some out ∧
      Excerpt q (collapse (htmlText contentHtml)) out p m first last := by
  have hcollapsed := collapsed_collapse (htmlText contentHtml)
  obtain ⟨p, m, s, htext, hm, hblack, hmatch⟩ := exists_first_match hdoc hterms hspans
  unfold SearchQuery.excerpt
  generalize collapse (htmlText contentHtml) = text at hcollapsed hspans htext hmatch ⊢
  have hms : m ++ s ≠ [] := by simp [hm]
  have hat : (charIndices text).findIdx? (fun x => x.1 = byteLength p) = some p.length := by
    rw [htext]
    exact findIdx?_charIndices hms
  obtain ⟨first, hfrom⟩ : ∃ first, first = excerptFrom (charIndices text) p.length := ⟨_, rfl⟩
  obtain ⟨last, hto⟩ : ∃ last, last = excerptTo (charIndices text) p.length first := ⟨_, rfl⟩
  obtain ⟨hlt, hlast, hlong, hblackfirst, hblacklast, hbegins, hends, hle, hshows⟩ :=
    window_spec hcollapsed htext hm hblack hfrom hto
  have hpiece := trim_eq_self hlt hblackfirst hblacklast
  refine ⟨(if 0 < first then [ellipsis] else []) ++ (text.take last).drop first ++
    if last < text.length then [ellipsis] else [], p, m, first, last, ?_, ?_⟩
  · dsimp only
    rw [hmatch, Option.bind_some]
    dsimp only
    rw [hat, Option.bind_some, ← hfrom, ← hto, byte_charIndices (by omega),
      byte_charIndices hlast, slice_take hlt.le, Option.map_some, hpiece, length_charIndices]
  · refine ⟨⟨s, by rw [htext, List.append_assoc]⟩, hmatch, ⟨hlt, hlast⟩, rfl,
      fun hshort => ⟨hle, hshows hshort⟩, hbegins, hends, ?_⟩
    simp only [List.length_append, List.length_drop, List.length_take]
    split_ifs <;> simp only [List.length_singleton, List.length_nil] <;> omega

/-- A body that is a hit has an excerpt that shows it. -/
theorem excerpt_of_classify (hdoc : Documented) {raw title contentHtml : List Char}
    (hparse : SearchQuery.parse raw = some q)
    (h : q.classify title contentHtml = some .text) :
    ∃ out p m first last, q.excerpt contentHtml = some out ∧
      Excerpt q (collapse (htmlText contentHtml)) out p m first last :=
  excerpt_of_spans hdoc (fun _ ht => (mem_terms hdoc hparse ht).2)
    (spans_ne_nil_of_classify hdoc hparse h)

end Excerpt

open scoped Letters in
/-- A term beyond ASCII in the second paragraph. -/
theorem excerpt_of_classify_paragraph :
    ∃ q : SearchQuery, SearchQuery.parse "ÄÄNI".toList = some q ∧
      ∃ out p m first last, q.excerpt "<p>Uusi</p><p>Ääni</p>".toList = some out ∧
        Excerpt q (collapse (htmlText "<p>Uusi</p><p>Ääni</p>".toList)) out p m first last :=
  ⟨⟨["ääni".toList], by decide⟩, rfl,
    @excerpt_of_classify _ _ documented_fewLetters "ÄÄNI".toList "Kuva".toList _ rfl
      (by decide)⟩

end Vuo.Search
