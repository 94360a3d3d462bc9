import Vuo.Model.Search

/-!
# Folding, in ASCII and beyond

For a term in ASCII the body is lowered byte by byte instead of folded. The two
differ outside ASCII only, where no such term can be, unless a character beyond
ASCII folds into it.
-/

namespace Vuo.Search

/-! ## Lists that differ outside ASCII only -/

def Ascii (c : Char) : Prop :=
  c.toNat < 128

instance : DecidablePred Ascii := fun c =>
  inferInstanceAs (Decidable (c.toNat < 128))

/-- The same characters in ASCII, with other characters between the same ones. -/
inductive Alike : List Char → List Char → Prop
  | nil : Alike [] []
  | ascii {c : Char} {s t : List Char} (hc : Ascii c) (h : Alike s t) : Alike (c :: s) (c :: t)
  | other {x y : Char} {xs ys s t : List Char} (hx : ∀ c ∈ x :: xs, ¬Ascii c)
      (hy : ∀ c ∈ y :: ys, ¬Ascii c) (h : Alike s t) :
      Alike (x :: xs ++ s) (y :: ys ++ t)

theorem prefix_append_other {term : List Char} {x : Char} {xs : List Char}
    (hterm : ∀ c ∈ term, Ascii c) (hx : ¬Ascii x) : term <+: x :: xs ↔ term = [] := by
  constructor
  · intro h
    cases term with
    | nil => rfl
    | cons c term =>
        obtain ⟨rfl, -⟩ := List.cons_prefix_cons.1 h
        exact absurd (hterm c List.mem_cons_self) hx
  · rintro rfl
    exact List.nil_prefix

theorem Alike.prefix_iff {s t term : List Char} (h : Alike s t) (hterm : ∀ c ∈ term, Ascii c) :
    term <+: s ↔ term <+: t := by
  induction h generalizing term with
  | nil => rfl
  | ascii hc h ih =>
      cases term with
      | nil => simp
      | cons c term =>
          rw [List.cons_prefix_cons, List.cons_prefix_cons,
            ih fun d hd => hterm d (List.mem_cons_of_mem _ hd)]
  | other hx hy h ih =>
      rw [List.cons_append, List.cons_append,
        prefix_append_other hterm (hx _ List.mem_cons_self),
        prefix_append_other hterm (hy _ List.mem_cons_self)]

theorem infix_append_other {term xs s : List Char} (hterm : ∀ c ∈ term, Ascii c)
    (hne : term ≠ []) (hx : ∀ c ∈ xs, ¬Ascii c) : term <:+: xs ++ s ↔ term <:+: s := by
  induction xs with
  | nil => rfl
  | cons x xs ih =>
      rw [List.cons_append, List.infix_cons_iff,
        prefix_append_other hterm (hx x List.mem_cons_self),
        ih fun c hc => hx c (List.mem_cons_of_mem _ hc)]
      simp [hne]

theorem Alike.infix_iff {s t term : List Char} (h : Alike s t) (hterm : ∀ c ∈ term, Ascii c) :
    term <:+: s ↔ term <:+: t := by
  by_cases hne : term = []
  · subst hne
    exact ⟨fun _ => List.nil_infix, fun _ => List.nil_infix⟩
  · induction h with
    | nil => rfl
    | ascii hc h ih =>
        rw [List.infix_cons_iff, List.infix_cons_iff, (Alike.ascii hc h).prefix_iff hterm, ih]
    | other hx hy h ih => rw [infix_append_other hterm hne hx, infix_append_other hterm hne hy, ih]

theorem toNat_toLower (c : Char) :
    c.toLower.toNat = if 65 ≤ c.toNat ∧ c.toNat ≤ 90 then c.toNat + 32 else c.toNat := by
  have hrange : (65 ≤ c.toNat ∧ c.toNat ≤ 90) ↔ 'A'.val ≤ c.val ∧ c.val ≤ 'Z'.val := Iff.rfl
  unfold Char.toLower
  by_cases hupper : 'A'.val ≤ c.val ∧ c.val ≤ 'Z'.val
  · rw [dif_pos hupper, if_pos (hrange.2 hupper)]
    have hz := (hrange.2 hupper).2
    have hval : (c.val + 32).toNat = c.val.toNat + 32 := by
      rw [UInt32.toNat_add]
      have h32 : (32 : UInt32).toNat = 32 := rfl
      have hc : c.val.toNat = c.toNat := rfl
      omega
    exact hval
  · rw [dif_neg hupper, if_neg fun h => hupper (hrange.1 h)]

theorem ascii_toLower {c : Char} (hc : Ascii c) : Ascii c.toLower := by
  unfold Ascii at hc ⊢
  rw [toNat_toLower]
  split_ifs <;> omega

theorem toLower_of_not_ascii {c : Char} (hc : ¬Ascii c) : c.toLower = c := by
  unfold Ascii at hc
  refine Char.toNat_inj.1 ?_
  rw [toNat_toLower, if_neg]
  omega

theorem contains_iff {text term : List Char} : contains text term = true ↔ term <:+: text := by
  unfold contains
  exact decide_eq_true_iff

/-! ## The tables -/

/-- What is documented about the tables of Unicode: which characters have a
lowercase form of more than one character, and what white space is. -/
structure Unicode.Documented [Unicode] : Prop where
  ascii : ∀ c, c.toNat < 128 → toLower c = [c.toLower]
  sigma : toLower capitalSigma = [Char.ofNat 0x3c3]
  single : ∀ c, c ≠ Char.ofNat 0x130 → (toLower c).length = 1
  dotted : toLower (Char.ofNat 0x130) = ['i', Char.ofNat 0x307]
  white : ∀ c, isWhitespace c = true →
    toLower c = [c] ∧ cased c = false ∧ caseIgnorable c = false
  black : ∀ c, isWhitespace c = false → ∀ d ∈ toLower c, isWhitespace d = false

section Tables

variable [Unicode]

open Unicode

theorem Unicode.Documented.ne_nil (hdoc : Documented) (c : Char) : toLower c ≠ [] := by
  intro hempty
  by_cases hc : c = Char.ofNat 0x130
  · rw [hc, hdoc.dotted] at hempty
    cases hempty
  · have hsingle := hdoc.single c hc
    rw [hempty] at hsingle
    cases hsingle

/-! ## One character -/

/-- The folding of a character between `before`, read backwards, and `rest`. -/
def foldChar (before : List Char) (c : Char) (rest : List Char) : List Char :=
  if c = capitalSigma then [mapUppercaseSigma before rest] else toLower c

theorem toLowercaseFrom_cons (before : List Char) (c : Char) (rest : List Char) :
    toLowercaseFrom before (c :: rest) =
      foldChar before c rest ++ toLowercaseFrom (c :: before) rest := by
  rw [toLowercaseFrom, foldChar]

theorem mapUppercaseSigma_cases (before rest : List Char) :
    mapUppercaseSigma before rest = Char.ofNat 0x3c2 ∨
      mapUppercaseSigma before rest = Char.ofNat 0x3c3 := by
  unfold mapUppercaseSigma
  split_ifs
  · exact .inl rfl
  · exact .inr rfl

theorem foldChar_ne_nil (hdoc : Documented) (before : List Char) (c : Char) (rest : List Char) :
    foldChar before c rest ≠ [] := by
  unfold foldChar
  split_ifs
  · simp
  · exact hdoc.ne_nil c

/-! ## The short cut -/

/-- No character of the text beyond ASCII folds into ASCII. -/
def FoldsApart (text : List Char) : Prop :=
  ∀ c ∈ text, ¬Ascii c → ∀ d ∈ toLower c, ¬Ascii d

instance (text : List Char) : Decidable (FoldsApart text) :=
  letI (c : Char) : Decidable (∀ d ∈ toLower c, ¬Ascii d) := List.decidableBAll _ _
  List.decidableBAll (fun c => ¬Ascii c → ∀ d ∈ toLower c, ¬Ascii d) text

theorem alike_toLowercaseFrom (hdoc : Documented) {text : List Char} (h : FoldsApart text)
    (before : List Char) : Alike (asciiLowercase text) (toLowercaseFrom before text) := by
  induction text generalizing before with
  | nil => exact .nil
  | cons c text ih =>
      have hrest := ih (fun d hd => h d (List.mem_cons_of_mem _ hd)) (c :: before)
      rw [toLowercaseFrom_cons]
      change Alike (c.toLower :: asciiLowercase text) _
      by_cases hc : Ascii c
      · have hsigma : c ≠ capitalSigma := by
          rintro rfl
          exact absurd hc (by unfold Ascii; decide)
        rw [foldChar, if_neg hsigma, hdoc.ascii c hc]
        exact .ascii (ascii_toLower hc) hrest
      · have hfold : ∀ d ∈ foldChar before c text, ¬Ascii d := by
          unfold foldChar
          split_ifs with hsigma
          · intro d hd
            rw [List.mem_singleton.1 hd]
            rcases mapUppercaseSigma_cases before text with heq | heq <;>
              · rw [heq]
                unfold Ascii
                decide
          · exact h c List.mem_cons_self hc
        cases hpiece : foldChar before c text with
        | nil => exact absurd hpiece (foldChar_ne_nil hdoc before c text)
        | cons y ys =>
            rw [toLower_of_not_ascii hc]
            rw [hpiece] at hfold
            exact @Alike.other c _ [] _ _ _ (by simpa using hc) hfold hrest

/-! ## The plain rule -/

namespace SearchQuery

/-- Every term is in the folded title or the folded text; a hit is one of the
title if any term is in it. -/
def plainRule (q : SearchQuery) (title contentHtml : List Char) :
    Option MatchKind :=
  if ∀ t ∈ q.terms, t <:+: fold title ∨ t <:+: fold (htmlText contentHtml) then
    if ∃ t ∈ q.terms, t <:+: fold title then some .title else some .text
  else none

theorem contains_asciiLowercase (hdoc : Documented) {text : List Char} (h : FoldsApart text)
    {term : List Char} (hterm : isAscii term = true) :
    contains (asciiLowercase text) term = contains (fold text) term := by
  have hascii : ∀ c ∈ term, Ascii c := by
    simpa [isAscii, Ascii] using hterm
  rw [Bool.eq_iff_iff, contains_iff, contains_iff]
  exact (alike_toLowercaseFrom hdoc h []).infix_iff hascii

/-- What is looked up in the body is found there as in the folded body. -/
theorem all_contains_body (hdoc : Documented) {text : List Char} (h : FoldsApart text)
    (rest : List (List Char)) :
    rest.all (contains (if rest.all isAscii then asciiLowercase text else fold text)) =
      rest.all (contains (fold text)) := by
  split_ifs with hascii
  · have hterms : ∀ t ∈ rest, isAscii t = true := by simpa using hascii
    rw [Bool.eq_iff_iff, List.all_eq_true, List.all_eq_true]
    exact forall₂_congr fun t ht => by rw [contains_asciiLowercase hdoc h (hterms t ht)]
  · rfl

/-- The short cut finds what folding finds. -/
theorem classify_eq_plainRule (hdoc : Documented) (q : SearchQuery)
    {title contentHtml : List Char} (h : FoldsApart (htmlText contentHtml)) :
    q.classify title contentHtml = q.plainRule title contentHtml := by
  unfold classify plainRule
  dsimp only
  rw [all_contains_body hdoc h]
  generalize hrest : (q.terms.filter fun t => !contains (fold title) t) = rest
  have hmem (t : List Char) : t ∈ rest ↔ t ∈ q.terms ∧ ¬t <:+: fold title := by
    rw [← hrest, List.mem_filter, ← contains_iff]
    simp
  have hmissing : (rest ≠ [] ∧ rest.all (contains (fold (htmlText contentHtml))) = false) ↔
      ¬∀ t ∈ q.terms, t <:+: fold title ∨ t <:+: fold (htmlText contentHtml) := by
    rw [List.all_eq_false]
    push Not
    constructor
    · rintro ⟨-, t, ht, hnot⟩
      exact ⟨t, ((hmem t).1 ht).1, ((hmem t).1 ht).2, fun hin => hnot (contains_iff.2 hin)⟩
    · rintro ⟨t, ht, htitle, hbody⟩
      have hrest : t ∈ rest := (hmem t).2 ⟨ht, htitle⟩
      exact ⟨List.ne_nil_of_mem hrest, t, hrest, fun hin => hbody (contains_iff.1 hin)⟩
  have hcovered : rest.length < q.terms.length ↔ ∃ t ∈ q.terms, t <:+: fold title := by
    rw [← hrest, List.length_filter_lt_length_iff_exists]
    simp only [Bool.not_eq_true', Bool.not_eq_false, contains_iff]
  by_cases hall : ∀ t ∈ q.terms, t <:+: fold title ∨ t <:+: fold (htmlText contentHtml)
  · rw [if_neg fun hnot => hmissing.1 hnot hall, if_pos hall]
    simp only [hcovered]
  · rw [if_pos (hmissing.2 hall), if_neg hall]

end SearchQuery

end Tables

/-! ## A part of the tables -/

/-- The tables as far as the letters of ASCII, one umlaut, the sigma and the
dotted I go. -/
abbrev fewLetters : Unicode where
  toLower c :=
    if c = Char.ofNat 0x130 then ['i', Char.ofNat 0x307]
    else if c = capitalSigma then [Char.ofNat 0x3c3]
    else if c = Char.ofNat 0xc4 then [Char.ofNat 0xe4]
    else [c.toLower]
  cased c := c.isAlpha || [0xc4, 0xe4, 0x130, 0x3a3, 0x3c2, 0x3c3].contains c.toNat
  caseIgnorable c := c.toNat = 0x27 || c.toNat = 0x307

namespace Letters

scoped instance : Unicode := fewLetters

end Letters

open scoped Letters

theorem toLower_white {c : Char} (hc : isWhitespace c = true) :
    c.toLower = c ∧ c.isAlpha = false := by
  have halpha : c.isAlpha = true ↔
      (65 ≤ c.toNat ∧ c.toNat ≤ 90) ∨ (97 ≤ c.toNat ∧ c.toNat ≤ 122) := by
    have hdef : c.isAlpha = (decide (65 ≤ c.val ∧ c.val ≤ 90) ||
        (decide (97 ≤ c.val) && decide (c.val ≤ 122))) := rfl
    simp [hdef, UInt32.le_iff_toNat_le]
  have hnot : ¬((65 ≤ c.toNat ∧ c.toNat ≤ 90) ∨ (97 ≤ c.toNat ∧ c.toNat ≤ 122)) := by
    simp only [isWhitespace, Bool.or_eq_true, Bool.and_eq_true, decide_eq_true_eq] at hc
    omega
  constructor
  · refine Char.toNat_inj.1 ?_
    rw [toNat_toLower, if_neg]
    omega
  · rwa [← Bool.not_eq_true, halpha]

theorem documented_fewLetters : Unicode.Documented where
  ascii c hc := by
    have hother (n : ℕ) (hn : ¬(Char.ofNat n).toNat < 128) : c ≠ Char.ofNat n := by
      rintro rfl
      exact hn hc
    simp only [Unicode.toLower, hother 0x130 (by decide), hother 0xc4 (by decide),
      hother 0x3a3 (by decide), capitalSigma, if_false]
  sigma := by decide
  single c hc := by
    simp only [Unicode.toLower, if_neg hc]
    split_ifs <;> rfl
  dotted := by decide
  white c hc := by
    have hother (n : ℕ) (hn : isWhitespace (Char.ofNat n) = false) : c ≠ Char.ofNat n := by
      rintro rfl
      rw [hn] at hc
      cases hc
    obtain ⟨hlower, halpha⟩ := toLower_white hc
    simp only [Unicode.toLower, Unicode.cased, Unicode.caseIgnorable, halpha, hlower,
      hother 0x130 (by decide), hother 0xc4 (by decide), hother 0x3a3 (by decide), capitalSigma,
      if_false, Bool.false_or]
    simp only [isWhitespace, Bool.or_eq_true, Bool.and_eq_true, decide_eq_true_eq] at hc
    refine ⟨trivial, ?_, ?_⟩
    · simp
      omega
    · simp
      omega
  black c hc := by
    simp only [Unicode.toLower]
    split_ifs
    · intro d hd
      rw [List.mem_cons, List.mem_singleton] at hd
      rcases hd with rfl | rfl <;> decide
    · intro d hd
      rw [List.mem_singleton.1 hd]
      decide
    · intro d hd
      rw [List.mem_singleton.1 hd]
      decide
    · intro d hd
      rw [List.mem_singleton.1 hd]
      have hlower := toNat_toLower c
      simp only [isWhitespace, Bool.or_eq_false_iff, Bool.and_eq_false_iff,
        decide_eq_false_iff_not] at hc ⊢
      split_ifs at hlower <;> omega

/-- Two terms that only the body has, one of them beyond ASCII. -/
theorem classify_eq_plainRule_harbour :
    ∃ q : SearchQuery, q.terms = ["harbour".toList, "ääni".toList] ∧
      q.plainRule "Evening".toList "<p>Ääni</p> by the Harbour".toList = some .text ∧
      q.classify "Evening".toList "<p>Ääni</p> by the Harbour".toList =
        q.plainRule "Evening".toList "<p>Ääni</p> by the Harbour".toList := by
  refine ⟨⟨["harbour".toList, "ääni".toList], by decide⟩, rfl, by decide, ?_⟩
  exact SearchQuery.classify_eq_plainRule documented_fewLetters _ (by decide)

end Vuo.Search
