import Vuo.Verification.Search.Spans

/-!
# White space

Folding and collapsing white space go together: white space folds to itself,
nothing else folds to it, and it ends what a sigma looks at. A term has no white
space in it, so a text holds it exactly as its collapsed form does.
-/

namespace Vuo.Search

/-! ## Words -/

/-- No character of the list is white space. -/
def Black (w : List Char) : Prop :=
  ∀ c ∈ w, isWhitespace c = false

/-- A text is one word, or a word, white space, and a text. -/
theorem wordInduction {P : List Char → Prop} (word : ∀ w, Black w → P w)
    (cut : ∀ w c rest, Black w → isWhitespace c = true → P rest → P (w ++ c :: rest))
    (text : List Char) : P text := by
  have hall : ∀ w, Black w → P (w ++ text) := by
    induction text with
    | nil =>
        intro w hw
        rw [List.append_nil]
        exact word w hw
    | cons c text ih =>
        intro w hw
        cases hc : isWhitespace c with
        | true => exact cut w c text hw hc (ih [] fun _ h => by cases h)
        | false =>
            have hmore := ih (w ++ [c]) fun d hd => by
              rcases List.mem_append.1 hd with hd | hd
              · exact hw d hd
              · rw [List.mem_singleton.1 hd]
                exact hc
            simpa using hmore
  exact hall [] fun _ h => by cases h

theorem splitWhitespace_append_cons {c : Char} (hc : isWhitespace c = true)
    (before rest : List Char) :
    splitWhitespace (before ++ c :: rest) = splitWhitespace before ++ splitWhitespace rest := by
  unfold splitWhitespace
  rw [List.splitOnP_append_cons before rest hc, List.filter_append]

theorem splitWhitespace_of_black {w : List Char} (hw : Black w) :
    splitWhitespace w = if w = [] then [] else [w] := by
  unfold splitWhitespace
  rw [List.splitOnP_eq_singleton hw]
  split_ifs with hempty
  · simp [hempty]
  · simp [hempty]

/-- Words are not empty and have no white space in them. -/
theorem mem_splitWhitespace {text w : List Char} (h : w ∈ splitWhitespace text) :
    w ≠ [] ∧ Black w := by
  induction text using wordInduction with
  | word v hv =>
      rw [splitWhitespace_of_black hv] at h
      split_ifs at h with hempty
      · cases h
      · rw [List.mem_singleton.1 h]
        exact ⟨hempty, hv⟩
  | cut v c rest hv hc ih =>
      rw [splitWhitespace_append_cons hc, List.mem_append, splitWhitespace_of_black hv] at h
      rcases h with h | h
      · split_ifs at h with hempty
        · cases h
        · rw [List.mem_singleton.1 h]
          exact ⟨hempty, hv⟩
      · exact ih h

/-- A black stretch of a text that is cut lies on one side of the cut. -/
theorem infix_append_white {t before rest : List Char} {c : Char} (ht : Black t)
    (hc : isWhitespace c = true) (h : t <:+: before ++ c :: rest) :
    t <:+: before ∨ t <:+: rest := by
  obtain ⟨u, v, heq⟩ := h
  rw [List.append_assoc] at heq
  rcases List.append_eq_append_iff.1 heq with ⟨m, rfl, hm⟩ | ⟨m, rfl, hm⟩
  · rcases List.append_eq_append_iff.1 hm.symm with ⟨n, rfl, hn⟩ | ⟨n, rfl, hn⟩
    · cases n with
      | nil =>
          refine .inl ⟨u, [], ?_⟩
          simp
      | cons d n =>
          obtain ⟨rfl, -⟩ := List.cons.inj hn
          have hd := ht c (by simp)
          rw [hc] at hd
          cases hd
    · exact .inl ⟨u, n, by simp⟩
  · cases m with
    | nil =>
        cases t with
        | nil => exact .inl List.nil_infix
        | cons d t =>
            obtain ⟨rfl, -⟩ := List.cons.inj hm
            have hd := ht c List.mem_cons_self
            rw [hc] at hd
            cases hd
    | cons d m =>
        obtain ⟨rfl, rfl⟩ := List.cons.inj hm
        exact .inr ⟨m, v, by simp⟩

theorem exists_word_of_infix {t text : List Char} (ht : Black t) (hne : t ≠ [])
    (h : t <:+: text) : ∃ w ∈ splitWhitespace text, t <:+: w := by
  induction text using wordInduction with
  | word v hv =>
      rw [splitWhitespace_of_black hv]
      split_ifs with hempty
      · rw [hempty, List.infix_nil] at h
        exact absurd h hne
      · exact ⟨v, List.mem_cons_self, h⟩
  | cut v c rest hv hc ih =>
      rw [splitWhitespace_append_cons hc, splitWhitespace_of_black hv]
      rcases infix_append_white ht hc h with h | h
      · split_ifs with hempty
        · rw [hempty, List.infix_nil] at h
          exact absurd h hne
        · exact ⟨v, List.mem_append_left _ List.mem_cons_self, h⟩
      · obtain ⟨w, hw, hin⟩ := ih h
        exact ⟨w, List.mem_append_right _ hw, hin⟩

/-! ## Words joined -/

open SearchQuery (collapse)

theorem join_cons (w : List Char) {ws : List (List Char)} (hws : ws ≠ []) :
    [' '].intercalate (w :: ws) = w ++ ' ' :: [' '].intercalate ws := by
  cases ws with
  | nil => exact absurd rfl hws
  | cons v ws => simp [List.intercalate]

theorem infix_join {w : List Char} {ws : List (List Char)} (h : w ∈ ws) :
    w <:+: [' '].intercalate ws := by
  induction ws with
  | nil => cases h
  | cons v ws ih =>
      by_cases hws : ws = []
      · subst hws
        rw [List.mem_singleton.1 h]
        simp [List.intercalate]
      · rw [join_cons v hws]
        rcases List.mem_cons.1 h with rfl | h
        · exact (List.prefix_append w _).isInfix
        · exact (ih h).trans ((List.suffix_cons ' ' _).trans (List.suffix_append v _)).isInfix

/-- A stretch without white space is still there when white space collapses. -/
theorem infix_collapse {t text : List Char} (ht : Black t) (hne : t ≠ []) (h : t <:+: text) :
    t <:+: collapse text := by
  obtain ⟨w, hw, hin⟩ := exists_word_of_infix ht hne h
  exact hin.trans (infix_join hw)

/-- White space is single spaces between other characters. -/
def Collapsed (text : List Char) : Prop :=
  ∀ p c s, text = p ++ c :: s → isWhitespace c = true →
    c = ' ' ∧ (∃ p' d, p = p' ++ [d] ∧ isWhitespace d = false) ∧
      ∃ d s', s = d :: s' ∧ isWhitespace d = false

theorem exists_cons_join {ws : List (List Char)} (hws : ws ≠ [])
    (h : ∀ w ∈ ws, w ≠ [] ∧ Black w) :
    ∃ d s, [' '].intercalate ws = d :: s ∧ isWhitespace d = false := by
  cases ws with
  | nil => exact absurd rfl hws
  | cons w ws =>
      obtain ⟨hne, hblack⟩ := h w List.mem_cons_self
      cases w with
      | nil => exact absurd rfl hne
      | cons d w =>
          have hd := hblack d List.mem_cons_self
          by_cases hws : ws = []
          · subst hws
            exact ⟨d, w, by simp [List.intercalate], hd⟩
          · exact ⟨d, w ++ ' ' :: [' '].intercalate ws, by rw [join_cons _ hws]; rfl, hd⟩

theorem collapsed_join {ws : List (List Char)} (h : ∀ w ∈ ws, w ≠ [] ∧ Black w) :
    Collapsed ([' '].intercalate ws) := by
  induction ws with
  | nil =>
      intro p c s htext
      simp [List.intercalate] at htext
  | cons w ws ih =>
      obtain ⟨hne, hblack⟩ := h w List.mem_cons_self
      have hrest := fun v hv => h v (List.mem_cons_of_mem _ hv)
      intro p c s htext hc
      by_cases hws : ws = []
      · subst hws
        have hmem : c ∈ w := by
          have hw : w = p ++ c :: s := by simpa [List.intercalate] using htext
          simp [hw]
        rw [hblack c hmem] at hc
        cases hc
      · rw [join_cons w hws] at htext
        have hspace (hp : p = w) (hcs : ' ' :: [' '].intercalate ws = c :: s) :
            c = ' ' ∧ (∃ p' d, p = p' ++ [d] ∧ isWhitespace d = false) ∧
              ∃ d s', s = d :: s' ∧ isWhitespace d = false := by
          obtain ⟨rfl, rfl⟩ := List.cons.inj hcs
          refine ⟨rfl, ⟨w.dropLast, w.getLast hne, ?_, hblack _ (List.getLast_mem hne)⟩,
            exists_cons_join hws hrest⟩
          rw [hp, List.dropLast_append_getLast]
        rcases List.append_eq_append_iff.1 htext with ⟨m, rfl, hm⟩ | ⟨m, rfl, hm⟩
        · cases m with
          | nil => exact hspace (List.append_nil w) hm
          | cons d m =>
              obtain ⟨rfl, hjoin⟩ := List.cons.inj hm
              obtain ⟨hcs, ⟨p', d, rfl, hd⟩, hafter⟩ := ih hrest m c s hjoin hc
              exact ⟨hcs, ⟨w ++ ' ' :: p', d, by simp, hd⟩, hafter⟩
        · cases m with
          | nil => exact hspace (List.append_nil p).symm (by simpa using hm.symm)
          | cons d m =>
              obtain ⟨rfl, -⟩ := List.cons.inj hm
              rw [hblack c (by simp)] at hc
              cases hc

theorem collapsed_collapse (text : List Char) : Collapsed (collapse text) :=
  collapsed_join fun _ hw => mem_splitWhitespace hw

/-! ## Folding word by word -/

section Tables

variable [Unicode]

open Unicode

theorem caseIgnorableThenCased_append (hdoc : Documented) {c : Char}
    (hc : isWhitespace c = true) (s t : List Char) :
    caseIgnorableThenCased (s ++ c :: t) = caseIgnorableThenCased s := by
  obtain ⟨-, hcased, hignored⟩ := hdoc.white c hc
  unfold caseIgnorableThenCased
  induction s with
  | nil => simp [hignored, hcased]
  | cons d s ih =>
      rw [List.cons_append, List.dropWhile_cons, List.dropWhile_cons]
      split_ifs
      · exact ih
      · rfl

theorem toLowercaseFrom_append (hdoc : Documented) {c : Char} (hc : isWhitespace c = true)
    (before w rest : List Char) :
    toLowercaseFrom before (w ++ c :: rest) =
      toLowercaseFrom before w ++ c :: toLowercaseFrom (c :: w.reverse ++ before) rest := by
  induction w generalizing before with
  | nil =>
      have hsigma : c ≠ capitalSigma := by
        rintro rfl
        exact absurd hc (by decide)
      rw [List.nil_append, toLowercaseFrom_cons, foldChar, if_neg hsigma, (hdoc.white c hc).1]
      rfl
  | cons d w ih =>
      rw [List.cons_append, toLowercaseFrom_cons, toLowercaseFrom_cons, ih]
      have hpiece : foldChar before d (w ++ c :: rest) = foldChar before d w := by
        unfold foldChar mapUppercaseSigma
        rw [caseIgnorableThenCased_append hdoc hc]
      rw [hpiece]
      simp

theorem toLowercaseFrom_after (hdoc : Documented) {c : Char} (hc : isWhitespace c = true)
    (s t text : List Char) : toLowercaseFrom (s ++ c :: t) text = toLowercaseFrom s text := by
  induction text generalizing s with
  | nil => rfl
  | cons d text ih =>
      have hpiece : foldChar (s ++ c :: t) d text = foldChar s d text := by
        unfold foldChar mapUppercaseSigma
        rw [caseIgnorableThenCased_append hdoc hc]
      rw [toLowercaseFrom_cons, toLowercaseFrom_cons, hpiece]
      exact congrArg _ (ih (d :: s))

/-- White space cuts the folding. -/
theorem fold_append_cons (hdoc : Documented) {c : Char} (hc : isWhitespace c = true)
    (w rest : List Char) : fold (w ++ c :: rest) = fold w ++ c :: fold rest := by
  have hrest := toLowercaseFrom_after hdoc hc [] (w.reverse ++ []) rest
  rw [fold, toLowercaseFrom_append hdoc hc]
  exact congrArg (fun x => toLowercaseFrom [] w ++ c :: x) hrest

theorem black_foldChar (hdoc : Documented) {c : Char} (hc : isWhitespace c = false)
    (before rest : List Char) : Black (foldChar before c rest) := by
  unfold foldChar
  split_ifs with hsigma
  · intro d hd
    rw [List.mem_singleton.1 hd]
    rcases mapUppercaseSigma_cases before rest with heq | heq <;>
      · rw [heq]
        decide
  · exact hdoc.black c hc

theorem black_fold (hdoc : Documented) {w : List Char} (hw : Black w) : Black (fold w) := by
  have hall : ∀ before, Black (toLowercaseFrom before w) := by
    induction w with
    | nil => exact fun _ _ hd => by cases hd
    | cons c w ih =>
        intro before d hd
        rw [toLowercaseFrom_cons] at hd
        rcases List.mem_append.1 hd with hd | hd
        · exact black_foldChar hdoc (hw c List.mem_cons_self) before w d hd
        · exact ih (fun e he => hw e (List.mem_cons_of_mem _ he)) _ d hd
  exact hall []

theorem fold_eq_nil (hdoc : Documented) {w : List Char} : fold w = [] ↔ w = [] := by
  constructor
  · intro h
    cases w with
    | nil => rfl
    | cons c w =>
        rw [fold, toLowercaseFrom_cons, List.append_eq_nil_iff] at h
        exact absurd h.1 (foldChar_ne_nil hdoc [] c w)
  · rintro rfl
    rfl

theorem splitWhitespace_fold (hdoc : Documented) (text : List Char) :
    splitWhitespace (fold text) = (splitWhitespace text).map fold := by
  induction text using wordInduction with
  | word w hw =>
      rw [splitWhitespace_of_black hw, splitWhitespace_of_black (black_fold hdoc hw)]
      simp only [fold_eq_nil hdoc]
      split_ifs <;> rfl
  | cut w c rest hw hc ih =>
      rw [fold_append_cons hdoc hc, splitWhitespace_append_cons hc,
        splitWhitespace_append_cons hc, List.map_append, ih, splitWhitespace_of_black hw,
        splitWhitespace_of_black (black_fold hdoc hw)]
      simp only [fold_eq_nil hdoc]
      split_ifs <;> rfl

theorem fold_join (hdoc : Documented) (ws : List (List Char)) :
    fold ([' '].intercalate ws) = [' '].intercalate (ws.map fold) := by
  induction ws with
  | nil => rfl
  | cons w ws ih =>
      by_cases hws : ws = []
      · subst hws
        simp [List.intercalate]
      · have hmap : ws.map fold ≠ [] := by simpa using hws
        rw [join_cons w hws, List.map_cons, join_cons _ hmap,
          fold_append_cons hdoc (by decide), ih]

/-- Collapsing white space and folding go together. -/
theorem fold_collapse (hdoc : Documented) (text : List Char) :
    fold (collapse text) = collapse (fold text) := by
  rw [collapse, collapse, fold_join hdoc, splitWhitespace_fold hdoc]

/-- Terms are not empty and have no white space in them. -/
theorem mem_terms (hdoc : Documented) {raw t : List Char} {q : SearchQuery}
    (hparse : SearchQuery.parse raw = some q) (ht : t ∈ q.terms) : t ≠ [] ∧ Black t := by
  unfold SearchQuery.parse at hparse
  dsimp only at hparse
  split_ifs at hparse
  obtain rfl := Option.some.inj hparse
  obtain ⟨w, hw, rfl⟩ := List.mem_map.1 ht
  obtain ⟨hne, hblack⟩ := mem_splitWhitespace hw
  exact ⟨fun h => hne ((fold_eq_nil hdoc).1 h), black_fold hdoc hblack⟩

end Tables

end Vuo.Search
