import Vuo.Model.Shim.Entries

/-!
# A view in step with its model

A view holds rows of its own. It follows what the model tells it, and reads the
rows that came or changed from the model as that then is.
-/

namespace Vuo.Shim.Lists

/-! ## The run inserted -/

section Runs

variable {held fresh a b r : List ℤ}

/-- How far two lists agree from the beginning. -/
def agreement (xs ys : List ℤ) : ℕ :=
  ((xs.zip ys).takeWhile fun p => p.1 = p.2).length

theorem agreement_append (a xs ys : List ℤ) :
    agreement (a ++ xs) (a ++ ys) = a.length + agreement xs ys := by
  induction a with
  | nil => simp
  | cons x a ih =>
      simp only [agreement, List.cons_append, List.zip_cons_cons] at ih ⊢
      rw [List.takeWhile_cons_of_pos (by simp), List.length_cons, ih, List.length_cons]
      omega

theorem exists_agreement (xs ys : List ℤ) :
    ∃ a xs' ys', xs = a ++ xs' ∧ ys = a ++ ys' ∧ agreement xs ys = a.length := by
  induction xs generalizing ys with
  | nil => exact ⟨[], [], ys, rfl, rfl, rfl⟩
  | cons x xs ih =>
      cases ys with
      | nil => exact ⟨[], x :: xs, [], rfl, rfl, rfl⟩
      | cons y ys =>
          by_cases hxy : x = y
          · subst hxy
            obtain ⟨a, xs', ys', rfl, rfl, ha⟩ := ih ys
            refine ⟨x :: a, xs', ys', rfl, rfl, ?_⟩
            have h := agreement_append [x] (a ++ xs') (a ++ ys')
            rw [List.singleton_append, List.singleton_append, ha, List.length_singleton] at h
            rw [h, List.length_cons, Nat.add_comm]
          · exact ⟨[], x :: xs, y :: ys, rfl, rfl, by simp [agreement, hxy]⟩

theorem insertedRun_eq (held fresh : List ℤ) :
    insertedRun held fresh =
      if fresh.length ≤ held.length then none
      else if agreement held fresh +
          agreement (held.reverse.take (held.length - agreement held fresh))
            (fresh.reverse.take (held.length - agreement held fresh)) = held.length then
        some (agreement held fresh, fresh.length - held.length)
      else none := by
  unfold insertedRun agreement
  simp only [List.zip_eq_zipWith, List.take_zipWith]

/-- The run found is one that makes the held rows into the fresh ones. -/
theorem eq_append_of_insertedRun {i n : ℕ} (h : insertedRun held fresh = some (i, n)) :
    0 < n ∧ ∃ a r b, held = a ++ b ∧ fresh = a ++ (r ++ b) ∧ a.length = i ∧ r.length = n := by
  rw [insertedRun_eq] at h
  split_ifs at h with hlength hboth
  obtain ⟨rfl, rfl⟩ := Prod.mk.inj (Option.some.inj h)
  refine ⟨by omega, ?_⟩
  obtain ⟨a, x, y, hheld, hfresh, ha⟩ := exists_agreement held fresh
  obtain ⟨b, x', y', hx, hy, hb⟩ := exists_agreement
    (held.reverse.take (held.length - agreement held fresh))
    (fresh.reverse.take (held.length - agreement held fresh))
  rw [hb, ha] at hboth
  have hpreheld : b <+: held.reverse := List.IsPrefix.trans ⟨x', hx.symm⟩ (List.take_prefix _ _)
  have hprefresh : b <+: fresh.reverse :=
    List.IsPrefix.trans ⟨y', hy.symm⟩ (List.take_prefix _ _)
  -- The ends that agree do not reach into the beginnings that do.
  have hxb : x = b.reverse := by
    have hsuffix : b.reverse <:+ held := by
      have h := List.reverse_suffix.2 hpreheld
      rwa [List.reverse_reverse] at h
    have hx : x <:+ held := ⟨a, hheld.symm⟩
    have hlengthx : x.length = b.reverse.length := by
      have h := congrArg List.length hheld
      rw [List.length_append] at h
      rw [List.length_reverse]
      omega
    exact (List.suffix_of_suffix_length_le hx hsuffix hlengthx.le).eq_of_length hlengthx
  obtain ⟨r, hyb⟩ : b.reverse <:+ y := by
    have hsuffix : b.reverse <:+ fresh := by
      have h := List.reverse_suffix.2 hprefresh
      rwa [List.reverse_reverse] at h
    have hy : y <:+ fresh := ⟨a, hfresh.symm⟩
    refine List.suffix_of_suffix_length_le hsuffix hy ?_
    have h := congrArg List.length hfresh
    rw [List.length_append] at h
    rw [List.length_reverse]
    omega
  refine ⟨a, r, b.reverse, by rw [hheld, hxb], by rw [hyb, hfresh], ha.symm, ?_⟩
  have h := congrArg List.length hfresh
  rw [← hyb, List.length_append, List.length_append, List.length_reverse] at h
  omega

/-- The held rows made into fresh ones by a run are found as such, if the fresh
rows are all different. -/
theorem insertedRun_append (hfresh : (a ++ (r ++ b)).Nodup) (hr : r ≠ []) :
    insertedRun (a ++ b) (a ++ (r ++ b)) = some (a.length, r.length) := by
  have hpos := List.length_pos_iff.2 hr
  have hbefore : agreement (a ++ b) (a ++ (r ++ b)) = a.length := by
    rw [agreement_append]
    cases b with
    | nil => rfl
    | cons x b =>
        obtain ⟨y, r, rfl⟩ := List.exists_cons_of_ne_nil hr
        have hxy : x ≠ y := by
          rintro rfl
          have hnodup := (List.nodup_append.1 hfresh).2.1
          rw [List.cons_append, List.nodup_cons] at hnodup
          exact hnodup.1 (by simp)
        simp [agreement, hxy]
  have hafter : agreement ((a ++ b).reverse.take b.length)
      ((a ++ (r ++ b)).reverse.take b.length) = b.length := by
    have hheld : (a ++ b).reverse.take b.length = b.reverse := by
      rw [List.reverse_append, ← List.length_reverse, List.take_left]
    have hfresh : (a ++ (r ++ b)).reverse.take b.length = b.reverse := by
      rw [List.reverse_append, List.reverse_append, List.append_assoc, ← List.length_reverse,
        List.take_left]
    have h := agreement_append b.reverse [] []
    rw [List.append_nil] at h
    rw [hheld, hfresh, h, List.length_reverse]
    rfl
  rw [insertedRun_eq, hbefore]
  simp only [List.length_append]
  rw [if_neg (by omega), Nat.add_sub_cancel_left, hafter, if_pos rfl]
  congr 2
  omega

/-- A run is found exactly where taking it out of the fresh rows leaves the held
ones. -/
theorem insertedRun_eq_some (hfresh : fresh.Nodup) {i n : ℕ} :
    insertedRun held fresh = some (i, n) ↔
      0 < n ∧ i + n ≤ fresh.length ∧ fresh.take i ++ fresh.drop (i + n) = held := by
  constructor
  · intro h
    obtain ⟨hn, a, r, b, rfl, rfl, rfl, rfl⟩ := eq_append_of_insertedRun h
    refine ⟨hn, ?_, ?_⟩
    · simp only [List.length_append]
      omega
    · rw [List.take_left, ← List.append_assoc, ← List.length_append, List.drop_left]
  · rintro ⟨hn, hle, rfl⟩
    have hsplit : fresh = fresh.take i ++ ((fresh.drop i).take n ++ fresh.drop (i + n)) := by
      rw [← List.drop_drop, List.take_append_drop, List.take_append_drop]
    have hr : (fresh.drop i).take n ≠ [] := by
      refine List.ne_nil_of_length_pos ?_
      rw [List.length_take, List.length_drop]
      omega
    have h := insertedRun_append (hsplit ▸ hfresh) hr
    rw [← hsplit, List.length_take, List.length_take, List.length_drop, min_eq_left (by omega),
      min_eq_left (by omega)] at h
    exact h

end Runs

/-! ## Following a model -/

section Views

variable {R : Type*}

/-- What a view does with what it is told. -/
def follow (view : List R) (told : Change × List R) : List R :=
  match told with
  | (.inserted first last, rows) =>
      view.take first ++ (rows.drop first).take (last + 1 - first) ++ view.drop first
  | (.removed first last, _) => view.take first ++ view.drop (last + 1)
  | (.changed first last, rows) =>
      view.take first ++ (rows.drop first).take (last + 1 - first) ++ view.drop (last + 1)
  | (.reset, rows) => rows
  | _ => view

/-- The view after all it was told. -/
def replay (view : List R) (told : List (Change × List R)) : List R :=
  told.foldl follow view

/-- The range is one of the rows the view holds, or has to hold after it. -/
def Change.Fits (view rows : List R) : Change → Prop
  | .inserted first last =>
      first ≤ last ∧ first ≤ view.length ∧ rows.length = view.length + (last + 1 - first)
  | .removed first last =>
      first ≤ last ∧ last < view.length ∧ rows.length + (last + 1 - first) = view.length
  | .changed first last => first ≤ last ∧ last < view.length ∧ rows.length = view.length
  | _ => True

/-- Every range fits when the view is told of it. -/
def AllFit (view : List R) : List (Change × List R) → Prop
  | [] => True
  | (change, rows) :: told => change.Fits view rows ∧ AllFit (follow view (change, rows)) told

/-- The row at `i` is drawn again. -/
def Change.Redraws (i : ℕ) : Change → Prop
  | .inserted first last => first ≤ i ∧ i ≤ last
  | .changed first last => first ≤ i ∧ i ≤ last
  | .reset => True
  | _ => False

/-- A view of the held rows that is told all this shows the fresh ones. -/
structure InStep (held fresh : List R) (told : List (Change × List R)) : Prop where
  replayed : replay held told = fresh
  fits : AllFit held told
  redrawn : ∀ i row, fresh[i]? = some row → row ∉ held → ∃ t ∈ told, t.1.Redraws i

variable {held fresh : List R}

theorem lastRow_eq_some (hne : fresh ≠ []) (hlength : fresh.length ≤ 2147483648) :
    lastRow fresh = some (fresh.length - 1) := by
  rw [lastRow, if_neg hne, toI32, if_pos (by omega)]

/-- Drawing all rows again makes the view show them, whatever it showed. -/
theorem follow_changed_all {view : List R} (hne : fresh ≠ [])
    (hlength : view.length = fresh.length) :
    follow view (.changed 0 (fresh.length - 1), fresh) = fresh := by
  have hpos := List.length_pos_iff.2 hne
  have hlast : fresh.length - 1 + 1 = fresh.length := by omega
  simp only [follow]
  rw [hlast, ← hlength]
  simp [hlength]

theorem replay_append (view : List R) (told told' : List (Change × List R)) :
    replay view (told ++ told') = replay (replay view told) told' :=
  List.foldl_append

theorem allFit_append {view : List R} {told told' : List (Change × List R)} :
    AllFit view (told ++ told') ↔ AllFit view told ∧ AllFit (replay view told) told' := by
  induction told generalizing view with
  | nil => simp [AllFit, replay]
  | cons t told ih =>
      rw [List.cons_append, AllFit, AllFit, ih, and_assoc]
      rfl

/-- That the count changed changes nothing in the view. -/
theorem InStep.counted {told : List (Change × List R)} {rows : List R}
    (h : InStep held fresh told) : InStep held fresh (told ++ [(.countChanged, rows)]) where
  replayed := by
    rw [replay_append, h.replayed]
    rfl
  fits := allFit_append.2 ⟨h.fits, trivial, trivial⟩
  redrawn i row hrow hnew := by
    obtain ⟨t, ht, hredraws⟩ := h.redrawn i row hrow hnew
    exact ⟨t, List.mem_append_left _ ht, hredraws⟩

/-- Whatever the view shows, as many rows drawn again are the fresh ones. -/
theorem inStep_changed {told : List (Change × List R)} (hne : fresh ≠ [])
    (hfits : AllFit held told) (hlength : (replay held told).length = fresh.length) :
    InStep held fresh (told ++ [(.changed 0 (fresh.length - 1), fresh)]) where
  replayed := by
    rw [replay_append]
    exact follow_changed_all hne hlength
  fits := by
    have hpos := List.length_pos_iff.2 hne
    exact allFit_append.2 ⟨hfits, ⟨by omega, by omega, by omega⟩, trivial⟩
  redrawn i row hrow hnew := by
    obtain ⟨hlt, -⟩ := List.getElem?_eq_some_iff.1 hrow
    exact ⟨_, List.mem_append_right _ List.mem_cons_self, by omega, by omega⟩

/-- A model that has told its view of as many rows as there are either has the
view draw them all again, or the view shows them already. -/
theorem inStep_redraw {m : ListModel R} (hrows : m.rows = fresh) (hfits : AllFit held m.told)
    (hlength : (replay held m.told).length = fresh.length)
    (hbound : fresh.length ≤ 2147483648) {redraw : Prop} [Decidable redraw]
    (hshown : ¬redraw → InStep held fresh m.told) :
    ((if redraw then redrawAllRows m else m).tell .countChanged).rows = fresh ∧
      InStep held fresh ((if redraw then redrawAllRows m else m).tell .countChanged).told := by
  by_cases hredraw : redraw
  · rw [if_pos hredraw]
    by_cases hne : fresh = []
    · have hlast : redrawAllRows m = m := by
        rw [redrawAllRows, lastRow, if_pos (hrows.trans hne)]
      rw [hlast]
      refine ⟨hrows, InStep.counted ⟨?_, hfits, fun i row hrow => ?_⟩⟩
      · rw [hne] at hlength ⊢
        exact List.eq_nil_of_length_eq_zero hlength
      · rw [hne] at hrow
        cases hrow
    · have hlast : redrawAllRows m = m.tell (.changed 0 (fresh.length - 1)) := by
        rw [redrawAllRows, hrows, lastRow_eq_some hne hbound]
      have hstep := inStep_changed hne hfits hlength
      rw [← hrows] at hstep
      rw [hlast, ← hrows]
      exact ⟨rfl, hstep.counted⟩
  · rw [if_neg hredraw]
    exact ⟨hrows, (hshown hredraw).counted⟩

theorem inStep_reset :
    InStep held fresh (((ListModel.swap ⟨held, []⟩ fresh .reset).tell .countChanged).told) :=
  InStep.counted ⟨rfl, ⟨trivial, trivial⟩, fun _ _ _ _ => ⟨_, List.mem_cons_self, trivial⟩⟩

/-- The rows that leave. -/
theorem removeAll_eq (hheld : held.length ≤ 2147483648) :
    ∃ told, removeAll ⟨held, []⟩ = (⟨[], told⟩ : ListModel R) ∧ AllFit held told ∧
      replay held told = [] := by
  unfold removeAll
  by_cases hne : held = []
  · subst hne
    exact ⟨[], rfl, trivial, rfl⟩
  · have hpos := List.length_pos_iff.2 hne
    have hlast : held.length - 1 + 1 = held.length := by omega
    rw [lastRow_eq_some hne hheld]
    refine ⟨_, rfl, ⟨⟨by omega, by omega, ?_⟩, trivial⟩, ?_⟩
    · simp only [List.length_nil]
      omega
    · simp [replay, follow, hlast]

/-- The rows that come. -/
theorem insertAll_eq {told : List (Change × List R)} (hfits : AllFit held told)
    (hreplay : replay held told = []) (hfresh : fresh.length ≤ 2147483648) :
    (insertAll ⟨[], told⟩ fresh).rows = fresh ∧
      InStep held fresh (insertAll ⟨[], told⟩ fresh).told := by
  unfold insertAll
  by_cases hne : fresh = []
  · subst hne
    exact ⟨rfl, hreplay, hfits, fun i row hrow => by cases hrow⟩
  · have hpos := List.length_pos_iff.2 hne
    have hlast : fresh.length - 1 + 1 = fresh.length := by omega
    rw [lastRow_eq_some hne hfresh]
    refine ⟨rfl, ?_, allFit_append.2 ⟨hfits, ?_⟩, fun i row hrow _ => ?_⟩
    · change replay held (told ++ [(.inserted 0 (fresh.length - 1), fresh)]) = fresh
      rw [replay_append, hreplay]
      simp [replay, follow, hlast]
    · rw [hreplay]
      refine ⟨⟨by omega, by simp, ?_⟩, trivial⟩
      simp only [List.length_nil]
      omega
    · obtain ⟨hlt, -⟩ := List.getElem?_eq_some_iff.1 hrow
      exact ⟨_, List.mem_append_right _ List.mem_cons_self, by omega, by omega⟩

theorem inStep_publishAll (hheld : held.length ≤ 2147483648)
    (hfresh : fresh.length ≤ 2147483648) :
    (publishAll ⟨held, []⟩ fresh).rows = fresh ∧
      InStep held fresh (publishAll ⟨held, []⟩ fresh).told := by
  obtain ⟨told, hremove, hfits, hreplay⟩ := removeAll_eq hheld
  obtain ⟨hrows, hstep⟩ := insertAll_eq hfits hreplay hfresh
  unfold publishAll
  rw [hremove]
  exact ⟨hrows, hstep.counted⟩

/-! ### No reset in a search -/

/-- The view has not been reset. -/
def Unreset (m : ListModel R) : Prop :=
  ∀ t ∈ m.told, t.1 ≠ .reset

variable {m : ListModel R}

theorem Unreset.tell (h : Unreset m) {change : Change} (hchange : change ≠ .reset) :
    Unreset (m.tell change) := by
  intro t ht
  rcases List.mem_append.1 ht with ht | ht
  · exact h t ht
  · rw [List.mem_singleton.1 ht]
    exact hchange

theorem Unreset.swap (h : Unreset m) (rows : List R) {change : Change} (hchange : change ≠ .reset) :
    Unreset (m.swap rows change) :=
  Unreset.tell (m := { m with rows := rows }) h hchange

theorem Unreset.redrawAllRows (h : Unreset m) : Unreset (redrawAllRows m) := by
  unfold Lists.redrawAllRows
  split
  · exact h
  · exact h.tell (by simp)

variable [DecidableEq R] {rowId : R → ℤ}

/-! ### The rows swapped in -/

theorem inStep_publishRun {i n : ℕ} (hn : 0 < n) (hi : i ≤ held.length)
    (hlength : fresh.length = held.length + n) (hbound : fresh.length ≤ 2147483648) :
    (publishRun ⟨held, []⟩ fresh i n).rows = fresh ∧
      InStep held fresh (publishRun ⟨held, []⟩ fresh i n).told := by
  have hlast : i + n - 1 + 1 - i = n := by omega
  have hfits : AllFit held [(.inserted i (i + n - 1), fresh)] :=
    ⟨⟨by omega, hi, by omega⟩, trivial⟩
  refine inStep_redraw (m := ListModel.swap ⟨held, []⟩ fresh (.inserted i (i + n - 1))) rfl hfits
    ?_ hbound fun hsame => ?_
  · simp only [ListModel.swap, ListModel.tell, List.nil_append, replay, List.foldl_cons,
      List.foldl_nil, follow, List.length_append, List.length_take, List.length_drop]
    omega
  · have hsame : held = fresh.take i ++ fresh.drop (i + n) := by simpa using hsame
    have htake : held.take i = fresh.take i := by
      rw [hsame, List.take_append_of_le_length (by rw [List.length_take]; omega), List.take_take,
        min_self]
    have hdrop : held.drop i = fresh.drop (i + n) := by
      have hi : (fresh.take i).length = i := by
        rw [List.length_take]
        omega
      rw [hsame, List.drop_left' hi]
    have hshown : follow held (.inserted i (i + n - 1), fresh) = fresh := by
      simp only [follow]
      rw [hlast, htake, hdrop, List.append_assoc, ← List.drop_drop, List.take_append_drop,
        List.take_append_drop]
    refine ⟨hshown, hfits, fun k row hrow hnew => ?_⟩
    refine ⟨_, List.mem_cons_self, ?_⟩
    by_contra hout
    have hout : k < i ∨ i + n ≤ k := by
      simp only [Change.Redraws] at hout
      omega
    refine hnew ?_
    rw [hsame, List.mem_append]
    rcases hout with hk | hk
    · refine .inl (List.mem_of_getElem? (i := k) ?_)
      rwa [List.getElem?_take_of_lt hk]
    · refine .inr (List.mem_of_getElem? (i := k - (i + n)) ?_)
      rwa [List.getElem?_drop, Nat.add_sub_cancel' hk]

theorem inStep_publishSame (hlength : held.length = fresh.length)
    (hbound : fresh.length ≤ 2147483648) :
    (publishSame ⟨held, []⟩ fresh).rows = fresh ∧
      InStep held fresh (publishSame ⟨held, []⟩ fresh).told := by
  refine inStep_redraw (m := ⟨fresh, []⟩) rfl trivial hlength hbound fun hsame => ?_
  obtain rfl : held = fresh := by simpa using hsame
  exact ⟨rfl, trivial, fun i row hrow hnew => absurd (List.mem_of_getElem? hrow) hnew⟩

/-- Fresh rows reach the view as the rows they are. -/
theorem inStep_publishRowsAs (hheld : held.length ≤ 2147483648)
    (hfresh : fresh.length ≤ 2147483648) (how : Publish) :
    (publishRowsAs rowId ⟨held, []⟩ fresh how).1.rows = fresh ∧
      InStep held fresh (publishRowsAs rowId ⟨held, []⟩ fresh how).1.told := by
  unfold publishRowsAs
  cases hrun : runToInsert rowId held fresh how with
  | some run =>
      unfold runToInsert at hrun
      split_ifs at hrun
      obtain ⟨run', hrun', h⟩ := Option.bind_eq_some_iff.1 hrun
      obtain ⟨-, -, h⟩ := Option.bind_eq_some_iff.1 h
      obtain ⟨-, -, rfl⟩ := Option.map_eq_some_iff.1 h
      obtain ⟨hn, a, r, b, hids, hids', hi, hr⟩ := eq_append_of_insertedRun hrun'
      have hlength := congrArg List.length hids
      have hlength' := congrArg List.length hids'
      simp only [List.length_map, List.length_append] at hlength hlength'
      exact inStep_publishRun hn (by omega) (by omega) hfresh
  | none =>
      dsimp only
      split_ifs with hids hsearch
      · have hlength := congrArg List.length hids
        simp only [List.length_map] at hlength
        exact inStep_publishSame hlength hfresh
      · exact inStep_publishAll hheld hfresh
      · exact ⟨rfl, inStep_reset⟩

theorem Unreset.publishRun (h : Unreset m) (fresh : List R) (first added : ℕ) :
    Unreset (publishRun m fresh first added) := by
  have hswap : Unreset (m.swap fresh (.inserted first (first + added - 1))) :=
    h.swap fresh (by simp)
  unfold Lists.publishRun
  dsimp only
  split_ifs
  · exact hswap.redrawAllRows.tell (by simp)
  · exact hswap.tell (by simp)

theorem Unreset.publishSame (h : Unreset m) (fresh : List R) : Unreset (publishSame m fresh) := by
  have hrows : Unreset { m with rows := fresh } := h
  unfold Lists.publishSame
  dsimp only
  split_ifs
  · exact hrows.redrawAllRows.tell (by simp)
  · exact hrows.tell (by simp)

omit [DecidableEq R] in
theorem Unreset.publishAll (h : Unreset m) (fresh : List R) : Unreset (publishAll m fresh) := by
  have hremove : Unreset (removeAll m) := by
    unfold removeAll
    split
    · exact h
    · exact h.swap _ (by simp)
  have hinsert : Unreset (insertAll (removeAll m) fresh) := by
    unfold insertAll
    split
    · exact hremove
    · exact hremove.swap _ (by simp)
  exact hinsert.tell (by simp)

/-- A search never resets its view, however many rows there are. -/
theorem Unreset.publishRowsAs (h : Unreset m) (fresh : List R) :
    Unreset (publishRowsAs rowId m fresh .search).1 := by
  unfold Lists.publishRowsAs
  split
  · exact h.publishRun fresh _ _
  · split_ifs with hids hsearch
    · exact h.publishSame fresh
    · exact h.publishAll fresh
    · exact absurd rfl hsearch

/-! ### The rows after -/

omit [DecidableEq R] in
@[simp]
theorem rows_redrawAllRows (m : ListModel R) : (redrawAllRows m).rows = m.rows := by
  unfold redrawAllRows
  split <;> rfl

@[simp]
theorem rows_publishSame (m : ListModel R) (fresh : List R) :
    (publishSame m fresh).rows = fresh := by
  simp only [publishSame, ListModel.tell]
  split_ifs
  · rw [rows_redrawAllRows]
  · rfl

/-- Outside of a search the rows are the fresh ones, however many. -/
theorem rows_publishRowsAs_reset (m : ListModel R) (fresh : List R) :
    (publishRowsAs rowId m fresh .reset).1.rows = fresh := by
  have hrun : runToInsert rowId m.rows fresh .reset = none := by simp [runToInsert]
  unfold publishRowsAs
  rw [hrun]
  dsimp only
  split_ifs
  · exact rows_publishSame m fresh
  · simp_all
  · rfl

theorem rows_publishRun (m : ListModel R) (fresh : List R) (first added : ℕ) :
    (publishRun m fresh first added).rows = fresh := by
  simp only [publishRun, ListModel.tell]
  split_ifs
  · rw [rows_redrawAllRows]
    rfl
  · rfl

/-- In a search they are, if the view can be told. -/
theorem rows_publishRowsAs_search (hheld : m.rows.length ≤ 2147483648)
    (hfresh : fresh.length ≤ 2147483648) :
    (publishRowsAs rowId m fresh .search).1.rows = fresh := by
  have hremove : (removeAll m).rows = [] := by
    unfold removeAll
    by_cases hne : m.rows = []
    · rw [lastRow, if_pos hne]
      exact hne
    · rw [lastRow_eq_some hne hheld]
      rfl
  have hinsert : (insertAll (removeAll m) fresh).rows = fresh := by
    unfold insertAll
    by_cases hne : fresh = []
    · rw [lastRow, if_pos hne, hne]
      exact hremove
    · rw [lastRow_eq_some hne hfresh]
      rfl
  unfold publishRowsAs
  split
  · exact rows_publishRun m fresh _ _
  · split_ifs with hids hsearch
    · exact rows_publishSame m fresh
    · exact hinsert
    · exact absurd rfl hsearch

/-- A run among the held rows is told as one, and nothing else is. -/
theorem publishRowsAs_append {a r b : List R} (hm : m.rows = a ++ b)
    (hids : ((a ++ (r ++ b)).map rowId).Nodup)
    (hbound : (a ++ (r ++ b)).length ≤ 2147483648) :
    (publishRowsAs rowId m (a ++ (r ++ b)) .search).1 =
      if r = [] then m.tell .countChanged
      else (m.swap (a ++ (r ++ b)) (.inserted a.length (a.length + r.length - 1))).tell
        .countChanged := by
  by_cases hr : r = []
  · subst hr
    have hrun : runToInsert rowId m.rows (a ++ ([] ++ b)) .search = none := by
      simp [runToInsert, insertedRun, hm]
    have hsame : publishSame m (a ++ ([] ++ b)) = m.tell .countChanged := by
      rw [List.nil_append, ← hm]
      simp [publishSame]
    unfold publishRowsAs
    rw [hrun]
    dsimp only
    rw [if_pos (by rw [hm, List.nil_append]), hsame, if_pos rfl]
  · have hlength : (a ++ (r ++ b)).length = a.length + (r.length + b.length) := by
      rw [List.length_append, List.length_append]
    have hpos := List.length_pos_iff.2 hr
    have hfirst : toI32 a.length = some a.length := if_pos (by omega)
    have hlast : toI32 (a.length + r.length - 1) = some (a.length + r.length - 1) :=
      if_pos (by omega)
    have hmap : r.map rowId ≠ [] := by simpa using hr
    have hinserted : insertedRun (m.rows.map rowId) ((a ++ (r ++ b)).map rowId) =
        some (a.length, r.length) := by
      rw [List.map_append, List.map_append] at hids
      have h := insertedRun_append hids hmap
      rw [List.length_map, List.length_map] at h
      rw [hm, List.map_append, List.map_append, List.map_append, h]
    have hrun : runToInsert rowId m.rows (a ++ (r ++ b)) .search = some (a.length, r.length) := by
      simp only [runToInsert, hinserted, if_true, Option.bind_some, hfirst, hlast,
        Option.map_some]
    have hheld : m.rows =
        (a ++ (r ++ b)).take a.length ++ (a ++ (r ++ b)).drop (a.length + r.length) := by
      rw [List.take_left, ← List.append_assoc, ← List.length_append, List.drop_left, hm]
    unfold publishRowsAs publishRun
    rw [hrun, if_neg hr]
    dsimp only
    rw [if_neg (not_not.2 hheld)]

/-! ### In step -/

/-- A view of the held rows, told what is told as the fresh ones are swapped in,
shows the fresh ones. Each range is in the list as it then is, and each row that
differs is drawn. A search resets nothing, and a run is told as one. -/
theorem view_in_step (hids : (fresh.map rowId).Nodup) (how : Publish) :
    (held.length ≤ 2147483648 → fresh.length ≤ 2147483648 →
      (publishRowsAs rowId ⟨held, []⟩ fresh how).1.rows = fresh ∧
        InStep held fresh (publishRowsAs rowId ⟨held, []⟩ fresh how).1.told) ∧
      (how = .search → ∀ t ∈ (publishRowsAs rowId ⟨held, []⟩ fresh how).1.told, t.1 ≠ .reset) ∧
      ∀ i n, insertedRun (held.map rowId) (fresh.map rowId) = some (i, n) ↔
        0 < n ∧ i + n ≤ fresh.length ∧
          (fresh.take i ++ fresh.drop (i + n)).map rowId = held.map rowId := by
  refine ⟨fun hheld hfresh => inStep_publishRowsAs hheld hfresh how, ?_, fun i n => ?_⟩
  · rintro rfl
    have hstart : Unreset (⟨held, []⟩ : ListModel R) := fun t ht => by cases ht
    exact hstart.publishRowsAs fresh
  · rw [insertedRun_eq_some hids, List.length_map, List.map_append, List.map_take, List.map_drop]

theorem view_in_step_run :
    (publishRowsAs EntryRow.id ⟨[{ id := 1 }, { id := 9 }], []⟩
        [{ id := 1, unread := true }, { id := 3 }, { id := 9 }] .search).1.rows.map EntryRow.id =
      [1, 3, 9] ∧
      InStep [{ id := 1 }, { id := 9 }] [{ id := 1, unread := true }, { id := 3 }, { id := 9 }]
        (publishRowsAs EntryRow.id ⟨[{ id := 1 }, { id := 9 }], []⟩
          [{ id := 1, unread := true }, { id := 3 }, { id := 9 }] .search).1.told :=
  have h := (@view_in_step EntryRow [{ id := 1 }, { id := 9 }]
    [{ id := 1, unread := true }, { id := 3 }, { id := 9 }] _ EntryRow.id (by decide) .search).1
    (by decide) (by decide)
  ⟨by rw [h.1]; rfl, h.2⟩

/-- Rows beyond the last position a view can be told are not told, and in a search
not swapped in either. -/
theorem publishRowsAs_of_lt_length (hlength : 2147483648 < fresh.length) :
    (publishRowsAs rowId ⟨[], []⟩ fresh .search).1 =
      (⟨[], [(.countChanged, [])]⟩ : ListModel R) := by
  have hne : fresh ≠ [] := List.ne_nil_of_length_pos (by omega)
  have hto : toI32 (fresh.length - 1) = none := if_neg (by omega)
  have hrun : runToInsert rowId [] fresh .search = none := by
    simp [runToInsert, insertedRun, hne, hto]
  have hids : ¬([] : List R).map rowId = fresh.map rowId := by simpa using hne.symm
  have hall : publishAll ⟨[], []⟩ fresh = (⟨[], [(.countChanged, [])]⟩ : ListModel R) := by
    simp [publishAll, removeAll, insertAll, lastRow, hne, hto, ListModel.tell]
  unfold publishRowsAs
  simp only [hrun, hids, if_false, if_true, hall]

/-- More rows than a view has positions for. -/
def longRows : List EntryRow :=
  (List.range 2147483649).map fun n : ℕ => { id := (n : ℤ) + 1 }

theorem longRows_out_of_step :
    (longRows.map EntryRow.id).Nodup ∧
      (publishRowsAs EntryRow.id ⟨[], []⟩ longRows .search).1.rows = [] ∧
      ¬InStep [] longRows (publishRowsAs EntryRow.id ⟨[], []⟩ longRows .search).1.told := by
  have hlength : longRows.length = 2147483649 := by
    rw [longRows, List.length_map, List.length_range]
  have hpublish : (publishRowsAs EntryRow.id ⟨[], []⟩ longRows .search).1 = _ :=
    publishRowsAs_of_lt_length (by omega)
  refine ⟨?_, by rw [hpublish], fun hstep => ?_⟩
  · rw [longRows, List.map_map]
    refine List.Nodup.map (fun a b hab => ?_) List.nodup_range
    simp only [Function.comp_apply] at hab
    omega
  · rw [hpublish] at hstep
    have hempty : [] = longRows := hstep.replayed
    rw [← hempty, List.length_nil] at hlength
    omega

end Views

end Vuo.Shim.Lists
