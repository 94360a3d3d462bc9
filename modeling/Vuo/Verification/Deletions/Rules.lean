import Vuo.Verification.Requests

/-!
# Rules for the steps that delete

The taxonomy: `C` holds once the categories are listed, `F` once the feeds are,
`W` once both are written and `L` once the local feeds are read. The reconcile:
`I` is the invariant of the listing before a page is asked for, given the offset,
the total declared and the ids collected; `L` is where it ends, and `D` holds
between the read of the local ids and the deletion.
-/

namespace Vuo

open Foundation MinifluxClient

namespace Pull

variable {σ : Type*} {O : Outside σ} [Endpoints]
  {G : Setting.Guarantee Op Op.Ans (World σ)} {client : MinifluxClient}
  {E : Error → World σ → Prop}

/-! ## The taxonomy -/

section Taxonomy

variable [UrlLibrary]

omit [Endpoints] in
theorem feed_ids (wires : List Wire.Feed) :
    (wires.filterMap fun f => (Convert.feed f).toOption).map Feed.id =
      wires.map Wire.Feed.id := by
  induction wires with
  | nil => rfl
  | cons f wires ih =>
      have hfeed : ∃ g, (Convert.feed f).toOption = some g ∧ g.id = f.id := ⟨_, rfl, rfl⟩
      obtain ⟨g, hg, hid⟩ := hfeed
      rw [List.filterMap_cons, hg, List.map_cons, List.map_cons, hid]
      exact congrArg _ ih

omit [Endpoints] in
theorem notMem_of_gone {wires : List Wire.Feed} {localFeeds : List FeedRow} {id : FeedId}
    (h : id ∈ goneFeeds (wires.filterMap fun f => (Convert.feed f).toOption) localFeeds) :
    id ∉ wires.map Wire.Feed.id := by
  have hmissing := (List.mem_filter.1 h).2
  rw [feed_ids] at hmissing
  simpa using hmissing

/-- The feeds of a listing, as the mirror keeps them. -/
def listedFeeds (wires : List Wire.Feed) : List Feed :=
  wires.filterMap fun f => (Convert.feed f).toOption

omit [Endpoints] [UrlLibrary] in
/-- The categories of a listing, as the mirror keeps them. -/
def listedCategories (wires : List Wire.Category) : List Category :=
  wires.filterMap fun c => (Convert.category c).toOption

/-- The rule of the taxonomy, step by step. -/
theorem wpe_taxonomy_steps {P Q : World σ → Prop} {C : List Wire.Category → World σ → Prop}
    {F W : List Wire.Category → List Wire.Feed → World σ → Prop}
    {L : List Wire.Category → List Wire.Feed → List FeedRow → World σ → Prop}
    {generation : ℤ} (hP : O.setting.Stable P) (hC : ∀ cs, O.setting.Stable (C cs))
    (hF : ∀ cs fs, O.setting.Stable (F cs fs)) (hW : ∀ cs fs, O.setting.Stable (W cs fs))
    (hL : ∀ cs fs rows, O.setting.Stable (L cs fs rows)) (hQ : O.setting.Stable Q)
    (hE : ∀ e, O.setting.Stable (E e))
    (hcategories : ∀ w, P w → ∀ r o, O.send client.transport .categories w.outside r o →
      G (.send client.transport .categories) w r (w.setOutside o) ∧
        Setting.ends C E (readResult client .categories r) (w.setOutside o))
    (hfeeds : ∀ cs w, C cs w → ∀ r o, O.send client.transport .feeds w.outside r o →
      G (.send client.transport .feeds) w r (w.setOutside o) ∧
        Setting.ends (F cs) E (readResult client .feeds r) (w.setOutside o))
    (hwrite : ∀ cs fs w, F cs fs w →
      G (.transact (taxonomyTx (listedCategories cs) (listedFeeds fs) generation)) w
          (.ok (Transaction.run (taxonomyTx (listedCategories cs) (listedFeeds fs) generation)
            w.db).1)
          (O.commitTo (taxonomyTx (listedCategories cs) (listedFeeds fs) generation) w) ∧
        W cs fs (O.commitTo (taxonomyTx (listedCategories cs) (listedFeeds fs) generation) w))
    (hwriteFail : ∀ cs fs body m w, F cs fs w →
      G (.transact body) w (.error (.db m)) w ∧ E (.db m) w)
    (hread : ∀ cs fs w, W cs fs w → (∀ r, G (.query .feeds) w r w) ∧
      L cs fs (Store.feeds w.db) w ∧ ∀ m, E (.db m) w)
    (hstop : ∀ cs fs rows w, L cs fs rows w →
      (listedFeeds fs = [] ∧ rows ≠ []) ∨ goneFeeds (listedFeeds fs) rows = [] → Q w)
    (hdelete : ∀ cs fs rows w, L cs fs rows w → ¬(listedFeeds fs = [] ∧ rows ≠ []) →
      G (.transact ((goneFeeds (listedFeeds fs) rows).map .deleteFeed)) w
          (.ok (Transaction.run ((goneFeeds (listedFeeds fs) rows).map .deleteFeed) w.db).1)
          (O.commitTo ((goneFeeds (listedFeeds fs) rows).map .deleteFeed) w) ∧
        Q (O.commitTo ((goneFeeds (listedFeeds fs) rows).map .deleteFeed) w))
    (hdeleteFail : ∀ cs fs rows body m w, L cs fs rows w →
      G (.transact body) w (.error (.db m)) w ∧ E (.db m) w)
    {w : World σ} (hw : P w) :
    O.setting.wpe G (taxonomy client generation) (fun _ => Q) E w := by
  refine Setting.wpe_bind hE (wpe_getJson hP hw (fun _ => Setting.wpe_stable _) hE ?_)
  intro w₁ h₁ r₁ o₁ hsend₁
  obtain ⟨hg₁, hr₁⟩ := hcategories w₁ h₁ r₁ o₁ hsend₁
  refine ⟨hg₁, ?_⟩
  cases hresult₁ : readResult client .categories r₁ with
  | error e =>
      rw [hresult₁] at hr₁
      exact hr₁
  | ok cs =>
      rw [hresult₁] at hr₁
      refine Setting.wpe_bind hE (wpe_getJson (hC cs) hr₁ (fun _ => Setting.wpe_stable _) hE ?_)
      intro w₂ h₂ r₂ o₂ hsend₂
      obtain ⟨hg₂, hr₂⟩ := hfeeds cs w₂ h₂ r₂ o₂ hsend₂
      refine ⟨hg₂, ?_⟩
      cases hresult₂ : readResult client .feeds r₂ with
      | error e =>
          rw [hresult₂] at hr₂
          exact hr₂
      | ok fs =>
          rw [hresult₂] at hr₂
          refine Setting.wpe_bind hE (Outside.wpe_withTx (hF cs fs) hr₂
            (fun _ => Setting.wpe_stable _) hE ?_ (fun m w h => hwriteFail cs fs _ m w h))
          intro w₃ h₃
          obtain ⟨hg₃, hr₃⟩ := hwrite cs fs w₃ h₃
          refine ⟨hg₃, Setting.wpe_bind hE (Outside.wpe_query (hW cs fs) hr₃
            (fun _ => Setting.wpe_stable _) hE ?_ (fun m w h => (hread cs fs w h).2.2 m)
            (fun w r h => (hread cs fs w h).1 r))⟩
          intro w₄ h₄
          have hL₄ := (hread cs fs w₄ h₄).2.1
          split
          case isTrue hkept => exact Setting.wpe_pure hQ (hstop _ _ _ _ hL₄ (.inl hkept))
          case isFalse hkept =>
            dsimp only
            split
            case isTrue hnone => exact Setting.wpe_pure hQ (hstop _ _ _ _ hL₄ (.inr hnone))
            case isFalse hgone =>
              refine Setting.wpe_bind hE (Outside.wpe_withTx (hL cs fs _) hL₄
                (fun _ => Setting.wpe_stable _) hE ?_ (fun m w h => hdeleteFail cs fs _ _ m w h))
              intro w₅ h₅
              obtain ⟨hg₅, hr₅⟩ := hdelete cs fs _ w₅ h₅ hkept
              exact ⟨hg₅, Setting.wpe_pure hQ hr₅⟩

/-- The rule of the taxonomy, by what the feed listing says. -/
theorem wpe_taxonomy {P : World σ → Prop} {F : List Wire.Feed → World σ → Prop}
    {generation : ℤ} (hP : O.setting.Stable P) (hF : ∀ wires, O.setting.Stable (F wires))
    (hE : ∀ e, O.setting.Stable (E e))
    (hcategories : ∀ w, P w → ∀ r o, O.send client.transport .categories w.outside r o →
      G (.send client.transport .categories) w r (w.setOutside o) ∧
        Setting.ends (fun _ => P) E (readResult client .categories r) (w.setOutside o))
    (hfeeds : ∀ w, P w → ∀ r o, O.send client.transport .feeds w.outside r o →
      G (.send client.transport .feeds) w r (w.setOutside o) ∧
        Setting.ends F E (readResult client .feeds r) (w.setOutside o))
    (hwrite : ∀ categories feeds wires w, F wires w →
      G (.transact (taxonomyTx categories feeds generation)) w
          (.ok (Transaction.run (taxonomyTx categories feeds generation) w.db).1)
          (O.commitTo (taxonomyTx categories feeds generation) w) ∧
        F wires (O.commitTo (taxonomyTx categories feeds generation) w))
    (hread : ∀ wires w, F wires w → (∀ r, G (.query .feeds) w r w) ∧ P w ∧ ∀ m, E (.db m) w)
    (hdelete : ∀ wires (gone : List FeedId) w, F wires w →
      (∀ id ∈ gone, id ∉ wires.map Wire.Feed.id) →
      G (.transact (gone.map .deleteFeed)) w
          (.ok (Transaction.run (gone.map .deleteFeed) w.db).1)
          (O.commitTo (gone.map .deleteFeed) w) ∧
        P (O.commitTo (gone.map .deleteFeed) w))
    (hfail : ∀ wires body m w, F wires w →
      G (.transact body) w (.error (.db m)) w ∧ E (.db m) w)
    {w : World σ} (hw : P w) :
    O.setting.wpe G (taxonomy client generation) (fun _ => P) E w := by
  exact wpe_taxonomy_steps (C := fun _ => P) (F := fun _ => F) (W := fun _ => F)
    (L := fun _ fs _ => F fs) hP (fun _ => hP) (fun _ fs => hF fs) (fun _ fs => hF fs)
    (fun _ fs _ => hF fs) hP hE hcategories (fun _ => hfeeds)
    (fun _ fs w h => hwrite _ _ fs w h) (fun _ fs body m w h => hfail fs body m w h)
    (fun _ fs w h => ⟨(hread fs w h).1, h, (hread fs w h).2.2⟩)
    (fun _ fs _ w h _ => (hread fs w h).2.1)
    (fun _ fs _ w h _ => hdelete fs _ w h fun _ hid => notMem_of_gone hid)
    (fun _ fs _ body m w h => hfail fs body m w h) hw

end Taxonomy

/-! ## The reconcile -/

/-- What has to hold once a page is answered: the end of the listing, or the
invariant at the next offset. -/
structure ListingFollows (I : ℕ → Option ℤ → List ℤ → World σ → Prop)
    (L : Option (ℤ × List ℤ) → World σ → Prop) (offset : ℕ) (total : Option ℤ)
    (seen : List ℤ) (page : Wire.EntryIdsResponse) (w : World σ) : Prop where
  short : page.entryIds.length < reconcilePage →
    L (some (total.getD page.total, page.entryIds ++ seen)) w
  endless : reconcilePage ≤ page.entryIds.length →
    reconcileLimit < offset + reconcilePage → L none w
  next : reconcilePage ≤ page.entryIds.length → offset + reconcilePage ≤ reconcileLimit →
    I (offset + reconcilePage) (some (total.getD page.total)) (page.entryIds ++ seen) w

variable {I : ℕ → Option ℤ → List ℤ → World σ → Prop}
  {L : Option (ℤ × List ℤ) → World σ → Prop}

/-- The rule of the listing. -/
theorem wpe_reconcilePages
    (hI : ∀ offset total seen, O.setting.Stable (I offset total seen))
    (hL : ∀ r, O.setting.Stable (L r)) (hE : ∀ e, O.setting.Stable (E e))
    (hsend : ∀ offset total seen w, I offset total seen w → ∀ r o,
      O.send client.transport (.entryIds reconcileQuery offset) w.outside r o →
      G (.send client.transport (.entryIds reconcileQuery offset)) w r (w.setOutside o) ∧
        Setting.ends (ListingFollows I L offset total seen) E
          (readResult client (.entryIds reconcileQuery offset) r) (w.setOutside o))
    (offset : ℕ) (total : Option ℤ) (seen : List ℤ) {w : World σ}
    (hw : I offset total seen w) :
    O.setting.wpe G (reconcilePages client offset total seen) L E w := by
  induction hleft : reconcileLimit + reconcilePage - offset using Nat.strongRecOn
    generalizing offset total seen w with
  | ind left ih =>
      rw [reconcilePages]
      refine Setting.wpe_bind hE (wpe_getJson (hI offset total seen) hw
        (fun _ => Setting.wpe_stable _) hE ?_)
      intro w₁ h₁ r o hr
      obtain ⟨hg, hanswer⟩ := hsend offset total seen w₁ h₁ r o hr
      refine ⟨hg, ?_⟩
      cases hresult : readResult client (.entryIds reconcileQuery offset) r with
      | error e =>
          rw [hresult] at hanswer
          exact hanswer
      | ok page =>
          rw [hresult] at hanswer
          have hpage : ListingFollows I L offset total seen page (w₁.setOutside o) := hanswer
          unfold Setting.ends
          dsimp only
          by_cases hshort : page.entryIds.length < reconcilePage
          · rw [if_pos hshort]
            exact Setting.wpe_pure (hL _) (hpage.short hshort)
          · rw [if_neg hshort]
            have hfull := Nat.le_of_not_lt hshort
            refine Setting.wpe_dite ?_ ?_
            · intro hlimit
              exact Setting.wpe_pure (hL _) (hpage.endless hfull hlimit)
            · intro hlimit
              refine ih _ ?_ _ _ _
                (hpage.next hfull (Nat.le_of_not_lt hlimit)) rfl
              simp only [reconcileLimit, reconcilePage] at *
              omega

/-- The transaction of a reconcile. -/
def staleTx (localIds : List EntryId) (seen : List ℤ) : Transaction :=
  (staleIds localIds seen).map .deleteEntry

/-- The rule of a whole reconcile, given one of its listing. -/
theorem wpe_reconcile {D : List ℤ → List EntryId → World σ → Prop}
    {R : Reconcile → World σ → Prop} {w : World σ}
    (hL : ∀ r, O.setting.Stable (L r)) (hD : ∀ seen ids, O.setting.Stable (D seen ids))
    (hR : ∀ r, O.setting.Stable (R r)) (hE : ∀ e, O.setting.Stable (E e))
    (hlisting : O.setting.wpe G (reconcilePages client 0 none []) L E w)
    (hendless : ∀ w, L none w → R .aborted w)
    (hrefused : ∀ total seen w, listingAgrees total seen = false → L (some (total, seen)) w →
      R .aborted w)
    (hread : ∀ total seen w, listingAgrees total seen = true → L (some (total, seen)) w →
      (∀ r, G (.query .localEntryIds) w r w) ∧
        D seen (Query.localEntryIds.run w.db) w ∧ ∀ m, E (.db m) w)
    (hnone : ∀ seen ids w, D seen ids w → staleIds ids seen = [] → R ⟨true, 0⟩ w)
    (hdelete : ∀ seen ids w, D seen ids w → staleIds ids seen ≠ [] →
      G (.transact (staleTx ids seen)) w (.ok ((staleTx ids seen).run w.db).1)
          (O.commitTo (staleTx ids seen) w) ∧
        R ⟨true, (staleIds ids seen).length⟩ (O.commitTo (staleTx ids seen) w))
    (hfail : ∀ seen ids m w, D seen ids w →
      G (.transact (staleTx ids seen)) w (.error (.db m)) w ∧ E (.db m) w) :
    O.setting.wpe G (reconcile client) R E w := by
  refine Setting.wpe_bind hE (Setting.wpe_mono ?_ (fun _ _ h => h) hlisting)
  rintro (_ | ⟨total, seen⟩) w₁ h₁
  · exact Setting.wpe_pure (hR _) (hendless w₁ h₁)
  · rw [deleteUnlisted]
    split
    · next hagrees =>
        refine Setting.wpe_bind hE (Outside.wpe_query (hL _) h₁
          (fun _ => Setting.wpe_stable _) hE ?_
          (fun m w h => (hread total seen w hagrees h).2.2 m)
          (fun w r h => (hread total seen w hagrees h).1 r))
        intro w₂ h₂
        have hD₂ := (hread total seen w₂ hagrees h₂).2.1
        dsimp only
        split
        · next hnil => exact Setting.wpe_pure (hR _) (hnone seen _ w₂ hD₂ hnil)
        · next hstale =>
            refine Setting.wpe_bind hE (Outside.wpe_withTx (hD seen _) hD₂
              (fun _ => Setting.wpe_stable _) hE ?_ (fun m w h => hfail seen _ m w h))
            intro w₃ h₃
            obtain ⟨hg, hr⟩ := hdelete seen _ w₃ h₃ hstale
            exact ⟨hg, Setting.wpe_pure (hR _) hr⟩
    · next hrefuse =>
        refine Setting.wpe_pure (hR _) (hrefused total seen w₁ ?_ h₁)
        simpa using hrefuse

end Pull

end Vuo
