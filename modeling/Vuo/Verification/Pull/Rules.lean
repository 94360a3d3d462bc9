import Vuo.Verification.Requests

/-!
# Rules for the incremental pull

`I` is the invariant before a page is asked for, given the keyset position and
the anchor so far; `A` holds between the answer and its transaction, and `C`
where the pages end, given whether the window was covered.
-/

namespace Vuo

open Foundation MinifluxClient

namespace Pull

variable {σ : Type*} {O : Outside σ} [UrlLibrary] [Endpoints]
  {G : Setting.Guarantee Op Op.Ans (World σ)}

/-- The transaction of an answered page. -/
def answerTx (page : Wire.EntriesResponse) (cursor : Option ℤ) (generation : ℤ) :
    Transaction :=
  pageTx (Convert.entries page.entries) cursor generation

/-- What has to hold once a page is written: the invariant at the next keyset
position, or the end of the pages. -/
def Follows (I : Option EntryId → Option ℤ → World σ → Prop)
    (C : Option ℤ → Bool → World σ → Prop) (after : Option EntryId)
    (page : Wire.EntriesResponse) (serverNow : Option ℤ) (w : World σ) : Prop :=
  if page.entries.length < pageSize then C serverNow true w
  else
    match page.entries.getLast?.map Wire.Entry.id with
    | some id => if some id ≠ after then I (some id) serverNow w else C serverNow false w
    | none => C serverNow false w

section Pages

variable {client : MinifluxClient} {cursor : Option ℤ} {generation : ℤ}
  {I : Option EntryId → Option ℤ → World σ → Prop}
  {A : Option EntryId → Option ℤ → Wire.EntriesResponse × Option DateTime → World σ → Prop}
  {C : Option ℤ → Bool → World σ → Prop} {D : Error → World σ → Prop}

/-- The rule of the page loop. -/
theorem wpe_entriesPages (hI : ∀ after sn, O.setting.Stable (I after sn))
    (hA : ∀ after sn a, O.setting.Stable (A after sn a))
    (hC : ∀ sn b, O.setting.Stable (C sn b)) (hD : ∀ e, O.setting.Stable (D e))
    (hsend : ∀ after sn w, I after sn w → ∀ r o,
      O.send client.transport (.entries (pageQuery cursor after)) w.outside r o →
      G (.send client.transport (.entries (pageQuery cursor after))) w r (w.setOutside o) ∧
        Setting.ends (A after sn) D (pageResult client (pageQuery cursor after) r)
          (w.setOutside o))
    (hcommit : ∀ after sn page date w, A after sn (page, date) w →
      G (.transact (answerTx page cursor generation)) w
          (.ok (Transaction.run (answerTx page cursor generation) w.db).1)
          (O.commitTo (answerTx page cursor generation) w) ∧
        Follows I C after page (sn.or (date.map DateTime.timestamp))
          (O.commitTo (answerTx page cursor generation) w))
    (hfail : ∀ after sn page date m w, A after sn (page, date) w →
      G (.transact (answerTx page cursor generation)) w (.error (.db m)) w ∧ D (.db m) w)
    (hcap : ∀ after sn w, I after sn w → C sn false w)
    (budget : ℕ) (after : Option EntryId) (sn : Option ℤ) (outcome : PullOutcome)
    {w : World σ} (hw : I after sn w) :
    O.setting.wpe G (entriesPages client cursor generation budget after sn outcome)
      (fun r => C r.2.1 r.2.2) D w := by
  induction budget generalizing after sn outcome w with
  | zero => exact Setting.wpe_pure (hC sn false) (hcap after sn w hw)
  | succ budget ih =>
      refine Setting.wpe_bind hD (wpe_entries (hI after sn) hw
        (fun _ => Setting.wpe_stable _) hD ?_)
      intro w₁ h₁ r o hr
      obtain ⟨hg, hanswer⟩ := hsend after sn w₁ h₁ r o hr
      refine ⟨hg, ?_⟩
      cases hresult : pageResult client (pageQuery cursor after) r with
      | error e =>
          rw [hresult] at hanswer
          exact hanswer
      | ok a =>
          rw [hresult] at hanswer
          obtain ⟨page, date⟩ := a
          refine Setting.wpe_bind hD (Outside.wpe_withTx (hA after sn (page, date)) hanswer
            (fun _ => Setting.wpe_stable _) hD ?_ (fun m w h => hfail after sn page date m w h))
          intro w₂ h₂
          obtain ⟨hg₂, hfollows⟩ := hcommit after sn page date w₂ h₂
          refine ⟨hg₂, ?_⟩
          unfold Follows at hfollows
          by_cases hshort : page.entries.length < pageSize
          · simp only [hshort, if_true] at hfollows ⊢
            exact Setting.wpe_pure (hC _ true) hfollows
          · simp only [hshort, if_false] at hfollows ⊢
            cases hlast : page.entries.getLast?.map Wire.Entry.id with
            | none =>
                simp only [hlast] at hfollows ⊢
                exact Setting.wpe_pure (hC _ false) hfollows
            | some id =>
                simp only [hlast] at hfollows ⊢
                split
                · next hne =>
                    rw [if_pos hne] at hfollows
                    exact ih (some id) _ _ hfollows
                · next hne =>
                    rw [if_neg hne] at hfollows
                    exact Setting.wpe_pure (hC _ false) hfollows

/-- The rule of a whole pass, by the cursor it returns. -/
theorem wpe_entriesWithPageCap {Q : Option ℤ → World σ → Prop} (maxPages : ℕ)
    (hC : ∀ sn b, O.setting.Stable (C sn b)) (hQ : ∀ c, O.setting.Stable (Q c))
    (hD : ∀ e, O.setting.Stable (D e))
    (hanchored : ∀ t w, C (some t) true w → Q (some (saturatingSub t cursorSkewSecs)) w)
    (hlocal : ∀ w, C none true w → ∀ t o, O.now w.outside t o →
      G .now w t (w.setOutside o) ∧
        Q (some (saturatingSub t.timestamp cursorSkewSecs)) (w.setOutside o))
    (hincomplete : ∀ sn w, C sn false w → Q none w) {w : World σ}
    (hpages : O.setting.wpe G
      (entriesPages client cursor generation maxPages none none .default)
      (fun r => C r.2.1 r.2.2) D w) :
    O.setting.wpe G (entriesWithPageCap client cursor generation maxPages)
      (fun outcome => Q outcome.nextCursor) D w := by
  refine Setting.wpe_bind hD (Setting.wpe_mono ?_ (fun _ _ h => h) hpages)
  rintro ⟨outcome, sn, complete⟩ w₁ h₁
  cases complete with
  | false => exact Setting.wpe_pure (hQ none) (hincomplete sn w₁ h₁)
  | true =>
      cases sn with
      | some t => exact Setting.wpe_pure (hQ _) (hanchored t w₁ h₁)
      | none =>
          refine Setting.wpe_bind hD (Outside.wpe_now (hC none true) h₁
            (fun _ => Setting.wpe_stable _) ?_)
          intro w₂ h₂ t o hnow
          obtain ⟨hg, hq⟩ := hlocal w₂ h₂ t o hnow
          exact ⟨hg, Setting.wpe_pure (hQ _) hq⟩

end Pages

/-- A pass over a single short page. -/
theorem reaches_entries_shortPage {client : MinifluxClient} {cursor : Option ℤ}
    {page : Wire.EntriesResponse}
    {date : DateTime} {w : World σ} {o : σ} (generation : ℤ)
    (hsend : O.send client.transport (.entries (pageQuery cursor none)) w.outside
      (answered 200 page (some date)) o) (hshort : page.entries.length < pageSize) :
    ∃ outcome, outcome.nextCursor = some (saturatingSub date.timestamp cursorSkewSecs) ∧
      O.setting.Reaches ((entries client cursor generation).run, w) (.done (.ok outcome),
        O.commitTo (answerTx page cursor generation) (w.setOutside o)) := by
  have hpages : ∃ outcome, O.setting.Reaches
      ((entriesPages client cursor generation maxPagesPerPass none none .default).run, w)
      (.done (.ok (outcome, some date.timestamp, true)),
        O.commitTo (answerTx page cursor generation) (w.setOutside o)) := by
    apply Exists.intro
    refine ((reaches_entries hsend).bind_ok _).trans ?_
    refine ((Outside.reaches_withTx _ _).bind_ok _).trans ?_
    simp only [hshort, if_true]
    exact .refl
  obtain ⟨outcome, hpages⟩ := hpages
  exact ⟨{ outcome with nextCursor := _ }, rfl, hpages.bind_ok _⟩

end Pull

end Vuo
