import Vuo.Model.Decoding
import Vuo.Verification.Pull.Rules

/-!
# Malformed items of a page

A page is decoded as a whole and converted item by item. What becomes of an
item depends on the others only through the ids they report removed; what
becomes of the page depends on every item decoding.
-/

namespace Vuo

open Foundation

namespace Pull

/-! ## A page with one item replaced -/

section Decoding

open Wire

variable [Timestamps]

/-- The body of a page, with what else it carries. -/
def pageBody (before after : List (Option String × Json)) (items : List Json) : Json :=
  .obj (before ++ (some "entries", .arr items) :: after)

/-- Whatever else the body carries, its items decide. -/
theorem decode_pageBody {before after : List (Option String × Json)} {items : List Json}
    {page : List Wire.Entry}
    (h : EntriesResponse.decode (pageBody before after items) = some ⟨page⟩) :
    Decoder.all Entry.decode items = some page ∧
      ∀ items', EntriesResponse.decode (pageBody before after items') =
        (Decoder.all Entry.decode items').map EntriesResponse.mk := by
  let f : Decoder.Field EntriesResponse :=
    .of "entries" (deNullDefault (Decoder.list Entry.decode)) fun x r => { r with entries := x }
  have hf : Decoder.named EntriesResponse.fields "entries" = some f := rfl
  have hread (items : List Json) : f.read (.arr items) =
      (Decoder.all Entry.decode items).map fun x r => { r with entries := x } := by
    simp only [f, Decoder.Field.of, deNullDefault, Decoder.orDefault, Decoder.nullable,
      Decoder.list]
    cases Decoder.all Entry.decode items <;> rfl
  have hdecode (items : List Json) : EntriesResponse.decode (pageBody before after items) =
      (Decoder.ofMembers EntriesResponse.fields
        (before ++ (some "entries", .arr items) :: after) []).map
          fun g => g EntriesResponse.default := rfl
  rw [hdecode, Option.map_eq_some_iff] at h
  obtain ⟨g, hg, hpage⟩ := h
  obtain ⟨first, last, seen, hlast, haround⟩ := Decoder.ofMembers_around hf hg
  have hkeep (r : EntriesResponse) : (last r).entries = r.entries := by
    refine Decoder.keeps_of_ofMembers (fun e he hnew j c hc r => ?_) hlast r
    simp only [EntriesResponse.fields, List.mem_cons, List.not_mem_nil, or_false] at he
    rcases he with rfl | rfl
    · simp only [Decoder.Field.skip, Option.map_eq_some_iff] at hc
      obtain ⟨-, -, rfl⟩ := hc
      rfl
    · exact absurd List.mem_cons_self hnew
  have hsame (ws : List Wire.Entry) : last { first EntriesResponse.default with entries := ws } =
      ⟨ws⟩ :=
    congrArg EntriesResponse.mk (hkeep { first EntriesResponse.default with entries := ws })
  constructor
  · rw [haround, hread, Option.map_map, Option.map_eq_some_iff] at hg
    obtain ⟨ws, hws, rfl⟩ := hg
    have hpage' : last { first EntriesResponse.default with entries := ws } = ⟨page⟩ := hpage
    rw [hsame] at hpage'
    cases hpage'
    exact hws
  · intro items'
    rw [hdecode, haround, hread]
    cases Decoder.all Entry.decode items' with
    | none => rfl
    | some ws => exact congrArg some (hsame ws)

/-- A page decodes with an item replaced exactly if the new item does. -/
theorem decode_set {before after : List (Option String × Json)} {items : List Json}
    {page : List Wire.Entry}
    (h : EntriesResponse.decode (pageBody before after items) = some ⟨page⟩) {i : ℕ}
    (hi : i < page.length) (v : Json) :
    EntriesResponse.decode (pageBody before after (items.set i v)) =
      (Entry.decode v).map fun w => ⟨page.set i w⟩ := by
  obtain ⟨hall, hdecode⟩ := decode_pageBody h
  rw [Decoder.length_of_all hall] at hi
  rw [hdecode, Decoder.all_set hall i v hi, Option.map_map]
  rfl

end Decoding

/-! ## What becomes of an item -/

/-- An item is kept, or its entry is deleted, or it is dropped. -/
inductive Fate
  | valid (e : Entry)
  | removed (id : EntryId)
  | rejected (error : Error)

section Fates

variable [UrlLibrary]

/-- What conversion makes of an item of a page. -/
def fate (page : List Wire.Entry) (w : Wire.Entry) : Fate :=
  if w.id ∈ Convert.removedIds page then .removed w.id
  else
    match Convert.entry w with
    | .ok e => .valid e
    | .error error => .rejected error

def Fate.valid? : Fate → Option Entry
  | .valid e => some e
  | _ => none

def Fate.rejected? : Fate → Option Error
  | .rejected error => some error
  | _ => none

theorem valid_fate (page : List Wire.Entry) (w : Wire.Entry) :
    (fate page w).valid? =
      if w.id ∈ Convert.removedIds page then none else (Convert.entry w).toOption := by
  unfold fate
  split
  · rfl
  · cases Convert.entry w <;> rfl

/-- The fates of its items are the page the conversion returns. -/
theorem entries_valid (page : List Wire.Entry) :
    (Convert.entries page).valid = page.filterMap fun w => (fate page w).valid? := by
  simp only [Convert.entries, List.filterMap_filter, valid_fate]
  congr 1
  funext w
  by_cases h : w.id ∈ Convert.removedIds page <;> simp [h]

theorem entries_rejected (page : List Wire.Entry) :
    (Convert.entries page).rejected = page.filterMap fun w => (fate page w).rejected? := by
  simp only [Convert.entries, List.filterMap_filter]
  congr 1
  funext w
  by_cases h : w.id ∈ Convert.removedIds page
  · simp [h, fate, Fate.rejected?]
  · simp only [fate, h, if_false]
    cases hentry : Convert.entry w <;> simp [h, Fate.rejected?]

theorem mem_entries_removed {page : List Wire.Entry} {id : EntryId} :
    id ∈ (Convert.entries page).removed ↔ ∃ w ∈ page, fate page w = .removed id := by
  have hremoved : (Convert.entries page).removed = Convert.removedIds page := rfl
  rw [hremoved]
  constructor
  · intro hid
    obtain ⟨w, hw, -, rfl⟩ := Convert.mem_removedIds.1 hid
    exact ⟨w, hw, if_pos hid⟩
  · rintro ⟨w, -, hfate⟩
    unfold fate at hfate
    split at hfate
    · next hmem =>
        cases hfate
        exact hmem
    · split at hfate <;> cases hfate

theorem fate_eq_iff {page page' : List Wire.Entry} {u : Wire.Entry} :
    fate page' u = fate page u ↔
      (u.id ∈ Convert.removedIds page' ↔ u.id ∈ Convert.removedIds page) := by
  constructor
  · intro h
    unfold fate at h
    by_cases hnew : u.id ∈ Convert.removedIds page' <;>
      by_cases hold : u.id ∈ Convert.removedIds page <;>
        simp only [hnew, hold, if_true, if_false] at h ⊢
    · split at h <;> cases h
    · split at h <;> cases h
  · intro h
    unfold fate
    simp only [h]

omit [UrlLibrary] in
/-- With distinct ids, an item is deleted if it says so itself. -/
theorem mem_removedIds_of_nodup {page : List Wire.Entry}
    (hdistinct : (page.map Wire.Entry.id).Nodup) {u : Wire.Entry} (hu : u ∈ page) :
    u.id ∈ Convert.removedIds page ↔ u.status = "removed" := by
  rw [Convert.mem_removedIds]
  constructor
  · rintro ⟨u', hu', hstatus, hid⟩
    obtain rfl := List.inj_on_of_nodup_map hdistinct hu' hu hid
    exact hstatus
  · exact fun hstatus => ⟨u, hu, hstatus, rfl⟩

omit [UrlLibrary] in
/-- An item is deleted because of another only if that one reports its id. -/
theorem mem_removedIds_set {page : List Wire.Entry}
    (hdistinct : (page.map Wire.Entry.id).Nodup) {i j : ℕ} (hi : i < page.length)
    (w : Wire.Entry) {u : Wire.Entry} (hj : j ≠ i) (hu : page[j]? = some u) :
    u.id ∈ Convert.removedIds (page.set i w) ↔
      u.status = "removed" ∨ w.status = "removed" ∧ w.id = u.id := by
  have hsame : (page.set i w)[j]? = some u := by
    rw [List.getElem?_set_ne hj.symm, hu]
  rw [Convert.mem_removedIds]
  constructor
  · rintro ⟨u', hu', hstatus, hid⟩
    rcases List.mem_or_eq_of_mem_set hu' with hmem | rfl
    · obtain rfl := List.inj_on_of_nodup_map hdistinct hmem (List.mem_of_getElem? hu) hid
      exact .inl hstatus
    · exact .inr ⟨hstatus, hid⟩
  · rintro (hstatus | ⟨hstatus, hid⟩)
    · exact ⟨u, List.mem_of_getElem? hsame, hstatus, rfl⟩
    · exact ⟨w, List.mem_set hi w, hstatus, hid⟩

/-- The other items fare as before unless the new one deletes one of them. -/
theorem fate_set_iff {page : List Wire.Entry} (hdistinct : (page.map Wire.Entry.id).Nodup)
    {i j : ℕ} (hi : i < page.length) (w : Wire.Entry) {u : Wire.Entry} (hj : j ≠ i)
    (hu : page[j]? = some u) :
    fate (page.set i w) u = fate page u ↔
      (w.status = "removed" → u.id = w.id → u.status = "removed") := by
  rw [fate_eq_iff, mem_removedIds_set hdistinct hi w hj hu,
    mem_removedIds_of_nodup hdistinct (List.mem_of_getElem? hu)]
  constructor
  · exact fun h hstatus hid => h.1 (.inr ⟨hstatus, hid.symm⟩)
  · intro h
    constructor
    · rintro (hstatus | ⟨hstatus, hid⟩)
      · exact hstatus
      · exact h hstatus hid.symm
    · exact .inl

/-! ## What the pull does with a page -/

/-- What the pull writes of an item. -/
def Fate.statement (cursor : Option ℤ) (generation : ℤ) : Fate → Option Statement
  | .valid e => some (.upsertEntry e generation (arrivalFor e cursor))
  | .removed id => some (.deleteEntry id)
  | .rejected _ => none

/-- The statements about an entry. -/
def concerns (id : EntryId) : Statement → Bool
  | .upsertEntry e _ _ => e.id = id
  | .deleteEntry id' => id' = id
  | _ => false

/-- What a transaction writes of an entry last, over whatever it wrote of it
before. -/
def lastWrite (id : EntryId) (body : Transaction) : Option Statement :=
  body.reverse.find? (concerns id)

omit [UrlLibrary] in
theorem lastWrite_append (id : EntryId) (body rest : Transaction) :
    lastWrite id (body ++ rest) = (lastWrite id rest).or (lastWrite id body) := by
  rw [lastWrite, List.reverse_append, List.find?_append]
  rfl

omit [UrlLibrary] in
theorem lastWrite_deletes (id : EntryId) (ids : List EntryId) :
    lastWrite id (ids.map .deleteEntry) =
      if id ∈ ids then some (.deleteEntry id) else none := by
  rw [lastWrite, ← List.map_reverse, List.find?_map]
  split
  · next hmem =>
      cases hfind : ids.reverse.find? (concerns id ∘ Statement.deleteEntry) with
      | none =>
          have hnone := List.find?_eq_none.1 hfind id (List.mem_reverse.2 hmem)
          simp [concerns] at hnone
      | some id' =>
          have hid : id' = id := by simpa [concerns] using List.find?_some hfind
          rw [hid]
          rfl
  · next hmem =>
      rw [Option.map_eq_none_iff, List.find?_eq_none]
      intro id' hid' hconcerns
      have hid : id' = id := by simpa [concerns] using hconcerns
      exact hmem (hid ▸ List.mem_reverse.1 hid')

omit [UrlLibrary] in
theorem find?_filterMap {α β : Type} (f : α → Option β) (p : β → Bool) (as : List α) :
    (as.filterMap f).find? p = as.findSome? fun a => (f a).filter p := by
  induction as with
  | nil => rfl
  | cons a as ih =>
      cases hfa : f a with
      | none => simp [hfa, ih]
      | some b => by_cases hp : p b <;> simp [hfa, hp, ih, Option.filter]

omit [UrlLibrary] in
/-- The last of a list that has something to say decides. -/
theorem findSome?_reverse_of_last {α β : Type} {f : α → Option β} {as : List α} {k : ℕ} {a : α}
    {b : β} (ha : as[k]? = some a) (hb : f a = some b)
    (hafter : ∀ m a', k < m → as[m]? = some a' → f a' = none) :
    as.reverse.findSome? f = some b := by
  obtain ⟨hk, hget⟩ := List.getElem?_eq_some_iff.1 ha
  have hsplit : as = as.take k ++ a :: as.drop (k + 1) := by
    rw [← hget, List.getElem_cons_drop, List.take_append_drop]
  have hnone : (as.drop (k + 1)).reverse.findSome? f = none := by
    rw [List.findSome?_eq_none_iff]
    intro a' ha'
    obtain ⟨m, hm⟩ := List.getElem?_of_mem (List.mem_reverse.1 ha')
    rw [List.getElem?_drop] at hm
    exact hafter _ a' (by omega) hm
  rw [hsplit, List.reverse_append, List.reverse_cons, List.append_assoc, List.findSome?_append,
    hnone]
  simp [hb]

/-- A page's last word on an entry it does not delete is that of the last item
that is kept under its id. -/
theorem lastWrite_answerTx {page : List Wire.Entry} {cursor : Option ℤ} {generation : ℤ}
    {id : EntryId} (hid : id ∉ Convert.removedIds page) {k : ℕ} {u : Wire.Entry} {e : Entry}
    (hu : page[k]? = some u) (hentry : Convert.entry u = .ok e) (hsame : u.id = id)
    (hafter : ∀ m u', k < m → page[m]? = some u' → u'.id = id →
      ∀ e', Convert.entry u' ≠ .ok e') :
    lastWrite id (answerTx ⟨page⟩ cursor generation) =
      some (.upsertEntry e generation (arrivalFor e cursor)) := by
  have hremoved : (Convert.entries page).removed = Convert.removedIds page := rfl
  rw [answerTx, pageTx, lastWrite_append, hremoved, lastWrite_deletes, if_neg hid,
    Option.none_or, entries_valid, lastWrite, ← List.map_reverse, List.find?_map,
    ← List.filterMap_reverse, find?_filterMap]
  have hlast : page.reverse.findSome? (fun u => ((fate page u).valid?).filter
      fun e => concerns id (.upsertEntry e generation (arrivalFor e cursor))) = some e := by
    refine findSome?_reverse_of_last hu ?_ ?_
    · rw [valid_fate, if_neg (hsame ▸ hid), hentry]
      have hconcerns : e.id = id := (Convert.entry_eq_ok hentry).1.trans hsame
      simp [Except.toOption, concerns, hconcerns]
    · intro m u' hm hu'
      rw [valid_fate]
      split
      · rfl
      · cases hentry' : Convert.entry u' with
        | error error => rfl
        | ok e' =>
            have hother : e'.id ≠ id := fun heq =>
              hafter m u' hm hu' ((Convert.entry_eq_ok hentry').1.symm.trans heq) e' hentry'
            simp [Except.toOption, concerns, hother]
  exact congrArg _ hlast

theorem lastWrite_removed {page : List Wire.Entry} {cursor : Option ℤ} {generation : ℤ}
    {id : EntryId} (hid : id ∈ Convert.removedIds page) :
    lastWrite id (answerTx ⟨page⟩ cursor generation) = some (.deleteEntry id) := by
  have hremoved : (Convert.entries page).removed = Convert.removedIds page := rfl
  rw [answerTx, pageTx, lastWrite_append, hremoved, lastWrite_deletes, if_pos hid]
  rfl

/-! ### One item replaced -/

omit [UrlLibrary] in
theorem index_eq {page : List Wire.Entry} (hdistinct : (page.map Wire.Entry.id).Nodup)
    {j m : ℕ} {u u' : Wire.Entry} (hu : page[j]? = some u) (hu' : page[m]? = some u')
    (hid : u'.id = u.id) : m = j := by
  obtain ⟨hj, hgetj⟩ := List.getElem?_eq_some_iff.1 hu
  obtain ⟨hm, hgetm⟩ := List.getElem?_eq_some_iff.1 hu'
  have hinj := List.nodup_iff_injective_get.1 hdistinct
  have hget : (page.map Wire.Entry.id).get ⟨m, by simpa using hm⟩ =
      (page.map Wire.Entry.id).get ⟨j, by simpa using hj⟩ := by
    simp [hgetj, hgetm, hid]
  exact congrArg Fin.val (hinj hget)

theorem status_ne_removed {u : Wire.Entry} {e : Entry} (h : Convert.entry u = .ok e) :
    u.status ≠ "removed" := by
  rw [← (Convert.entry_eq_ok h).2.2]
  cases e.status <;> decide

/-- The new item has no last word on another that is kept. -/
def Yields (page : List Wire.Entry) (i : ℕ) (w : Wire.Entry) : Prop :=
  ∀ j u e e', j < i → page[j]? = some u → u.id = w.id → Convert.entry u = .ok e →
    Convert.entry w = .ok e' → e' = e

/-- The other items have the last word on their entries exactly if the new one
leaves it to them. -/
theorem lastWrite_set_iff {page : List Wire.Entry}
    (hdistinct : (page.map Wire.Entry.id).Nodup) {i : ℕ} (hi : i < page.length)
    {w : Wire.Entry} (hfate : ∀ j u, j ≠ i → page[j]? = some u →
      fate (page.set i w) u = fate page u) :
    (∀ cursor generation j u s, j ≠ i → page[j]? = some u →
        (fate page u).statement cursor generation = some s →
          lastWrite u.id (answerTx ⟨page.set i w⟩ cursor generation) = some s) ↔
      Yields page i w := by
  have hsame : ∀ {j u}, j ≠ i → page[j]? = some u → (page.set i w)[j]? = some u := by
    intro j u hj hu
    rw [List.getElem?_set_ne hj.symm, hu]
  have hkept : ∀ {j u e}, j ≠ i → page[j]? = some u → Convert.entry u = .ok e →
      fate page u = .valid e ∧ u.id ∉ Convert.removedIds (page.set i w) := by
    intro j u e hj hu he
    have hold : u.id ∉ Convert.removedIds page := by
      rw [mem_removedIds_of_nodup hdistinct (List.mem_of_getElem? hu)]
      exact status_ne_removed he
    refine ⟨?_, fun hnew => hold ((fate_eq_iff.1 (hfate j u hj hu)).1 hnew)⟩
    rw [fate, if_neg hold, he]
  have hlater : ∀ {j u k}, page[j]? = some u → j ≠ i → i ≤ k → j ≤ k → ∀ m u', k < m →
      (page.set i w)[m]? = some u' → u'.id ≠ u.id := by
    intro j u k hu hj hik hjk m u' hm hu' hid
    rw [List.getElem?_set_ne (by omega)] at hu'
    have hmj := index_eq hdistinct hu hu' hid
    omega
  constructor
  · intro hlast j u e e' hji hu hid he he'
    obtain ⟨hvalid, hkeep⟩ := hkept (Nat.ne_of_lt hji) hu he
    have hother := hlast none 0 j u _ (Nat.ne_of_lt hji) hu (by rw [hvalid]; rfl)
    have hboth := hother.symm.trans (lastWrite_answerTx hkeep
      (List.getElem?_set_self hi) he' hid.symm fun m u' hm hu' hid' =>
        absurd hid' (hlater hu (Nat.ne_of_lt hji) (Nat.le_refl i) (Nat.le_of_lt hji) m u' hm hu'))
    cases hboth
    rfl
  · intro hyields cursor generation j u s hj hu hs
    by_cases hremoved : u.id ∈ Convert.removedIds page
    · have hnew : u.id ∈ Convert.removedIds (page.set i w) :=
        (fate_eq_iff.1 (hfate j u hj hu)).2 hremoved
      rw [fate, if_pos hremoved] at hs
      cases hs
      exact lastWrite_removed hnew
    · rw [fate, if_neg hremoved] at hs
      cases he : Convert.entry u with
      | error error =>
          rw [he] at hs
          cases hs
      | ok e =>
          rw [he] at hs
          cases hs
          have hkeep := (hkept hj hu he).2
          by_cases hover : j < i ∧ u.id = w.id ∧ ∃ e', Convert.entry w = .ok e'
          · obtain ⟨hji, hid, e', he'⟩ := hover
            obtain rfl := hyields j u e e' hji hu hid he he'
            exact lastWrite_answerTx hkeep (List.getElem?_set_self hi) he' hid.symm
              fun m u' hm hu' hid' =>
                absurd hid' (hlater hu hj (Nat.le_refl i) (Nat.le_of_lt hji) m u' hm hu')
          · refine lastWrite_answerTx hkeep (hsame hj hu) he rfl fun m u' hm hu' hid' e' he' => ?_
            by_cases hmi : m = i
            · subst hmi
              rw [List.getElem?_set_self hi] at hu'
              cases hu'
              exact hover ⟨hm, hid'.symm, e', he'⟩
            · rw [List.getElem?_set_ne (Ne.symm hmi)] at hu'
              have hmj := index_eq hdistinct hu hu' hid'
              omega

end Fates

/-- Where the pull goes after a page. -/
inductive Next
  | finished
  | ask (id : EntryId)
  | stuck
  deriving DecidableEq

/-- A short page is the last one; after a full one the pull asks for what
follows its last item, unless it asked for that already. -/
def next (after : Option EntryId) (page : List Wire.Entry) : Next :=
  if page.length < pageSize then .finished
  else
    match page.getLast?.map Wire.Entry.id with
    | some id => if some id ≠ after then .ask id else .stuck
    | none => .stuck

/-- A full page leads nowhere exactly if it ends where the pull already was. -/
theorem next_eq_stuck_iff {after : Option EntryId} {page : List Wire.Entry}
    (hpage : page ≠ []) :
    next after page = .stuck ↔
      pageSize ≤ page.length ∧ page.getLast?.map Wire.Entry.id = after := by
  unfold next
  by_cases hshort : page.length < pageSize
  · simp [hshort, Nat.not_le.2 hshort]
  · rw [if_neg hshort]
    cases hlast : page.getLast? with
    | none => exact absurd (List.getLast?_eq_none_iff.1 hlast) hpage
    | some u =>
        simp only [Option.map_some, Nat.not_lt.1 hshort, true_and]
        by_cases hid : some u.id = after
        · simp only [hid, ne_eq, not_true_eq_false, if_false]
        · simp [hid]

/-- Where a page leads depends on no item but its last. -/
theorem getLast?_set {page : List Wire.Entry} {i : ℕ} (hi : i < page.length) (w : Wire.Entry) :
    (page.set i w).getLast? = if i + 1 = page.length then some w else page.getLast? := by
  rw [List.getLast?_eq_getElem?, List.length_set]
  split
  · next hlast =>
      have hindex : page.length - 1 = i := by omega
      rw [hindex, List.getElem?_set_self hi]
  · next hlast =>
      rw [List.getElem?_set_ne (by omega), List.getLast?_eq_getElem?]

section Runs

variable [UrlLibrary] [Endpoints] {σ : Type} {O : Outside σ} {client : MinifluxClient}

/-- The rest of a pass. -/
def continueWith (client : MinifluxClient) (cursor : Option ℤ) (generation : ℤ) (budget : ℕ)
    (serverNow : Option ℤ) (outcome : PullOutcome) :
    Next → Action (PullOutcome × Option ℤ × Bool)
  | .finished => pure (outcome, serverNow, true)
  | .ask id => entriesPages client cursor generation budget (some id) serverNow outcome
  | .stuck => pure (outcome, serverNow, false)

/-- A page that decodes is written, and the pass goes where it leads. -/
theorem reaches_continueWith {cursor : Option ℤ} {generation : ℤ} (budget : ℕ)
    {after : Option EntryId} (serverNow : Option ℤ) (outcome : PullOutcome) {w : World σ}
    {response : BoundedResponse Wire.EntriesResponse} {page : List Wire.Entry} {o : σ}
    (hsend : O.send client.transport (.entries (pageQuery cursor after)) w.outside
      (.ok response) o)
    (hstatus : 200 ≤ response.status ∧ response.status < 300)
    (hbody : response.body = .ok ⟨page⟩) :
    ∃ serverNow' outcome', O.setting.Reaches
      ((entriesPages client cursor generation (budget + 1) after serverNow outcome).run, w)
      ((continueWith client cursor generation budget serverNow' outcome' (next after page)).run,
        O.commitTo (answerTx ⟨page⟩ cursor generation) (w.setOutside o)) := by
  have hread : O.setting.Reaches ((client.entries (pageQuery cursor after)).run, w)
      (.done (.ok (⟨page⟩, response.serverDate)), w.setOutside o) := by
    refine .call (Outside.act_send_of hsend) ?_
    have hdecode : @MinifluxClient.decode Wire.EntriesResponse response
        (Endpoints.endpoint client.transport (.entries (pageQuery cursor after))) =
        .ok ⟨page⟩ := by
      simp only [MinifluxClient.decode, MinifluxClient.checkStatus, hstatus, and_self, if_true,
        hbody]
      rfl
    have hrest : O.setting.Reaches ((Action.ofResult
        (@MinifluxClient.decode Wire.EntriesResponse response
          (Endpoints.endpoint client.transport (.entries (pageQuery cursor after)))) >>=
        fun body => (pure (body, response.serverDate) : Action _)).run, w.setOutside o)
        (.done (.ok (⟨page⟩, response.serverDate)), w.setOutside o) := by
      rw [hdecode]
      exact .refl
    exact hrest
  let decoded := Convert.entries page
  refine ⟨serverNow.or (response.serverDate.map DateTime.timestamp),
    { outcome with
      pages := outcome.pages + 1
      rejected := outcome.rejected + decoded.rejected.length
      upserted := outcome.upserted + decoded.valid.length
      removed := outcome.removed + decoded.removed.length }, ?_⟩
  refine (hread.bind_ok _).trans ?_
  refine ((Outside.reaches_withTx _ _).bind_ok _).trans ?_
  unfold next
  by_cases hshort : page.length < pageSize
  · simp only [hshort, if_true]
    exact .refl
  · simp only [hshort, if_false]
    cases hlast : page.getLast?.map Wire.Entry.id with
    | none => exact .refl
    | some id =>
        by_cases hid : some id ≠ after
        · simp only [hid, if_true, ne_eq, not_false_eq_true]
          exact .refl
        · simp only [hid, if_false]
          exact .refl

end Runs

/-! ## Isolation -/

section Isolation

variable [UrlLibrary] [Endpoints] [Wire.Timestamps]

/-- A body with item `i` of a page replaced: it decodes, every other item fares
as before and is written, and the pull goes on if it would have. -/
def Isolates (page : List Wire.Entry) (i : ℕ) (after : Option EntryId) (body : Json) : Prop :=
  ∃ page', Wire.EntriesResponse.decode body = some ⟨page'⟩ ∧
    (∀ j u, j ≠ i → page[j]? = some u → page'[j]? = some u ∧ fate page' u = fate page u) ∧
    (∀ cursor generation j u s, j ≠ i → page[j]? = some u →
      (fate page u).statement cursor generation = some s →
        lastWrite u.id (answerTx ⟨page'⟩ cursor generation) = some s) ∧
    (next after page ≠ .stuck → next after page' ≠ .stuck) ∧
    ∀ (σ : Type) (O : Outside σ) (client : MinifluxClient) (cursor : Option ℤ) (generation : ℤ)
      (budget : ℕ) (serverNow : Option ℤ) (outcome : PullOutcome) (w : World σ)
      (response : BoundedResponse Wire.EntriesResponse) (o : σ),
      O.send client.transport (.entries (pageQuery cursor after)) w.outside (.ok response) o →
      200 ≤ response.status ∧ response.status < 300 →
      response.body.toOption = Wire.EntriesResponse.decode body →
      ∃ serverNow' outcome', O.setting.Reaches
        ((entriesPages client cursor generation (budget + 1) after serverNow outcome).run, w)
        ((continueWith client cursor generation budget serverNow' outcome'
          (next after page')).run,
          O.commitTo (answerTx ⟨page'⟩ cursor generation) (w.setOutside o))

/-- One malformed item costs nothing else exactly if it decodes, neither deletes
another item of the page nor overwrites one, and does not end a full page where
the page before it ended. -/
theorem page_isolated_iff {before behind : List (Option String × Json)} {items : List Json}
    {page : List Wire.Entry}
    (hpage : Wire.EntriesResponse.decode (pageBody before behind items) = some ⟨page⟩)
    (hdistinct : (page.map Wire.Entry.id).Nodup) {i : ℕ} (hi : i < page.length) (v : Json)
    (after : Option EntryId) :
    Isolates page i after (pageBody before behind (items.set i v)) ↔
      ∃ w, Wire.Entry.decode v = some w ∧
        (w.status = "removed" → ∀ j u, j ≠ i → page[j]? = some u → u.id = w.id →
          u.status = "removed") ∧
        Yields page i w ∧
        (pageSize ≤ page.length → i + 1 = page.length →
          page.getLast?.map Wire.Entry.id ≠ after → some w.id ≠ after) := by
  have hne : page ≠ [] := List.ne_nil_of_length_pos (Nat.zero_lt_of_lt hi)
  have hne' (w : Wire.Entry) : page.set i w ≠ [] := by simpa using hne
  have hnext (w : Wire.Entry) : (next after page ≠ .stuck → next after (page.set i w) ≠ .stuck) ↔
      (pageSize ≤ page.length → i + 1 = page.length →
        page.getLast?.map Wire.Entry.id ≠ after → some w.id ≠ after) := by
    rw [ne_eq, ne_eq, next_eq_stuck_iff hne, next_eq_stuck_iff (hne' w), List.length_set,
      getLast?_set hi]
    by_cases hlast : i + 1 = page.length
    · simp only [hlast, if_true, Option.map_some]
      tauto
    · simp only [hlast, if_false]
      tauto
  constructor
  · rintro ⟨page', hdecode, hothers, hwrites, hgoes, -⟩
    rw [decode_set hpage hi, Option.map_eq_some_iff] at hdecode
    obtain ⟨w, hw, heq⟩ := hdecode
    cases heq
    have hfate := fun j u hj hu => (hothers j u hj hu).2
    refine ⟨w, hw, fun hstatus j u hj hu hid => ?_,
      (lastWrite_set_iff hdistinct hi hfate).1 hwrites, (hnext w).1 hgoes⟩
    exact (fate_set_iff hdistinct hi w hj hu).1 (hfate j u hj hu) hstatus hid
  · rintro ⟨w, hw, hremoved, hyields, hgoes⟩
    have hdecode : Wire.EntriesResponse.decode (pageBody before behind (items.set i v)) =
        some ⟨page.set i w⟩ := by
      rw [decode_set hpage hi, hw]
      rfl
    have hothers : ∀ j u, j ≠ i → page[j]? = some u →
        (page.set i w)[j]? = some u ∧ fate (page.set i w) u = fate page u := by
      intro j u hj hu
      have hsame : (page.set i w)[j]? = some u := by
        rw [List.getElem?_set_ne hj.symm, hu]
      exact ⟨hsame, (fate_set_iff hdistinct hi w hj hu).2 fun hstatus =>
        hremoved hstatus j u hj hu⟩
    refine ⟨page.set i w, hdecode, hothers, ?_, (hnext w).2 hgoes, ?_⟩
    · exact (lastWrite_set_iff hdistinct hi fun j u hj hu => (hothers j u hj hu).2).2 hyields
    · intro σ O client cursor generation budget serverNow outcome w₀ response o hsend hstatus
        hbody
      have hok : response.body = .ok ⟨page.set i w⟩ := by
        rw [hdecode] at hbody
        cases hresult : response.body with
        | error e =>
            rw [hresult] at hbody
            cases hbody
        | ok page' =>
            rw [hresult] at hbody
            cases hbody
            rfl
      exact reaches_continueWith budget serverNow outcome hsend hstatus hok

end Isolation

section Pages

open scoped Reader

/-- No timestamp is ever read. -/
abbrev noTimes : Wire.Timestamps :=
  ⟨fun _ => none⟩

namespace Untimed

scoped instance : Wire.Timestamps := noTimes

end Untimed

open scoped Untimed

/-- An unread entry of feed 1, as it stands in a body. -/
def itemBody (id : ℤ) : Json :=
  .obj [(some "id", .num (some id)), (some "feed_id", .num (some 1)),
    (some "status", .str (some "unread"))]

/-- An item without a title. -/
def untitledBody (id : ℤ) : Json :=
  .obj [(some "id", .num (some id)), (some "feed_id", .num (some 1)),
    (some "status", .str (some "unread")), (some "title", .null)]

/-- An item whose status nobody knows costs itself only. -/
theorem page_isolated_unknownStatus :
    Isolates [wireEntry 7, wireEntry 8] 0 none (pageBody [(some "total", .num (some 2))] []
      ([itemBody 7, itemBody 8].set 0
        (.obj [(some "id", .num (some 7)), (some "status", .str (some "archived"))]))) := by
  refine (@page_isolated_iff _ _ _ _ _ [itemBody 7, itemBody 8] [wireEntry 7, wireEntry 8] rfl
    (by decide) 0 (by decide) _ none).2 ⟨_, rfl, ?_, ?_, ?_⟩
  · have hother : "archived" ≠ "removed" := by decide
    exact fun hstatus => absurd hstatus hother
  · intro j u e e' hj
    exact absurd hj (Nat.not_lt_zero j)
  · intro hfull
    exact absurd hfull (by decide)

/-- An item with `null` for its title costs the page. -/
theorem untitled_costs_page :
    Wire.EntriesResponse.decode (pageBody [] [] [itemBody 7, itemBody 8]) =
        some ⟨[wireEntry 7, wireEntry 8]⟩ ∧
      ¬Isolates [wireEntry 7, wireEntry 8] 1 none
        (pageBody [] [] ([itemBody 7, itemBody 8].set 1 (untitledBody 8))) := by
  refine ⟨rfl, ?_⟩
  rintro ⟨page', hdecode, -⟩
  have hnone : Wire.EntriesResponse.decode
      (pageBody [] [] ([itemBody 7, itemBody 8].set 1 (untitledBody 8))) = none := rfl
  rw [hnone] at hdecode
  cases hdecode

end Pages

end Pull

end Vuo
