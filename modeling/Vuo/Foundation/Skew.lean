import Mathlib.Data.List.Nodup
import Mathlib.Data.List.Pairwise
import Vuo.Foundation.Serde

/-!
# One record in several spellings

What an object decodes to is settled by the values it gives the names of the
fields. Their order, the members no field is named after, and whether a field
left at its default is spelled out or omitted make no difference, at any depth.
-/

namespace Vuo.Foundation.Decoder

variable {α β ρ : Type}

/-! ## The values of a field -/

/-- The values an object gives a key. -/
def valuesOf (key : String) (members : List (Option String × Json)) : List Json :=
  (members.filter fun m => m.1 = some key).map Prod.snd

@[simp]
theorem valuesOf_nil (key : String) : valuesOf key [] = [] :=
  rfl

theorem valuesOf_cons_self (key : String) (j : Json) (members : List (Option String × Json)) :
    valuesOf key ((some key, j) :: members) = j :: valuesOf key members := by
  simp [valuesOf]

theorem valuesOf_cons_ne {key other : String} (h : other ≠ key) (j : Json)
    (members : List (Option String × Json)) :
    valuesOf key ((some other, j) :: members) = valuesOf key members := by
  simp [valuesOf, h]

/-- Every key is a text. -/
def Keyed (members : List (Option String × Json)) : Prop :=
  ∀ m ∈ members, m.1 ≠ none

namespace Field

/-- The change the values of a field make together. -/
def change (f : Field ρ) : List Json → Option (ρ → ρ)
  | [] => some id
  | [j] => f.read j
  | _ :: _ :: _ => none

/-- The changes of two fields can be made in either order. -/
def Commute (e f : Field ρ) : Prop :=
  ∀ j g k h, e.read j = some g → f.read k = some h → h ∘ g = g ∘ h

instance : Std.Symm (Commute : Field ρ → Field ρ → Prop) where
  symm _ _ h := fun j g k g' hg hg' => (h k g' j g hg' hg).symm

/-- Changes to two places of a record. -/
theorem commute_of {m n : String} {c : Decoder α} {d : Decoder β} {put : α → ρ → ρ}
    {put' : β → ρ → ρ} (h : ∀ x y r, put' y (put x r) = put x (put' y r)) :
    Commute (of m c put) (of n d put') := by
  intro j g k g' hg hg'
  simp only [of, Option.map_eq_some_iff] at hg hg'
  obtain ⟨x, -, rfl⟩ := hg
  obtain ⟨y, -, rfl⟩ := hg'
  exact funext (h x y)

theorem commute_skip {f : Field ρ} {n : String} {d : Decoder α} : Commute (skip n d) f := by
  intro j g k g' hg hg'
  simp only [skip, Option.map_eq_some_iff] at hg
  obtain ⟨-, -, rfl⟩ := hg
  rfl

theorem commute_of_skip {f : Field ρ} {n : String} {d : Decoder α} : Commute f (skip n d) :=
  symm commute_skip

theorem eq_id_or_read_of_change {f : Field ρ} {vs : List Json} {g : ρ → ρ} (h : f.change vs = some g) :
    g = id ∨ ∃ j, f.read j = some g := by
  rcases vs with _ | ⟨j, _ | ⟨k, vs⟩⟩
  · cases h
    exact .inl rfl
  · exact .inr ⟨j, h⟩
  · cases h

end Field

/-! ## The changes of all fields -/

/-- Changes made in the order of the fields, if every one is there. -/
def changes (c : Field ρ → Option (ρ → ρ)) : List (Field ρ) → Option (ρ → ρ)
  | [] => some id
  | f :: fields => (c f).bind fun g => (changes c fields).map fun h => h ∘ g

theorem changes_congr {c d : Field ρ → Option (ρ → ρ)} {fields : List (Field ρ)}
    (h : ∀ f ∈ fields, c f = d f) : changes c fields = changes d fields := by
  induction fields with
  | nil => rfl
  | cons f fields ih =>
      rw [changes, changes, h f List.mem_cons_self,
        ih fun e he => h e (List.mem_cons_of_mem f he)]

theorem changes_id {c : Field ρ → Option (ρ → ρ)} {fields : List (Field ρ)}
    (h : ∀ f ∈ fields, c f = some id) : changes c fields = some id := by
  induction fields with
  | nil => rfl
  | cons f fields ih =>
      rw [changes, h f List.mem_cons_self, ih fun e he => h e (List.mem_cons_of_mem f he)]
      rfl

theorem changes_none {c : Field ρ → Option (ρ → ρ)} {fields : List (Field ρ)} {f : Field ρ}
    (hf : f ∈ fields) (h : c f = none) : changes c fields = none := by
  induction fields with
  | nil => cases hf
  | cons e fields ih =>
      rw [changes]
      rcases List.mem_cons.1 hf with rfl | hf
      · rw [h]
        rfl
      · rw [ih hf]
        cases c e <;> rfl

/-- The change of one field can be made before those of the others. -/
theorem changes_first {c d : Field ρ → Option (ρ → ρ)} {fields : List (Field ρ)} {f : Field ρ}
    {first : Option (ρ → ρ)} (hf : f ∈ fields)
    (hc : c f = first.bind fun g => (d f).map fun h => h ∘ g)
    (hsame : ∀ e ∈ fields, e ≠ f → c e = d e) (hnodup : fields.Nodup)
    (hcommute : ∀ e ∈ fields, e ≠ f → ∀ g h, first = some g → d e = some h →
      h ∘ g = g ∘ h) :
    (first.bind fun g => (changes d fields).map fun h => h ∘ g) = changes c fields := by
  induction fields with
  | nil => cases hf
  | cons e fields ih =>
      obtain ⟨hnew, hnodup⟩ := List.nodup_cons.1 hnodup
      rw [changes, changes]
      by_cases hef : e = f
      · subst hef
        have hrest : changes c fields = changes d fields :=
          changes_congr fun e' he' =>
            hsame e' (List.mem_cons_of_mem e he') fun h => hnew (h ▸ he')
        rw [hrest, hc]
        cases first <;> cases d e <;> cases changes d fields <;> rfl
      · have hmem : f ∈ fields := (List.mem_cons.1 hf).resolve_left (Ne.symm hef)
        rw [hsame e List.mem_cons_self hef,
          ← ih hmem (fun e' he' => hsame e' (List.mem_cons_of_mem e he')) hnodup
            fun e' he' => hcommute e' (List.mem_cons_of_mem e he')]
        have hswap := hcommute e List.mem_cons_self hef
        cases first with
        | none => cases d e <;> rfl
        | some g =>
            cases hd : d e with
            | none => rfl
            | some k =>
                cases changes d fields with
                | none => rfl
                | some h => exact congrArg some (congrArg (h ∘ ·) (hswap g k rfl hd))

/-! ## Objects -/

/-- Fields a record can be read by: no two of one name, and none in another's
way. -/
structure Apart (fields : List (Field ρ)) : Prop where
  names : (fields.map Field.name).Nodup
  commute : fields.Pairwise Field.Commute

namespace Apart

variable {fields : List (Field ρ)}

theorem nodup (h : Apart fields) : fields.Nodup :=
  h.names.of_map _

theorem eq_of_name (h : Apart fields) {e f : Field ρ} (he : e ∈ fields) (hf : f ∈ fields)
    (hname : e.name = f.name) : e = f :=
  List.inj_on_of_nodup_map h.names he hf hname

theorem commute_of_ne (h : Apart fields) {e f : Field ρ} (he : e ∈ fields) (hf : f ∈ fields)
    (hne : e ≠ f) : Field.Commute e f :=
  h.commute.forall he hf hne

end Apart

/-- The change a field is given by the members of an object, if it has been seen
in others before them. -/
def given (seen : List String) (members : List (Option String × Json)) (f : Field ρ) :
    Option (ρ → ρ) :=
  if f.name ∈ seen ∧ valuesOf f.name members ≠ [] then none
  else f.change (valuesOf f.name members)

theorem given_nil (seen : List String) (f : Field ρ) : given seen [] f = some id := by
  simp [given, Field.change]

theorem given_cons_ne {seen : List String} {members : List (Option String × Json)} {f : Field ρ}
    {key : String} (h : key ≠ f.name) (j : Json) :
    given seen ((some key, j) :: members) f = given seen members f := by
  simp only [given, valuesOf_cons_ne h]

theorem given_seen_ne {seen : List String} {members : List (Option String × Json)} {f : Field ρ}
    {key : String} (h : key ≠ f.name) :
    given (key :: seen) members f = given seen members f := by
  simp only [given, List.mem_cons, h.symm, false_or]

theorem eq_id_or_read_of_given {seen : List String} {members : List (Option String × Json)}
    {f : Field ρ} {g : ρ → ρ} (h : given seen members f = some g) :
    g = id ∨ ∃ j, f.read j = some g := by
  unfold given at h
  split at h
  · cases h
  · exact Field.eq_id_or_read_of_change h

/-- A field not seen before, given a value. -/
theorem given_cons_self {seen : List String} {members : List (Option String × Json)} {f : Field ρ}
    (hseen : f.name ∉ seen) (j : Json) :
    given seen ((some f.name, j) :: members) f =
      (f.read j).bind fun g => (given (f.name :: seen) members f).map fun h => h ∘ g := by
  simp only [given, valuesOf_cons_self, hseen, false_and, if_false, List.mem_cons_self, true_and]
  rcases valuesOf f.name members with _ | ⟨k, vs⟩
  · cases h : f.read j <;> simp [Field.change, h]
  · cases h : f.read j <;> simp [Field.change]

/-- An object decodes field by field: each field by the values it is given. -/
theorem ofMembers_eq {fields : List (Field ρ)} (h : Apart fields)
    {members : List (Option String × Json)} (hkeyed : Keyed members) (seen : List String) :
    ofMembers fields members seen = changes (given seen members) fields := by
  induction members generalizing seen with
  | nil => exact (changes_id fun f _ => given_nil seen f).symm
  | cons member members ih =>
      obtain ⟨_ | key, j⟩ := member
      · exact absurd rfl (hkeyed _ List.mem_cons_self)
      have ih := ih fun m hm => hkeyed m (List.mem_cons_of_mem _ hm)
      cases hnamed : named fields key with
      | none =>
          have hother : ∀ f ∈ fields, key ≠ f.name := fun f hf heq =>
            List.find?_eq_none.1 hnamed f hf (by simp [heq])
          simp only [ofMembers, hnamed, ih seen]
          exact changes_congr fun f hf => (given_cons_ne (hother f hf) j).symm
      | some f =>
          have hf : f ∈ fields := List.mem_of_find?_eq_some hnamed
          have hkey : f.name = key := by simpa using List.find?_some hnamed
          subst hkey
          have hne : ∀ e ∈ fields, e ≠ f → f.name ≠ e.name := fun e he hef heq =>
            hef (h.eq_of_name he hf heq.symm)
          by_cases hseen : f.name ∈ seen
          · have hnone : given seen ((some f.name, j) :: members) f = none := by
              simp [given, valuesOf_cons_self, hseen]
            simp only [ofMembers, hnamed, hseen, if_true]
            exact (changes_none hf hnone).symm
          · have hrest : ∀ e ∈ fields, e ≠ f →
                given seen ((some f.name, j) :: members) e = given (f.name :: seen) members e :=
              fun e he hef => by rw [given_cons_ne (hne e he hef), given_seen_ne (hne e he hef)]
            simp only [ofMembers, hnamed, hseen, if_false, ih (f.name :: seen)]
            exact (changes_first hf (given_cons_self hseen j) hrest h.nodup
              fun e he hef g k hg hk => (eq_id_or_read_of_given hk).elim
                (fun hid => hid ▸ rfl)
                fun hread => hread.elim fun j' hj' =>
                  h.commute_of_ne hf he hef.symm j g j' k hg hj')

/-- The record of an object, field by field. -/
theorem record_obj {fields : List (Field ρ)} (h : Apart fields) (default : ρ)
    {members : List (Option String × Json)} (hkeyed : Keyed members) :
    record fields default (.obj members) =
      (changes (fun f => f.change (valuesOf f.name members)) fields).map fun g => g default := by
  have hgiven : given [] members = fun f : Field ρ => f.change (valuesOf f.name members) :=
    funext fun f => by simp [given]
  rw [record, ofMembers_eq h hkeyed, hgiven]

/-! ## Spellings -/

/-- What may be written for one member of an object: its name, the values that
mean as much as none, and the pairs of values that mean the same. -/
structure Slot where
  name : String
  absent : Json → Prop
  alike : Json → Json → Prop

namespace Slot

/-- A member that is omitted, or spelled out as absent. -/
inductive Unset (s : Slot) : List Json → Prop
  | omitted : Unset s []
  | spelled {j : Json} (h : s.absent j) : Unset s [j]

/-- Two objects say the same of a member. -/
inductive Same (s : Slot) : List Json → List Json → Prop
  | unset {vs vs' : List Json} (h : s.Unset vs) (h' : s.Unset vs') : Same s vs vs'
  | given {j j' : Json} (h : s.alike j j') : Same s [j] [j']

/-- A value that is written in one way, or omitted for `zero`. -/
def scalar (name : String) (zero : Json) : Slot where
  name := name
  absent j := j = zero
  alike j j' := j = j'

/-- A value that may be `null`. -/
def orNull (name : String) (alike : Json → Json → Prop) : Slot where
  name := name
  absent j := j = .null
  alike j j' := j ≠ .null ∧ j' ≠ .null ∧ alike j j'

/-- A value that may be `null` for one of its `zeros`. -/
def orZero (name : String) (zeros : Json → Prop) (alike : Json → Json → Prop) : Slot where
  name := name
  absent j := j = .null ∨ zeros j
  alike j j' := j ≠ .null ∧ j' ≠ .null ∧ alike j j'

end Slot

/-- Two spellings of a list, item by item. -/
inductive ListAlike (alike : Json → Json → Prop) : Json → Json → Prop
  | refl (j : Json) : ListAlike alike j j
  | items {items items' : List Json} (h : List.Forall₂ alike items items') :
      ListAlike alike (.arr items) (.arr items')

/-- Two spellings of a record: the members in whatever order, and among
whatever others. -/
inductive RecordAlike (slots : List Slot) : Json → Json → Prop
  | refl (j : Json) : RecordAlike slots j j
  | members {members members' : List (Option String × Json)} (h : Keyed members)
      (h' : Keyed members')
      (hsame : ∀ s ∈ slots, s.Same (valuesOf s.name members) (valuesOf s.name members')) :
      RecordAlike slots (.obj members) (.obj members')

/-! ## Reading past the spelling -/

theorem nullable_of_ne_null {d : Decoder α} {j : Json} (h : j ≠ .null) :
    nullable d j = (d j).map some := by
  cases j <;> first | rfl | exact absurd rfl h

/-- A decoder for which two spellings are one value. -/
def Blind (d : Decoder α) (alike : Json → Json → Prop) : Prop :=
  ∀ j j', alike j j' → d j = d j'

theorem Blind.list {d : Decoder α} {alike : Json → Json → Prop} (h : Blind d alike) :
    Blind (list d) (ListAlike alike) := by
  rintro _ _ (_ | hitems)
  · rfl
  · simp only [Decoder.list]
    induction hitems with
    | nil => rfl
    | cons hj _ ih => rw [all, all, h _ _ hj, ih]

theorem blind_eq (d : Decoder α) : Blind d (· = ·) :=
  fun _ _ h => congrArg d h

theorem Blind.map {d : Decoder α} {alike : Json → Json → Prop} (h : Blind d alike) (f : α → β) :
    Blind (fun j => (d j).map f) alike :=
  fun j j' hj => congrArg (Option.map f) (h j j' hj)

/-- Between two values that are not `null`. -/
theorem Blind.nullable {d : Decoder α} {alike : Json → Json → Prop} (h : Blind d alike) :
    Blind (nullable d) fun j j' => j ≠ .null ∧ j' ≠ .null ∧ alike j j' := by
  rintro j j' ⟨hj, hj', halike⟩
  rw [nullable_of_ne_null hj, nullable_of_ne_null hj', h j j' halike]

theorem Blind.orDefault {d : Decoder α} {alike : Json → Json → Prop} (h : Blind d alike)
    (default : α) :
    Blind (orDefault default d) fun j j' => j ≠ .null ∧ j' ≠ .null ∧ alike j j' :=
  h.nullable.map _

/-- A field that reads past the spelling of its member: a value that means as
much as none leaves the default alone. -/
structure Field.Reads (default : ρ) (f : Field ρ) (s : Slot) : Prop where
  name : f.name = s.name
  absent : ∀ j, s.absent j → ∃ g, f.read j = some g ∧ g default = default
  alike : Blind f.read s.alike

namespace Field

variable {default : ρ} {n : String}

/-- The change an unset member makes to the default: none. -/
theorem Reads.unset {f : Field ρ} {s : Slot} (h : Reads default f s) {vs : List Json}
    (hvs : s.Unset vs) : ∃ g, f.change vs = some g ∧ g default = default := by
  cases hvs with
  | omitted => exact ⟨id, rfl, rfl⟩
  | spelled hj => exact h.absent _ hj

/-- The changes two objects make that say the same of a member. -/
theorem Reads.same {f : Field ρ} {s : Slot} (h : Reads default f s) {vs vs' : List Json}
    (hsame : s.Same vs vs') :
    f.change vs = f.change vs' ∨
      ∃ g k, f.change vs = some g ∧ f.change vs' = some k ∧ g default = default ∧
        k default = default := by
  cases hsame with
  | unset hvs hvs' =>
      obtain ⟨g, hg, hgr⟩ := h.unset hvs
      obtain ⟨k, hk, hkr⟩ := h.unset hvs'
      exact .inr ⟨g, k, hg, hk, hgr, hkr⟩
  | given hj => exact .inl (h.alike _ _ hj)

theorem reads_of {d : Decoder α} {put : α → ρ → ρ} {s : Slot} {zero : α} (hname : n = s.name)
    (habsent : ∀ j, s.absent j → d j = some zero) (hput : put zero default = default)
    (halike : Blind d s.alike) : Reads default (of n d put) s where
  name := hname
  absent j hj := ⟨put zero, by simp [of, habsent j hj], hput⟩
  alike j j' h := by simp [of, halike j j' h]

theorem reads_skip {d : Decoder α} {s : Slot} (hname : n = s.name)
    (habsent : ∀ j, s.absent j → (d j).isSome) (halike : Blind d s.alike) :
    Reads default (skip n d) s where
  name := hname
  absent j hj := ⟨id, by
    obtain ⟨a, ha⟩ := Option.isSome_iff_exists.1 (habsent j hj)
    simp [skip, ha], rfl⟩
  alike j j' h := by simp [skip, halike j j' h]

end Field

/-- Changes that agree where something is given, and otherwise leave the record
alone, lead to the same record. -/
theorem map_changes_eq {c d : Field ρ → Option (ρ → ρ)} {fields : List (Field ρ)} (r : ρ)
    (hcommute : fields.Pairwise fun e f => ∀ g h, c e = some g → (c f = some h ∨ d f = some h) →
      h ∘ g = g ∘ h)
    (h : ∀ f ∈ fields, c f = d f ∨
      ∃ g h, c f = some g ∧ d f = some h ∧ g r = r ∧ h r = r) :
    (changes c fields).map (fun g => g r) = (changes d fields).map fun g => g r := by
  induction fields generalizing r with
  | nil => rfl
  | cons f fields ih =>
      obtain ⟨hf, hcommute⟩ := List.pairwise_cons.1 hcommute
      have hrest := List.forall_mem_of_forall_mem_cons h
      rw [changes, changes]
      rcases h f List.mem_cons_self with hsame | ⟨g, k, hg, hk, hgr, hkr⟩
      · rw [← hsame]
        cases hc : c f with
        | none => rfl
        | some g =>
            -- What leaves `r` alone leaves `g r` alone.
            have hih := ih (g r) hcommute fun e he => (hrest e he).imp_right
              fun ⟨k, k', hk, hk', hkr, hkr'⟩ => ⟨k, k', hk, hk',
                (congrFun (hf e he g k hc (.inl hk)) r).trans (congrArg g hkr),
                (congrFun (hf e he g k' hc (.inr hk')) r).trans (congrArg g hkr')⟩
            simpa [Function.comp_def] using hih
      · have hih := ih r hcommute hrest
        simpa [hg, hk, Function.comp_def, hgr, hkr] using hih

/-- Two spellings of a record are read as one. -/
theorem Blind.record {fields : List (Field ρ)} {slots : List Slot} {default : ρ}
    (happart : Apart fields) (h : List.Forall₂ (Field.Reads default) fields slots) :
    Blind (record fields default) (RecordAlike slots) := by
  rintro _ _ (_ | ⟨hkeyed, hkeyed', hsame⟩)
  · rfl
  · rw [record_obj happart default hkeyed, record_obj happart default hkeyed']
    refine map_changes_eq default (happart.commute.imp ?_) fun f hf => ?_
    · intro e f hef g k hg hk
      rcases Field.eq_id_or_read_of_change hg with rfl | ⟨j, hj⟩
      · rfl
      · rcases hk.elim Field.eq_id_or_read_of_change Field.eq_id_or_read_of_change with
          rfl | ⟨j', hj'⟩
        · rfl
        · exact hef j g j' k hj hj'
    · obtain ⟨s, hs, hreads⟩ : ∃ s ∈ slots, Field.Reads default f s := by
        obtain ⟨i, hi, rfl⟩ := List.getElem_of_mem hf
        have hi' : i < slots.length := h.length_eq ▸ hi
        exact ⟨slots[i], List.getElem_mem hi', List.forall₂_iff_get.1 h |>.2 i hi hi'⟩
      rw [hreads.name]
      exact hreads.same (hsame s hs)

end Vuo.Foundation.Decoder
