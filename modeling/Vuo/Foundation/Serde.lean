import Mathlib.Data.Int.Notation
import Mathlib.Tactic.Common

/-!
# Typed decoding of JSON values

Decoders for the scalar types, for lists and for records. A record is decoded
field by field: each member an object names, or each element of an array in the
order of the fields, is decoded and written into a default record. Members no
field is named after are passed over; a field named twice is an error.
-/

namespace Vuo.Foundation

/-- A JSON value. A number is known by the integer it is a literal of, if it
has neither fraction nor exponent; a string by its text, if its escapes are
characters. -/
inductive Json
  | null
  | bool (b : Bool)
  | num (n : Option ℤ)
  | str (s : Option String)
  | arr (items : List Json)
  | obj (members : List (Option String × Json))

/-- What a value decodes to, if it does. -/
abbrev Decoder (α : Type) :=
  Json → Option α

namespace Decoder

variable {α β : Type}

/-! ## Values -/

/-- The integers from `lo` to `hi`. -/
def int (lo hi : ℤ) : Decoder ℤ
  | .num (some n) => if lo ≤ n ∧ n ≤ hi then some n else none
  | _ => none

def bool : Decoder Bool
  | .bool b => some b
  | _ => none

def text : Decoder String
  | .str s => s
  | _ => none

/-- A value read off a text. -/
def parsed (parse : String → Option α) : Decoder α := fun j =>
  (text j).bind parse

/-- `null` for nothing. -/
def nullable (d : Decoder α) : Decoder (Option α)
  | .null => some none
  | j => (d j).map some

/-- `null` for the default. -/
def orDefault (default : α) (d : Decoder α) : Decoder α := fun j =>
  (nullable d j).map fun a => a.getD default

/-- Every value of a list, in order. -/
def all (d : Decoder α) : List Json → Option (List α)
  | [] => some []
  | j :: js => (d j).bind fun a => (all d js).map (a :: ·)

def list (d : Decoder α) : Decoder (List α)
  | .arr items => all d items
  | _ => none

/-- The pairs of a map, with those of an object added: a key given again is
given its last value. -/
def mapFrom (d : Decoder α) : List (Option String × Json) → List (String × α) →
    Option (List (String × α))
  | [], pairs => some pairs
  | (none, _) :: _, _ => none
  | (some key, j) :: members, pairs =>
      (d j).bind fun a => mapFrom d members (pairs.filter (fun p => p.1 ≠ key) ++ [(key, a)])

def map (d : Decoder α) : Decoder (List (String × α))
  | .obj members => mapFrom d members []
  | _ => none

theorem length_of_all {d : Decoder α} {items : List Json} {as : List α}
    (h : all d items = some as) : as.length = items.length := by
  induction items generalizing as with
  | nil =>
      cases h
      rfl
  | cons j js ih =>
      simp only [all, Option.bind_eq_some_iff, Option.map_eq_some_iff] at h
      obtain ⟨a, -, as, has, rfl⟩ := h
      simp [ih has]

/-- One value of a list replaced. -/
theorem all_set {d : Decoder α} {items : List Json} {as : List α}
    (h : all d items = some as) (i : ℕ) (j : Json) (hi : i < items.length) :
    all d (items.set i j) = (d j).map fun a => as.set i a := by
  induction items generalizing as i with
  | nil => simp at hi
  | cons k ks ih =>
      simp only [all, Option.bind_eq_some_iff, Option.map_eq_some_iff] at h
      obtain ⟨a, ha, as, has, rfl⟩ := h
      cases i with
      | zero =>
          simp only [List.set_cons_zero, all, has]
          cases d j <;> rfl
      | succ i =>
          simp only [List.set_cons_succ, all, ha,
            ih has i (Nat.lt_of_succ_lt_succ hi), Option.bind_some, Option.map_map]
          cases d j <;> rfl

/-! ## Records -/

/-- A field of a record: its name, and the change a value makes to the record
if it decodes. -/
structure Field (ρ : Type) where
  name : String
  read : Json → Option (ρ → ρ)

namespace Field

variable {ρ : Type}

/-- A field that is kept. -/
def of (name : String) (d : Decoder α) (put : α → ρ → ρ) : Field ρ where
  name := name
  read j := (d j).map put

/-- A field that has to decode and is not kept. -/
def skip (name : String) (d : Decoder α) : Field ρ where
  name := name
  read j := (d j).map fun _ => id

end Field

variable {ρ : Type}

/-- The field a key names. -/
def named (fields : List (Field ρ)) (key : String) : Option (Field ρ) :=
  fields.find? fun f => f.name = key

/-- The change the members of an object make, those of the keys `seen` having
been made. -/
def ofMembers (fields : List (Field ρ)) :
    List (Option String × Json) → List String → Option (ρ → ρ)
  | [], _ => some id
  | (none, _) :: _, _ => none
  | (some key, j) :: members, seen =>
      match named fields key with
      | none => ofMembers fields members seen
      | some f =>
          if key ∈ seen then none
          else (f.read j).bind fun g =>
            (ofMembers fields members (key :: seen)).map fun h => h ∘ g

/-- The change the elements of an array make, one for each field. -/
def ofElements : List (Field ρ) → List Json → Option (ρ → ρ)
  | _, [] => some id
  | [], _ :: _ => none
  | f :: fields, j :: items =>
      (f.read j).bind fun g => (ofElements fields items).map fun h => h ∘ g

def record (fields : List (Field ρ)) (default : ρ) : Decoder ρ
  | .obj members => (ofMembers fields members []).map fun g => g default
  | .arr items => (ofElements fields items).map fun g => g default
  | _ => none

/-- The members of an object around one of them make the same change whatever
its value is. -/
theorem ofMembers_around {fields : List (Field ρ)} {key : String} {f : Field ρ}
    (hf : named fields key = some f) {before after : List (Option String × Json)}
    {seen : List String} {j : Json} {g : ρ → ρ}
    (h : ofMembers fields (before ++ (some key, j) :: after) seen = some g) :
    ∃ first last seen', ofMembers fields after (key :: seen') = some last ∧
      ∀ j', ofMembers fields (before ++ (some key, j') :: after) seen =
        (f.read j').map fun g => last ∘ g ∘ first := by
  induction before generalizing seen g with
  | nil =>
      simp only [List.nil_append, ofMembers, hf] at h ⊢
      by_cases hseen : key ∈ seen
      · rw [if_pos hseen] at h
        cases h
      · rw [if_neg hseen] at h
        simp only [Option.bind_eq_some_iff, Option.map_eq_some_iff] at h
        obtain ⟨-, -, last, hlast, -⟩ := h
        refine ⟨id, last, seen, hlast, fun j' => ?_⟩
        rw [if_neg hseen, hlast]
        cases f.read j' <;> rfl
  | cons member before ih =>
      obtain ⟨name, k⟩ := member
      cases name with
      | none => cases h
      | some name =>
          simp only [List.cons_append, ofMembers] at h ⊢
          cases hname : named fields name with
          | none =>
              rw [hname] at h
              exact ih h
          | some e =>
              rw [hname] at h
              by_cases hseen : name ∈ seen
              · simp [hseen] at h
              · simp only [hseen, if_false, Option.bind_eq_some_iff,
                  Option.map_eq_some_iff] at h ⊢
                obtain ⟨c, hc, g, hg, -⟩ := h
                obtain ⟨first, last, seen', hlast, hall⟩ := ih hg
                refine ⟨first ∘ c, last, seen', hlast, fun j' => ?_⟩
                rw [hc, hall j']
                cases f.read j' <;> rfl

/-- What the fields not yet seen leave alone, the rest of an object leaves
alone. -/
theorem keeps_of_ofMembers {fields : List (Field ρ)} {proj : ρ → β}
    {members : List (Option String × Json)} {seen : List String} {g : ρ → ρ}
    (hkeep : ∀ f ∈ fields, f.name ∉ seen → ∀ j c, f.read j = some c →
      ∀ r, proj (c r) = proj r)
    (h : ofMembers fields members seen = some g) (r : ρ) : proj (g r) = proj r := by
  induction members generalizing seen g r with
  | nil =>
      cases h
      rfl
  | cons member members ih =>
      obtain ⟨name, j⟩ := member
      cases name with
      | none => cases h
      | some name =>
          simp only [ofMembers] at h
          cases hname : named fields name with
          | none =>
              rw [hname] at h
              exact ih hkeep h r
          | some f =>
              rw [hname] at h
              by_cases hseen : name ∈ seen
              · simp [hseen] at h
              · simp only [hseen, if_false, Option.bind_eq_some_iff,
                  Option.map_eq_some_iff] at h
                obtain ⟨c, hc, g, hg, rfl⟩ := h
                have hmem : f ∈ fields := List.mem_of_find?_eq_some hname
                have hf : f.name = name := by simpa using List.find?_some hname
                have hrest := ih (fun e he hnew => hkeep e he fun hin =>
                  hnew (List.mem_cons_of_mem name hin)) hg (c r)
                rw [Function.comp_apply, hrest]
                exact hkeep f hmem (hf ▸ hseen) j c hc r

end Decoder

end Vuo.Foundation
