import Mathlib.Data.Int.Order.Basic
import Mathlib.Tactic.Common

/-!
# Machine integers, text and time

The pieces of the source's standard library that the client computes with.
-/

namespace Vuo

/-! ## Signed 64-bit arithmetic -/

def i64Min : ℤ := -9223372036854775808

def i64Max : ℤ := 9223372036854775807

/-- The nearest value an `i64` can hold. -/
def saturate (n : ℤ) : ℤ :=
  max i64Min (min i64Max n)

def saturatingAdd (a b : ℤ) : ℤ :=
  saturate (a + b)

def saturatingSub (a b : ℤ) : ℤ :=
  saturate (a - b)

theorem saturate_of_mem {n : ℤ} (hlo : i64Min ≤ n) (hhi : n ≤ i64Max) :
    saturate n = n := by
  simp [saturate, min_eq_right hhi, max_eq_right hlo]

/-! ## Text -/

/-- Unicode's `White_Space` property. -/
def isWhitespace (c : Char) : Bool :=
  let n := c.toNat
  (9 ≤ n && n ≤ 13) || n = 0x20 || n = 0x85 || n = 0xa0 || n = 0x1680 ||
    (0x2000 ≤ n && n ≤ 0x200a) || n = 0x2028 || n = 0x2029 || n = 0x202f ||
    n = 0x205f || n = 0x3000

def trimStart (s : List Char) : List Char :=
  s.dropWhile isWhitespace

def trimEnd (s : List Char) : List Char :=
  (s.reverse.dropWhile isWhitespace).reverse

def trim (s : List Char) : List Char :=
  trimEnd (trimStart s)

/-- `str::split_whitespace` -/
def splitWhitespace (text : List Char) : List (List Char) :=
  (text.splitOnP isWhitespace).filter fun word => word ≠ []

/-- A run of decimal digits, empty runs excluded. -/
def parseDigits (s : List Char) : Option ℕ :=
  if s = [] then
    none
  else
    s.foldl
      (fun acc c => acc.bind fun n =>
        if '0' ≤ c ∧ c ≤ '9' then some (10 * n + (c.toNat - 48)) else none)
      (some 0)

/-- `str::parse::<u32>`: an optional plus sign and digits that fit. -/
def parseU32 (s : List Char) : Option ℕ :=
  let digits := match s with
    | '+' :: rest => rest
    | _ => s
  (parseDigits digits).filter fun n => n < 4294967296

/-- `str::parse::<i64>`: an optional sign and digits that fit. -/
def parseI64 (s : List Char) : Option ℤ :=
  let value : Option ℤ := match s with
    | '+' :: rest => (parseDigits rest).map Int.ofNat
    | '-' :: rest => (parseDigits rest).map fun n => -(n : ℤ)
    | _ => (parseDigits s).map Int.ofNat
  value.filter fun n => i64Min ≤ n ∧ n ≤ i64Max

/-- Hexadecimal digits of `n`, without leading zeros. -/
def hexDigits (n : ℕ) : String :=
  String.ofList (Nat.toDigits 16 n)

/-- How `{:?}` writes a character of a string. -/
def debugChar (c : Char) : String :=
  if c = '"' then "\\\""
  else if c = '\\' then "\\\\"
  else if c = '\n' then "\\n"
  else if c = '\r' then "\\r"
  else if c = '\t' then "\\t"
  else if c.toNat = 0 then "\\0"
  else if c.toNat < 32 ∨ (127 ≤ c.toNat ∧ c.toNat < 160) then
    "\\u\x7b" ++ hexDigits c.toNat ++ "\x7d"
  else String.singleton c

/-- `format!("{:?}", s)` for a string. -/
def debugStr (s : String) : String :=
  "\"" ++ String.join (s.toList.map debugChar) ++ "\""

/-! ## Chunks of a list -/

/-- The chunks of `xs`, the elements of `chunk` (reversed) already being in the
first of them. -/
def chunksFrom {α : Type*} (size : ℕ) : List α → List α → List (List α)
  | chunk, [] => if chunk = [] then [] else [chunk.reverse]
  | chunk, x :: xs =>
      if chunk.length + 1 < size then chunksFrom size (x :: chunk) xs
      else (x :: chunk).reverse :: chunksFrom size [] xs

/-- `slice::chunks`: consecutive pieces of `size` elements, the last one maybe
shorter. -/
def chunks {α : Type*} (size : ℕ) (xs : List α) : List (List α) :=
  chunksFrom size [] xs

theorem chunksFrom_flatten {α : Type*} (size : ℕ) (chunk xs : List α) :
    (chunksFrom size chunk xs).flatten = chunk.reverse ++ xs := by
  induction xs generalizing chunk with
  | nil =>
      unfold chunksFrom
      split_ifs with h <;> simp [h]
  | cons x xs ih =>
      unfold chunksFrom
      split_ifs with h
      · simp [ih]
      · simp [ih]

theorem chunks_flatten {α : Type*} (size : ℕ) (xs : List α) :
    (chunks size xs).flatten = xs := by
  simpa [chunks] using chunksFrom_flatten size [] xs

theorem mem_of_mem_chunks {α : Type*} {size : ℕ} {xs chunk : List α} {x : α}
    (hchunk : chunk ∈ chunks size xs) (hx : x ∈ chunk) : x ∈ xs := by
  rw [← chunks_flatten size xs]
  exact List.mem_flatten.2 ⟨chunk, hchunk, hx⟩

theorem ne_nil_of_mem_chunksFrom {α : Type*} {size : ℕ} {cur xs chunk : List α}
    (h : chunk ∈ chunksFrom size cur xs) : chunk ≠ [] := by
  induction xs generalizing cur with
  | nil =>
      unfold chunksFrom at h
      split_ifs at h with hcur
      · simp at h
      · simpa [List.mem_singleton.1 h] using hcur
  | cons x xs ih =>
      unfold chunksFrom at h
      split_ifs at h
      · exact ih h
      · rcases List.mem_cons.1 h with rfl | h
        · simp
        · exact ih h

theorem ne_nil_of_mem_chunks {α : Type*} {size : ℕ} {xs chunk : List α}
    (h : chunk ∈ chunks size xs) : chunk ≠ [] :=
  ne_nil_of_mem_chunksFrom h

/-! ## Time -/

/-- A moment in whole seconds since the epoch, within the range of calendar
dates a timestamp can name. -/
structure DateTime where
  timestamp : ℤ
  lower : -8334601228800 ≤ timestamp
  upper : timestamp ≤ 8210266876799

namespace DateTime

@[ext]
theorem ext {s t : DateTime} (h : s.timestamp = t.timestamp) : s = t := by
  cases s
  cases t
  simp_all

instance : DecidableEq DateTime := fun s t =>
  decidable_of_iff (s.timestamp = t.timestamp) ⟨ext, fun h => by rw [h]⟩

/-- Looking back by less than a century of seconds never saturates. -/
theorem saturatingSub_timestamp (t : DateTime) {d : ℤ} (h0 : 0 ≤ d)
    (hd : d ≤ 10000000000) : saturatingSub t.timestamp d = t.timestamp - d := by
  have hlo := t.lower
  have hhi := t.upper
  exact saturate_of_mem (by unfold i64Min; omega) (by unfold i64Max; omega)

end DateTime

end Vuo
