import Mathlib.Algebra.Group.Even
import Mathlib.Algebra.Ring.Parity
import Vuo.Verification.Icon.Gate

/-!
# The dimensions of a JPEG

A stream of markers up to its first frame: segments, markers that stand alone,
and fill bytes before any of them. The walk steps over fill bytes in pairs, so
it meets a marker after an odd number of them in the middle.
-/

namespace Vuo.Jpeg

open IconBytes

/-! ## The walk on what is left of the bytes -/

/-- `jpegFrom`, on the bytes from the offset on. -/
def walk : ℕ → List UInt8 → Option (ℕ × ℕ)
  | 0, _ => none
  | left + 1, s =>
      if 3 < s.length then do
        let first ← s[0]?
        if first ≠ 0xFF then walk left (s.drop 1)
        else
          let marker ← s[1]?
          if standsAlone marker then walk left (s.drop 2)
          else
            let len ← beU16 s 2
            if len < 2 then none
            else if startsFrame marker then
              let h ← beU16 s 5
              let w ← beU16 s 7
              return (w, h)
            else walk left (s.drop (len + 2))
      else none

theorem beU16_drop (b : List UInt8) (i k : ℕ) : beU16 (b.drop i) k = beU16 b (i + k) := by
  simp only [beU16, List.getElem?_drop, Nat.add_assoc]

theorem jpegFrom_eq_walk (b : List UInt8) (left i : ℕ) :
    jpegFrom b left i = walk left (b.drop i) := by
  induction left generalizing i with
  | zero => rfl
  | succ left ih =>
      have hlength : i + 3 < b.length ↔ 3 < (b.drop i).length := by
        rw [List.length_drop]
        omega
      simp only [jpegFrom, walk, ih, beU16_drop, List.getElem?_drop, List.drop_drop, hlength,
        Nat.add_zero, Nat.add_assoc]

theorem jpegDimensions_eq_walk (b : List UInt8) : jpegDimensions b = walk 4096 (b.drop 2) :=
  jpegFrom_eq_walk b 4096 2

variable {s payload : List UInt8} {left : ℕ} {marker : UInt8} {size : ℕ × ℕ}

/-! ### Its steps -/

theorem walk_of_length_le (h : s.length ≤ 3) : walk left s = none := by
  cases left with
  | zero => rfl
  | succ left => rw [walk, if_neg (by omega)]

theorem walk_skip {c : UInt8} (hc : c ≠ 0xFF) (h : 3 ≤ s.length) :
    walk (left + 1) (c :: s) = walk left s := by
  have hlength : 3 < (c :: s).length := by
    rw [List.length_cons]
    omega
  rw [walk, if_pos hlength]
  simp [hc]

theorem walk_alone (hmarker : standsAlone marker = true) (h : 2 ≤ s.length) :
    walk (left + 1) (0xFF :: marker :: s) = walk left s := by
  have hlength : 3 < (0xFF :: marker :: s).length := by
    simp only [List.length_cons]
    omega
  rw [walk, if_pos hlength]
  simp [hmarker]

/-- A number in two bytes, the high one first. -/
def be16 (n : ℕ) : List UInt8 :=
  [(n / 256).toUInt8, (n % 256).toUInt8]

theorem beU16_be16 {n : ℕ} (h : n < 65536) (s : List UInt8) : beU16 (be16 n ++ s) 0 = some n := by
  have hbyte {k : ℕ} (hk : k < 256) : k.toUInt8.toNat = k := by
    rw [Nat.toUInt8_eq, UInt8.toNat_ofNat', Nat.mod_eq_of_lt (by omega)]
  have hhigh := hbyte (show n / 256 < 256 by omega)
  have hlow := hbyte (show n % 256 < 256 by omega)
  have hvalue : beU16 (be16 n ++ s) 0 =
      some ((n / 256).toUInt8.toNat * 256 + (n % 256).toUInt8.toNat) :=
    rfl
  rw [hvalue, hhigh, hlow]
  exact congrArg some (by omega)

/-- A segment is stepped over by its length. -/
theorem walk_segment (hmarker : standsAlone marker = false) (hframe : startsFrame marker = false)
    (hpayload : payload.length + 2 < 65536) :
    walk (left + 1) (0xFF :: marker :: (be16 (payload.length + 2) ++ (payload ++ s))) =
      walk left s := by
  have hlength : 3 < (0xFF :: marker :: (be16 (payload.length + 2) ++ (payload ++ s))).length := by
    simp only [List.length_cons, List.length_append, be16]
    omega
  have hlen : beU16 (0xFF :: marker :: (be16 (payload.length + 2) ++ (payload ++ s))) 2 =
      some (payload.length + 2) :=
    (beU16_drop _ 2 0).symm.trans (beU16_be16 hpayload (payload ++ s))
  have hdrop : (0xFF :: marker :: (be16 (payload.length + 2) ++ (payload ++ s))).drop
      (payload.length + 2 + 2) = s :=
    @List.drop_left _ (0xFF :: marker :: (be16 (payload.length + 2) ++ payload)) s
  rw [walk, if_pos hlength]
  simp [hmarker, hframe, hlen, hdrop, -List.drop_succ_cons]

theorem standsAlone_of_startsFrame (h : startsFrame marker = true) :
    standsAlone marker = false := by
  simp only [startsFrame, standsAlone, Bool.and_eq_true, Bool.or_eq_false_iff,
    Bool.and_eq_false_iff, decide_eq_true_eq, decide_eq_false_iff_not, UInt8.le_iff_toNat_le,
    ← UInt8.toNat_inj] at h ⊢
  simp only [UInt8.reduceToNat] at h ⊢
  omega

/-- A frame answers with its dimensions. -/
theorem walk_frame {precision : UInt8} {len height width : ℕ} (hmarker : startsFrame marker = true)
    (hlen : 2 ≤ len ∧ len < 65536) (hheight : height < 65536) (hwidth : width < 65536) :
    walk (left + 1) (0xFF :: marker :: (be16 len ++ precision :: (be16 height ++
      (be16 width ++ s)))) = some (width, height) := by
  have halone := standsAlone_of_startsFrame hmarker
  have hlength : 3 < (0xFF :: marker :: (be16 len ++ precision :: (be16 height ++
      (be16 width ++ s)))).length := by
    simp only [List.length_cons, List.length_append, be16]
    omega
  have hread₂ := (beU16_drop (0xFF :: marker :: (be16 len ++ precision :: (be16 height ++
    (be16 width ++ s)))) 2 0).symm.trans (beU16_be16 hlen.2 _)
  have hread₅ := (beU16_drop (0xFF :: marker :: (be16 len ++ precision :: (be16 height ++
    (be16 width ++ s)))) 5 0).symm.trans (beU16_be16 hheight _)
  have hread₇ := (beU16_drop (0xFF :: marker :: (be16 len ++ precision :: (be16 height ++
    (be16 width ++ s)))) 7 0).symm.trans (beU16_be16 hwidth _)
  rw [walk, if_pos hlength]
  simp only [Nat.add_zero] at hread₂ hread₅ hread₇
  simp [halone, hmarker, hread₂, hread₅, hread₇]
  omega

theorem walk_eq_none_of_not_mem (h : 0xFF ∉ s) : walk left s = none := by
  induction left generalizing s with
  | zero => rfl
  | succ left ih =>
      by_cases hlength : s.length ≤ 3
      · exact walk_of_length_le hlength
      · cases s with
        | nil => simp at hlength
        | cons c s =>
            rw [List.length_cons] at hlength
            rw [List.mem_cons, not_or] at h
            rw [walk_skip (Ne.symm h.1) (by omega), ih h.2]

/-- More steps do not change an answer. -/
theorem walk_mono {k : ℕ} (h : walk left s = some size) : walk (left + k) s = some size := by
  induction left generalizing s with
  | zero => cases h
  | succ left ih =>
      rw [Nat.add_right_comm]
      by_cases hlength : 3 < s.length
      · simp only [walk, hlength, if_true, Option.bind_eq_bind, Option.bind_eq_some_iff] at h ⊢
        obtain ⟨first, hfirst, h⟩ := h
        refine ⟨first, hfirst, ?_⟩
        by_cases hmarked : first ≠ 0xFF
        · rw [if_pos hmarked] at h ⊢
          exact ih h
        · simp only [if_neg hmarked, Option.bind_eq_some_iff] at h ⊢
          obtain ⟨m, hm, h⟩ := h
          refine ⟨m, hm, ?_⟩
          split_ifs at h ⊢
          · exact ih h
          · exact h
          · obtain ⟨len, hlen, h⟩ := Option.bind_eq_some_iff.1 h
            refine Option.bind_eq_some_iff.2 ⟨len, hlen, ?_⟩
            split_ifs at h ⊢
            exact ih h
      · rw [walk, if_neg hlength] at h
        cases h

/-! ## Streams of markers -/

/-- What may stand before the first frame, with the fill bytes before it. -/
inductive Piece
  | alone (fill : ℕ) (marker : UInt8)
  | segment (fill : ℕ) (marker : UInt8) (payload : List UInt8)

/-- A marker after its fill bytes. -/
def marked (fill : ℕ) (marker : UInt8) : List UInt8 :=
  List.replicate fill 0xFF ++ [0xFF, marker]

namespace Piece

def bytes : Piece → List UInt8
  | alone fill marker => marked fill marker
  | segment fill marker payload =>
      marked fill marker ++ (be16 (payload.length + 2) ++ payload)

/-- Markers as the format has them, and a length that fits its field. -/
def Valid : Piece → Prop
  | alone _ marker => standsAlone marker = true ∧ marker ≠ 0xFF
  | segment _ marker payload =>
      standsAlone marker = false ∧ startsFrame marker = false ∧ payload.length + 2 < 65536

end Piece

/-- The segment of a frame: the sample precision, the size and the components. -/
structure Frame where
  fill : ℕ
  marker : UInt8
  precision : UInt8
  height : ℕ
  width : ℕ
  components : List UInt8

namespace Frame

def bytes (f : Frame) : List UInt8 :=
  marked f.fill f.marker ++ (be16 (f.components.length + 7) ++ f.precision ::
    (be16 f.height ++ (be16 f.width ++ f.components)))

structure Valid (f : Frame) : Prop where
  marker : startsFrame f.marker = true
  length : f.components.length + 7 < 65536
  height : f.height < 65536
  width : f.width < 65536

theorem le_length_bytes (f : Frame) : 9 ≤ f.bytes.length := by
  simp only [bytes, marked, be16, List.length_append, List.length_cons, List.length_nil]
  omega

end Frame

/-- Everything up to the first frame, that frame, and what comes after it. -/
def stream (pieces : List Piece) (frame : Frame) (tail : List UInt8) : List UInt8 :=
  [0xFF, 0xD8] ++ (pieces.flatMap Piece.bytes ++ (frame.bytes ++ tail))

theorem jpegDimensions_stream (pieces : List Piece) (frame : Frame) (tail : List UInt8) :
    jpegDimensions (stream pieces frame tail) =
      walk 4096 (pieces.flatMap Piece.bytes ++ (frame.bytes ++ tail)) := by
  rw [jpegDimensions_eq_walk]
  rfl

/-! ### Fill bytes -/

/-- Two fill bytes are stepped over as one. -/
theorem walk_fill (n : ℕ) (h : 2 ≤ s.length) :
    walk (left + n) (List.replicate (2 * n) 0xFF ++ s) = walk left s := by
  induction n with
  | zero => rfl
  | succ n ih =>
      have hlength : 2 ≤ (List.replicate (2 * n) (0xFF : UInt8) ++ s).length := by
        rw [List.length_append]
        omega
      rw [Nat.mul_succ, List.replicate_succ, List.replicate_succ, List.cons_append,
        List.cons_append, ← Nat.add_assoc, walk_alone (by decide) hlength, ih]

/-- Too few steps for the fill bytes alone. -/
theorem walk_fill_out {n : ℕ} (hleft : left ≤ n) (h : 2 ≤ s.length) :
    walk left (List.replicate (2 * n) 0xFF ++ s) = none := by
  obtain ⟨m, rfl⟩ := Nat.exists_eq_add_of_le' hleft
  have hsplit : List.replicate (2 * (m + left)) (0xFF : UInt8) ++ s =
      List.replicate (2 * left) 0xFF ++ (List.replicate (2 * m) 0xFF ++ s) := by
    rw [← List.append_assoc, List.replicate_append_replicate]
    congr 2
    omega
  have hlength : 2 ≤ (List.replicate (2 * m) (0xFF : UInt8) ++ s).length := by
    rw [List.length_append]
    omega
  have hwalk := @walk_fill _ 0 left hlength
  rwa [Nat.zero_add, ← hsplit] at hwalk

/-- After an even number of fill bytes the walk meets the marker at its start,
after an odd number in its middle. -/
theorem marked_eq (fill : ℕ) (marker : UInt8) :
    marked fill marker =
      List.replicate (2 * ((fill + 1) / 2)) 0xFF ++
        if Even fill then [0xFF, marker] else [marker] := by
  unfold marked
  rcases Nat.even_or_odd fill with ⟨m, rfl⟩ | ⟨m, rfl⟩
  · rw [if_pos ⟨m, rfl⟩]
    congr 2
    omega
  · rw [if_neg (by simp)]
    have hfill : 2 * ((2 * m + 1 + 1) / 2) = 2 * m + 1 + 1 := by
      omega
    rw [hfill, List.replicate_succ' (n := 2 * m + 1)]
    simp

/-! ### Pieces -/

/-- What the walk's steps depend on: the fill bytes, and whether what follows
them has a length of its own. -/
structure Lead where
  sized : Bool
  fill : ℕ

def Piece.lead : Piece → Lead
  | alone fill _ => ⟨false, fill⟩
  | segment fill _ _ => ⟨true, fill⟩

/-- The steps over fill bytes and the marker after them. -/
def cost (fill : ℕ) : ℕ :=
  (fill + 1) / 2 + 1

/-- A segment is met at its start. -/
def Lead.Aligned (lead : Lead) : Prop :=
  lead.sized = true → Even lead.fill

theorem walk_piece {p : Piece} (hvalid : p.Valid) (haligned : p.lead.Aligned)
    (h : 3 ≤ s.length) : walk (left + cost p.lead.fill) (p.bytes ++ s) = walk left s := by
  have hcost : left + cost p.lead.fill = left + 1 + (p.lead.fill + 1) / 2 := by
    unfold cost
    omega
  rw [hcost]
  cases p with
  | alone fill marker =>
      obtain ⟨halone, hmarker⟩ := hvalid
      rw [Piece.bytes, marked_eq, List.append_assoc]
      split_ifs
      · rw [Piece.lead, walk_fill _ (by simp)]
        exact walk_alone halone (Nat.le_of_succ_le h)
      · have hlength : 2 ≤ ([marker] ++ s).length := by
          rw [List.length_append]
          omega
        rw [Piece.lead, walk_fill _ hlength]
        exact walk_skip hmarker h
  | segment fill marker payload =>
      obtain ⟨halone, hframe, hpayload⟩ := hvalid
      have heven : Even fill := haligned rfl
      rw [Piece.bytes, marked_eq, if_pos heven, List.append_assoc, List.append_assoc,
        List.append_assoc, Piece.lead, walk_fill _ (by simp)]
      exact walk_segment halone hframe hpayload

theorem Piece.bytes_eq (p : Piece) : ∃ rest,
    p.bytes = List.replicate (2 * ((p.lead.fill + 1) / 2)) 0xFF ++ rest := by
  cases p with
  | alone fill marker => exact ⟨_, marked_eq fill marker⟩
  | segment fill marker payload =>
      refine ⟨(if Even fill then [0xFF, marker] else [marker]) ++
        (be16 (payload.length + 2) ++ payload), ?_⟩
      rw [Piece.bytes, marked_eq, List.append_assoc]
      rfl

/-- Too few steps for a piece. -/
theorem walk_piece_out (p : Piece) (h : 3 ≤ s.length) (hleft : left < cost p.lead.fill) :
    walk left (p.bytes ++ s) = none := by
  have hfill : left ≤ (p.lead.fill + 1) / 2 := by
    unfold cost at hleft
    omega
  obtain ⟨rest, hrest⟩ := p.bytes_eq
  have hlength : 2 ≤ (rest ++ s).length := by
    rw [List.length_append]
    omega
  rw [hrest, List.append_assoc]
  exact walk_fill_out hfill hlength

/-- The steps over all pieces. -/
def costs (leads : List Lead) : ℕ :=
  (leads.map fun lead => cost lead.fill).sum

theorem le_length_flatMap (pieces : List Piece) (h : 3 ≤ s.length) :
    3 ≤ (pieces.flatMap Piece.bytes ++ s).length := by
  rw [List.length_append]
  omega

theorem walk_pieces {pieces : List Piece} (hvalid : ∀ p ∈ pieces, p.Valid)
    (haligned : ∀ p ∈ pieces, p.lead.Aligned) (h : 3 ≤ s.length) :
    walk (left + costs (pieces.map Piece.lead)) (pieces.flatMap Piece.bytes ++ s) =
      walk left s := by
  induction pieces with
  | nil => rfl
  | cons p pieces ih =>
      rw [List.forall_mem_cons] at hvalid haligned
      have hcosts : left + costs ((p :: pieces).map Piece.lead) =
          left + costs (pieces.map Piece.lead) + cost p.lead.fill := by
        simp only [costs, List.map_cons, List.sum_cons]
        omega
      rw [hcosts, List.flatMap_cons, List.append_assoc,
        walk_piece hvalid.1 haligned.1 (le_length_flatMap pieces h), ih hvalid.2 haligned.2]

theorem walk_pieces_out {pieces : List Piece} (hvalid : ∀ p ∈ pieces, p.Valid)
    (haligned : ∀ p ∈ pieces, p.lead.Aligned) (h : 3 ≤ s.length)
    (hleft : left < costs (pieces.map Piece.lead)) :
    walk left (pieces.flatMap Piece.bytes ++ s) = none := by
  induction pieces generalizing left with
  | nil => simp [costs] at hleft
  | cons p pieces ih =>
      rw [List.forall_mem_cons] at hvalid haligned
      simp only [costs, List.map_cons, List.sum_cons] at hleft
      rw [List.flatMap_cons, List.append_assoc]
      by_cases hpiece : left < cost p.lead.fill
      · exact walk_piece_out p (le_length_flatMap pieces h) hpiece
      · obtain ⟨rest, rfl⟩ := Nat.exists_eq_add_of_le' (Nat.le_of_not_lt hpiece)
        rw [walk_piece hvalid.1 haligned.1 (le_length_flatMap pieces h)]
        refine ih hvalid.2 haligned.2 ?_
        unfold costs
        omega

/-! ### The first frame -/

variable {pieces : List Piece} {frame : Frame} {tail : List UInt8}

theorem three_le_frame (frame : Frame) (tail : List UInt8) :
    3 ≤ (frame.bytes ++ tail).length := by
  have hframe := frame.le_length_bytes
  rw [List.length_append]
  omega

/-- A frame met at its start answers. -/
theorem walk_frame_aligned (hvalid : frame.Valid) (heven : Even frame.fill) :
    walk (left + cost frame.fill) (frame.bytes ++ tail) = some (frame.width, frame.height) := by
  have hcost : left + cost frame.fill = left + 1 + (frame.fill + 1) / 2 := by
    unfold cost
    omega
  rw [hcost, Frame.bytes, marked_eq, if_pos heven, List.append_assoc, List.append_assoc,
    List.append_assoc, walk_fill _ (by simp)]
  have hlength := hvalid.length
  have hframe : walk (left + 1) (0xFF :: frame.marker :: (be16 (frame.components.length + 7) ++
      frame.precision :: (be16 frame.height ++ (be16 frame.width ++
        (frame.components ++ tail))))) = some (frame.width, frame.height) :=
    walk_frame hvalid.marker (by omega) hvalid.height hvalid.width
  simpa only [List.cons_append, List.nil_append, List.append_assoc] using hframe

/-- A frame met in its middle is passed over. -/
theorem walk_frame_missed (hodd : ¬Even frame.fill) (hmarker : frame.marker ≠ 0xFF)
    (hrest : 0xFF ∉ be16 (frame.components.length + 7) ++ frame.precision ::
      (be16 frame.height ++ (be16 frame.width ++ frame.components))) :
    walk left frame.bytes = none := by
  rw [Frame.bytes, marked_eq, if_neg hodd, List.append_assoc]
  by_cases hleft : left ≤ (frame.fill + 1) / 2
  · exact walk_fill_out hleft (by simp [be16])
  · obtain ⟨rest, rfl⟩ := Nat.exists_eq_add_of_le' (Nat.le_of_not_le hleft)
    rw [walk_fill _ (by simp [be16])]
    refine walk_eq_none_of_not_mem ?_
    rw [List.singleton_append, List.mem_cons, not_or]
    exact ⟨Ne.symm hmarker, hrest⟩

/-- Too few steps for a frame. -/
theorem walk_frame_out (hleft : left < cost frame.fill) :
    walk left (frame.bytes ++ tail) = none := by
  have hfill : left ≤ (frame.fill + 1) / 2 := by
    unfold cost at hleft
    omega
  rw [Frame.bytes, marked_eq, List.append_assoc, List.append_assoc]
  refine walk_fill_out hfill ?_
  simp only [be16, List.length_append, List.length_cons]
  omega

/-- Every segment is met at its start, and the frame is within reach. -/
structure Aligned (leads : List Lead) (fill : ℕ) : Prop where
  segments : ∀ lead ∈ leads, lead.Aligned
  frame : Even fill
  steps : costs leads + cost fill ≤ 4096

theorem jpegDimensions_of_aligned (hpieces : ∀ p ∈ pieces, p.Valid) (hframe : frame.Valid)
    (h : Aligned (pieces.map Piece.lead) frame.fill) :
    jpegDimensions (stream pieces frame tail) = some (frame.width, frame.height) := by
  obtain ⟨rest, hrest⟩ := Nat.exists_eq_add_of_le h.steps
  have hsteps : 4096 = rest + cost frame.fill + costs (pieces.map Piece.lead) := by
    omega
  rw [jpegDimensions_stream, hsteps, walk_pieces hpieces ?_ (three_le_frame frame tail),
    walk_frame_aligned hframe h.frame]
  exact fun p hp => h.segments p.lead (List.mem_map_of_mem hp)

/-! ### Streams that are misread -/

/-- A piece that does no harm, with the fill bytes of `lead`. -/
def Lead.plain (lead : Lead) : Piece :=
  if lead.sized then .segment lead.fill 0xE0 [] else .alone lead.fill 0xD0

/-- A segment that holds what looks like a frame of one pixel. -/
def decoy (fill : ℕ) : Piece :=
  .segment fill 0xE0 [0xFF, 0xC0, 0x00, 0x0B, 0x08, 0x00, 0x01, 0x00, 0x01]

/-- A frame of two pixels by two. -/
def small (fill : ℕ) : Frame where
  fill := fill
  marker := 0xC0
  precision := 8
  height := 2
  width := 2
  components := [1, 1, 0x11, 0]

theorem lead_plain (lead : Lead) : lead.plain.lead = lead := by
  obtain ⟨sized, fill⟩ := lead
  cases sized <;> rfl

theorem valid_plain (lead : Lead) : lead.plain.Valid := by
  obtain ⟨sized, fill⟩ := lead
  cases sized
  · exact ⟨by decide, by decide⟩
  · exact ⟨by decide, by decide, by decide⟩

theorem map_lead_plain (leads : List Lead) :
    (leads.map Lead.plain).map Piece.lead = leads := by
  induction leads with
  | nil => rfl
  | cons lead leads ih => rw [List.map_cons, List.map_cons, lead_plain, ih]

theorem valid_map_plain (leads : List Lead) : ∀ p ∈ leads.map Lead.plain, p.Valid := by
  intro p hp
  obtain ⟨lead, -, rfl⟩ := List.mem_map.1 hp
  exact valid_plain lead

theorem valid_small (fill : ℕ) : (small fill).Valid :=
  ⟨(by decide : startsFrame 0xC0 = true), (by decide : 4 + 7 < 65536),
    (by decide : 2 < 65536), (by decide : 2 < 65536)⟩

/-- After an odd number of fill bytes the decoy is read as the frame. -/
theorem size_of_decoy {fill : ℕ} (hodd : ¬Even fill)
    (hsize : walk left ((decoy fill).bytes ++ s) = some size) : size = (1, 1) := by
  have hframe : walk (left + 1) (0xFF :: 0xC0 :: (be16 11 ++ 8 :: (be16 1 ++ (be16 1 ++ s)))) =
      some (1, 1) :=
    walk_frame (by decide) (by decide) (by decide) (by decide)
  have hdecoy : walk (left + 1 + 1 + 1 + 1 + (fill + 1) / 2) ((decoy fill).bytes ++ s) =
      some (1, 1) := by
    rw [decoy, Piece.bytes, marked_eq, if_neg hodd, List.append_assoc, List.append_assoc,
      walk_fill _ (by simp [be16])]
    change walk (left + 1 + 1 + 1 + 1) (0xE0 :: 0x00 :: 0x0B :: (0xFF :: 0xC0 ::
      (be16 11 ++ 8 :: (be16 1 ++ (be16 1 ++ s))))) = _
    rw [walk_skip (by decide) (by simp), walk_skip (by decide) (by simp [be16]),
      walk_skip (by decide) (by simp [be16]), hframe]
  have hmono := walk_mono (k := 4 + (fill + 1) / 2) hsize
  have hsteps : left + (4 + (fill + 1) / 2) = left + 1 + 1 + 1 + 1 + (fill + 1) / 2 := by
    omega
  rw [hsteps, hdecoy] at hmono
  exact (Option.some.inj hmono).symm

theorem valid_decoy (fill : ℕ) : (decoy fill).Valid :=
  ⟨(by decide : standsAlone 0xE0 = false), (by decide : startsFrame 0xE0 = false),
    (by decide : 9 + 2 < 65536)⟩

/-- Where a segment has an odd number of fill bytes before it, some stream shows
one pixel. -/
theorem exists_decoyed {leads : List Lead} (h : ∃ lead ∈ leads, ¬lead.Aligned) :
    ∃ pieces : List Piece, pieces.map Piece.lead = leads ∧ (∀ p ∈ pieces, p.Valid) ∧
      ∀ (left : ℕ) (s : List UInt8) (size : ℕ × ℕ), 3 ≤ s.length →
        walk left (pieces.flatMap Piece.bytes ++ s) = some size → size = (1, 1) := by
  induction leads with
  | nil => simp at h
  | cons lead leads ih =>
      by_cases haligned : lead.Aligned
      · obtain ⟨pieces, hleads, hvalid, hsize⟩ := ih (by simpa [haligned] using h)
        refine ⟨lead.plain :: pieces, ?_, ?_, ?_⟩
        · rw [List.map_cons, lead_plain, hleads]
        · exact List.forall_mem_cons.2 ⟨valid_plain lead, hvalid⟩
        · intro left s size hs hwalk
          have hmono := walk_mono (k := cost lead.fill) hwalk
          have hplain : lead.plain.lead.Aligned := by rwa [lead_plain]
          have hstep := @walk_piece _ left lead.plain (valid_plain lead) hplain
            (le_length_flatMap pieces hs)
          rw [lead_plain] at hstep
          rw [List.flatMap_cons, List.append_assoc, hstep] at hmono
          exact hsize left s size hs hmono
      · obtain ⟨hsized, hodd⟩ : lead.sized = true ∧ ¬Even lead.fill := by
          simpa only [Lead.Aligned, Classical.not_imp] using haligned
        refine ⟨decoy lead.fill :: leads.map Lead.plain, ?_, ?_, ?_⟩
        · have hlead : (decoy lead.fill).lead = lead := by
            cases lead
            cases hsized
            rfl
          rw [List.map_cons, hlead, map_lead_plain]
        · exact List.forall_mem_cons.2 ⟨valid_decoy _, valid_map_plain leads⟩
        · intro left s size hs hwalk
          rw [List.flatMap_cons, List.append_assoc] at hwalk
          exact size_of_decoy hodd hwalk

section Plain

variable {leads : List Lead} {fill : ℕ}

theorem aligned_map_plain (h : ∀ lead ∈ leads, lead.Aligned) :
    ∀ p ∈ leads.map Lead.plain, p.lead.Aligned := by
  intro p hp
  obtain ⟨lead, hlead, rfl⟩ := List.mem_map.1 hp
  rw [lead_plain]
  exact h lead hlead

/-- After plain pieces a frame behind an odd number of fill bytes is not found. -/
theorem not_found_of_odd (hodd : ¬Even fill) (h : ∀ lead ∈ leads, lead.Aligned) :
    jpegDimensions (stream (leads.map Lead.plain) (small fill) []) = none := by
  rw [jpegDimensions_stream]
  cases hwalk : walk 4096 ((leads.map Lead.plain).flatMap Piece.bytes ++
      ((small fill).bytes ++ [])) with
  | none => rfl
  | some size =>
      have hmono := walk_mono (k := costs ((leads.map Lead.plain).map Piece.lead)) hwalk
      have hmissed : walk 4096 (small fill).bytes = none :=
        walk_frame_missed hodd (by decide : (0xC0 : UInt8) ≠ 0xFF)
          (by decide : 0xFF ∉ be16 11 ++ 8 :: (be16 2 ++ (be16 2 ++ [1, 1, 0x11, 0])))
      rw [walk_pieces (valid_map_plain leads) (aligned_map_plain h) (three_le_frame _ _),
        List.append_nil, hmissed] at hmono
      cases hmono

/-- Nor is one out of reach. -/
theorem not_found_of_steps (hsteps : 4096 < costs leads + cost fill)
    (h : ∀ lead ∈ leads, lead.Aligned) :
    jpegDimensions (stream (leads.map Lead.plain) (small fill) []) = none := by
  rw [jpegDimensions_stream]
  by_cases hleads : 4096 < costs leads
  · refine walk_pieces_out (valid_map_plain leads) (aligned_map_plain h) (three_le_frame _ _) ?_
    rwa [map_lead_plain]
  · obtain ⟨rest, hrest⟩ := Nat.exists_eq_add_of_le' (Nat.le_of_not_lt hleads)
    have hwalk := @walk_pieces _ rest _ (valid_map_plain leads) (aligned_map_plain h)
      (three_le_frame (small fill) [])
    rw [map_lead_plain, ← hrest] at hwalk
    rw [hwalk]
    exact walk_frame_out (by change rest < cost fill; omega)

end Plain

/-- Exactly the fill bytes before segments and the number of steps decide whether
every stream of a layout shows its first frame. -/
theorem found_iff (leads : List Lead) (fill : ℕ) :
    (∀ (pieces : List Piece) (frame : Frame) (tail : List UInt8), (∀ p ∈ pieces, p.Valid) →
        frame.Valid → pieces.map Piece.lead = leads → frame.fill = fill →
        jpegDimensions (stream pieces frame tail) = some (frame.width, frame.height)) ↔
      Aligned leads fill := by
  constructor
  · intro hfound
    have hplain := hfound (leads.map Lead.plain) (small fill) [] (valid_map_plain leads)
      (valid_small fill) (map_lead_plain leads) rfl
    have hsegments : ∀ lead ∈ leads, lead.Aligned := by
      intro lead hlead
      by_contra hmisaligned
      obtain ⟨pieces, hleads, hvalid, hsize⟩ := exists_decoyed ⟨lead, hlead, hmisaligned⟩
      have hdecoyed := hfound pieces (small fill) [] hvalid (valid_small fill) hleads rfl
      rw [jpegDimensions_stream] at hdecoyed
      have hpixel := hsize _ _ _ (three_le_frame _ _) hdecoyed
      cases hpixel
    refine ⟨hsegments, ?_, ?_⟩
    · by_contra hodd
      rw [not_found_of_odd hodd hsegments] at hplain
      cases hplain
    · by_contra hsteps
      rw [not_found_of_steps (by omega) hsegments] at hplain
      cases hplain
  · rintro haligned pieces frame tail hpieces hframe rfl rfl
    exact jpegDimensions_of_aligned hpieces hframe haligned

/-! ## What the walk answers -/

/-- A size that is answered is read from a frame marker's bytes, all of them within
the input. -/
theorem reads_of_jpegFrom {b : List UInt8} {i : ℕ} (h : jpegFrom b left i = some size) :
    ∃ j, i ≤ j ∧ j + 8 < b.length ∧ b[j]? = some 0xFF ∧
      (∃ m, b[j + 1]? = some m ∧ startsFrame m = true) ∧
      beU16 b (j + 5) = some size.2 ∧ beU16 b (j + 7) = some size.1 := by
  induction left generalizing i with
  | zero => cases h
  | succ left ih =>
      have hlater {k : ℕ} (h : jpegFrom b left (i + k) = some size) :
          ∃ j, i ≤ j ∧ j + 8 < b.length ∧ b[j]? = some 0xFF ∧
            (∃ m, b[j + 1]? = some m ∧ startsFrame m = true) ∧
            beU16 b (j + 5) = some size.2 ∧ beU16 b (j + 7) = some size.1 := by
        obtain ⟨j, hj, hread⟩ := ih h
        exact ⟨j, by omega, hread⟩
      by_cases hlength : i + 3 < b.length
      · simp only [jpegFrom, hlength, if_true, Option.bind_eq_bind, Option.bind_eq_some_iff] at h
        obtain ⟨first, hfirst, h⟩ := h
        by_cases hmarked : first ≠ 0xFF
        · rw [if_pos hmarked] at h
          exact hlater h
        · rw [ne_eq, not_not] at hmarked
          subst hmarked
          simp only [ne_eq, not_true_eq_false, if_false, Option.bind_eq_some_iff] at h
          obtain ⟨m, hm, h⟩ := h
          split_ifs at h with halone hframe
          · exact hlater h
          · simp only [Option.bind_eq_some_iff] at h
            obtain ⟨len, -, h⟩ := h
            split_ifs at h
            obtain ⟨height, hheight, h⟩ := Option.bind_eq_some_iff.1 h
            obtain ⟨width, hwidth, h⟩ := Option.bind_eq_some_iff.1 h
            obtain rfl := Option.some.inj h
            refine ⟨i, le_rfl, ?_, hfirst, ⟨m, hm, hframe⟩, hheight, hwidth⟩
            obtain ⟨high, -, hread⟩ := Option.bind_eq_some_iff.1 hwidth
            obtain ⟨low, hlow, -⟩ := Option.bind_eq_some_iff.1 hread
            exact (List.getElem?_eq_some_iff.1 hlow).1
          · obtain ⟨len, -, h⟩ := Option.bind_eq_some_iff.1 h
            split_ifs at h
            rw [Nat.add_assoc] at h
            exact hlater h
      · rw [jpegFrom, if_neg hlength] at h
        cases h

theorem marked_eq_cons (fill : ℕ) (marker : UInt8) :
    ∃ rest, marked fill marker = 0xFF :: rest := by
  cases fill with
  | zero => exact ⟨[marker], rfl⟩
  | succ fill => exact ⟨_, rfl⟩

/-- After the start of the image comes a marker. -/
theorem stream_eq_cons (pieces : List Piece) (frame : Frame) (tail : List UInt8) :
    ∃ rest, stream pieces frame tail = 0xFF :: 0xD8 :: 0xFF :: rest := by
  have hfirst : ∃ rest, pieces.flatMap Piece.bytes ++ (frame.bytes ++ tail) = 0xFF :: rest := by
    cases pieces with
    | nil =>
        obtain ⟨rest, hrest⟩ := marked_eq_cons frame.fill frame.marker
        simp only [List.flatMap_nil, List.nil_append, Frame.bytes, hrest, List.cons_append]
        exact ⟨_, rfl⟩
    | cons p pieces =>
        cases p with
        | alone fill marker =>
            obtain ⟨rest, hrest⟩ := marked_eq_cons fill marker
            simp only [List.flatMap_cons, Piece.bytes, hrest, List.cons_append]
            exact ⟨_, rfl⟩
        | segment fill marker payload =>
            obtain ⟨rest, hrest⟩ := marked_eq_cons fill marker
            simp only [List.flatMap_cons, Piece.bytes, hrest, List.cons_append]
            exact ⟨_, rfl⟩
  obtain ⟨rest, hrest⟩ := hfirst
  exact ⟨rest, by rw [stream, hrest]; rfl⟩

/-- What a JPEG is accepted with is within the caps, if its frame is found. -/
theorem sized_of_decodeIcon [Base64Engine] {w : Wire.Icon} {limits : IconLimits} {icon : Icon}
    (hicon : decodeIcon w limits = .ok icon) (hbytes : icon.bytes = stream pieces frame tail)
    (hfound : jpegDimensions (stream pieces frame tail) = some (frame.width, frame.height)) :
    Sized limits.maxPixelsPerSide (frame.width, frame.height) := by
  obtain ⟨-, -, hformat, -, hdimensions, hsized⟩ :=
    checkIcon_eq_ok (checkIcon_of_decodeIcon hicon)
  obtain ⟨rest, hrest⟩ := stream_eq_cons pieces frame tail
  have hjpeg : sniffFormat icon.bytes = some .jpeg := by
    rw [hbytes, hrest]
    rfl
  have hkind : icon.format = .jpeg := Option.some.inj (hformat.symm.trans hjpeg)
  refine hsized _ ?_
  rw [hdimensions, hkind, hbytes]
  exact hfound

/-! ## The bound on the dimensions -/

/-- The dimensions cannot be hidden, in the streams of a layout, exactly when every
segment and the frame are met at their start and within the steps; then no JPEG
beyond the caps is accepted. Whatever the bytes, a size is read from within them. -/
theorem dimensions_shown_iff [Base64Engine] (leads : List Lead) (fill : ℕ) :
    ((∀ (pieces : List Piece) (frame : Frame) (tail : List UInt8), (∀ p ∈ pieces, p.Valid) →
        frame.Valid → pieces.map Piece.lead = leads → frame.fill = fill →
        jpegDimensions (stream pieces frame tail) = some (frame.width, frame.height) ∧
          ∀ (w : Wire.Icon) (limits : IconLimits) (icon : Icon),
            decodeIcon w limits = .ok icon → icon.bytes = stream pieces frame tail →
            Sized limits.maxPixelsPerSide (frame.width, frame.height)) ↔
      Aligned leads fill) ∧
    ∀ (b : List UInt8) (size : ℕ × ℕ), jpegDimensions b = some size →
      ∃ j, 2 ≤ j ∧ j + 8 < b.length ∧ b[j]? = some 0xFF ∧
        (∃ m, b[j + 1]? = some m ∧ startsFrame m = true) ∧
        beU16 b (j + 5) = some size.2 ∧ beU16 b (j + 7) = some size.1 := by
  refine ⟨?_, fun b size h => reads_of_jpegFrom h⟩
  rw [← found_iff leads fill]
  constructor
  · intro h pieces frame tail hpieces hframe hleads hfill
    exact (h pieces frame tail hpieces hframe hleads hfill).1
  · intro h pieces frame tail hpieces hframe hleads hfill
    have hfound := h pieces frame tail hpieces hframe hleads hfill
    exact ⟨hfound, fun w limits icon hicon hbytes => sized_of_decodeIcon hicon hbytes hfound⟩

/-! ### A frame behind one fill byte -/

section Hidden

/-- 30000 pixels on either side. -/
def hidden : Frame where
  fill := 1
  marker := 0xC0
  precision := 8
  height := 30000
  width := 30000
  components := [1, 1, 0x11, 0]

theorem dimensions_shown_small :
    jpegDimensions (stream [] (small 0) []) = some (2, 2) := by
  have hshown := @dimensions_shown_iff (decoderOf []) [] 0
  exact (hshown.1.2 ⟨by simp, by decide, by decide⟩ [] (small 0) [] (by simp) (valid_small 0) rfl
    rfl).1

/-- An icon of 30000 pixels a side is accepted. -/
theorem dimensions_hidden :
    hidden.Valid ∧ jpegDimensions (stream [] hidden []) = none ∧
      @decodeIcon (decoderOf (stream [] hidden [])) (iconOf (stream [] hidden [])) .default =
        .ok { id := 1, format := .jpeg, bytes := stream [] hidden [], dimensions := none } := by
  refine ⟨⟨by decide, by decide, by decide, by decide⟩, by decide, ?_⟩
  rfl

end Hidden

end Vuo.Jpeg
