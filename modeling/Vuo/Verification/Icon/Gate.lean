import Vuo.Foundation.Base64
import Vuo.Model.Icon
import Vuo.Verification.Text

/-!
# The gates of an icon

Its size is bounded twice, by the length of its encoding and by what the
encoding says; what passes has a known format and, where it shows one, a size
within the caps.
-/

namespace Vuo

open Foundation Content

/-! ## Splitting off the claimed type -/

section Splitting

variable {c : Char} {pattern before after text : List Char}

theorem splitOnce_of_not_mem (h : c ∉ text) : splitOnce (c :: pattern) text = none := by
  induction text with
  | nil => rfl
  | cons d text ih =>
      rw [List.mem_cons, not_or] at h
      rw [splitOnce, ih h.2]
      simp [h.1]

/-- The first occurrence is found, where the pattern does not overlap itself. -/
theorem splitOnce_append (hc : c ∉ pattern) (h : splitOnce (c :: pattern) before = none) :
    splitOnce (c :: pattern) (before ++ (c :: pattern ++ after)) = some (before, after) := by
  induction before with
  | nil =>
      have hprefix : (c :: pattern).isPrefixOf (c :: (pattern ++ after)) = true :=
        List.isPrefixOf_iff_prefix.2 (List.prefix_append (c :: pattern) after)
      rw [List.nil_append, List.cons_append, splitOnce, if_pos hprefix]
      simp
  | cons d before ih =>
      rw [splitOnce] at h
      split at h
      · cases h
      · next hstart =>
          rw [Option.map_eq_none_iff] at h
          have hnot : ¬(c :: pattern).isPrefixOf
              (d :: (before ++ (c :: pattern ++ after))) = true := by
            intro hprefix
            obtain ⟨t, ht⟩ : c :: pattern <+: d :: before ++ (c :: pattern ++ after) :=
              List.isPrefixOf_iff_prefix.1 hprefix
            rcases List.prefix_or_prefix_of_prefix ⟨t, ht⟩ (List.prefix_append (d :: before) _)
              with hshort | ⟨rest, hrest⟩
            · exact hstart (List.isPrefixOf_iff_prefix.2 hshort)
            · -- the pattern would begin again within itself
              rw [← hrest, List.append_assoc] at ht
              have hbegin := List.append_cancel_left ht
              cases rest with
              | nil =>
                  rw [List.append_nil] at hrest
                  exact hstart (List.isPrefixOf_iff_prefix.2 ⟨[], by simpa using hrest.symm⟩)
              | cons e rest =>
                  obtain ⟨rfl, hpattern⟩ := List.cons.inj hrest
                  obtain ⟨rfl, -⟩ := List.cons.inj hbegin
                  exact hc (by simp [← hpattern])
          rw [List.cons_append, splitOnce, if_neg hnot, ih h]
          rfl

end Splitting

/-! ## What passes -/

/-- A size within a cap on both sides, and not empty. -/
def Sized (cap : ℕ) (size : ℕ × ℕ) : Prop :=
  0 < size.1 ∧ 0 < size.2 ∧ size.1 ≤ cap ∧ size.2 ≤ cap

variable {w : Wire.Icon} {limits : IconLimits} {icon : Icon} {bytes : List UInt8}

theorem checkIcon_eq_ok (h : checkIcon w limits bytes = .ok icon) :
    icon.bytes = bytes ∧ bytes.length ≤ limits.maxBytes ∧
      IconBytes.sniffFormat bytes = some icon.format ∧ icon.format ≠ .svg ∧
      icon.dimensions = IconBytes.readDimensions bytes icon.format ∧
      ∀ size, icon.dimensions = some size → Sized limits.maxPixelsPerSide size := by
  unfold checkIcon at h
  split at h
  · cases h
  · next hlength =>
      split at h
      · cases h
      · cases h
      · next format hsvg hformat =>
          dsimp only at h
          split at h
          · next hsize =>
              cases h
              refine ⟨rfl, by omega, hformat, ?_, rfl, ?_⟩
              · rintro rfl
                exact hsvg rfl
              · intro size hsome
                rw [hsize] at hsome
                cases hsome
          · next width height hsize =>
              split_ifs at h with hzero hcap
              cases h
              refine ⟨rfl, by omega, hformat, ?_, rfl, ?_⟩
              · rintro rfl
                exact hsvg rfl
              · intro size hsome
                obtain rfl := Option.some.inj (hsize.symm.trans hsome)
                unfold Sized
                omega

/-- What is accepted went through the checks on its bytes. -/
theorem checkIcon_of_decodeIcon [Base64Engine] (h : decodeIcon w limits = .ok icon) :
    checkIcon w limits icon.bytes = .ok icon := by
  unfold decodeIcon at h
  dsimp only at h
  split_ifs at h
  split at h
  · cases h
  · next bytes _ => rwa [(checkIcon_eq_ok h).1]

/-- A refusal for the size of the bytes, by either gate. -/
def RefusedForSize (w : Wire.Icon) (r : Except Error Icon) : Prop :=
  r = .error (rejectIcon w "icon exceeds the size cap (declared)") ∨
    r = .error (rejectIcon w "icon exceeds the size cap (decoded)")

theorem not_refusedForSize_ok (w : Wire.Icon) (icon : Icon) :
    ¬RefusedForSize w (.ok icon) := by
  rintro (h | h) <;> cases h

/-- Any other reason is not the size. -/
theorem not_refusedForSize_reject (w : Wire.Icon) {why : String}
    (hdeclared : why ≠ "icon exceeds the size cap (declared)")
    (hdecoded : why ≠ "icon exceeds the size cap (decoded)") :
    ¬RefusedForSize w (.error (rejectIcon w why)) := by
  rintro (h | h)
  · exact hdeclared (by simpa [rejectIcon] using h)
  · exact hdecoded (by simpa [rejectIcon] using h)

theorem refusedForSize_checkIcon_iff :
    RefusedForSize w (checkIcon w limits bytes) ↔ limits.maxBytes < bytes.length := by
  unfold checkIcon
  by_cases hlength : limits.maxBytes < bytes.length
  · rw [if_pos hlength]
    exact iff_of_true (.inr rfl) hlength
  · rw [if_neg hlength]
    refine iff_of_false ?_ hlength
    split
    · exact not_refusedForSize_reject w (by decide) (by decide)
    · exact not_refusedForSize_reject w (by decide) (by decide)
    · dsimp only
      split
      · exact not_refusedForSize_ok w _
      · split_ifs
        · exact not_refusedForSize_reject w (by decide) (by decide)
        · exact not_refusedForSize_reject w (by decide) (by decide)
        · exact not_refusedForSize_ok w _

/-! ## The gates of the size -/

/-- The data of an icon: an encoding between white space of so many bytes, after a
claimed type or without one. -/
def Spells (data : List Char) (bytes : List UInt8) (blank : ℕ) : Prop :=
  ∃ lead trail : List Char, (∀ c ∈ lead ++ trail, isWhitespace c = true) ∧
    byteLength (lead ++ trail) = blank ∧
    (data = lead ++ (Base64.encode bytes ++ trail) ∨
      ∃ mime, splitOnce ";base64,".toList mime = none ∧
        data = mime ++ (";base64,".toList ++ (lead ++ (Base64.encode bytes ++ trail))))

theorem letter_of_isLetter {c : Char} (h : Base64.IsLetter c) :
    c.utf8Size = 1 ∧ isWhitespace c = false ∧ c ≠ ';' := by
  have hall : ('=' :: Base64.alphabet).all
      (fun c => c.utf8Size == 1 && !isWhitespace c && c != ';') = true := by
    decide
  have hc := List.all_eq_true.1 hall c (List.mem_cons.2 h)
  simpa [and_assoc] using hc

theorem byteLength_encode (bytes : List UInt8) :
    byteLength (Base64.encode bytes) = 4 * ((bytes.length + 2) / 3) := by
  have hlength : ∀ text : List Char, (∀ c ∈ text, Base64.IsLetter c) →
      byteLength text = text.length := by
    intro text htext
    induction text with
    | nil => rfl
    | cons c text ih =>
        rw [List.forall_mem_cons] at htext
        rw [byteLength, (letter_of_isLetter htext.1).1, ih htext.2, List.length_cons]
        omega
  rw [hlength _ fun c hc => Base64.isLetter_of_mem hc, Base64.length_encode]

/-- The payload is the encoding in its white space. -/
theorem iconPayload_of_spells {data : List Char} {blank : ℕ} (h : Spells data bytes blank) :
    trim (iconPayload data) = Base64.encode bytes ∧
      byteLength (iconPayload data) = 4 * ((bytes.length + 2) / 3) + blank := by
  obtain ⟨lead, trail, hwhite, rfl, hdata⟩ := h
  rw [List.forall_mem_append] at hwhite
  have hblack : ∀ c ∈ Base64.encode bytes, isWhitespace c = false := fun c hc =>
    (letter_of_isLetter (Base64.isLetter_of_mem hc)).2.1
  have hpayload : iconPayload data = lead ++ (Base64.encode bytes ++ trail) := by
    rcases hdata with rfl | ⟨mime, hmime, rfl⟩
    · have hnone : ';' ∉ lead ++ (Base64.encode bytes ++ trail) := by
        have hwhitespace : isWhitespace ';' = false := by decide
        rw [List.mem_append, List.mem_append]
        rintro (hlead | hencode | htrail)
        · exact absurd (hwhite.1 _ hlead) (by simp [hwhitespace])
        · exact (letter_of_isLetter (Base64.isLetter_of_mem hencode)).2.2 rfl
        · exact absurd (hwhite.2 _ htrail) (by simp [hwhitespace])
      have hsplit : splitOnce ";base64,".toList (lead ++ (Base64.encode bytes ++ trail)) = none :=
        splitOnce_of_not_mem hnone
      rw [iconPayload, hsplit]
    · have hsplit : splitOnce ";base64,".toList
          (mime ++ (";base64,".toList ++ (lead ++ (Base64.encode bytes ++ trail)))) =
            some (mime, lead ++ (Base64.encode bytes ++ trail)) :=
        splitOnce_append (by decide) hmime
      rw [iconPayload, hsplit]
  rw [hpayload, trim_surrounded hwhite.1 hblack hwhite.2, byteLength_append, byteLength_append,
    byteLength_append, byteLength_encode]
  exact ⟨rfl, by omega⟩

section Gates

variable [Base64Engine] {blank : ℕ}

/-- The two gates, on what is spelled. -/
theorem refusedForSize_iff_of_spells (hdata : Spells w.data.toList bytes blank)
    (hdecode : Base64Engine.decode (Base64.encode bytes) = .ok bytes) :
    RefusedForSize w (decodeIcon w limits) ↔
      limits.maxBytes < (4 * ((bytes.length + 2) / 3) + blank) / 4 * 3 ∨
        limits.maxBytes < bytes.length := by
  obtain ⟨htrim, hlength⟩ := iconPayload_of_spells hdata
  unfold decodeIcon
  dsimp only
  rw [htrim, hlength, hdecode]
  by_cases hempty : iconPayload w.data.toList = []
  · rw [if_pos hempty]
    rw [hempty, byteLength] at hlength
    refine iff_of_false (not_refusedForSize_reject w (by decide) (by decide)) ?_
    omega
  · rw [if_neg hempty]
    split_ifs with hdeclared
    · exact iff_of_true (.inl rfl) (.inl hdeclared)
    · dsimp only
      rw [refusedForSize_checkIcon_iff]
      omega

/-- The gates refuse exactly what is too large, unless the bound taken from the
encoding already exceeds the cap: it counts whole groups of three, padding and
white space included. -/
theorem refusedForSize_exact_iff (hdata : Spells w.data.toList bytes blank)
    (hdecode : Base64Engine.decode (Base64.encode bytes) = .ok bytes) :
    (RefusedForSize w (decodeIcon w limits) ↔ limits.maxBytes < bytes.length) ↔
      (bytes.length ≤ limits.maxBytes →
        (4 * ((bytes.length + 2) / 3) + blank) / 4 * 3 ≤ limits.maxBytes) := by
  rw [refusedForSize_iff_of_spells hdata hdecode]
  omega

end Gates

/-! ### An icon as large as the cap -/

section AtTheCap

/-- The engine on the encoding of these bytes; it is asked for nothing else. -/
abbrev decoderOf (bytes : List UInt8) : Base64Engine :=
  ⟨fun text => if text = Base64.encode bytes then .ok bytes else .error "Invalid input"⟩

/-- An icon of these bytes, without a claimed type. -/
def iconOf (bytes : List UInt8) : Wire.Icon where
  id := 1
  mimeType := "image/png"
  data := String.ofList (Base64.encode bytes)

theorem spells_iconOf (bytes : List UInt8) : Spells (iconOf bytes).data.toList bytes 0 :=
  ⟨[], [], by simp, rfl, .inl (by simp [iconOf])⟩

theorem decode_decoderOf (bytes : List UInt8) :
    (decoderOf bytes).decode (Base64.encode bytes) = .ok bytes :=
  if_pos rfl

theorem refusedForSize_exact_three :
    RefusedForSize (iconOf [0, 0, 0])
        (@decodeIcon (decoderOf [0, 0, 0]) (iconOf [0, 0, 0]) ⟨3, 512⟩) ↔
      3 < [(0 : UInt8), 0, 0].length := by
  have hexact := @refusedForSize_exact_iff (iconOf [0, 0, 0]) ⟨3, 512⟩ _ (decoderOf [0, 0, 0]) _
    (spells_iconOf [0, 0, 0]) (decode_decoderOf [0, 0, 0])
  exact hexact.2 (by decide)

/-- Half a mebibyte is within the cap of half a mebibyte, and refused. -/
theorem refused_at_the_cap :
    (List.replicate 524288 (0 : UInt8)).length ≤ IconLimits.default.maxBytes ∧
      RefusedForSize (iconOf (List.replicate 524288 0))
        (@decodeIcon (decoderOf (List.replicate 524288 0)) (iconOf (List.replicate 524288 0))
          .default) := by
  have hlength : (List.replicate 524288 (0 : UInt8)).length = 524288 := List.length_replicate
  refine ⟨hlength.le, ?_⟩
  rw [@refusedForSize_iff_of_spells _ _ _ (decoderOf (List.replicate 524288 0)) _
    (spells_iconOf _) (decode_decoderOf _), hlength]
  exact .inl (by decide)

end AtTheCap

end Vuo
