import Mathlib.Algebra.Group.Nat.Defs
import Vuo.Model.Content.Block
import Vuo.Model.Sync

/-!
# Feed icons

Decoded and checked by content: magic bytes, and the dimensions read from the
header by hand.
-/

namespace Vuo

/-- The base64 library's standard engine: the bytes a text encodes, or why it
encodes none. -/
class Base64Engine where
  decode : List Char → Except String (List UInt8)

/-- Caps on an icon. -/
structure IconLimits where
  maxBytes : ℕ
  maxPixelsPerSide : ℕ

def IconLimits.default : IconLimits where
  maxBytes := 512 * 1024
  maxPixelsPerSide := 512

/-- `str::split_once`, for a pattern that is not empty. -/
def splitOnce (pattern : List Char) : List Char → Option (List Char × List Char)
  | [] => none
  | c :: text =>
      if pattern.isPrefixOf (c :: text) then some ([], (c :: text).drop pattern.length)
      else (splitOnce pattern text).map fun (before, after) => (c :: before, after)

namespace IconBytes

/-! ## Numbers in a header -/

def beU32 (b : List UInt8) (pos : ℕ) : Option ℕ := do
  let b₀ ← b[pos]?
  let b₁ ← b[pos + 1]?
  let b₂ ← b[pos + 2]?
  let b₃ ← b[pos + 3]?
  return ((b₀.toNat * 256 + b₁.toNat) * 256 + b₂.toNat) * 256 + b₃.toNat

def beU16 (b : List UInt8) (pos : ℕ) : Option ℕ := do
  let b₀ ← b[pos]?
  let b₁ ← b[pos + 1]?
  return b₀.toNat * 256 + b₁.toNat

def leU16 (b : List UInt8) (pos : ℕ) : Option ℕ := do
  let b₀ ← b[pos]?
  let b₁ ← b[pos + 1]?
  return b₁.toNat * 256 + b₀.toNat

def leU24 (b : List UInt8) (pos : ℕ) : Option ℕ := do
  let b₀ ← b[pos]?
  let b₁ ← b[pos + 1]?
  let b₂ ← b[pos + 2]?
  return (b₂.toNat * 256 + b₁.toNat) * 256 + b₀.toNat

/-- `i32::from_le_bytes` and its `unsigned_abs`. -/
def leAbs32 (b : List UInt8) (pos : ℕ) : Option ℕ := do
  let low ← leU24 b pos
  let b₃ ← b[pos + 3]?
  let n := b₃.toNat * 2 ^ 24 + low
  return if n < 2 ^ 31 then n else 2 ^ 32 - n

/-! ## The format -/

def ascii (text : String) : List UInt8 :=
  text.toList.map fun c => c.toNat.toUInt8

/-- The format the leading bytes name. -/
def sniffFormat (b : List UInt8) : Option ImageFormat :=
  if [0x89, 0x50, 0x4E, 0x47, 0x0D, 0x0A, 0x1A, 0x0A].isPrefixOf b then some .png
  else if [0xFF, 0xD8, 0xFF].isPrefixOf b then some .jpeg
  else if (ascii "GIF87a").isPrefixOf b || (ascii "GIF89a").isPrefixOf b then some .gif
  else if decide (12 ≤ b.length) && (ascii "RIFF").isPrefixOf b &&
      (b.drop 8).take 4 == ascii "WEBP" then some .webP
  else if (ascii "BM").isPrefixOf b then some .bmp
  else if [0x00, 0x00, 0x01, 0x00].isPrefixOf b then some .ico
  else do
    let text ← ByteArray.utf8Decode? ⟨(b.take 256).toArray⟩
    let t := trimStart text.toList
    if "<?xml".toList.isPrefixOf t || "<svg".toList.isPrefixOf t ||
        "<!DOCTYPE svg".toList.isPrefixOf t then some .svg
    else none

/-! ## The dimensions -/

/-- Markers without a length, and the fill byte, stepped over as one. -/
def standsAlone (marker : UInt8) : Bool :=
  (0xD0 ≤ marker && marker ≤ 0xD9) || marker = 0x01 || marker = 0xFF

/-- Start of frame: `C0` to `CF`, but for the three in between that are not. -/
def startsFrame (marker : UInt8) : Bool :=
  0xC0 ≤ marker && marker ≤ 0xCF && !(marker = 0xC4 || marker = 0xC8 || marker = 0xCC)

/-- The walk over the segments from offset `i` on, with `left` steps to go. -/
def jpegFrom (b : List UInt8) : (left i : ℕ) → Option (ℕ × ℕ)
  | 0, _ => none
  | left + 1, i =>
      if i + 3 < b.length then do
        let first ← b[i]?
        if first ≠ 0xFF then jpegFrom b left (i + 1)
        else
          let marker ← b[i + 1]?
          if standsAlone marker then jpegFrom b left (i + 2)
          else
            let len ← beU16 b (i + 2)
            if len < 2 then none
            else if startsFrame marker then
              let h ← beU16 b (i + 5)
              let w ← beU16 b (i + 7)
              return (w, h)
            else jpegFrom b left (i + len + 2)
      else none

/-- The size of the first frame, found in at most 4096 steps past the first two
bytes. -/
def jpegDimensions (b : List UInt8) : Option (ℕ × ℕ) :=
  jpegFrom b 4096 2

/-- Pixel dimensions from a header; nothing where it is not understood. -/
def readDimensions (b : List UInt8) : ImageFormat → Option (ℕ × ℕ)
  | .png => do return (← beU32 b 16, ← beU32 b 20)
  | .gif => do return (← leU16 b 6, ← leU16 b 8)
  | .bmp => do return (← leAbs32 b 18, ← leAbs32 b 22)
  | .ico => do
      let w ← b[6]?
      let h ← b[7]?
      return (if w = 0 then 256 else w.toNat, if h = 0 then 256 else h.toNat)
  | .jpeg => jpegDimensions b
  | .webP =>
      if (b.drop 12).take 4 = ascii "VP8X" then do
        return ((← leU24 b 24) + 1, (← leU24 b 27) + 1)
      else none
  | .svg => none

end IconBytes

/-! ## Decoding -/

open IconBytes

/-- What follows the claimed type, or everything where none is claimed. -/
def iconPayload (data : List Char) : List Char :=
  match splitOnce ";base64,".toList data with
  | some (_, b64) => b64
  | none => data

/-- Why an icon is refused, as an error of this item alone. -/
def rejectIcon (w : Wire.Icon) (why : String) : Error :=
  .item "icon" (some w.id) why

/-- The checks on decoded bytes. -/
def checkIcon (w : Wire.Icon) (limits : IconLimits) (bytes : List UInt8) : Except Error Icon :=
  if limits.maxBytes < bytes.length then
    throw (rejectIcon w "icon exceeds the size cap (decoded)")
  else
    match sniffFormat bytes with
    | none => throw (rejectIcon w "unrecognised image format")
    | some .svg => throw (rejectIcon w "SVG icons are not rendered")
    | some format =>
        let icon : Icon :=
          { id := w.id, format := format, bytes := bytes,
            dimensions := readDimensions bytes format }
        match icon.dimensions with
        | none => return icon
        | some (widthPx, heightPx) =>
            if widthPx = 0 ∨ heightPx = 0 then
              throw (rejectIcon w "icon reports a zero dimension")
            else if limits.maxPixelsPerSide < widthPx ∨ limits.maxPixelsPerSide < heightPx then
              throw (rejectIcon w "icon dimensions exceed the cap")
            else return icon

/-- Decode and check an icon. -/
def decodeIcon [Base64Engine] (w : Wire.Icon) (limits : IconLimits) : Except Error Icon :=
  let payload := iconPayload w.data.toList
  if payload = [] then throw (rejectIcon w "empty icon payload")
  -- the encoded length bounds what decoding would allocate
  else if limits.maxBytes < Content.byteLength payload / 4 * 3 then
    throw (rejectIcon w "icon exceeds the size cap (declared)")
  else
    match Base64Engine.decode (trim payload) with
    | .error e => throw (rejectIcon w ("icon payload is not valid base64: " ++ e))
    | .ok bytes => checkIcon w limits bytes

/-- The check the pass makes of an icon it fetched. -/
instance [Base64Engine] : IconDecoder where
  decodeIcon w := decodeIcon w .default

end Vuo
