import Mathlib.Data.List.Basic
import Mathlib.Data.List.Infix
import Mathlib.Data.Nat.Notation
import Mathlib.Tactic

/-!
Stripping the metadata of an uploaded image: a walk over the segments of a JPEG, and over the
chunks of a PNG and of a WebP. Each loop works on the bytes from its index on.
-/

set_option autoImplicit false

namespace Yurucommu.StripImage

abbrev Bytes := List UInt8

def big32 (a b c d : UInt8) : Nat :=
  a.toNat * 2 ^ 24 + b.toNat * 2 ^ 16 + c.toNat * 2 ^ 8 + d.toNat

/-- What the shifts and ors of the four bytes make of the number: a 32-bit integer with a sign. -/
def signed (n : Nat) : Int := if n < 2 ^ 31 then n else n - 2 ^ 32

section jpeg

def isStandalone (marker : UInt8) : Bool :=
  marker = 0xd8 || marker = 0xd9 || marker = 0x01 || (0xd0 ≤ marker && marker ≤ 0xd7)

/-- APP1, APP13 and COM. -/
def isDropped (marker : UInt8) : Bool := marker = 0xe1 || marker = 0xed || marker = 0xfe

/-- None is malformed. -/
def stripJpegSegments : Nat → Bytes → Bytes → Option Bytes
  | 0, _, _ => none
  | n + 1, x :: marker :: rest, out =>
    if x ≠ 0xff then none
    else if marker = 0xda then some (out ++ x :: marker :: rest)
    else if isStandalone marker then stripJpegSegments n rest (out ++ [0xff,marker])
    else
      match rest with
      | high :: low :: _ =>
        let len := high.toNat * 256 + low.toNat
        if len < 2 ∨ rest.length < len then none
        else
          stripJpegSegments n (rest.drop len)
            (if isDropped marker then out else out ++ x :: marker :: rest.take len)
      | _ => none
  | _ + 1, _, _ => none

def stripJpeg (bytes : Bytes) : Option Bytes :=
  match bytes with
  | 0xff :: 0xd8 :: rest =>
    if bytes.length < 4 then none else stripJpegSegments bytes.length rest [0xff,0xd8]
  | _ => none

end jpeg

section png

def pngSignature : Bytes := [0x89,0x50,0x4e,0x47,0x0d,0x0a,0x1a,0x0a]

def tEXt : Bytes := [0x74,0x45,0x58,0x74]
def zTXt : Bytes := [0x7a,0x54,0x58,0x74]
def iTXt : Bytes := [0x69,0x54,0x58,0x74]
def eXIf : Bytes := [0x65,0x58,0x49,0x66]
def tIME : Bytes := [0x74,0x49,0x4d,0x45]
def iend : Bytes := [0x49,0x45,0x4e,0x44]

def pngDropChunks : List Bytes := [tEXt,zTXt,iTXt,eXIf,tIME]

def stripPngChunks : Nat → Bytes → Bytes → Option (Bytes × Bytes)
  | 0, bytes, out => some (bytes,out)
  | n + 1, bytes, out =>
    match bytes with
    | l₀ :: l₁ :: l₂ :: l₃ :: t₀ :: t₁ :: t₂ :: t₃ :: _ =>
      let len := signed (big32 l₀ l₁ l₂ l₃)
      if len < 0 then none
      else
        let type := [t₀,t₁,t₂,t₃]
        let chunkEnd := 12 + len.toNat
        if bytes.length < chunkEnd then none
        else
          let out := if type ∈ pngDropChunks then out else out ++ bytes.take chunkEnd
          if type = iend then some (bytes.drop chunkEnd,out)
          else stripPngChunks n (bytes.drop chunkEnd) out
    | _ => some (bytes,out)

/-- The bytes of the type somewhere after the signature. -/
def containsPngChunk (bytes type : Bytes) : Bool := type <:+: bytes.drop 8

def stripPng (bytes : Bytes) : Option Bytes :=
  if bytes.take 8 ≠ pngSignature then none
  else
    match stripPngChunks bytes.length (bytes.drop 8) pngSignature with
    | none => none
    | some (rest,out) => if rest ≠ [] || !containsPngChunk out iend then none else some out

end png

section webp

def riff : Bytes := [0x52,0x49,0x46,0x46]
def webp : Bytes := [0x57,0x45,0x42,0x50]
def exif : Bytes := [0x45,0x58,0x49,0x46]
def xmp : Bytes := [0x58,0x4d,0x50,0x20]
def vp8x : Bytes := [0x56,0x50,0x38,0x58]

def stripWebpChunks : Nat → Bytes → Bytes → Bool → Option (Bytes × Bytes × Bool)
  | 0, bytes, body, removed => some (bytes,body,removed)
  | n + 1, bytes, body, removed =>
    match bytes with
    | c₀ :: c₁ :: c₂ :: c₃ :: s₀ :: s₁ :: s₂ :: s₃ :: _ =>
      let size := signed (big32 s₃ s₂ s₁ s₀)
      if size < 0 then none
      else
        let cc := [c₀,c₁,c₂,c₃]
        let chunkEnd := 8 + (size.toNat + size.toNat % 2)
        if bytes.length < chunkEnd then none
        else if cc = exif ∨ cc = xmp then stripWebpChunks n (bytes.drop chunkEnd) body true
        else stripWebpChunks n (bytes.drop chunkEnd) (body ++ bytes.take chunkEnd) removed
    | _ => some (bytes,body,removed)

def clearFlags (body : Bytes) : Bytes :=
  if 9 ≤ body.length ∧ body.take 4 = vp8x then body.modify 8 fun flags => flags &&& 0xf3 else body

def little32 (n : Nat) : Bytes :=
  [n,n / 2 ^ 8,n / 2 ^ 16,n / 2 ^ 24].map fun k => UInt8.ofNat (k % 256)

def stripWebp (bytes : Bytes) : Option Bytes :=
  if bytes.length < 16 then none
  else if bytes.take 4 ≠ riff ∨ (bytes.drop 8).take 4 ≠ webp then none
  else
    match stripWebpChunks bytes.length (bytes.drop 12) [] false with
    | none => none
    | some (rest,body,removed) =>
      if rest ≠ [] then none
      else if !removed then some bytes
      else some (riff ++ little32 (4 + body.length) ++ webp ++ clearFlags body)

end webp

inductive MimeType where
  | jpeg | png | webp | other
deriving DecidableEq, Repr

def stripImageMetadata (bytes : Bytes) : MimeType → Option Bytes
  | .jpeg => stripJpeg bytes
  | .png => stripPng bytes
  | .webp => stripWebp bytes
  | .other => some bytes

end Yurucommu.StripImage
