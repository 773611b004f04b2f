import Paddock.Text.Glyph

/-!
# UTF-8

Three ways to read bytes share one notion of a well-formed sequence: strict reading refuses
ill-formed bytes, lenient reading keeps each as a raw glyph, and replacing reading puts U+FFFD for
each maximal ill-formed part. Writing gives a raw glyph its byte back.
-/

namespace Paddock.Utf8

set_option autoImplicit false

def continues (b : UInt8) : Bool := 0x80 ≤ b && b ≤ 0xBF

/-- Whether `b` may follow the lead byte `lead`. The narrower spans exclude overlong forms,
surrogates and numbers above U+10FFFF. -/
def follows (lead b : UInt8) : Bool :=
  if lead == 0xE0 then 0xA0 ≤ b && b ≤ 0xBF
  else if lead == 0xED then 0x80 ≤ b && b ≤ 0x9F
  else if lead == 0xF0 then 0x90 ≤ b && b ≤ 0xBF
  else if lead == 0xF4 then 0x80 ≤ b && b ≤ 0x8F
  else continues b

/-- How many bytes a sequence with this lead byte has. -/
def width (lead : UInt8) : Option Nat :=
  if lead < 0x80 then some 1
  else if lead < 0xC2 then none
  else if lead < 0xE0 then some 2
  else if lead < 0xF0 then some 3
  else if lead < 0xF5 then some 4
  else none

def low6 (b : UInt8) : Nat := b.toNat % 64

/-- The scalar value that the bytes open with, and the number of bytes after its lead byte. -/
def opening : List UInt8 → Option (Char × Nat)
  | [] => none
  | a :: rest =>
    match width a, rest with
    | some 1, _ => some (Char.ofNat a.toNat, 0)
    | some 2, b :: _ =>
      if continues b then some (Char.ofNat (a.toNat % 32 * 64 + low6 b), 1) else none
    | some 3, b :: c :: _ =>
      if follows a b && continues c then
        some (Char.ofNat (a.toNat % 16 * 4096 + low6 b * 64 + low6 c), 2)
      else none
    | some 4, b :: c :: d :: _ =>
      if follows a b && continues c && continues d then
        some (Char.ofNat (a.toNat % 8 * 262144 + low6 b * 4096 + low6 c * 64 + low6 d), 3)
      else none
    | _, _ => none

/-- How many bytes after the first belong to the ill-formed part that the bytes open with: those
that a well-formed sequence could still have had there. -/
def illFormedTail : List UInt8 → Nat
  | [] => 0
  | a :: rest =>
    match width a, rest with
    | some 3, b :: _ => if follows a b then 1 else 0
    | some 4, [b] => if follows a b then 1 else 0
    | some 4, b :: c :: _ => if follows a b then (if continues c then 2 else 1) else 0
    | _, _ => 0

/-- The glyph of a single byte: itself below 128, raw from there on. -/
def glyphOfByte (b : UInt8) : Glyph :=
  if b < 0x80 then .char (Char.ofNat b.toNat)
  else .raw ⟨b.toNat % 128, Nat.mod_lt _ (by decide)⟩

/-- Lenient reading; `skip` bytes at the front belong to a glyph already given. -/
def lenientFrom : (skip : Nat) → List UInt8 → Text
  | _, [] => []
  | skip + 1, _ :: rest => lenientFrom skip rest
  | 0, a :: rest =>
    match opening (a :: rest) with
    | some (c, n) => .char c :: lenientFrom n rest
    | none => glyphOfByte a :: lenientFrom 0 rest

/-- The text of any bytes, with those outside well-formed sequences kept as raw glyphs. -/
def lenient (bytes : List UInt8) : Text := lenientFrom 0 bytes

def replacingFrom : (skip : Nat) → List UInt8 → List Char
  | _, [] => []
  | skip + 1, _ :: rest => replacingFrom skip rest
  | 0, a :: rest =>
    match opening (a :: rest) with
    | some (c, n) => c :: replacingFrom n rest
    | none => '\uFFFD' :: replacingFrom (illFormedTail (a :: rest)) rest

/-- The characters of any bytes, with U+FFFD for each maximal ill-formed part. -/
def replacing (bytes : List UInt8) : List Char := replacingFrom 0 bytes

def strictFrom : (skip : Nat) → List UInt8 → Option (List Char)
  | _, [] => some []
  | skip + 1, _ :: rest => strictFrom skip rest
  | 0, a :: rest =>
    match opening (a :: rest) with
    | some (c, n) => (strictFrom n rest).map (c :: ·)
    | none => none

def strict? (bytes : List UInt8) : Option (List Char) := strictFrom 0 bytes

def encodeChar (c : Char) : List UInt8 :=
  let n := c.toNat
  if n < 0x80 then [UInt8.ofNat n]
  else if n < 0x800 then [UInt8.ofNat (0xC0 + n / 64), UInt8.ofNat (0x80 + n % 64)]
  else if n < 0x10000 then
    [UInt8.ofNat (0xE0 + n / 4096), UInt8.ofNat (0x80 + n / 64 % 64), UInt8.ofNat (0x80 + n % 64)]
  else
    [UInt8.ofNat (0xF0 + n / 262144), UInt8.ofNat (0x80 + n / 4096 % 64),
      UInt8.ofNat (0x80 + n / 64 % 64), UInt8.ofNat (0x80 + n % 64)]

def encodeGlyph : Glyph → List UInt8
  | .char c => encodeChar c
  | .raw low => [UInt8.ofNat (128 + low)]

def encode (x : Text) : List UInt8 := x.flatMap encodeGlyph

end Paddock.Utf8

namespace Paddock.Text

set_option autoImplicit false

def hasRaw (x : Text) : Bool := x.any fun
  | .raw _ => true
  | .char _ => false

/-- The text as a terminal can show it: raw bytes give way to U+FFFD, one for each maximal
ill-formed part of the bytes they stand among. -/
def printable (x : Text) : Text := ofChars (Utf8.replacing (Utf8.encode x))

theorem hasRaw_printable (x : Text) : hasRaw (printable x) = false := by
  simp [hasRaw, printable, ofChars]

end Paddock.Text
