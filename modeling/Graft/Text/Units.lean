import Graft.Text.Basic

/-!
# Measuring text

Positions count characters. Other programs count the bytes of the UTF-8
form, and the hash recorded in source files counts UTF-16 units; this module
holds both measures.
-/

namespace Graft.Text

/-- The number of bytes of a text in UTF-8. -/
def byteLength (t : Text) : Nat := t.foldr (fun c n => c.utf8Size + n) 0

/-- The byte offset of a position. -/
def byteOffset (t : Text) (position : Nat) : Nat := byteLength (t.take position)

/-- The position at a byte offset; an offset past the end means the end, and one
inside a character means the start of that character. -/
def ofByteOffset : Text → Nat → Nat
  | [], _ => 0
  | c :: rest, offset =>
    if c.utf8Size ≤ offset then ofByteOffset rest (offset - c.utf8Size) + 1 else 0

/-- The UTF-16 units of a character: one, or a high and a low surrogate. -/
def unitsOfChar (c : Char) : List Nat :=
  let n := c.toNat
  if n < 0x10000 then [n]
  else [0xD800 + (n - 0x10000) / 0x400, 0xDC00 + (n - 0x10000) % 0x400]

/-- The UTF-16 units of a text. -/
def units (t : Text) : List Nat := t.flatMap unitsOfChar

@[simp] theorem byteLength_nil : byteLength [] = 0 := rfl

@[simp] theorem byteLength_cons (c : Char) (t : Text) :
    byteLength (c :: t) = c.utf8Size + byteLength t := rfl

@[simp] theorem units_nil : units [] = [] := rfl

@[simp] theorem units_append (s t : Text) : units (s ++ t) = units s ++ units t :=
  List.flatMap_append

/-- Positions and byte offsets stand for one another. -/
theorem ofByteOffset_byteOffset (t : Text) (position : Nat) (h : position ≤ t.length) :
    ofByteOffset t (byteOffset t position) = position := by
  induction t generalizing position with
  | nil => simp_all [ofByteOffset]
  | cons c rest ih =>
    cases position with
    | zero =>
      have : 0 < c.utf8Size := Char.utf8Size_pos c
      simp [ofByteOffset, byteOffset]
      omega
    | succ p =>
      have hp : p ≤ rest.length := by simpa using h
      have := ih p hp
      simp only [byteOffset] at this
      simp [ofByteOffset, byteOffset, this]

end Graft.Text
