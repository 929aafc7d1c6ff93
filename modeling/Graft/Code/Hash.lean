import Graft.Code.Lexical
import Graft.Text.Units

/-!
# Structural hashes

Two fragments of code have the same structure when they agree after blanks and
comments outside literals are dropped. The structural hash is a polynomial of
the UTF-16 units of that reduced text, in 32-bit arithmetic that wraps around.
-/

namespace Graft.Code

/-- Code without its comments and without its blanks, except those
inside literals. -/
def normalize (t : Text) : Text := Mode.code.significant t

/-- The 32-bit polynomial hash with base 31 of the UTF-16 units of a text. -/
def textHash (t : Text) : Int32 := t.units.foldl (fun h u => h * 31 + Int32.ofNat u) 0

/-- The hash of code that does not depend on its layout and its comments. -/
def structuralHash (t : Text) : Int32 := textHash (normalize t)

/-- Whether two fragments differ in layout and comments at most. -/
def sameStructure (a b : Text) : Bool := normalize a == normalize b

/-- The text without what stands between two positions. Positions past the end
mean the end, and a stop before the start means the start. -/
def without (t : Text) (start stop : Nat) : Text := t.take start ++ t.drop (max start stop)

/-- The recorded hash that stands for "generated, but do not verify". -/
def uncheckedHash : Int32 := -1

/-- The decimal form of a hash. -/
def showHash (h : Int32) : Text := Text.ofInt h.toInt

end Graft.Code
