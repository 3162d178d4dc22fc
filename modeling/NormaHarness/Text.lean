import Mathlib

/-!
# Text as the standard library reads it

Strings are sequences of Unicode scalar values. Trimming and the two character
classes below follow the Unicode properties that `str::trim` and
`char::is_control` are documented to use. They are closed lists of code points,
so an identifier or a room name can be checked by evaluation.
-/
namespace Text

/-- The `White_Space` property. -/
def isWhitespace (c : Char) : Bool :=
  (0x9 ≤ c.toNat && c.toNat ≤ 0xD) || c.toNat == 0x20 || c.toNat == 0x85 ||
    c.toNat == 0xA0 || c.toNat == 0x1680 || (0x2000 ≤ c.toNat && c.toNat ≤ 0x200A) ||
    c.toNat == 0x2028 || c.toNat == 0x2029 || c.toNat == 0x202F || c.toNat == 0x205F ||
    c.toNat == 0x3000

/-- The general category `Cc`. -/
def isControl (c : Char) : Bool :=
  c.toNat ≤ 0x1F || (0x7F ≤ c.toNat && c.toNat ≤ 0x9F)

def trim (s : String) : String :=
  String.ofList ((s.toList.dropWhile isWhitespace).rdropWhile isWhitespace)

/-- `s.trim().is_empty()`. -/
def isBlank (s : String) : Bool := (trim s).isEmpty

end Text
