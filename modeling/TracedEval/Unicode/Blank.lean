import TracedEval.Unicode.Ranges

/-!
# Blank characters

The Unicode property `White_Space`, which in ASCII is that of the space and of the
five controls from tab to carriage return.
-/

namespace TracedEval.Unicode

def blankRanges : List (Nat × Nat) := [
  (0x9, 0xD), (0x20, 0x20), (0x85, 0x85), (0xA0, 0xA0), (0x1680, 0x1680),
  (0x2000, 0x200A), (0x2028, 0x2029), (0x202F, 0x202F), (0x205F, 0x205F),
  (0x3000, 0x3000)
]

def isBlank (char : Char) : Bool :=
  inRanges blankRanges char.toNat

def trimEnd (chars : List Char) : List Char :=
  (chars.reverse.dropWhile isBlank).reverse

def trim (chars : List Char) : List Char :=
  trimEnd (chars.dropWhile isBlank)

end TracedEval.Unicode
