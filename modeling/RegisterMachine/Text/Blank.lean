import RegisterMachine.Text.Ranges

/-!
# White space

The Unicode property *White_Space*: twenty-five characters, the same in every version of the
standard since 6.3. It decides which symbols need quotes; the scanner has a smaller notion of its
own.
-/

namespace RegisterMachine.Text

/-- Code points with the property White_Space. -/
def blankRanges : List (Nat × Nat) :=
  [(0x09, 0x0D), (0x20, 0x20), (0x85, 0x85), (0xA0, 0xA0), (0x1680, 0x1680), (0x2000, 0x200A),
    (0x2028, 0x2029), (0x202F, 0x202F), (0x205F, 0x205F), (0x3000, 0x3000)]

/-- A character with the property White_Space. -/
def isBlank (c : Char) : Bool := inRanges blankRanges c.toNat

end RegisterMachine.Text
