/-!
# Blanks

The white space of Unicode, as its list of code points.
-/

set_option autoImplicit false

namespace DocQuery.Text

/-- The code points of white space above the basic Latin ones. -/
def wideBlanks : List Nat :=
  [0x85, 0xA0, 0x1680, 0x2000, 0x2001, 0x2002, 0x2003, 0x2004, 0x2005, 0x2006, 0x2007, 0x2008,
    0x2009, 0x200A, 0x2028, 0x2029, 0x202F, 0x205F, 0x3000]

/-- White space: the blank, the five control characters that move the writing position, and the
wide blanks. -/
def isBlank (c : Char) : Bool :=
  c == ' ' || decide (9 ≤ c.toNat ∧ c.toNat ≤ 13) || wideBlanks.contains c.toNat

end DocQuery.Text
