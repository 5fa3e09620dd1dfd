/-!
White space: the characters that may stand around the parts of a time.
-/

namespace StateTree.Text

/-- The code points with the property White_Space. -/
def isBlank (c : Char) : Bool :=
  let n := c.toNat
  (0x9 ≤ n && n ≤ 0xd) || n = 0x20 || n = 0x85 || n = 0xa0 || n = 0x1680 ||
    (0x2000 ≤ n && n ≤ 0x200a) || n = 0x2028 || n = 0x2029 || n = 0x202f || n = 0x205f ||
    n = 0x3000

def skipBlanks (text : List Char) : List Char := text.dropWhile isBlank

end StateTree.Text
