/-!
# Blanks and the folding of names

A blank is a character of the Unicode property White_Space. The names of dialects and entities and the texts of timestamps
are read without the blanks around them. Names are folded to lower case in the ASCII range only, so a letter outside it
stands for itself.
-/

namespace WhereClause

/-- The characters of the Unicode property White_Space. -/
def isBlank (c : Char) : Bool :=
  let n := c.toNat
  (0x9 ≤ n && n ≤ 0xD) || n == 0x20 || n == 0x85 || n == 0xA0 || n == 0x1680 || (0x2000 ≤ n && n ≤ 0x200A) ||
    n == 0x2028 || n == 0x2029 || n == 0x202F || n == 0x205F || n == 0x3000

/-- The characters without the blanks at either end. -/
def trimChars (cs : List Char) : List Char :=
  ((cs.dropWhile isBlank).reverse.dropWhile isBlank).reverse

/-- The form in which names are compared: without the blanks around it, ASCII letters in lower case. -/
def foldName (s : String) : String := .ofList ((trimChars s.toList).map Char.toLower)

end WhereClause
