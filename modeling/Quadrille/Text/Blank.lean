/-!
# Blank characters

Blanks carry no meaning around a number, a color, a cell name or inside a formula. The class is the
`White_Space` property of the character database, which is wider than the six ASCII blanks: it takes
in the no-break space, the typographic spaces and the two separators, but not the zero-width space.
-/

namespace Quadrille.Text

/-- Whether a character is white space. -/
def isBlank (c : Char) : Bool :=
  let code := c.toNat
  (9 ≤ code && code ≤ 13) || code == 0x20 || code == 0x85 || code == 0xA0 || code == 0x1680 ||
    (0x2000 ≤ code && code ≤ 0x200A) || code == 0x2028 || code == 0x2029 || code == 0x202F ||
    code == 0x205F || code == 0x3000

/-- The characters of a text without the blanks at either end. -/
def trim (cs : List Char) : List Char :=
  ((cs.dropWhile isBlank).reverse.dropWhile isBlank).reverse

/-- A text without the blanks at either end. -/
def trimmed (s : String) : String :=
  String.ofList (trim s.toList)

/-- Whether a text holds nothing but blanks, or nothing at all. -/
def isAllBlank (s : String) : Bool :=
  s.toList.all isBlank

end Quadrille.Text
