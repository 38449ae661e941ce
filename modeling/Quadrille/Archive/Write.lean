import Quadrille.Address
import Quadrille.Cell
import Quadrille.Markup.Entity

/-!
# Writing stored documents

A stored document lists the cells that have text or a color, each as an element with the name of the
cell and two elements inside it. Cells that have neither are left out; whatever is absent reads back
as a cell without text or color.
-/

namespace Quadrille.Archive

/-- The name of the outermost element of a document. -/
def rootName : List Char := "Spreadsheet".toList

/-- The name of the element of a cell. -/
def cellName : List Char := "SpreadsheetCell".toList

/-- The attribute that holds the name of a cell. -/
def indexName : List Char := "IndexName".toList

/-- The name of the element of a cell's color. -/
def colorName : List Char := "BackgroundColor".toList

/-- The name of the element of a cell's text. -/
def textName : List Char := "Text".toList

/-- A line break and the indentation of an element this deep. -/
def newline (depth : Nat) : List Char :=
  '\n' :: List.replicate (2 * depth) ' '

/-- The start tag of an element. -/
def startTag (name : List Char) : List Char :=
  '<' :: name ++ ['>']

/-- The end tag of an element. -/
def endTag (name : List Char) : List Char :=
  '<' :: '/' :: name ++ ['>']

/-- An element with nothing but text in it. -/
def textElement (name text : List Char) : List Char :=
  startTag name ++ Markup.escape text ++ endTag name

/-- The digits of a color. -/
def colorChars (color : Color) : List Char :=
  Digits.toChars (Digits.ofNat (Digits.count color.toNat) color.toNat)

/-- The element of a cell. -/
def cellElement (a : Address) (c : Cell) : List Char :=
  newline 1 ++ '<' :: cellName ++ ' ' :: indexName ++ ['=', '"'] ++ a.nameChars ++ ['"', '>'] ++
    newline 2 ++ textElement colorName (colorChars c.color) ++
    newline 2 ++ textElement textName c.text.toList ++
    newline 1 ++ endTag cellName

/-- What a document begins with. -/
def heading : List Char :=
  "<?xml version=\"1.0\" encoding=\"utf-8\"?>".toList ++ newline 0 ++ startTag rootName

/-- The characters of a document with some cells. -/
def writeChars (cells : List (Address × Cell)) : List Char :=
  heading ++
    (cells.filter fun (_, c) => !c.isDefault).flatMap (fun (a, c) => cellElement a c) ++
    newline 0 ++ endTag rootName

/-- The text of a document with some cells. -/
def write (cells : List (Address × Cell)) : String :=
  String.ofList (writeChars cells)

end Quadrille.Archive
