/-!
# What can be wrong with markup
-/

namespace Quadrille

/-- Why a text is not well-formed markup. -/
inductive MarkupError where
  /-- The text ends inside a tag, a comment, a section or an instruction. -/
  | unfinished
  /-- Something other than a comment, a section or a document type follows `<!`. -/
  | invalidDeclaration
  /-- A document type has no name. -/
  | missingDoctypeName
  /-- An end tag does not match the element that is open. -/
  | mismatchedEnd (name : List Char)
  /-- An end tag stands where no element is open. -/
  | unmatchedEnd (name : List Char)
  /-- Text in use holds an ampersand that begins no known entity. -/
  | invalidEntity
  deriving DecidableEq, Repr

/-- The wording of a complaint about markup. -/
def MarkupError.message : MarkupError → String
  | .unfinished => "markup is not finished"
  | .invalidDeclaration => "unknown or missed symbol in markup"
  | .missingDoctypeName => "document type has no name"
  | .mismatchedEnd name => "unexpected end tag: " ++ String.ofList name
  | .unmatchedEnd name => "no open element for end tag: " ++ String.ofList name
  | .invalidEntity => "invalid entity"

end Quadrille
