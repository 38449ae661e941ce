import Quadrille.Formula.Operator
import Quadrille.Text.Blank

/-!
# Tokens of a formula

The text of a formula is a sequence of operands, operators and parentheses. Blanks are dropped
before anything else happens, so they separate nothing: `1 0` is the operand `10`. An operand is a
longest run of letters, digits and points; whether it is a number or a name is decided later.
-/

namespace Quadrille

/-- Why a formula cannot be understood. -/
inductive FormulaError where
  /-- There is nothing to compute. -/
  | noOperands
  /-- A parenthesis has no partner. -/
  | unbalancedParentheses
  /-- A character is neither part of an operand, nor a parenthesis, nor an operator. -/
  | unsupportedOperator (c : Char)
  /-- An operator lacks one of its two operands. -/
  | missingOperand
  /-- Values are left over with no operator to combine them. -/
  | danglingOperands (count : Nat)
  deriving DecidableEq, Repr

/-- The wording of a complaint about a formula. -/
def FormulaError.message : FormulaError → String
  | .noOperands => "Formula has no operands"
  | .unbalancedParentheses => "Unbalanced parentheses"
  | .unsupportedOperator c => s!"Unsupported operator: {c}"
  | .missingOperand => "Operator is missing an operand"
  | .danglingOperands count => s!"{count} operands left without an operator"

/-- A token of a formula. -/
inductive Token where
  | operand (text : String)
  | operator (op : Operator)
  | leftParen
  | rightParen
  deriving DecidableEq, Repr

namespace Token

/-- Whether a character belongs to operands. -/
def isOperandChar (c : Char) : Bool :=
  c.isAlphanum || c == '.'

/-- The token of a character that belongs to no operand. -/
def ofChar (c : Char) : Except FormulaError Token :=
  if c = '(' then .ok .leftParen
  else if c = ')' then .ok .rightParen
  else
    match Operator.ofSymbol? c with
    | some op => .ok (.operator op)
    | none => .error (.unsupportedOperator c)

/-- The operand collected so far, unless nothing has been collected. What has been collected is kept
in reverse. -/
def ofPending : List Char → List Token
  | [] => []
  | pending => [.operand (String.ofList pending.reverse)]

/-- The tokens of a text without blanks, given the operand characters just before it, the last one
first. -/
def scan : (pending : List Char) → List Char → Except FormulaError (List Token)
  | pending, [] => .ok (ofPending pending)
  | pending, c :: cs =>
    if isOperandChar c then scan (c :: pending) cs
    else do
      let token ← ofChar c
      let tokens ← scan [] cs
      return ofPending pending ++ token :: tokens

/-- The tokens of a text, or its first character that belongs to none. -/
def ofText (s : String) : Except FormulaError (List Token) :=
  scan [] (s.toList.filter fun c => !Text.isBlank c)

/-- The characters that a token is written with. -/
def chars : Token → List Char
  | .operand text => text.toList
  | .operator op => [op.symbol]
  | .leftParen => ['(']
  | .rightParen => [')']

/-- The text that a token is written with. -/
def text (t : Token) : String :=
  String.ofList t.chars

end Token

end Quadrille
