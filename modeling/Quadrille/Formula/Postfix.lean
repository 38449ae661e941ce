import Quadrille.Formula.Token

/-!
# Postfix order

Formulas are written with operators between their operands and computed with operators behind them.
`Postfix.ofTokens` rearranges the one into the other: operands keep their order, and an operator
waits on a stack until everything that belongs to its right operand has been put out.

The result of `arrange held tokens` is what is still to be put out, which makes it a plain recursion
on the tokens: output that precedes it is none of its concern.
-/

namespace Quadrille.Postfix

/-- What waits on the stack: an operator for its right operand, or a parenthesis for its partner. -/
inductive Held where
  | operator (op : Operator)
  | leftParen
  deriving DecidableEq, Repr

/-- Takes the waiting operators down to the nearest parenthesis off the stack. -/
def untilParen : List Held → List Token × List Held
  | .operator op :: held => (.operator op :: (untilParen held).1, (untilParen held).2)
  | held => ([], held)

/-- Takes the waiting operators off the stack that come before `op`, which has just been read. -/
def beforeOperator (op : Operator) : List Held → List Token × List Held
  | .operator top :: held =>
    if op.bindsOver top then ([], .operator top :: held)
    else (.operator top :: (beforeOperator op held).1, (beforeOperator op held).2)
  | held => ([], held)

/-- The rest of the output, from what waits on the stack and the tokens still to come. -/
def arrange : (held : List Held) → List Token → Except FormulaError (List Token)
  | held, [] =>
    match untilParen held with
    | (output, []) => .ok output
    | (_, _ :: _) => .error .unbalancedParentheses
  | held, .operand text :: tokens => do
    return .operand text :: (← arrange held tokens)
  | held, .leftParen :: tokens => arrange (.leftParen :: held) tokens
  | held, .rightParen :: tokens =>
    match untilParen held with
    | (_, []) => .error .unbalancedParentheses
    | (output, _ :: below) => do
      return output ++ (← arrange below tokens)
  | held, .operator op :: tokens => do
    let (output, below) := beforeOperator op held
    return output ++ (← arrange (.operator op :: below) tokens)

/-- The postfix order of a sequence of tokens; it has no parentheses. -/
def ofTokens (tokens : List Token) : Except FormulaError (List Token) :=
  arrange [] tokens

/-- The postfix order of the tokens of a text. -/
def ofText (s : String) : Except FormulaError (List Token) := do
  ofTokens (← Token.ofText s)

end Quadrille.Postfix
