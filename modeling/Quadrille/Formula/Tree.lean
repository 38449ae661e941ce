import Quadrille.Formula.Postfix
import Quadrille.Number.Display

/-!
# Expression trees

What a formula computes. A tree is folded out of tokens in postfix order (`Tree.ofPostfix`), and its
leaves are constants and variables; the variables of a formula on a sheet are the names of cells.
A blank formula is no error: it is a `Formula` without a tree.
-/

namespace Quadrille

/-- An arithmetic expression. -/
inductive Tree where
  | constant (x : Float)
  | variable (name : String)
  | binary (op : Operator) (left right : Tree)
  deriving DecidableEq

namespace Tree

/-- The value of an expression, given the values of its variables. -/
def evaluate (value : String → Float) : Tree → Float
  | .constant x => x
  | .variable name => value name
  | .binary op left right => op.apply (left.evaluate value) (right.evaluate value)

/-- The variables of an expression that have not been seen yet, behind those that have. -/
def collectNames (seen : List String) : Tree → List String
  | .constant _ => seen
  | .variable name => if seen.contains name then seen else seen ++ [name]
  | .binary _ left right => right.collectNames (left.collectNames seen)

/-- The distinct variables in the order of their first occurrence. -/
def variableNames (t : Tree) : List String :=
  t.collectNames []

/-- The leaf of an operand. An operand that begins like a number and is one is a constant; any other
is a variable, which also keeps words such as `inf` from being numbers. -/
def ofOperand (text : String) : Tree :=
  match text.toList with
  | [] => .variable text
  | c :: _ =>
    if c.isDigit || c == '.' then
      match Number.ofText? text with
      | some x => .constant x
      | none => .variable text
    else
      .variable text

/-- Puts one token in postfix order onto a stack of values, the topmost first. -/
def push (values : List Tree) : Token → Except FormulaError (List Tree)
  | .operand text => .ok (ofOperand text :: values)
  | .operator op =>
    match values with
    | right :: left :: below => .ok (.binary op left right :: below)
    | _ => .error .missingOperand
  | .leftParen | .rightParen => .error .unbalancedParentheses

/-- The tree of tokens in postfix order. -/
def ofPostfix (tokens : List Token) : Except FormulaError Tree := do
  match ← tokens.foldlM push [] with
  | [] => throw .noOperands
  | [tree] => return tree
  | values => throw (.danglingOperands values.length)

/-- A tree in fully parenthesised form with the operators in front. Variables carry a dollar sign,
to tell them from constants. -/
def render : Tree → String
  | .constant x => Number.display x
  | .variable name => "$" ++ name
  | .binary op left right => s!"({op.symbol} {left.render} {right.render})"

end Tree

/-- What a formula text says: nothing, or an expression. -/
inductive Formula where
  | blank
  | expression (tree : Tree)
  deriving DecidableEq

namespace Formula

/-- Reads a formula, without the equals sign in front. -/
def ofText (s : String) : Except FormulaError Formula :=
  if Text.isAllBlank s then .ok .blank
  else do
    let tokens ← Postfix.ofText s
    return .expression (← Tree.ofPostfix tokens)

/-- The distinct variables of a formula. -/
def variableNames : Formula → List String
  | .blank => []
  | .expression tree => tree.variableNames

/-- The value of a formula; that of a blank one is zero. -/
def evaluate (value : String → Float) : Formula → Float
  | .blank => Binary64.ofWord false 0
  | .expression tree => tree.evaluate value

end Formula

/-- Values for some variables. -/
abbrev Bindings := List (String × Float)

/-- The value of a variable; one without a value counts as zero. -/
def Bindings.value (bindings : Bindings) (name : String) : Float :=
  (bindings.lookup name).getD (Binary64.ofWord false 0)

end Quadrille
