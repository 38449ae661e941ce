/-!
# Operators

The four arithmetic operators of formulas: how they are written, how tightly they bind, and what
they compute. Arithmetic is that of doubles, so a division by zero is an infinity or no number
rather than an error.
-/

namespace Quadrille

/-- A binary operator. -/
inductive Operator where
  | add
  | subtract
  | multiply
  | divide
  deriving DecidableEq, Repr

/-- The side on which a chain of equally binding operators groups. -/
inductive Associativity where
  | left
  | right
  deriving DecidableEq, Repr

namespace Operator

/-- The character of an operator. -/
def symbol : Operator → Char
  | .add => '+'
  | .subtract => '-'
  | .multiply => '*'
  | .divide => '/'

/-- The operator that a character stands for. -/
def ofSymbol? (c : Char) : Option Operator :=
  if c = '+' then some .add
  else if c = '-' then some .subtract
  else if c = '*' then some .multiply
  else if c = '/' then some .divide
  else none

/-- How tightly an operator binds; more is tighter. -/
def precedence : Operator → Nat
  | .add | .subtract => 5
  | .multiply | .divide => 6

/-- Every operator groups to the left. -/
def associativity : Operator → Associativity
  | _ => .left

/-- Whether an operator takes the operand before it away from `earlier`, the operator on the other
side of that operand. -/
def bindsOver (op earlier : Operator) : Bool :=
  earlier.precedence < op.precedence ||
    (op.precedence == earlier.precedence && op.associativity == .right)

/-- The value of an operator on two numbers. -/
def apply : Operator → Float → Float → Float
  | .add, x, y => x + y
  | .subtract, x, y => x - y
  | .multiply, x, y => x * y
  | .divide, x, y => x / y

@[simp]
theorem ofSymbol?_symbol (op : Operator) : ofSymbol? op.symbol = some op := by
  cases op <;> rfl

theorem symbol_of_ofSymbol? {c : Char} {op : Operator} (h : ofSymbol? c = some op) :
    op.symbol = c := by
  unfold ofSymbol? at h
  repeat' split at h
  all_goals simp_all [symbol]
  all_goals subst h; rfl

end Operator

end Quadrille
