import Quadrille.Sheet.Journal

/-!
# History

Two stacks of steps, those that can be undone and those that can be redone, the latest first. A step
holds the cells that it touched as they were before it. Reverting a step puts it on the other stack
with the cells as they were after it, so undoing and redoing are the same operation in two
directions.

A new step empties the stack of steps to redo, and drops the oldest step to undo if there are more
than the limit allows.
-/

namespace Quadrille

variable {shape : Shape}

/-- A step that can be reverted. -/
structure Step (shape : Shape) where
  kind : StepKind
  /-- The cells that the step touched, as they were on the other side of it. -/
  cells : List (shape.Place × Cell)
  deriving DecidableEq

/-- The steps that can be undone and redone. -/
structure History (shape : Shape) where
  undo : List (Step shape) := []
  redo : List (Step shape) := []
  limit : Nat
  deriving DecidableEq

namespace History

/-- Forgets all steps. -/
def clear (h : History shape) : History shape :=
  { h with undo := [], redo := [] }

/-- Puts a step on top of the steps to undo and drops the oldest beyond the limit. -/
def pushUndo (h : History shape) (step : Step shape) : History shape :=
  { h with undo := (step :: h.undo).take h.limit }

/-- Records a new step. -/
def record (h : History shape) (step : Step shape) : History shape :=
  { h.pushUndo step with redo := [] }

/-- The remarks on the steps that `pushUndo` drops, the oldest first. -/
def dropRemarks (h : History shape) (step : Step shape) : List (Remark shape) :=
  ((step :: h.undo).drop h.limit).reverse.map fun dropped => .historyFull h.limit dropped.kind

end History

end Quadrille
