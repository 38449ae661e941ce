import Quadrille.Sheet.Walk

/-!
# Recalculating after an edit

When the text of a cell has changed, the cell is brought up to date and then everything that refers
to it, directly or through other cells, nearest first. The cells are found by breadth-first search
along the links, and each is brought up to date by a walk of its own. The walks of one recalculation
share their marks, so a cell reached along several paths is computed once.
-/

namespace Quadrille

variable {shape : Shape}

/-- A recalculation in progress. -/
structure Cascade (shape : Shape) where
  session : Session shape
  marks : Marks shape
  /-- The cells that the search has reached. -/
  seen : Table Bool shape.size
  /-- Cells that have been reached, and whose dependents have not been looked at. -/
  queue : List shape.Place
  deriving DecidableEq

namespace Cascade

/-- Brings one cell up to date, and remarks on it if that ended in a loop. -/
def refresh (c : Cascade shape) (p : shape.Place) : Cascade shape :=
  let w := (Walk.start c.session c.marks p).run
  { c with
    session := if w.looped then w.session.remark (.inLoop p) else w.session
    marks := w.marks }

/-- Reaches a cell: brings it up to date and queues it, unless it has been reached before. -/
def reach (c : Cascade shape) (p : shape.Place) : Cascade shape :=
  if c.seen.get p then c
  else { c.refresh p with seen := c.seen.put p true, queue := c.queue ++ [p] }

/-- Reaches everything that refers to a cell, in reading order. -/
def visit (c : Cascade shape) (p : shape.Place) : Cascade shape :=
  (c.session.sheet.links.dependentsOf p).foldl reach c

/-! ### Termination -/

/-- How many cells have not been reached. -/
def unseen (c : Cascade shape) : Nat :=
  c.seen.count false

/-- Reaching a cell reaches a new one or changes neither the search nor its queue. -/
theorem reach_progress (c : Cascade shape) (p : shape.Place) :
    (c.reach p).unseen < c.unseen ∨ c.reach p = c := by
  unfold reach
  split
  · exact .inr rfl
  · next h => exact .inl (Table.count_put_lt (by decide) (by simpa using h))

theorem foldl_reach_progress (ps : List shape.Place) (c : Cascade shape) :
    (ps.foldl reach c).unseen < c.unseen ∨ ps.foldl reach c = c := by
  induction ps generalizing c with
  | nil => exact .inr rfl
  | cons p ps ih =>
    rw [List.foldl_cons]
    rcases reach_progress c p with hp | hp
    · rcases ih (c.reach p) with hps | hps
      · exact .inl (Nat.lt_trans hps hp)
      · exact .inl (by rw [hps]; exact hp)
    · rw [hp]
      exact ih c

theorem visit_lt {c : Cascade shape} {p : shape.Place} {rest : List shape.Place}
    (h : c.queue = p :: rest) :
    Prod.Lex (· < ·) (· < ·)
      (({ c with queue := rest }.visit p).unseen, ({ c with queue := rest }.visit p).queue.length)
      (c.unseen, c.queue.length) := by
  rcases foldl_reach_progress _ { c with queue := rest } with hlt | heq
  · exact Prod.Lex.left _ _ hlt
  · rw [visit, heq]
    exact Prod.Lex.right _ (by simp [h])

/-- Visits the cells in the queue, and those that are queued meanwhile. -/
def run (c : Cascade shape) : Cascade shape :=
  match _h : c.queue with
  | [] => c
  | p :: rest => ({ c with queue := rest }.visit p).run
termination_by (c.unseen, c.queue.length)
decreasing_by exact visit_lt ‹_›

/-- The recalculation that begins at a cell. -/
def start (session : Session shape) (origin : shape.Place) : Cascade shape :=
  { session
    marks := Marks.fresh
    seen := (Table.fill false).put origin true
    queue := [origin] }

end Cascade

namespace Session

/-- Recalculates a cell and everything that depends on it. -/
def recalculate (s : Session shape) (origin : shape.Place) : Session shape :=
  ((Cascade.start s origin).refresh origin).run.session

/-- Sets the text of a cell and recalculates what depends on it, if that changes the text. -/
def setText (s : Session shape) (p : shape.Place) (text : String) : Session shape :=
  if (s.cell p).text = text then s
  else ((s.write p (.text text)).forget p).recalculate p

/-- Sets the color of a cell. -/
def setColor (s : Session shape) (p : shape.Place) (color : Color) : Session shape :=
  s.write p (.color color)

/-- Sets color and text of a cell to those of another. -/
def restore (s : Session shape) (p : shape.Place) (c : Cell) : Session shape :=
  (s.setColor p c.color).setText p c.text

/-- Clears the sheet, and tells observers that every property of every cell in use may have
changed. -/
def clear (s : Session shape) : Session shape :=
  let occupied := (Sheet.places shape).filter fun p => !(s.cell p).isDefault
  occupied.foldl
    (fun s p =>
      (((s.announce p .text).announce p .value).announce p .backgroundColor).announce p .error)
    { s with sheet := Sheet.blank }

end Session

end Quadrille
