import Quadrille.Sheet.Journal

/-!
# Bringing one cell up to date

A walk computes a cell and, before it, the cells that its formula refers to. It is a machine with a
stack of tasks: a cell is *entered*, which leaves its formula to be *evaluated* once the cells
entered after it are done. Every cell carries a mark that says how far it has come.

* `waiting`: not looked at yet;
* `active`: entered and waiting for what it refers to;
* `settled`: up to date;
* `circular`: up to date, and either on a loop of references or leading into one.

Entering an active cell closes a loop, and entering a circular one while others are active leads
into a loop. Both end the walk: all active cells become circular and the remaining tasks are
dropped. So one mark per cell says at once that no cell is both active and settled, and that nothing
is active after a walk has been cut short.

## Implementation notes

`Walk.advance` does one task and `Walk.run` repeats it. The run ends because a task either turns a
waiting cell into something else or leaves the stack shorter; `Walk.advance_lt` is that statement.
-/

namespace Quadrille

/-- How far a cell has come during a recalculation. -/
inductive Mark where
  | waiting
  | active
  | settled
  | circular
  deriving DecidableEq, Repr

/-- Marks for all cells of a grid. -/
abbrev Marks (shape : Shape) := Table Mark shape.size

variable {shape : Shape}

namespace Marks

/-- The marks before a recalculation. -/
def fresh : Marks shape :=
  Table.fill .waiting

/-- The cells with a given mark, in reading order. -/
def places (marks : Marks shape) (mark : Mark) : List shape.Place :=
  (List.finRange shape.size).filter fun p => marks.get p == mark

/-- How many cells are waiting. -/
abbrev waiting (marks : Marks shape) : Nat :=
  marks.count .waiting

theorem waiting_foldl_put_le (ps : List shape.Place) (marks : Marks shape) :
    (ps.foldl (fun marks q => marks.put q .circular) marks).waiting ≤ marks.waiting := by
  induction ps generalizing marks with
  | nil => exact Nat.le_refl _
  | cons q ps ih => exact Nat.le_trans (ih _) (marks.count_put_le q (by decide))

end Marks

/-- A task of a walk. -/
inductive Task (shape : Shape) where
  /-- Bring a cell up to date. -/
  | enter (p : shape.Place)
  /-- Compute the formula of a cell whose references are up to date. -/
  | evaluate (p : shape.Place) (tree : Tree)
  deriving DecidableEq

/-- The complaint on a cell whose formula cannot be computed. -/
def formulaComplaint : String := "#error"

/-- The complaint on a cell that depends on itself, or on a cell that does. -/
def loopComplaint : String := "#error: Cell is referencing itself"

/-- A walk in progress. -/
structure Walk (shape : Shape) where
  session : Session shape
  marks : Marks shape
  /-- What is left to do, the next task first. -/
  tasks : List (Task shape)
  /-- Whether the walk was cut short by a loop. -/
  looped : Bool := false
  deriving DecidableEq

namespace Walk

/-- Writes the outcome of a cell that refers to nothing and settles it. -/
def settle (w : Walk shape) (p : shape.Place) (value : String) (error : Option String) :
    Walk shape :=
  { w with
    session := (w.session.unlink p).writeResult p value error
    marks := w.marks.put p .settled }

/-- Settles a cell whose formula cannot be computed. -/
def fail (w : Walk shape) (p : shape.Place) : Walk shape :=
  w.settle p formulaComplaint (some formulaComplaint)

/-- Adds a remark. -/
def remark (w : Walk shape) (r : Remark shape) : Walk shape :=
  { w with session := w.session.remark r }

/-- Remembers the formula of a cell. -/
def remember (w : Walk shape) (p : shape.Place) (f : Formula) : Walk shape :=
  { w with session := w.session.remember p f }

/-- Replaces the links from a cell. -/
def link (w : Walk shape) (p : shape.Place) (targets : List shape.Place) : Walk shape :=
  { w with session := w.session.link p targets }

/-- Puts the complaint about loops on a cell. -/
def complain (s : Session shape) (p : shape.Place) : Session shape :=
  s.writeResult p loopComplaint (some loopComplaint)

/-- Cuts the walk short at a cell that closes a loop or leads into one. The cell and all active ones
become circular. -/
def cutShort (w : Walk shape) (p : shape.Place) : Walk shape :=
  let members := (List.finRange shape.size).filter fun q => w.marks.get q == .active || q == p
  { session := members.foldl complain (w.session.remark (.loop members))
    marks := members.foldl (fun marks q => marks.put q .circular) w.marks
    tasks := []
    looped := true }

/-- Takes up a cell whose formula can be computed once its targets are up to date. -/
def pursue (w : Walk shape) (p : shape.Place) (tree : Tree) (targets : List shape.Place) :
    Walk shape :=
  if w.marks.get p = .active then w.cutShort p
  else
    { w with
      marks := w.marks.put p .active
      tasks := targets.map .enter ++ .evaluate p tree :: w.tasks }

/-- Does what the outlook of a cell asks for: settles the cell, or takes it up if it has to wait for
others. -/
def respond (w : Walk shape) (p : shape.Place) : Outlook shape → Walk shape
  | .literal text => w.settle p text none
  | .unparsable body e => (w.remark (.unparsable p body e)).fail p
  | .blank text => (w.remember p .blank).settle p text none
  | .invalidReference tree name =>
    ((w.remember p (.expression tree)).remark (.invalidReference p name)).fail p
  | .computed tree targets =>
    ((w.remember p (.expression tree)).link p targets).pursue p tree targets

/-- Enters a cell that is active or waiting, after which `rest` is left to do. -/
def enter (w : Walk shape) (p : shape.Place) (rest : List (Task shape)) : Walk shape :=
  ({ w with tasks := rest }.remark (.recalculating p)).respond p (w.session.sheet.outlook p)

/-- Computes the formula of a cell whose references are up to date, and settles it. -/
def evaluate (w : Walk shape) (p : shape.Place) (tree : Tree) (rest : List (Task shape)) :
    Walk shape :=
  let result := tree.evaluate w.session.sheet.numberNamed
  { w with
    session := w.session.writeResult p (Number.display result) none
    marks := w.marks.put p .settled
    tasks := rest }

/-- Does the next task. -/
def advance (w : Walk shape) : Walk shape :=
  match w.tasks with
  | [] => w
  | .evaluate p tree :: rest => w.evaluate p tree rest
  | .enter p :: rest =>
    match w.marks.get p with
    | .settled => { w with tasks := rest }
    | .circular =>
      if (w.marks.places .active).isEmpty then { w with tasks := rest } else w.cutShort p
    | .waiting | .active => w.enter p rest

/-! ### Termination -/

/-- What the run of a walk decreases: the number of waiting cells, and then the number of tasks. -/
def measure (w : Walk shape) : Nat × Nat :=
  (w.marks.waiting, w.tasks.length)

/-- Fewer waiting cells, or as many and fewer tasks. -/
def Less (w' w : Walk shape) : Prop :=
  Prod.Lex (· < ·) (· < ·) w'.measure w.measure

theorem less_of_le {w' w : Walk shape} (hm : w'.marks.waiting ≤ w.marks.waiting)
    (ht : w'.tasks.length < w.tasks.length) : Less w' w := by
  unfold Less measure
  rcases Nat.lt_or_eq_of_le hm with h | h
  · exact Prod.Lex.left _ _ h
  · rw [h]; exact Prod.Lex.right _ ht

theorem less_of_lt {w' w : Walk shape} (hm : w'.marks.waiting < w.marks.waiting) : Less w' w :=
  Prod.Lex.left _ _ hm

theorem less_settle {w w₀ : Walk shape} {p : shape.Place} {value : String}
    {error : Option String} (hm : w.marks = w₀.marks)
    (ht : w.tasks.length < w₀.tasks.length) : Less (w.settle p value error) w₀ :=
  less_of_le (by simpa [settle, hm] using w₀.marks.count_put_le p (by decide)) ht

theorem less_cutShort {w w₀ : Walk shape} {p : shape.Place} (hm : w.marks = w₀.marks)
    (ht : w₀.tasks ≠ []) : Less (w.cutShort p) w₀ :=
  less_of_le (by simpa [cutShort, hm] using Marks.waiting_foldl_put_le _ w₀.marks)
    (by simpa [cutShort] using List.length_pos_iff.2 ht)

theorem less_pursue {w w₀ : Walk shape} {p : shape.Place} {tree : Tree}
    {targets : List shape.Place} (hm : w.marks = w₀.marks) (ht : w₀.tasks ≠ [])
    (hp : w₀.marks.get p = .waiting ∨ w₀.marks.get p = .active) :
    Less (w.pursue p tree targets) w₀ := by
  unfold pursue
  split
  · exact less_cutShort hm ht
  · next h =>
    rw [hm] at h
    exact less_of_lt (by simpa [hm] using Table.count_put_lt (by decide) (hp.resolve_right h))

theorem less_enter {w : Walk shape} {p : shape.Place} {rest : List (Task shape)}
    (ht : w.tasks = .enter p :: rest) (hp : w.marks.get p = .waiting ∨ w.marks.get p = .active) :
    Less (w.enter p rest) w := by
  have hlen : rest.length < w.tasks.length := by simp [ht]
  unfold enter respond
  split
  · exact less_settle rfl hlen
  · exact less_settle rfl hlen
  · exact less_settle rfl hlen
  · exact less_settle rfl hlen
  · exact less_pursue rfl (by simp [ht]) hp

/-- Doing a task brings the walk closer to its end. -/
theorem advance_lt {w : Walk shape} (h : w.tasks ≠ []) : Less w.advance w := by
  unfold advance
  split
  · exact absurd ‹_› h
  · next p tree rest ht =>
    exact less_of_le (w.marks.count_put_le p (by decide)) (by simp [evaluate, ht])
  · next p rest ht =>
    have hlen : rest.length < w.tasks.length := by simp [ht]
    split
    · exact less_of_le (Nat.le_refl _) hlen
    · split
      · exact less_of_le (Nat.le_refl _) hlen
      · exact less_cutShort rfl h
    · exact less_enter ht (.inl ‹_›)
    · exact less_enter ht (.inr ‹_›)

/-- Does all tasks. -/
def run (w : Walk shape) : Walk shape :=
  if w.tasks = [] then w else w.advance.run
termination_by w.measure
decreasing_by exact advance_lt ‹_›

/-- The walk that brings one cell up to date. -/
def start (session : Session shape) (marks : Marks shape) (p : shape.Place) : Walk shape :=
  { session, marks, tasks := [.enter p] }

end Walk

end Quadrille
