import Mathlib.Data.Fintype.Card
import Mathlib.Logic.Function.Iterate
import Quadrille.Proofs.Sheet.Cascade

/-!
# The course of a recalculation

That a walk and a recalculation come to an end is part of their definitions, which would not be
accepted otherwise. How long they take and what is done on the way does not show in what they
return. Here the course is written down: the *agenda* of a walk is the list of its tasks in the
order in which they are done, and the *itinerary* of a recalculation is the list of the cells that
it makes a walk for.

Every cell is evaluated once at most. An evaluation takes an active cell and leaves it settled, and
what is settled or circular stays so, through the rest of the walk and through all walks after it.
When a walk is cut short the cells that were active become circular at once, so nothing is left
behind for which an evaluation is still to come. For the same reason a cell that has had its walk is
dealt with from then on, whether or not that walk, or one before it, was cut short.

The length of an agenda is bounded because a cell stops waiting only once: what it adds to the tasks
then is an evaluation and at most one task for each cell of the grid.

## Main definitions

* `Marks.Done` — a cell has been dealt with
* `Walk.agenda`, `Walk.evaluated` — the tasks that a walk does, and the cells that it evaluates
* `Walk.budget` — how many tasks there can still be
* `Cascade.itinerary`, `Session.itinerary` — the cells for which there are walks
* `Cascade.agenda` — the tasks of several walks after one another

## Main results

* `Walk.iterate_advance_agenda`, `Walk.length_agenda_add_budget_le`
* `Walk.Sound.evaluates` — what a walk evaluates
* `Cascade.sameWork_run` — a recalculation is the walks of its itinerary
* `Cascade.evaluates_of_atRest`, `Cascade.length_agenda_add_waiting_le`
* `Session.done_recalculated`
-/

namespace Quadrille

variable {shape : Shape}

namespace Marks

variable {marks : Marks shape} {p q : shape.Place} {m : Mark}

/-- A cell has been dealt with: it is up to date, whether or not there is a loop. -/
def Done (marks : Marks shape) (p : shape.Place) : Prop :=
  marks.get p = .settled ∨ marks.get p = .circular

theorem done_iff : marks.Done p ↔ marks.get p ≠ .waiting ∧ marks.get p ≠ .active := by
  rw [Done]
  cases marks.get p <;> simp

/-- A mark that is put on a cell leaves what is done done, if the cell is not done or the mark says
that it is. -/
theorem Done.put (h : marks.Done q) (hm : ¬marks.Done p ∨ m = .settled ∨ m = .circular) :
    Done (marks.put p m) q := by
  rw [Done, Table.get_put]
  split
  · next hpq => exact hm.resolve_left fun hp => hp (hpq ▸ h)
  · exact h

end Marks

/-! ### The agenda of a walk -/

/-- The cell that a task evaluates, if it is an evaluation. -/
def Task.evaluated? : Task shape → Option shape.Place
  | .enter _ => none
  | .evaluate p _ => some p

namespace Walk

variable {before : Sheet shape} {w : Walk shape} {p q : shape.Place} {o : Outlook shape}
  {task : Task shape} {rest : List (Task shape)}

/-- The tasks that a walk does, in order. -/
def agenda (w : Walk shape) : List (Task shape) :=
  match _h : w.tasks with
  | [] => []
  | task :: _ => task :: w.advance.agenda
termination_by w.measure
decreasing_by exact advance_lt (by simp [_h])

theorem agenda_of_eq_nil (ht : w.tasks = []) : w.agenda = [] := by
  rw [agenda]
  split
  · rfl
  · next ht' => simp [ht] at ht'

theorem agenda_of_eq_cons (ht : w.tasks = task :: rest) : w.agenda = task :: w.advance.agenda := by
  rw [agenda]
  split
  · next ht' => simp [ht] at ht'
  · next ht' =>
    obtain ⟨rfl, rfl⟩ := List.cons.inj (ht.symm.trans ht')
    rfl

/-- A walk has come to its end when its agenda is done. -/
theorem iterate_advance_agenda (w : Walk shape) : advance^[w.agenda.length] w = w.run := by
  induction w using Walk.run.induct with
  | case1 w ht =>
    rw [agenda_of_eq_nil ht, run_of_eq_nil ht]
    rfl
  | case2 w ht ih =>
    obtain ⟨task, rest, ht'⟩ := List.exists_cons_of_ne_nil ht
    rw [agenda_of_eq_cons ht', run_of_ne_nil ht, List.length_cons, Function.iterate_succ_apply, ih]

theorem tasks_run (w : Walk shape) : w.run.tasks = [] :=
  (run_induction (P := fun _ => True) (fun _ _ _ => trivial) trivial).2

/-! ### What is done stays done -/

theorem done_cutShort (h : w.marks.Done q) : (w.cutShort p).marks.Done q := by
  rw [Marks.Done, get_marks_cutShort]
  split
  · exact Or.inr rfl
  · exact h

theorem done_respond (hp : ¬w.marks.Done p) (h : w.marks.Done q) :
    (w.respond p o).marks.Done q := by
  cases o with
  | computed tree targets =>
    rw [respond, pursue]
    split
    · exact done_cutShort h
    · exact h.put (Or.inl hp)
  | _ => exact h.put (Or.inl hp)

theorem done_advance (h : w.marks.Done q) : w.advance.marks.Done q := by
  rw [advance]
  split
  · exact h
  · exact h.put (Or.inr (Or.inl rfl))
  · split
    · exact h
    · split
      · exact h
      · exact done_cutShort h
    · next hp => exact done_respond (by simp [Marks.Done, remark, hp]) h
    · next hp => exact done_respond (by simp [Marks.Done, remark, hp]) h

theorem done_run (h : w.marks.Done q) : w.run.marks.Done q :=
  (run_induction (P := fun w => w.marks.Done q) (fun _ _ => done_advance) h).1

/-! ### Evaluations -/

/-- The cells that a walk evaluates, in order. -/
def evaluated (w : Walk shape) : List shape.Place :=
  w.agenda.filterMap Task.evaluated?

/-- A walk evaluates no cell twice, none that had been dealt with before, and only cells that have
been dealt with afterwards. -/
structure Evaluates (w : Walk shape) : Prop where
  nodup : w.evaluated.Nodup
  fresh : ∀ q ∈ w.evaluated, ¬w.marks.Done q
  done : ∀ q ∈ w.evaluated, w.run.marks.Done q

/-- Before an evaluation there is the rest of the agenda to come; the cell is active, and settled
by the time that the rest is begun. -/
theorem Evaluates.of_advance (h : w.advance.Evaluates) (ht : w.tasks = task :: rest)
    (htask : ∀ p, task.evaluated? = some p → ¬w.marks.Done p ∧ w.advance.marks.Done p) :
    w.Evaluates := by
  have hagenda : w.evaluated = task.evaluated?.toList ++ w.advance.evaluated := by
    rw [evaluated, agenda_of_eq_cons ht, List.filterMap_cons]
    cases task.evaluated? <;> rfl
  have hrun : w.run = w.advance.run := run_of_ne_nil (by simp [ht])
  have hmem : ∀ {q}, q ∈ w.evaluated ↔ task.evaluated? = some q ∨ q ∈ w.advance.evaluated := by
    intro q
    rw [hagenda, List.mem_append, Option.mem_toList]
  refine ⟨?_, fun q hq hdone => ?_, fun q hq => ?_⟩
  · rw [hagenda]
    have hone : task.evaluated?.toList.Nodup := by cases task.evaluated? <;> simp
    refine hone.append h.nodup fun q hq hlater => ?_
    exact h.fresh q hlater (htask q (Option.mem_toList.mp hq)).2
  · rcases hmem.mp hq with hq | hq
    · exact (htask q hq).1 hdone
    · exact h.fresh q hq (done_advance hdone)
  · rw [hrun]
    rcases hmem.mp hq with hq | hq
    · exact done_run (htask q hq).2
    · exact h.done q hq

/-- **A walk evaluates every cell once at most.** -/
theorem Sound.evaluates (h : Sound before w) : w.Evaluates := by
  induction w using Walk.run.induct with
  | case1 w ht =>
    have hnil : w.evaluated = [] := by rw [evaluated, agenda_of_eq_nil ht, List.filterMap_nil]
    constructor <;> simp [hnil]
  | case2 w ht ih =>
    obtain ⟨task, rest, ht⟩ := List.exists_cons_of_ne_nil ht
    refine (ih h.advance).of_advance ht fun p hp => ?_
    cases task with
    | enter q => simp [Task.evaluated?] at hp
    | evaluate q tree =>
      obtain rfl := Option.some.inj hp
      obtain ⟨active, hstack, hactive⟩ := h.stack
      rw [ht] at hstack
      obtain ⟨below, targets, rfl, -, -, -, -⟩ := hstack.evaluate_inv
      have hq : w.marks.get q = .active := (hactive q).mpr List.mem_cons_self
      refine ⟨by simp [Marks.Done, hq], ?_⟩
      rw [Walk.advance, ht]
      exact Or.inl (Table.get_put_self _ _ _)

/-- The same of the walk that follows an edit. -/
theorem evaluates_start {session : Session shape} {marks : Marks shape}
    (hs : session.sheet.IndexedBut p) (hu : before.Underway session.sheet marks)
    (hidle : ∀ q, marks.get q ≠ .active) (hp : marks.get p = .waiting) :
    (start session marks p).Evaluates := by
  have ht : (start session marks p).tasks = [.enter p] := rfl
  refine Evaluates.of_advance ?_ ht fun q hq => ?_
  · rw [advance_start_of_waiting hp]
    exact (sound_enter_start hs hu hidle hp).evaluates
  · simp [Task.evaluated?] at hq

/-! ### The number of tasks -/

/-- A bound on the number of tasks to come. A waiting cell may add an evaluation and a task for
each cell of the grid. -/
def budget (w : Walk shape) : Nat :=
  w.marks.waiting * (shape.size + 1) + w.tasks.length

/-- The tasks become fewer, and no cell waits that did not before. -/
theorem budget_lt_of_le {w' : Walk shape} (hm : w'.marks.waiting ≤ w.marks.waiting)
    (ht : w'.tasks.length < w.tasks.length) : w'.budget < w.budget :=
  Nat.add_lt_add_of_le_of_lt (Nat.mul_le_mul_right _ hm) ht

/-- A cell stops waiting, and adds not more tasks than it may. -/
theorem budget_lt_of_lt {w' : Walk shape} (hm : w'.marks.waiting < w.marks.waiting)
    (ht : w'.tasks.length ≤ w.tasks.length + shape.size) : w'.budget < w.budget := by
  have hspent : w'.marks.waiting * (shape.size + 1) + (shape.size + 1) ≤
      w.marks.waiting * (shape.size + 1) := by
    rw [← Nat.succ_mul]
    exact Nat.mul_le_mul_right _ hm
  rw [budget, budget]
  omega

theorem length_targets_le {read : String → Except FormulaError Formula} {text : String}
    {tree : Tree} {targets : List shape.Place}
    (h : Outlook.ofInput shape read text = .computed tree targets) :
    targets.length ≤ shape.size := by
  obtain ⟨body, -, -, hnames⟩ := Outlook.ofInput_eq_computed_iff.mp h
  have hnodup : targets.Nodup :=
    (Shape.pairwise_of_targets_eq_ok hnames).imp fun hlt => Fin.ne_of_lt hlt
  exact hnodup.length_le_card.trans_eq (Fintype.card_fin _)

theorem waiting_cutShort_le (w : Walk shape) (p : shape.Place) :
    (w.cutShort p).marks.waiting ≤ w.marks.waiting :=
  Marks.waiting_foldl_put_le _ _

theorem budget_enter_lt (ht : w.tasks = .enter p :: rest)
    (hp : w.marks.get p = .waiting ∨ w.marks.get p = .active) :
    (w.enter p rest).budget < w.budget := by
  have hlength : w.tasks.length = rest.length + 1 := by rw [ht, List.length_cons]
  have hsettle : Marks.waiting (w.marks.put p .settled) ≤ w.marks.waiting :=
    w.marks.count_put_le p (by decide)
  rw [enter]
  cases ho : w.session.sheet.outlook p with
  | computed tree targets =>
    rw [respond, pursue]
    split
    · exact budget_lt_of_le (waiting_cutShort_le _ p) (by simp [cutShort, ht])
    · next hact =>
      have htargets : targets.length ≤ shape.size := length_targets_le ho
      refine budget_lt_of_lt (Table.count_put_lt (by decide) (hp.resolve_right hact)) ?_
      simp [remark, remember, link, ht]
      omega
  | _ => exact budget_lt_of_le hsettle (by simp [respond, settle, fail, remark, remember, ht])

/-- Every task is paid for. -/
theorem budget_advance_lt (ht : w.tasks ≠ []) : w.advance.budget < w.budget := by
  rw [advance]
  split
  · exact absurd ‹_› ht
  · next p tree rest ht =>
    exact budget_lt_of_le (w.marks.count_put_le p (by decide)) (by simp [evaluate, ht])
  · next p rest ht =>
    have hlt : rest.length < w.tasks.length := by simp [ht]
    split
    · exact budget_lt_of_le le_rfl hlt
    · split
      · exact budget_lt_of_le le_rfl hlt
      · exact budget_lt_of_le (waiting_cutShort_le _ p) (by simp [cutShort, ht])
    · next hp => exact budget_enter_lt ht (Or.inl hp)
    · next hp => exact budget_enter_lt ht (Or.inr hp)

/-- **A walk ends within its budget,** and leaves the rest of it. -/
theorem length_agenda_add_budget_le (w : Walk shape) :
    w.agenda.length + w.run.budget ≤ w.budget := by
  induction w using Walk.run.induct with
  | case1 w ht => rw [agenda_of_eq_nil ht, run_of_eq_nil ht, List.length_nil, Nat.zero_add]
  | case2 w ht ih =>
    obtain ⟨task, rest, ht'⟩ := List.exists_cons_of_ne_nil ht
    have hlt := budget_advance_lt ht
    rw [agenda_of_eq_cons ht', run_of_ne_nil ht, List.length_cons]
    omega

end Walk

namespace Cascade

variable {before : Sheet shape} {c c' : Cascade shape} {ps rest : List shape.Place}
  {o p q : shape.Place}

/-! ### The itinerary of a recalculation -/

/-- Those of some cells that have not been reached, each the first time that it occurs. -/
def newcomers (c : Cascade shape) : List shape.Place → List shape.Place
  | [] => []
  | p :: ps => if c.seen.get p then c.newcomers ps else p :: (c.reach p).newcomers ps

/-- The cells that the search is still going to reach, in order. -/
def itinerary (c : Cascade shape) : List shape.Place :=
  match _h : c.queue with
  | [] => []
  | p :: rest =>
    { c with queue := rest }.newcomers (c.session.sheet.links.dependentsOf p) ++
      ({ c with queue := rest }.visit p).itinerary
termination_by (c.unseen, c.queue.length)
decreasing_by exact visit_lt ‹_›

theorem itinerary_of_eq_nil (hc : c.queue = []) : c.itinerary = [] := by
  rw [itinerary]
  split
  · rfl
  · next hc' => simp [hc] at hc'

theorem itinerary_of_eq_cons (hc : c.queue = p :: rest) :
    c.itinerary = { c with queue := rest }.newcomers (c.session.sheet.links.dependentsOf p) ++
      ({ c with queue := rest }.visit p).itinerary := by
  rw [itinerary]
  split
  · next hc' => simp [hc] at hc'
  · next hc' =>
    obtain ⟨rfl, rfl⟩ := List.cons.inj (hc.symm.trans hc')
    rfl

theorem mem_newcomers : q ∈ c.newcomers ps ↔ q ∈ ps ∧ c.seen.get q = false := by
  induction ps generalizing c with
  | nil => simp [newcomers]
  | cons p ps ih =>
    rw [newcomers]
    split
    · next hp =>
      rw [ih, List.mem_cons]
      refine and_congr_left fun hq => (or_iff_right ?_).symm
      rintro rfl
      simp [hp] at hq
    · next hp =>
      rw [List.mem_cons, ih, List.mem_cons, reach, if_neg hp, Table.get_put]
      split
      · next hpq => simp [← hpq, hp]
      · next hpq => simp [Ne.symm hpq]

theorem nodup_newcomers : (c.newcomers ps).Nodup := by
  induction ps generalizing c with
  | nil => exact List.nodup_nil
  | cons p ps ih =>
    rw [newcomers]
    split
    · exact ih
    · next hp =>
      refine List.nodup_cons.mpr ⟨fun hmem => ?_, ih⟩
      have hseen := (mem_newcomers.mp hmem).2
      rw [reach, if_neg hp, Table.get_put_self] at hseen
      exact absurd hseen (by decide)

theorem seen_run (hq : c.seen.get q = true) : c.run.seen.get q = true :=
  run_induction (P := fun c => c.seen.get q = true)
    (fun _ _ _ _ hq => seen_foldl_reach.mpr (Or.inl hq)) hq

/-- **No cell is reached twice.** The itinerary has the cells that have been reached at the end and
had not been before. -/
theorem mem_itinerary_iff :
    c.itinerary.Nodup ∧ ∀ q, q ∈ c.itinerary ↔ c.run.seen.get q = true ∧ c.seen.get q = false := by
  induction c using Cascade.run.induct with
  | case1 c hc =>
    rw [itinerary_of_eq_nil hc, run_of_eq_nil hc]
    exact ⟨List.nodup_nil, fun q => by simp⟩
  | case2 c p rest hc ih =>
    obtain ⟨hnodup, hmem⟩ := ih
    rw [itinerary_of_eq_cons hc, run_of_eq_cons hc]
    have hvisited : ∀ q, ({ c with queue := rest }.visit p).seen.get q = true ↔
        c.seen.get q = true ∨ q ∈ c.session.sheet.links.dependentsOf p := fun q =>
      seen_foldl_reach
    generalize ({ c with queue := rest } : Cascade shape).visit p = c' at hnodup hmem hvisited ⊢
    refine ⟨nodup_newcomers.append hnodup fun q hq hlater => ?_, fun q => ?_⟩
    · have hseen := (hvisited q).mpr (Or.inr (mem_newcomers.mp hq).1)
      rw [((hmem q).mp hlater).2] at hseen
      exact absurd hseen (by decide)
    · rw [List.mem_append, mem_newcomers, hmem]
      dsimp only
      cases hseen : c'.seen.get q with
      | true =>
        have hcases := (hvisited q).mp hseen
        simp only [seen_run hseen, true_and, Bool.true_eq_false, and_false, or_false]
        exact ⟨And.right, fun hq => ⟨hcases.resolve_left (by simp [hq]), hq⟩⟩
      | false =>
        have hnot := (hvisited q).not.mp (by simp [hseen])
        rw [not_or, Bool.not_eq_true] at hnot
        simp [hnot.1, hnot.2]

/-- Recalculations that have done the same to the sheet, whatever they have still to look at. -/
structure SameWork (c c' : Cascade shape) : Prop where
  session_eq : c'.session = c.session
  marks_eq : c'.marks = c.marks

theorem SameWork.trans {c'' : Cascade shape} (h : c.SameWork c') (h' : c'.SameWork c'') :
    c.SameWork c'' :=
  ⟨h'.session_eq.trans h.session_eq, h'.marks_eq.trans h.marks_eq⟩

theorem SameWork.refresh (h : c.SameWork c') (p : shape.Place) :
    (c.refresh p).SameWork (c'.refresh p) := by
  rw [Cascade.refresh, Cascade.refresh, h.session_eq, h.marks_eq]
  exact ⟨rfl, rfl⟩

theorem SameWork.foldl_refresh (h : c.SameWork c') (ps : List shape.Place) :
    (ps.foldl Cascade.refresh c).SameWork (ps.foldl Cascade.refresh c') := by
  induction ps generalizing c c' with
  | nil => exact h
  | cons p ps ih => exact ih (h.refresh p)

theorem sameWork_foldl_reach :
    ((c.newcomers ps).foldl refresh c).SameWork (ps.foldl reach c) := by
  induction ps generalizing c with
  | nil => exact ⟨rfl, rfl⟩
  | cons p ps ih =>
    rw [newcomers, List.foldl_cons]
    split
    · next hp =>
      rw [reach, if_pos hp]
      exact ih
    · next hp =>
      have hreach : (c.refresh p).SameWork (c.reach p) := by
        rw [reach, if_neg hp]
        exact ⟨rfl, rfl⟩
      exact (hreach.foldl_refresh _).trans ih

/-- **A recalculation is the walks of its itinerary,** one after another. -/
theorem sameWork_run : (c.itinerary.foldl refresh c).SameWork c.run := by
  induction c using Cascade.run.induct with
  | case1 c hc =>
    rw [itinerary_of_eq_nil hc, run_of_eq_nil hc]
    exact ⟨rfl, rfl⟩
  | case2 c p rest hc ih =>
    rw [itinerary_of_eq_cons hc, run_of_eq_cons hc, List.foldl_append]
    have hrest : c.SameWork { c with queue := rest } := ⟨rfl, rfl⟩
    exact (((hrest.foldl_refresh _).trans sameWork_foldl_reach).foldl_refresh _).trans ih

/-! ### The tasks of a recalculation -/

/-- The tasks of the walks for some cells, one walk after another. -/
def agenda (c : Cascade shape) : List shape.Place → List (Task shape)
  | [] => []
  | p :: ps => (Walk.start c.session c.marks p).agenda ++ (c.refresh p).agenda ps

theorem done_refresh (hq : c.marks.Done q) (p : shape.Place) : (c.refresh p).marks.Done q :=
  Walk.done_run hq

theorem atRest_foldl_refresh (h : before.AtRest c.session.sheet c.marks)
    (ps : List shape.Place) :
    before.AtRest (ps.foldl refresh c).session.sheet (ps.foldl refresh c).marks := by
  induction ps generalizing c with
  | nil => exact h
  | cons p ps ih => exact ih (atRest_refresh h p)

/-- **A cell has been dealt with when its walk is over,** cut short or not. -/
theorem done_refresh_self (h : before.AtRest (c.refresh p).session.sheet (c.refresh p).marks) :
    (c.refresh p).marks.Done p :=
  Marks.done_iff.mpr ⟨Walk.run_start_ne_waiting (Or.inl rfl), h.idle p⟩

/-- The walks for some cells evaluate no cell twice, and none that had been dealt with before. -/
structure Evaluates (c : Cascade shape) (ps : List shape.Place) : Prop where
  nodup : ((c.agenda ps).filterMap Task.evaluated?).Nodup
  fresh : ∀ q ∈ (c.agenda ps).filterMap Task.evaluated?, ¬c.marks.Done q

/-- What the first walk evaluates is done before the others begin. -/
theorem Evaluates.cons (h : (c.refresh p).Evaluates ps)
    (hw : (Walk.start c.session c.marks p).Evaluates) : c.Evaluates (p :: ps) := by
  have hagenda : (c.agenda (p :: ps)).filterMap Task.evaluated? =
      (Walk.start c.session c.marks p).evaluated ++
        ((c.refresh p).agenda ps).filterMap Task.evaluated? := List.filterMap_append
  constructor
  · rw [hagenda]
    exact hw.nodup.append h.nodup fun q hq hlater => h.fresh q hlater (hw.done q hq)
  · rw [hagenda]
    intro q hq hdone
    rcases List.mem_append.mp hq with hq | hq
    · exact hw.fresh q hq hdone
    · exact h.fresh q hq (done_refresh hdone p)

theorem evaluates_of_atRest (h : before.AtRest c.session.sheet c.marks) (ps : List shape.Place) :
    c.Evaluates ps := by
  induction ps generalizing c with
  | nil => constructor <;> simp [agenda]
  | cons p ps ih => exact (ih (atRest_refresh h p)).cons (Walk.sound_start h).evaluates

/-- **The walks for some cells end within a budget,** and leave the rest of it. -/
theorem length_agenda_add_waiting_le (c : Cascade shape) (ps : List shape.Place) :
    (c.agenda ps).length + (ps.foldl refresh c).marks.waiting * (shape.size + 1) ≤
      c.marks.waiting * (shape.size + 1) + ps.length := by
  induction ps generalizing c with
  | nil => exact (Nat.zero_add _).le
  | cons p ps ih =>
    have hwalk : (Walk.start c.session c.marks p).agenda.length +
        (c.refresh p).marks.waiting * (shape.size + 1) ≤
          c.marks.waiting * (shape.size + 1) + 1 := by
      have hbudget := (Walk.start c.session c.marks p).length_agenda_add_budget_le
      rw [Walk.budget, Walk.budget, Walk.tasks_run] at hbudget
      exact hbudget
    have hrest := ih (c.refresh p)
    rw [agenda, List.length_append, List.foldl_cons, List.length_cons]
    omega

end Cascade

namespace Session

variable {s : Session shape} {o q : shape.Place}

/-- The cells that a recalculation makes a walk for, in order. -/
def itinerary (s : Session shape) (o : shape.Place) : List shape.Place :=
  o :: ((Cascade.start s o).refresh o).itinerary

theorem nodup_itinerary (s : Session shape) (o : shape.Place) : (s.itinerary o).Nodup := by
  obtain ⟨hnodup, hmem⟩ := ((Cascade.start s o).refresh o).mem_itinerary_iff
  refine List.nodup_cons.mpr ⟨fun ho => ?_, hnodup⟩
  have hseen := ((hmem o).mp ho).2
  rw [Cascade.seen_refresh_start.mpr rfl] at hseen
  exact absurd hseen (by decide)

/-- The recalculation, as the walks that it consists of. -/
def recalculated (s : Session shape) (o : shape.Place) : Cascade shape :=
  (s.itinerary o).foldl Cascade.refresh (Cascade.start s o)

theorem sameWork_recalculated (s : Session shape) (o : shape.Place) :
    (s.recalculated o).SameWork ((Cascade.start s o).refresh o).run :=
  Cascade.sameWork_run

theorem recalculate_eq (s : Session shape) (o : shape.Place) :
    s.recalculate o = (s.recalculated o).session :=
  (s.sameWork_recalculated o).session_eq

/-- **Every cell that sees the edited one has a walk of its own, and is dealt with at the end.** -/
theorem done_recalculated (h : s.sheet.IndexedBut o) :
    s.sheet.AtRest (s.recalculated o).session.sheet (s.recalculated o).marks ∧
      ∀ q, s.sheet.texts.Sees q o → q ∈ s.itinerary o ∧ (s.recalculated o).marks.Done q := by
  obtain ⟨hsound, hreached⟩ := Cascade.sound_run_refresh_start h
  have hsame := s.sameWork_recalculated o
  have hrest := hsound.atRest
  rw [hsame.session_eq, hsame.marks_eq] at hrest
  refine ⟨hrest, fun q hq => ?_⟩
  have hseen := hreached q hq
  have hwaiting := hsound.dealt q hseen
  rw [hsame.marks_eq] at hwaiting
  refine ⟨?_, Marks.done_iff.mpr ⟨hwaiting, hrest.idle q⟩⟩
  by_cases hoq : o = q
  · exact hoq ▸ List.mem_cons_self
  · refine List.mem_cons_of_mem o ((Cascade.mem_itinerary_iff.2 q).mpr ⟨hseen, ?_⟩)
    exact Bool.eq_false_iff.mpr (Cascade.seen_refresh_start.not.mpr hoq)

/-- The first walk of a recalculation makes formulas and links agree with the texts. -/
theorem evaluates_itinerary (h : s.sheet.IndexedBut o) :
    (Cascade.start s o).Evaluates (s.itinerary o) := by
  refine (Cascade.evaluates_of_atRest (Cascade.sound_refresh_start h).atRest _).cons ?_
  exact Walk.evaluates_start h (.refl s.sheet) Marks.idle_fresh (Marks.get_fresh o)

theorem length_agenda_itinerary_le (s : Session shape) (o : shape.Place) :
    ((Cascade.start s o).agenda (s.itinerary o)).length ≤ shape.size * (shape.size + 2) := by
  have hbudget := (Cascade.start s o).length_agenda_add_waiting_le (s.itinerary o)
  have hlength : (s.itinerary o).length ≤ shape.size :=
    (s.nodup_itinerary o).length_le_card.trans_eq (Fintype.card_fin _)
  have hwaiting : (Cascade.start s o).marks.waiting = shape.size := by
    simp [Cascade.start, Marks.fresh, Marks.waiting, Table.count, Table.fill]
  rw [hwaiting] at hbudget
  calc ((Cascade.start s o).agenda (s.itinerary o)).length
      ≤ shape.size * (shape.size + 1) + (s.itinerary o).length :=
        (Nat.le_add_right _ _).trans hbudget
    _ ≤ shape.size * (shape.size + 1) + shape.size := Nat.add_le_add_left hlength _
    _ = shape.size * (shape.size + 2) := (Nat.mul_succ _ _).symm

/-- A cell has been dealt with as soon as its walk is over. -/
theorem done_foldl_refresh (h : s.sheet.IndexedBut o) {earlier later : List shape.Place}
    (hsplit : s.itinerary o = earlier ++ q :: later) :
    ((earlier ++ [q]).foldl Cascade.refresh (Cascade.start s o)).marks.Done q := by
  have hstart := (Cascade.sound_refresh_start h).atRest
  rw [List.foldl_append, List.foldl_cons, List.foldl_nil]
  cases earlier with
  | nil =>
    obtain ⟨rfl, -⟩ := List.cons.inj hsplit
    exact Cascade.done_refresh_self hstart
  | cons p ps =>
    obtain ⟨rfl, -⟩ := List.cons.inj hsplit
    exact Cascade.done_refresh_self
      (Cascade.atRest_refresh (Cascade.atRest_foldl_refresh hstart ps) q)

end Session

end Quadrille
