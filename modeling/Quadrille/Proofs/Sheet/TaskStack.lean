import Quadrille.Proofs.Sheet.References
import Quadrille.Sheet.Walk

/-!
# The tasks of a walk as a stack of frames

The list of tasks has a shape that the type does not show. Read from the top, it is a run of cells
to be entered, then the cell to be evaluated after them, then the cells still to be entered for the
next evaluation, and so on down to where the walk began. An evaluation with the cells to be entered
above it is a *frame*; the cells of the frames are the active ones.

The point of `Stack` is what it says about the targets of a frame: each is still to be entered, or
done, or it is what the frame above is about. So when the evaluation itself comes to the top all
targets are done, and as long as it does not the frame refers to the one above.

## Implementation notes

`Stack` takes the cell of the frame above as an index, `none` at the top. Without it a frame could
not be described by itself, since the one target that is neither pending nor done is only known from
the frame above. Taking a cell off the pending ones (`Stack.take`) makes it that target; from there
it is either pushed as a new frame or released because it is done (`Stack.release`).

## Main results

* `Stack.take`, `Stack.push`, `Stack.release` — the three moves of a walk
* `Stack.evaluate_inv` — what an evaluation at the top finds
* `Stack.reaches` — all active cells lead to the one at hand
-/

namespace Quadrille

namespace Walk

variable {shape : Shape} {t : Texts shape} {done done' : shape.Place → Prop}
  {busy : Option shape.Place} {tasks rest : List (Task shape)}
  {active : List shape.Place} {p q : shape.Place}

/-- The tasks below the frame of `busy`, or all of them if there is no such frame. The last index
lists the cells of the frames. Below all frames there may be cells to be entered on no one's
behalf. -/
inductive Stack (t : Texts shape) (done : shape.Place → Prop) :
    Option shape.Place → List (Task shape) → List shape.Place → Prop where
  | root (busy : Option shape.Place) (ps : List shape.Place) :
      Stack t done busy (ps.map .enter) []
  | frame {busy : Option shape.Place} {rest : List (Task shape)}
      {active pending targets : List shape.Place} {p : shape.Place} {tree : Tree}
      (below : Stack t done (some p) rest active)
      (fresh : p ∉ active)
      (outlook : t.outlook p = .computed tree targets)
      (pending_targets : ∀ q ∈ pending, q ∈ targets)
      (targets_cases : ∀ q ∈ targets, q ∈ pending ∨ done q ∨ busy = some q)
      (busy_target : ∀ q, busy = some q → q ∈ targets) :
      Stack t done busy (pending.map .enter ++ .evaluate p tree :: rest) (p :: active)

theorem Stack.mono (h : Stack t done busy tasks active) (hdone : ∀ q, done q → done' q) :
    Stack t done' busy tasks active := by
  induction h with
  | root busy ps => exact .root busy ps
  | frame _ fresh outlook pending_targets targets_cases busy_target ih =>
    refine .frame ih fresh outlook pending_targets (fun q hq => ?_) busy_target
    exact (targets_cases q hq).imp_right (Or.imp_left (hdone q))

/-- The next cell to be entered is what the walk is busy with. -/
theorem Stack.take (h : Stack t done none (.enter q :: rest) active) :
    Stack t done (some q) rest active := by
  generalize htasks : (Task.enter q :: rest : List (Task shape)) = tasks at h
  cases h with
  | root busy ps =>
    cases ps with
    | nil => simp at htasks
    | cons p ps =>
      obtain ⟨hp, rfl⟩ := List.cons.inj htasks
      exact .root _ ps
  | @frame _ rest' active' pending targets p tree below fresh outlook hpending hcases _ =>
    cases pending with
    | nil => simp at htasks
    | cons r pending =>
      obtain ⟨hr, rfl⟩ := List.cons.inj htasks
      obtain rfl := Task.enter.inj hr
      refine .frame below fresh outlook (fun q' hq' => hpending q' (List.mem_cons_of_mem _ hq'))
        (fun q' hq' => ?_) fun q' hq' => ?_
      · rcases hcases q' hq' with hmem | hdone | hnone
        · rcases List.mem_cons.mp hmem with rfl | hmem
          · exact Or.inr (Or.inr rfl)
          · exact Or.inl hmem
        · exact Or.inr (Or.inl hdone)
        · simp at hnone
      · obtain rfl := Option.some.inj hq'
        exact hpending q List.mem_cons_self

/-- A cell that is done is not waited for. -/
theorem Stack.release (h : Stack t done (some q) tasks active) (hq : done q) :
    Stack t done none tasks active := by
  cases h with
  | root busy ps => exact .root none ps
  | frame below fresh outlook pending_targets targets_cases _ =>
    refine .frame below fresh outlook pending_targets (fun q' hq' => ?_) (by simp)
    rcases targets_cases q' hq' with hmem | hdone | hbusy
    · exact Or.inl hmem
    · exact Or.inr (Or.inl hdone)
    · obtain rfl := Option.some.inj hbusy
      exact Or.inr (Or.inl hq)

/-- The cell at hand is taken up: its targets are to be entered, and then it is evaluated. -/
theorem Stack.push {tree : Tree} {targets : List shape.Place}
    (h : Stack t done (some p) tasks active) (hp : p ∉ active)
    (ho : t.outlook p = .computed tree targets) :
    Stack t done none (targets.map .enter ++ .evaluate p tree :: tasks) (p :: active) :=
  .frame h hp ho (fun _ hq => hq) (fun _ hq => Or.inl hq) (by simp)

/-- At the top, an evaluation finds all its targets done. -/
theorem Stack.evaluate_inv {tree : Tree}
    (h : Stack t done none (.evaluate p tree :: rest) active) :
    ∃ below targets, active = p :: below ∧ p ∉ below ∧ Stack t done (some p) rest below ∧
      t.outlook p = .computed tree targets ∧ ∀ q ∈ targets, done q := by
  generalize htasks : (Task.evaluate p tree :: rest : List (Task shape)) = tasks at h
  cases h with
  | root busy ps => cases ps <;> simp at htasks
  | @frame _ rest' active' pending targets p' tree' below fresh outlook _ hcases _ =>
    cases pending with
    | cons r pending => simp at htasks
    | nil =>
      obtain ⟨hp, rfl⟩ := List.cons.inj htasks
      obtain ⟨rfl, rfl⟩ := Task.evaluate.inj hp
      refine ⟨active', targets, rfl, fresh, below, outlook, fun q hq => ?_⟩
      simpa using hcases q hq

/-- Every active cell leads to the one at hand. -/
theorem Stack.reaches (h : Stack t done (some q) tasks active) :
    ∀ p ∈ active, Relation.TransGen t.Refers p q := by
  generalize hbusy : some q = busy at h
  induction h generalizing q with
  | root busy ps => simp
  | @frame _ rest' active' pending targets p tree below fresh outlook _ _ busy_target ih =>
    have hpq : t.Refers p q := by
      rw [Texts.refers_iff_mem_targets, outlook]
      exact busy_target q hbusy.symm
    intro r hr
    rcases List.mem_cons.mp hr with rfl | hr
    · exact .single hpq
    · exact (ih rfl r hr).tail hpq

/-- Only cells that can be computed are active. -/
theorem Stack.outlook_eq (h : Stack t done busy tasks active) :
    ∀ p ∈ active, ∃ tree targets, t.outlook p = .computed tree targets := by
  induction h with
  | root busy ps => simp
  | frame _ _ outlook _ _ _ ih =>
    intro r hr
    rcases List.mem_cons.mp hr with rfl | hr
    · exact ⟨_, _, outlook⟩
    · exact ih r hr

/-- Below no frames at all, it does not matter what is at hand. -/
theorem Stack.of_nil {busy' : Option shape.Place} (h : Stack t done busy tasks []) :
    Stack t done busy' tasks [] := by
  cases h with
  | root busy ps => exact .root busy' ps

theorem Stack.active_eq_nil (h : Stack t done busy [] active) : active = [] := by
  generalize htasks : ([] : List (Task shape)) = tasks at h
  cases h with
  | root busy ps => rfl
  | frame => simp at htasks

end Walk

end Quadrille
