import Quadrille.Proofs.Document.Run

/-!
# Undoing and redoing as a walk through time

A history keeps, for each step, only the cells that the step touched. To its user it is as if it
kept whole grids: those before the current one, and those that have been left by undoing. A
`Timeline` is that picture, and every document follows one.

The two meet because nothing on an up-to-date sheet is free but texts and colors. Putting back the
cells of a step gives every cell the text and the color that it had on the other side, and so
everything else that was there, also on cells that the step did not touch.

## Main definitions

* `Timeline` — the grids behind, at and ahead of the present
* `Step.Bridges` — a step leads from one grid to another
* `Trail` — a stack of steps leads through a list of grids

## Main results

* `Document.Follows.attempt` — whatever is done with a document, it follows its timeline
* `Document.timeline_run`
-/

namespace Quadrille

/-- What all cells of a grid hold. -/
abbrev Grid (shape : Shape) := Table Cell shape.size

/-- The grids that undoing leads back to, the latest first; the current one; and those that redoing
leads to, the next first. -/
structure Timeline (shape : Shape) where
  past : List (Grid shape)
  current : Grid shape
  future : List (Grid shape)

variable {shape : Shape}

namespace Timeline

/-- The timeline of an empty document. -/
def start : Timeline shape :=
  ⟨[], Table.fill Cell.blank, []⟩

/-- A grid that is another than the current one comes after it. Of the grids before it the latest
are kept, and there are none ahead. -/
def edit (limit : Nat) (grid : Grid shape) (t : Timeline shape) : Timeline shape :=
  if grid = t.current then t else ⟨(t.current :: t.past).take limit, grid, []⟩

/-- One grid back, if there is one. -/
def undo (t : Timeline shape) : Timeline shape :=
  match t.past with
  | [] => t
  | grid :: past => ⟨past, grid, t.current :: t.future⟩

/-- One grid ahead, if there is one. -/
def redo (t : Timeline shape) : Timeline shape :=
  match t.future with
  | [] => t
  | grid :: future => ⟨t.current :: t.past, grid, future⟩

/-- What an action does to a timeline, given the grid that is there afterwards and whether the
action went well. -/
def step (limit : Nat) (t : Timeline shape) (action : Action) (grid : Grid shape) (well : Bool) :
    Timeline shape :=
  match action with
  | .setText .. | .setColors .. => if well = true then t.edit limit grid else t
  | .undo => t.undo
  | .redo => t.redo
  | .clearHistory => ⟨[], t.current, []⟩
  | .loadText .. | .loadFile .. => if well = true then ⟨[], grid, []⟩ else t
  | .saveFile .. | .saveAs .. => t

end Timeline

/-! ### Steps between grids -/

/-- The cells in a step are those of the second grid, and elsewhere both grids have been given the
same. -/
structure Step.Bridges (step : Step shape) (g g' : Grid shape) : Prop where
  cells : ∀ e ∈ step.cells, e.2 = g'.get e.1
  elsewhere : ∀ q, q ∉ step.cells.map Prod.fst → (g'.get q).given = (g.get q).given

/-- From a grid, a stack of steps leads through a list of grids, all of them of up-to-date
sheets. -/
inductive Trail : Grid shape → List (Step shape) → List (Grid shape) → Prop where
  | nil (g : Grid shape) : Trail g [] []
  | cons {g : Grid shape} {s : Sheet shape} {step : Step shape} {steps : List (Step shape)}
      {grids : List (Grid shape)} (upToDate : s.UpToDate) (bridges : step.Bridges g s.cells)
      (rest : Trail s.cells steps grids) : Trail g (step :: steps) (s.cells :: grids)

namespace Trail

variable {g : Grid shape} {steps : List (Step shape)} {grids : List (Grid shape)}

theorem length_eq (h : Trail g steps grids) : steps.length = grids.length := by
  induction h with
  | nil g => rfl
  | cons _ _ _ ih => rw [List.length_cons, List.length_cons, ih]

theorem take (h : Trail g steps grids) (n : Nat) : Trail g (steps.take n) (grids.take n) := by
  induction h generalizing n with
  | nil g => simpa using Trail.nil g
  | cons upToDate bridges _ ih =>
    cases n with
    | zero => exact .nil _
    | succ n => exact .cons upToDate bridges (ih n)

end Trail

namespace Document

variable {d d' : Document shape} {o : Outcome shape} {step : Step shape} {t : Timeline shape}
  {limit : Nat}

/-- The inverse of a step leads back. -/
theorem bridges_inverse {g' : Grid shape} (h : step.Bridges d.sheet.cells g') :
    (d.inverse step).Bridges g' d.sheet.cells := by
  have hplaces : (d.inverse step).cells.map Prod.fst = step.cells.map Prod.fst := by
    rw [inverse, List.map_map]
    rfl
  refine ⟨fun e he => ?_, fun q hq => ?_⟩
  · obtain ⟨e', -, rfl⟩ := List.mem_map.mp he
    rfl
  · rw [hplaces] at hq
    exact (h.elsewhere q hq).symm

/-- **Putting back the cells of a step gives the sheet that the step leads to.** -/
theorem sheet_eq_of_bridges {s : Sheet shape} (h : d'.sheet.UpToDate) (hs : s.UpToDate)
    (hbridges : step.Bridges d.sheet.cells s.cells)
    (hgiven : ∀ g : shape.Place → String × Color, (∀ e ∈ step.cells, e.2.given = g e.1) →
      ∀ q, (d'.sheet.cell q).given =
        if q ∈ step.cells.map Prod.fst then g q else (d.sheet.cell q).given) :
    d'.sheet = s := by
  refine hs.eq_of_given h fun q => ?_
  rw [hgiven (fun q => (s.cell q).given) fun e he => congrArg Cell.given (hbridges.cells e he)]
  split
  · rfl
  · next hq => exact (hbridges.elsewhere q hq).symm

/-- Reverting a step leads one grid along one trail, and makes the other trail one grid longer. -/
theorem trails_of_revert {steps rest : List (Step shape)} {ahead behind : List (Grid shape)}
    (h : d.sheet.UpToDate) (hs : d'.sheet.UpToDate)
    (hgiven : ∀ g : shape.Place → String × Color, (∀ e ∈ step.cells, e.2.given = g e.1) →
      ∀ q, (d'.sheet.cell q).given =
        if q ∈ step.cells.map Prod.fst then g q else (d.sheet.cell q).given)
    (hahead : Trail d.sheet.cells (step :: rest) ahead)
    (hbehind : Trail d.sheet.cells steps behind) :
    ∃ grids, ahead = d'.sheet.cells :: grids ∧ Trail d'.sheet.cells rest grids ∧
      Trail d'.sheet.cells (d.inverse step :: steps) (d.sheet.cells :: behind) := by
  cases hahead with
  | @cons _ s _ _ grids hs' hbridges hrest =>
    obtain rfl : d'.sheet = s := sheet_eq_of_bridges hs hs' hbridges hgiven
    exact ⟨grids, rfl, hrest, .cons h (bridges_inverse hbridges) hbehind⟩

/-! ### Following a timeline -/

/-- A document follows a timeline: its grid is the current one, and its steps lead through the grids
of the past and of the future. The steps are never more than the limit allows, so that redoing drops
none. -/
structure Follows (limit : Nat) (d : Document shape) (t : Timeline shape) : Prop where
  upToDate : d.sheet.UpToDate
  limit_eq : d.history.limit = limit
  current_eq : t.current = d.sheet.cells
  past : Trail d.sheet.cells d.history.undo t.past
  future : Trail d.sheet.cells d.history.redo t.future
  length_le : d.history.undo.length + d.history.redo.length ≤ limit

namespace Follows

theorem blank (shape : Shape) (limit : Nat) :
    Follows limit (blank shape limit) Timeline.start where
  upToDate := Sheet.upToDate_blank
  limit_eq := rfl
  current_eq := rfl
  past := .nil _
  future := .nil _
  length_le := Nat.zero_le limit

theorem congr (h : Follows limit d t) (hs : d'.sheet = d.sheet) (hh : d'.history = d.history) :
    Follows limit d' t where
  upToDate := hs ▸ h.upToDate
  limit_eq := hh ▸ h.limit_eq
  current_eq := hs ▸ h.current_eq
  past := hs ▸ hh ▸ h.past
  future := hs ▸ hh ▸ h.future
  length_le := hh ▸ h.length_le

/-- An empty history goes with a timeline of one grid. -/
theorem of_clear (h : Follows limit d t) (hs : d'.sheet.UpToDate)
    (hh : d'.history = d.history.clear) : Follows limit d' ⟨[], d'.sheet.cells, []⟩ where
  upToDate := hs
  limit_eq := by rw [hh]; exact h.limit_eq
  current_eq := rfl
  past := by rw [hh]; exact .nil _
  future := by rw [hh]; exact .nil _
  length_le := by rw [hh]; exact Nat.zero_le limit

/-- A step that changes the sheet is recorded, and is a new grid on the timeline; an edit that
changes nothing is neither. -/
theorem edit (h : Follows limit d t) (hs : d'.sheet.UpToDate) (step : Step shape)
    (hcases : (d'.sheet = d.sheet ∧ d'.history = d.history) ∨
      (d'.sheet.cells ≠ d.sheet.cells ∧ d'.history = d.history.record step ∧
        step.Bridges d'.sheet.cells d.sheet.cells)) :
    Follows limit d' (t.edit limit d'.sheet.cells) := by
  rw [Timeline.edit, h.current_eq]
  rcases hcases with ⟨hsheet, hhistory⟩ | ⟨hne, hhistory, hbridges⟩
  · rw [if_pos (congrArg Sheet.cells hsheet)]
    exact h.congr hsheet hhistory
  · rw [if_neg hne]
    have hundo : d'.history.undo = (step :: d.history.undo).take limit := by
      rw [hhistory, ← h.limit_eq]
      rfl
    have hredo : d'.history.redo = [] := by rw [hhistory]; rfl
    refine ⟨hs, by rw [hhistory]; exact h.limit_eq, rfl, ?_, by rw [hredo]; exact .nil _, ?_⟩
    · rw [hundo]
      exact (Trail.cons h.upToDate hbridges h.past).take limit
    · rw [hundo, hredo]
      exact List.length_take_le _ _

theorem setText {a : Address} {text : String} (h : Follows limit d t)
    (ho : d.setText a text = .ok o) :
    Follows limit o.document (t.edit limit o.document.sheet.cells) := by
  obtain ⟨p, -, hs, hgiven, hhistory⟩ := setText_spec h.upToDate ho
  refine h.edit hs ⟨.textChange, [(p, d.sheet.cell p)]⟩ ?_
  by_cases htext : (d.sheet.cell p).text = text
  · refine Or.inl ⟨h.upToDate.eq_of_given hs fun q => ?_, by rw [hhistory, if_pos htext]⟩
    rw [hgiven]
    split
    · next hpq =>
      subst hpq
      exact Cell.given_of_text_eq htext
    · rfl
  · refine Or.inr ⟨fun hcells => htext ?_, by rw [hhistory, if_neg htext], ?_, fun q hq => ?_⟩
    · have hp := hgiven p
      rw [if_pos rfl, Sheet.cell, hcells] at hp
      exact congrArg Prod.fst hp
    · exact List.forall_mem_singleton.mpr rfl
    · have hpq : p ≠ q := fun hpq => hq (List.mem_singleton.mpr hpq.symm)
      exact ((hgiven q).trans (if_neg hpq)).symm

theorem setColors {as : List Address} {color : Color} (h : Follows limit d t)
    (ho : d.setColors as color = .ok o) :
    Follows limit o.document (t.edit limit o.document.sheet.cells) := by
  obtain ⟨ps, touched, -, htouched, hs, hgiven, hhistory⟩ := setColors_spec h.upToDate ho
  refine h.edit hs ⟨.colorChange, touched.map fun p => (p, d.sheet.cell p)⟩ ?_
  have hkept : ∀ q, q ∉ touched → (o.document.sheet.cell q).given = (d.sheet.cell q).given :=
    fun q hq => (hgiven q).trans (if_neg hq)
  cases touched with
  | nil => exact Or.inl ⟨h.upToDate.eq_of_given hs fun q => hkept q List.not_mem_nil, hhistory⟩
  | cons p rest =>
    have hne : p :: rest ≠ [] := List.cons_ne_nil p rest
    refine Or.inr ⟨fun hcells => ?_, by rw [hhistory, if_neg hne], fun e he => ?_, fun q hq => ?_⟩
    · have hp := hgiven p
      rw [if_pos List.mem_cons_self, Sheet.cell, hcells] at hp
      exact ((htouched p).mp List.mem_cons_self).2 (congrArg Prod.snd hp)
    · obtain ⟨q, -, rfl⟩ := List.mem_map.mp he
      rfl
    · rw [List.map_map, show Prod.fst ∘ (fun p => (p, d.sheet.cell p)) = id from rfl,
        List.map_id] at hq
      exact (hkept q hq).symm

theorem undo (h : Follows limit d t) : Follows limit (d.attempt .undo).1 t.undo := by
  rw [Document.attempt]
  cases ho : d.undo? with
  | none =>
    have hpast := h.past
    rw [undo?_eq_none_iff.mp ho] at hpast
    have hnil : t.past = [] := List.eq_nil_of_length_eq_zero hpast.length_eq.symm
    rw [Timeline.undo, hnil]
    exact h
  | some o =>
    show Follows limit o.document t.undo
    obtain ⟨step, rest, hundo, hs, hgiven, hhistory⟩ := undo?_spec h.upToDate ho
    have hlength := h.length_le
    rw [hundo, List.length_cons] at hlength
    obtain ⟨grids, hpast, hrest, hback⟩ :=
      trails_of_revert h.upToDate hs hgiven (hundo ▸ h.past) h.future
    rw [Timeline.undo, hpast, h.current_eq]
    refine ⟨hs, by rw [hhistory]; exact h.limit_eq, rfl, ?_, ?_, ?_⟩
    · rw [hhistory]
      exact hrest
    · rw [hhistory]
      exact hback
    · rw [hhistory, List.length_cons]
      show rest.length + (d.history.redo.length + 1) ≤ limit
      omega

theorem redo (h : Follows limit d t) : Follows limit (d.attempt .redo).1 t.redo := by
  rw [Document.attempt]
  cases ho : d.redo? with
  | none =>
    have hfuture := h.future
    rw [redo?_eq_none_iff.mp ho] at hfuture
    have hnil : t.future = [] := List.eq_nil_of_length_eq_zero hfuture.length_eq.symm
    rw [Timeline.redo, hnil]
    exact h
  | some o =>
    show Follows limit o.document t.redo
    obtain ⟨step, rest, hredo, hs, hgiven, hhistory⟩ := redo?_spec h.upToDate ho
    have hlength := h.length_le
    rw [hredo, List.length_cons] at hlength
    -- the limit leaves room for the step, because there is one less to redo
    have hundo : o.document.history.undo = d.inverse step :: d.history.undo := by
      rw [hhistory]
      refine List.take_of_length_le ?_
      rw [h.limit_eq, List.length_cons]
      omega
    obtain ⟨grids, hfuture, hrest, hback⟩ :=
      trails_of_revert h.upToDate hs hgiven (hredo ▸ h.future) h.past
    rw [Timeline.redo, hfuture, h.current_eq]
    refine ⟨hs, by rw [hhistory]; exact h.limit_eq, rfl, ?_, ?_, ?_⟩
    · rw [hundo]
      exact hback
    · rw [hhistory]
      exact hrest
    · rw [hundo, hhistory, List.length_cons]
      show d.history.undo.length + 1 + rest.length ≤ limit
      omega

/-- **Whatever is done with a document, it follows its timeline.** -/
theorem attempt (h : Follows limit d t) (action : Action) :
    Follows limit (d.attempt action).1
      (t.step limit action (d.attempt action).1.sheet.cells (d.attempt action).2) := by
  cases action with
  | setText a text =>
    rw [Document.attempt]
    cases ho : d.setText a text with
    | ok o => exact h.setText ho
    | error e => exact h
  | setColors as color =>
    rw [Document.attempt]
    cases ho : d.setColors as color with
    | ok o => exact h.setColors ho
    | error e => exact h
  | undo => exact h.undo
  | redo => exact h.redo
  | clearHistory =>
    rw [Timeline.step, h.current_eq]
    exact h.of_clear h.upToDate rfl
  | loadText text =>
    rw [Document.attempt]
    cases ho : d.loadText text with
    | ok o => exact h.of_clear (loadText_spec ho).1 (loadText_spec ho).2
    | error e => exact h
  | loadFile path files =>
    rw [Document.attempt]
    cases ho : ReaderT.run (m := Id) (d.loadFile path) files with
    | ok o => exact h.of_clear (loadFrom_spec ho).1 (loadFrom_spec ho).2
    | error e => exact h
  | saveFile files => exact h.congr (saveFile_spec files).1 (saveFile_spec files).2
  | saveAs path files => exact h.congr (saveAs_spec path files).1 (saveAs_spec path files).2

end Follows

/-- A document and its timeline, after an action. -/
def advance (limit : Nat) (state : Document shape × Timeline shape) (action : Action) :
    Document shape × Timeline shape :=
  let (d, well) := state.1.attempt action
  (d, state.2.step limit action d.sheet.cells well)

/-- A run of a document with its timeline beside it. -/
def runBeside (shape : Shape) (limit : Nat) (actions : List Action) :
    Document shape × Timeline shape :=
  actions.foldl (advance limit) (blank shape limit, Timeline.start)

theorem runBeside_fst (shape : Shape) (limit : Nat) (actions : List Action) :
    (runBeside shape limit actions).1 = run shape limit actions := by
  have hfold : ∀ (actions : List Action) (state : Document shape × Timeline shape),
      (actions.foldl (advance limit) state).1 = actions.foldl act state.1 := by
    intro actions
    induction actions with
    | nil => exact fun _ => rfl
    | cons action actions ih => exact fun state => ih _
  exact hfold actions _

theorem follows_runBeside (shape : Shape) (limit : Nat) (actions : List Action) :
    Follows limit (runBeside shape limit actions).1 (runBeside shape limit actions).2 := by
  have hfold : ∀ (actions : List Action) (state : Document shape × Timeline shape),
      Follows limit state.1 state.2 → Follows limit (actions.foldl (advance limit) state).1
        (actions.foldl (advance limit) state).2 := by
    intro actions
    induction actions with
    | nil => exact fun _ h => h
    | cons action actions ih => exact fun state h => ih _ (h.attempt action)
  exact hfold actions _ (Follows.blank shape limit)

theorem follows_run (shape : Shape) (limit : Nat) (actions : List Action) :
    Follows limit (run shape limit actions) (runBeside shape limit actions).2 :=
  runBeside_fst shape limit actions ▸ follows_runBeside shape limit actions

/-- **Every document follows its timeline.** After any run the grid of the document is the current
one of the timeline that has been kept beside it, there are as many steps to undo and to redo as
there are grids behind and ahead, and undoing and redoing go well if there is such a grid and
otherwise leave the document as it is. -/
theorem timeline_run (shape : Shape) (limit : Nat) (actions : List Action) :
    let (d, t) := runBeside shape limit actions
    d = run shape limit actions ∧ d.sheet.cells = t.current ∧
      d.history.undo.length = t.past.length ∧ d.history.redo.length = t.future.length ∧
      ((d.attempt .undo).2 = true ↔ t.past ≠ []) ∧ (t.past = [] → d.attempt .undo = (d, false)) ∧
      ((d.attempt .redo).2 = true ↔ t.future ≠ []) ∧
      (t.future = [] → d.attempt .redo = (d, false)) := by
  have h := follows_runBeside shape limit actions
  have hrun := runBeside_fst shape limit actions
  generalize runBeside shape limit actions = state at h hrun
  obtain ⟨d, t⟩ := state
  have hundo : d.undo? = none ↔ t.past = [] := by
    rw [undo?_eq_none_iff, ← List.length_eq_zero_iff, h.past.length_eq, List.length_eq_zero_iff]
  have hredo : d.redo? = none ↔ t.future = [] := by
    rw [redo?_eq_none_iff, ← List.length_eq_zero_iff, h.future.length_eq, List.length_eq_zero_iff]
  have helim : ∀ r : Option (Outcome shape),
      (r.elim (d, false) fun o => (o.document, true)).2 = true ↔ r ≠ none := by
    intro r
    cases r <;> simp
  refine ⟨hrun, h.current_eq.symm, h.past.length_eq, h.future.length_eq, ?_, fun hnil => ?_, ?_,
    fun hnil => ?_⟩
  · exact (helim d.undo?).trans (not_congr hundo)
  · rw [attempt, hundo.mpr hnil]
    rfl
  · exact (helim d.redo?).trans (not_congr hredo)
  · rw [attempt, hredo.mpr hnil]
    rfl

/-- Undoing takes the complaint off a cell that the step did not touch, and redoing puts it back. -/
example :
    let actions : List Action := [.setText ⟨0, 0⟩ "=B1", .setText ⟨0, 1⟩ "=A1", .undo]
    ((run ⟨1, 2⟩ 9 actions).cellNamed? "A1").bind Cell.complaint = none ∧
      ((run ⟨1, 2⟩ 9 (actions ++ [.redo])).cellNamed? "A1").bind Cell.complaint =
        some loopComplaint := by
  constructor <;> cbv

end Document

end Quadrille
