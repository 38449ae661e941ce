import Mathlib
import Quadrille.Proofs.Document.Timeline

/-!
# Undoing and redoing take each other back

Undoing a step and redoing it gives the document back as it was, and so does redoing a step and
undoing it. This is meant of everything that there is to a document: the cells with their values
and complaints, the links in both directions, the formulas that are remembered, and both stacks of
steps with all that is kept in them. Only the mark for unsaved work is set.

A timeline that goes back and ahead is where it was, so the sheet is no more than a corollary of
following one. The stacks need an argument of their own. A step is put on the other stack with the
cells as they are at that moment, and comes back with the cells as they are one moment later; these
are the cells that it had before, because they are those of the grid that it leads to. And nothing
is dropped on the way back, since the two stacks together never hold more steps than the limit
allows.

## Main definitions

* `Document.times?` — the same operation several times over

## Main results

* `Document.Follows.undo_redo`, `Document.Follows.redo_undo` — one step there and back
* `Document.exists_times?_times?` — several steps
* `Document.reversal_run`
-/

namespace Quadrille

variable {shape : Shape}

namespace Timeline

variable {t : Timeline shape}

theorem redo_undo (h : t.past ≠ []) : t.undo.redo = t := by
  obtain ⟨past, current, future⟩ := t
  cases past with
  | nil => exact absurd rfl h
  | cons grid past => rfl

theorem undo_redo (h : t.future ≠ []) : t.redo.undo = t := by
  obtain ⟨past, current, future⟩ := t
  cases future with
  | nil => exact absurd rfl h
  | cons grid future => rfl

end Timeline

namespace Document

/-- Does the same several times over, if it succeeds each time. -/
def times? (op : Document shape → Option (Outcome shape)) :
    Nat → Document shape → Option (Document shape)
  | 0, d => some d
  | n + 1, d => (op d).bind fun o => times? op n o.document

variable {d d' : Document shape} {o : Outcome shape} {step : Step shape} {t : Timeline shape}
  {limit : Nat}

/-- Doing it once more at the end is doing it once more at the beginning. -/
theorem times?_succ_of_some {op : Document shape → Option (Outcome shape)} {n : Nat}
    (h : times? op n d = some d') (ho : op d' = some o) :
    times? op (n + 1) d = some o.document := by
  induction n generalizing d with
  | zero =>
    obtain rfl := Option.some.inj h
    rw [times?, ho]
    rfl
  | succ n ih =>
    obtain ⟨o₁, ho₁, h⟩ := Option.bind_eq_some_iff.mp h
    rw [times?, ho₁]
    exact ih h

/-! ### One step -/

/-- A step that has been turned round twice is what it was, if its cells are those that it is turned
round for the second time with. -/
theorem inverse_inverse (h : ∀ e ∈ step.cells, e.2 = d'.sheet.cells.get e.1) :
    d'.inverse (d.inverse step) = step := by
  obtain ⟨kind, cells⟩ := step
  rw [inverse, inverse, List.map_map]
  have hcells : cells.map ((fun e => (e.1, d'.sheet.cell e.1)) ∘ fun e => (e.1, d.sheet.cell e.1)) =
      cells := by
    conv_rhs => rw [← List.map_id cells]
    refine List.map_congr_left fun e he => ?_
    exact Prod.ext rfl (h e he).symm
  exact congrArg _ hcells

/-- After putting back a step that leads along a trail, the sheet has the cells that the step
kept. -/
theorem cells_eq_of_trail {rest : List (Step shape)} {grids : List (Grid shape)}
    (h : d'.sheet.UpToDate) (htrail : Trail d.sheet.cells (step :: rest) grids)
    (hgiven : ∀ g : shape.Place → String × Color, (∀ e ∈ step.cells, e.2.given = g e.1) →
      ∀ q, (d'.sheet.cell q).given =
        if q ∈ step.cells.map Prod.fst then g q else (d.sheet.cell q).given) :
    ∀ e ∈ step.cells, e.2 = d'.sheet.cells.get e.1 := by
  cases htrail with
  | @cons _ s _ _ grids hs hbridges _ =>
    obtain rfl : d'.sheet = s := sheet_eq_of_bridges h hs hbridges hgiven
    exact hbridges.cells

namespace Follows

/-- What undoing leaves, in full. The cells in the step are now those of the sheet. -/
theorem exists_undo?_eq_some {rest : List (Step shape)} (h : Follows limit d t)
    (hundo : d.history.undo = step :: rest) :
    ∃ o, d.undo? = some o ∧ Follows limit o.document t.undo ∧
      (∀ e ∈ step.cells, e.2 = o.document.sheet.cells.get e.1) ∧
      o.document =
        { d with
          sheet := o.document.sheet
          history := { d.history with undo := rest, redo := d.inverse step :: d.history.redo }
          modified := true } := by
  cases ho : d.undo? with
  | none =>
    rw [undo?_eq_none_iff.mp ho] at hundo
    simp at hundo
  | some o =>
    have hfollows := h.undo
    rw [Document.attempt, ho] at hfollows
    obtain ⟨step', rest', hundo', hs, hgiven, -⟩ := undo?_spec h.upToDate ho
    obtain ⟨rfl, rfl⟩ := List.cons.inj (hundo.symm.trans hundo')
    refine ⟨o, rfl, hfollows, cells_eq_of_trail hs (hundo ▸ h.past) hgiven, ?_⟩
    rw [undo?, hundo] at ho
    obtain rfl := Option.some.inj ho
    rfl

/-- What redoing leaves, in full. The limit drops nothing. -/
theorem exists_redo?_eq_some {rest : List (Step shape)} (h : Follows limit d t)
    (hredo : d.history.redo = step :: rest) :
    ∃ o, d.redo? = some o ∧ Follows limit o.document t.redo ∧
      (∀ e ∈ step.cells, e.2 = o.document.sheet.cells.get e.1) ∧
      o.document =
        { d with
          sheet := o.document.sheet
          history := { d.history with undo := d.inverse step :: d.history.undo, redo := rest }
          modified := true } := by
  cases ho : d.redo? with
  | none =>
    rw [redo?_eq_none_iff.mp ho] at hredo
    simp at hredo
  | some o =>
    have hfollows := h.redo
    rw [Document.attempt, ho] at hfollows
    obtain ⟨step', rest', hredo', hs, hgiven, -⟩ := redo?_spec h.upToDate ho
    obtain ⟨rfl, rfl⟩ := List.cons.inj (hredo.symm.trans hredo')
    have hlength := h.length_le
    rw [hredo, List.length_cons] at hlength
    have hpush : d.history.pushUndo (d.inverse step) =
        { d.history with undo := d.inverse step :: d.history.undo } := by
      rw [History.pushUndo, List.take_of_length_le]
      rw [h.limit_eq, List.length_cons]
      omega
    refine ⟨o, rfl, hfollows, cells_eq_of_trail hs (hredo ▸ h.future) hgiven, ?_⟩
    rw [redo?, hredo] at ho
    obtain rfl := Option.some.inj ho
    rw [hpush]

/-- Documents that follow the same timeline have the same sheet. -/
theorem sheet_eq (h : Follows limit d t) (h' : Follows limit d' t) : d'.sheet = d.sheet := by
  have hcells : d'.sheet.cells = d.sheet.cells := h'.current_eq.symm.trans h.current_eq
  refine h.upToDate.eq_of_given h'.upToDate fun q => ?_
  rw [Sheet.cell, Sheet.cell, hcells]

/-- **Redoing takes undoing back.** -/
theorem undo_redo (h : Follows limit d t) (hne : d.history.undo ≠ []) :
    ∃ o o', d.undo? = some o ∧ o.document.redo? = some o' ∧
      Follows limit o.document t.undo ∧
      o.document.history.undo.length + 1 = d.history.undo.length ∧
      (o.document.path = d.path ∧ o.document.history.limit = d.history.limit ∧
        o.document.modified = true) ∧
      o'.document = { d with modified := true } := by
  obtain ⟨step, rest, hundo⟩ := List.exists_cons_of_ne_nil hne
  obtain ⟨o, ho, hfollows, hcells, hdocument⟩ := h.exists_undo?_eq_some hundo
  have hredo : o.document.history.redo = d.inverse step :: d.history.redo := by rw [hdocument]
  obtain ⟨o', ho', hfollows', -, hdocument'⟩ := hfollows.exists_redo?_eq_some hredo
  have hpast : t.past ≠ [] := by
    have hlength := h.past.length_eq
    rw [hundo] at hlength
    rintro hnil
    simp [hnil] at hlength
  rw [Timeline.redo_undo hpast] at hfollows'
  refine ⟨o, o', ho, ho', hfollows, ?_, ?_, ?_⟩
  · rw [hdocument, hundo, List.length_cons]
  · rw [hdocument]
    exact ⟨rfl, rfl, rfl⟩
  · rw [hdocument', h.sheet_eq hfollows', inverse_inverse hcells, hdocument, ← hundo]

/-- **Undoing takes redoing back.** -/
theorem redo_undo (h : Follows limit d t) (hne : d.history.redo ≠ []) :
    ∃ o o', d.redo? = some o ∧ o.document.undo? = some o' ∧
      Follows limit o.document t.redo ∧
      o.document.history.redo.length + 1 = d.history.redo.length ∧
      (o.document.path = d.path ∧ o.document.history.limit = d.history.limit ∧
        o.document.modified = true) ∧
      o'.document = { d with modified := true } := by
  obtain ⟨step, rest, hredo⟩ := List.exists_cons_of_ne_nil hne
  obtain ⟨o, ho, hfollows, hcells, hdocument⟩ := h.exists_redo?_eq_some hredo
  have hundo : o.document.history.undo = d.inverse step :: d.history.undo := by rw [hdocument]
  obtain ⟨o', ho', hfollows', -, hdocument'⟩ := hfollows.exists_undo?_eq_some hundo
  have hfuture : t.future ≠ [] := by
    have hlength := h.future.length_eq
    rw [hredo] at hlength
    rintro hnil
    simp [hnil] at hlength
  rw [Timeline.undo_redo hfuture] at hfollows'
  refine ⟨o, o', ho, ho', hfollows, ?_, ?_, ?_⟩
  · rw [hdocument, hredo, List.length_cons]
  · rw [hdocument]
    exact ⟨rfl, rfl, rfl⟩
  · rw [hdocument', h.sheet_eq hfollows', inverse_inverse hcells, hdocument, ← hredo]

end Follows

/-! ### Several steps -/

/-- If one operation takes back another step by step, then as often as the first can be done the
second takes it back. `depth` says how often that is. -/
theorem exists_times?_times? {op back : Document shape → Option (Outcome shape)}
    {P : Document shape → Prop} (depth : Document shape → Nat)
    (hstep : ∀ d, P d → depth d ≠ 0 → ∃ o o', op d = some o ∧ back o.document = some o' ∧
      P o.document ∧ depth o.document + 1 = depth d ∧ o.document.modified = true ∧
      o'.document = { d with modified := true })
    {n : Nat} (hd : P d) (hn : n ≤ depth d) :
    ∃ d', times? op n d = some d' ∧
      times? back n d' = some (if n = 0 then d else { d with modified := true }) := by
  induction n generalizing d with
  | zero => exact ⟨d, rfl, rfl⟩
  | succ n ih =>
    obtain ⟨o, o', ho, ho', hP, hdepth, hmodified, hback⟩ := hstep d hd (by omega)
    obtain ⟨d', hthere, hagain⟩ := ih hP (by omega)
    -- the steps after the first one have been taken back, and their mark was there already
    have hsame : (if n = 0 then o.document else { o.document with modified := true }) =
        o.document := by
      rw [← hmodified, ite_self]
    rw [hsame] at hagain
    refine ⟨d', ?_, ?_⟩
    · rw [times?, ho]
      exact hthere
    · rw [times?_succ_of_some hagain ho', hback, if_neg (Nat.succ_ne_zero n)]

/-- **Undoing and redoing take each other back,** in every document that can be reached. One step
undone and redone, or redone and undone, leaves the whole document as it was but for the mark for
unsaved work, and so do several steps, as many as there are. -/
theorem reversal_run (shape : Shape) (limit : Nat) (actions : List Action) :
    let d := run shape limit actions
    (d.history.undo ≠ [] → ∃ o o', d.undo? = some o ∧ o.document.redo? = some o' ∧
      (o.document.path = d.path ∧ o.document.history.limit = d.history.limit ∧
        o.document.modified = true) ∧
      o'.document = { d with modified := true }) ∧
    (d.history.redo ≠ [] → ∃ o o', d.redo? = some o ∧ o.document.undo? = some o' ∧
      (o.document.path = d.path ∧ o.document.history.limit = d.history.limit ∧
        o.document.modified = true) ∧
      o'.document = { d with modified := true }) ∧
    (∀ n ≤ d.history.undo.length, ∃ d', times? undo? n d = some d' ∧
      times? redo? n d' = some (if n = 0 then d else { d with modified := true })) ∧
    ∀ n ≤ d.history.redo.length, ∃ d', times? redo? n d = some d' ∧
      times? undo? n d' = some (if n = 0 then d else { d with modified := true }) := by
  intro d
  have h := follows_run shape limit actions
  refine ⟨fun hne => ?_, fun hne => ?_, fun n hn => ?_, fun n hn => ?_⟩
  · obtain ⟨o, o', ho, ho', -, -, hkept, hback⟩ := h.undo_redo hne
    exact ⟨o, o', ho, ho', hkept, hback⟩
  · obtain ⟨o, o', ho, ho', -, -, hkept, hback⟩ := h.redo_undo hne
    exact ⟨o, o', ho, ho', hkept, hback⟩
  · refine exists_times?_times? (P := fun d => ∃ t, Follows limit d t)
      (fun d => d.history.undo.length) (fun d ⟨t, hd⟩ hne => ?_) ⟨_, h⟩ hn
    obtain ⟨o, o', ho, ho', hfollows, hdepth, hkept, hback⟩ :=
      hd.undo_redo (List.length_eq_zero_iff.not.mp hne)
    exact ⟨o, o', ho, ho', ⟨_, hfollows⟩, hdepth, hkept.2.2, hback⟩
  · refine exists_times?_times? (P := fun d => ∃ t, Follows limit d t)
      (fun d => d.history.redo.length) (fun d ⟨t, hd⟩ hne => ?_) ⟨_, h⟩ hn
    obtain ⟨o, o', ho, ho', hfollows, hdepth, hkept, hback⟩ :=
      hd.redo_undo (List.length_eq_zero_iff.not.mp hne)
    exact ⟨o, o', ho, ho', ⟨_, hfollows⟩, hdepth, hkept.2.2, hback⟩

/-- Closing a loop, and opening it again by undoing. There is a step on either side then. -/
theorem reversal_run_opened_loop :
    let actions : List Action := [.setText ⟨0, 0⟩ "=B1", .setText ⟨0, 1⟩ "=A1", .undo]
    let d : Document ⟨1, 2⟩ := run ⟨1, 2⟩ 9 actions
    (d.history.undo ≠ [] ∧ ∃ o o', d.undo? = some o ∧ o.document.redo? = some o' ∧
      o'.document = { d with modified := true }) ∧
    d.history.redo ≠ [] ∧ ∃ o o', d.redo? = some o ∧ o.document.undo? = some o' ∧
      o'.document = { d with modified := true } := by
  have hlengths : let actions : List Action :=
        [.setText ⟨0, 0⟩ "=B1", .setText ⟨0, 1⟩ "=A1", .undo]
      let d : Document ⟨1, 2⟩ := run ⟨1, 2⟩ 9 actions
      d.history.undo.length = 1 ∧ d.history.redo.length = 1 := by
    constructor <;> cbv
  intro actions d
  have hundo : d.history.undo ≠ [] := List.ne_nil_of_length_eq_add_one hlengths.1
  have hredo : d.history.redo ≠ [] := List.ne_nil_of_length_eq_add_one hlengths.2
  obtain ⟨o, o', ho, ho', -, hback⟩ := (reversal_run ⟨1, 2⟩ 9 actions).1 hundo
  obtain ⟨r, r', hr, hr', -, hforth⟩ := (reversal_run ⟨1, 2⟩ 9 actions).2.1 hredo
  exact ⟨⟨hundo, o, o', ho, ho', hback⟩, hredo, r, r', hr, hr', hforth⟩

end Document

end Quadrille
