import Quadrille.Document.File
import Quadrille.Proofs.Sheet.Edits

/-!
# What the operations on a document do

For each operation that can change the sheet or the history, one statement of everything that later
proofs need: that the sheet is up to date afterwards if it was before, what the cells are given, and
what becomes of the history. The statements about undoing and redoing leave open what the cells in
the step are; that they are the right ones is a matter of the history, and not of one operation.

## Main results

* `Document.setText_spec`, `Document.setColors_spec`
* `Document.undo?_spec`, `Document.redo?_spec`
* `Document.load_spec`
-/

namespace Quadrille

variable {shape : Shape}

/-- A place is found for the addresses in the grid. -/
theorem Shape.place_eq_ok_iff {a : Address} {p : shape.Place} :
    shape.place a = .ok p ↔ shape.place? a = some p := by
  rw [place]
  cases shape.place? a <;> simp

namespace Document

variable {d : Document shape} {o : Outcome shape} {a : Address} {text : String} {color : Color}

/-! ### Edits -/

/-- A text is set at the place of an address in the grid, and that is a step if the text is another
than before. -/
theorem setText_spec (h : d.sheet.UpToDate) (ho : d.setText a text = .ok o) :
    ∃ p, shape.place? a = some p ∧ o.document.sheet.UpToDate ∧
      (∀ q, (o.document.sheet.cell q).given =
        if p = q then (text, (d.sheet.cell p).color) else (d.sheet.cell q).given) ∧
      o.document.history = if (d.sheet.cell p).text = text then d.history
        else d.history.record ⟨.textChange, [(p, d.sheet.cell p)]⟩ := by
  obtain ⟨p, hp, ho⟩ := bind_eq_ok_iff.mp ho
  refine ⟨p, Shape.place_eq_ok_iff.mp hp, ?_⟩
  split at ho
  · next htext =>
    obtain rfl := Except.ok.inj ho
    refine ⟨h, fun q => ?_, by rw [if_pos htext]⟩
    split
    · next hpq =>
      subst hpq
      exact (Cell.given_of_text_eq htext).symm
    · rfl
  · next htext =>
    obtain rfl := Except.ok.inj ho
    rw [perform]
    generalize hs : (d.history.dropRemarks _).foldl Session.remark d.session = s
    have hsheet : s.sheet = d.sheet := hs ▸ Session.sheet_foldl_remark _ _
    rw [← hsheet] at h
    refine ⟨Session.upToDate_setText h p text, fun q => ?_, by rw [if_neg htext]⟩
    rw [← hsheet]
    exact Session.given_setText h

/-- Setting a text fails only outside the grid. -/
theorem exists_setText_eq_ok {p : shape.Place} (hp : shape.place? a = some p)
    (d : Document shape) (text : String) : ∃ o, d.setText a text = .ok o := by
  rw [setText, Shape.place_eq_ok_iff.mpr hp]
  by_cases htext : (d.sheet.cell p).text = text
  · exact ⟨_, if_pos htext⟩
  · exact ⟨_, if_neg htext⟩

/-- A color is set at the places of some addresses, all of them in the grid. The cells of another
color are touched, and that is a step if there are any. -/
theorem setColors_spec {as : List Address} (h : d.sheet.UpToDate)
    (ho : d.setColors as color = .ok o) :
    ∃ ps touched, as.mapM shape.place = .ok ps ∧
      (∀ q, q ∈ touched ↔ q ∈ ps ∧ (d.sheet.cell q).color ≠ color) ∧
      o.document.sheet.UpToDate ∧
      (∀ q, (o.document.sheet.cell q).given =
        if q ∈ touched then ((d.sheet.cell q).text, color) else (d.sheet.cell q).given) ∧
      o.document.history = if touched = [] then d.history
        else d.history.record ⟨.colorChange, touched.map fun p => (p, d.sheet.cell p)⟩ := by
  rw [setColors] at ho
  obtain ⟨ps, hps, ho⟩ := bind_eq_ok_iff.mp ho
  refine ⟨ps, ps.eraseDups.filter fun p => (d.sheet.cell p).color != color, hps, by simp, ?_⟩
  dsimp only at ho
  split at ho
  · next hempty =>
    obtain rfl := Except.ok.inj ho
    have hnil := List.isEmpty_iff.mp hempty
    refine ⟨h, fun q => ?_, by rw [if_pos hnil]⟩
    rw [hnil, if_neg List.not_mem_nil]
  · next hempty =>
    obtain rfl := Except.ok.inj ho
    refine ⟨?_, fun q => ?_, by rw [if_neg fun hnil => hempty (by simp [hnil])]; rfl⟩
    · refine Session.upToDate_foldl_setColor ?_ _ color
      rw [Session.sheet_foldl_remark]
      exact h
    · refine (Session.given_foldl_setColor _ color).trans ?_
      rw [Session.sheet_foldl_remark]
      rfl

/-- Setting a color fails only if one of the addresses is outside the grid. -/
theorem exists_setColors_eq_ok {as : List Address} {ps : List shape.Place}
    (hps : as.mapM shape.place = .ok ps) (d : Document shape) (color : Color) :
    ∃ o, d.setColors as color = .ok o := by
  rw [setColors, hps]
  by_cases hempty : (ps.eraseDups.filter fun p => (d.sheet.cell p).color != color).isEmpty = true
  · exact ⟨_, if_pos hempty⟩
  · exact ⟨_, if_neg hempty⟩

/-! ### Undoing and redoing -/

theorem undo?_eq_none_iff : d.undo? = none ↔ d.history.undo = [] := by
  rw [undo?]
  split <;> simp_all

theorem redo?_eq_none_iff : d.redo? = none ↔ d.history.redo = [] := by
  rw [redo?]
  split <;> simp_all

/-- The cells in the latest step are put back, and the step that puts them back again is added to
those to redo. -/
theorem undo?_spec (h : d.sheet.UpToDate) (ho : d.undo? = some o) :
    ∃ step rest, d.history.undo = step :: rest ∧ o.document.sheet.UpToDate ∧
      (∀ g : shape.Place → String × Color, (∀ e ∈ step.cells, e.2.given = g e.1) →
        ∀ q, (o.document.sheet.cell q).given =
          if q ∈ step.cells.map Prod.fst then g q else (d.sheet.cell q).given) ∧
      o.document.history =
        { d.history with undo := rest, redo := d.inverse step :: d.history.redo } := by
  rw [undo?] at ho
  split at ho
  · simp at ho
  · next step rest hstep =>
    obtain rfl := Option.some.inj ho
    refine ⟨step, rest, hstep, ?_, fun g hg q => ?_, rfl⟩
    · exact Session.upToDate_foldl_restore h step.cells
    · exact Session.given_foldl_restore h hg

/-- The other way round. The step that is added to those to undo counts towards the limit. -/
theorem redo?_spec (h : d.sheet.UpToDate) (ho : d.redo? = some o) :
    ∃ step rest, d.history.redo = step :: rest ∧ o.document.sheet.UpToDate ∧
      (∀ g : shape.Place → String × Color, (∀ e ∈ step.cells, e.2.given = g e.1) →
        ∀ q, (o.document.sheet.cell q).given =
          if q ∈ step.cells.map Prod.fst then g q else (d.sheet.cell q).given) ∧
      o.document.history = { d.history.pushUndo (d.inverse step) with redo := rest } := by
  rw [redo?] at ho
  split at ho
  · simp at ho
  · next step rest hstep =>
    obtain rfl := Option.some.inj ho
    have hsheet : ∀ (rs : List (Remark shape)) (s : Session shape),
        (rs.foldl Session.remark s).sheet = s.sheet := fun rs s => Session.sheet_foldl_remark s rs
    refine ⟨step, rest, hstep, ?_, fun g hg q => ?_, rfl⟩
    · rw [hsheet]
      exact Session.upToDate_foldl_restore h step.cells
    · rw [hsheet]
      exact Session.given_foldl_restore h hg

/-! ### Loading -/

/-- What a load puts on the sheet, one cell after another. -/
def contents (placed : List (shape.Place × StoredCell)) : List (shape.Place × Cell) :=
  placed.map fun e => (e.1, { text := e.2.text, color := e.2.color })

/-- A load finds the places of all stored cells first. Then it clears the sheet, puts the cells on
it, and empties the history. -/
theorem load_eq_ok_iff {stored : List StoredCell} :
    d.load stored = .ok o ↔ ∃ placed, stored.mapM (placeOfStored shape) = .ok placed ∧
      let s := (contents placed).foldl (fun s e => s.restore e.1 e.2) d.session.clear
      o = {
        document := { d with sheet := s.sheet, history := d.history.clear, modified := false }
        journal := (s.remark (.loaded placed.length)).journal } := by
  have hfold : ∀ placed : List (shape.Place × StoredCell),
      (contents placed).foldl (fun s e => s.restore e.1 e.2) d.session.clear =
        placed.foldl (fun s e => s.restore e.1 { text := e.2.text, color := e.2.color })
          d.session.clear := fun placed => List.foldl_map ..
  refine bind_eq_ok_iff.trans (exists_congr fun placed => and_congr_right fun _ => ?_)
  rw [hfold]
  exact ⟨fun ho => (Except.ok.inj ho).symm, fun ho => congrArg Except.ok ho.symm⟩

/-- Loading begins with a blank sheet, and empties the history. -/
theorem load_spec {stored : List StoredCell} (ho : d.load stored = .ok o) :
    o.document.sheet.UpToDate ∧ o.document.history = d.history.clear := by
  obtain ⟨placed, -, rfl⟩ := load_eq_ok_iff.mp ho
  refine ⟨Session.upToDate_foldl_restore ?_ _, rfl⟩
  rw [Session.sheet_clear]
  exact Sheet.upToDate_blank

end Document

end Quadrille
