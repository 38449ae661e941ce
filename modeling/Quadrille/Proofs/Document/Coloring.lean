import Quadrille.Proofs.Document.InPlace
import Quadrille.Proofs.FirstMention

/-!
# Coloring many cells

Coloring takes a list of addresses, in which there may be repetitions and cells that have the color
already. It comes to a single step all the same, which holds exactly the cells that change, each
once and as it was before, and does not come about if there are none. Nothing but colors changes, so
neither the links nor the formulas that have been read are touched.

The order of the cells in the step is that of their first mention. It is stated without the function
that leaves out repetitions: along the step, the places at which the list first mentions the cells
go up. That the cells are different is part of this.

## Main definitions

* `Document.Recolors` — a cell that is mentioned and has another color
* `Document.ColorsInOneStep` — what coloring has to do to a document

## Main results

* `Document.coloring_run` — coloring does what it has to do to every document
-/

namespace Quadrille

variable {shape : Shape}

theorem Shape.address_injective : Function.Injective shape.address := by
  intro p q h
  have hp := place?_address p
  rw [h, place?_address] at hp
  exact (Option.some.inj hp).symm

namespace Session

variable {s : Session shape} {q : shape.Place}

theorem cell_foldl_setColor (ps : List shape.Place) (color : Color) :
    (ps.foldl (fun s p => s.setColor p color) s).sheet.cell q =
      if q ∈ ps then { s.sheet.cell q with color } else s.sheet.cell q := by
  induction ps generalizing s with
  | nil => simp
  | cons p ps ih =>
    rw [List.foldl_cons, ih, cell_setColor]
    by_cases hpq : p = q
    · subst hpq
      simp
    · simp [hpq, Ne.symm hpq]

theorem links_foldl_setColor (ps : List shape.Place) (color : Color) :
    (ps.foldl (fun s p => s.setColor p color) s).sheet.links = s.sheet.links := by
  induction ps generalizing s with
  | nil => rfl
  | cons p ps ih => rw [List.foldl_cons, ih, setColor, links_write]

theorem formulas_foldl_setColor (ps : List shape.Place) (color : Color) :
    (ps.foldl (fun s p => s.setColor p color) s).sheet.formulas = s.sheet.formulas := by
  induction ps generalizing s with
  | nil => rfl
  | cons p ps ih => rw [List.foldl_cons, ih, setColor, formulas_write]

end Session

namespace Document

variable {d d' : Document shape} {as : List Address} {color : Color}

/-- Whether a cell is mentioned and has another color. -/
def Recolors (d : Document shape) (as : List Address) (color : Color) (p : shape.Place) : Prop :=
  shape.address p ∈ as ∧ (d.sheet.cell p).color ≠ color

/-- What coloring the cells at some addresses does to a document. They have the color afterwards,
and nothing else on the sheet is different. If that changes a color, there is one step more to undo
and none to redo. The step holds the cells whose color changes as they were before, each once and in
the order in which they are first mentioned, and undoing it gives back the sheet as it was. If it
changes none, nothing is different at all. -/
structure ColorsInOneStep (d : Document shape) (as : List Address) (color : Color)
    (d' : Document shape) : Prop where
  cell : ∀ p, d'.sheet.cell p =
    if shape.address p ∈ as then { d.sheet.cell p with color } else d.sheet.cell p
  links : d'.sheet.links = d.sheet.links
  formulas : d'.sheet.formulas = d.sheet.formulas
  path : d'.path = d.path
  unchanged : (∀ p, ¬d.Recolors as color p) → d' = d
  recorded : ∀ p, d.Recolors as color p → d'.modified = true ∧ ∃ cells,
    d'.history = { d.history with
      undo := (⟨.colorChange, cells⟩ :: d.history.undo).take d.history.limit, redo := [] } ∧
    (∀ q, q ∈ cells.map Prod.fst ↔ d.Recolors as color q) ∧
    (∀ e ∈ cells, e.2 = d.sheet.cell e.1) ∧
    (cells.map fun e => as.idxOf (shape.address e.1)).Pairwise (· < ·)
  undone : ∀ p, d.Recolors as color p → 1 ≤ d.history.limit →
    ∃ o, d'.undo? = some o ∧ o.document.sheet = d.sheet

/-- The places of addresses in the grid have these addresses. -/
theorem exists_mapM_place_eq_ok (h : ∀ a ∈ as, shape.Holds a) :
    ∃ ps, as.mapM shape.place = .ok ps ∧ ps.map shape.address = as := by
  induction as with
  | nil => exact ⟨[], rfl, rfl⟩
  | cons a as ih =>
    obtain ⟨ha, has⟩ := List.forall_mem_cons.mp h
    obtain ⟨p, hp⟩ := exists_place_eq_ok_iff.mpr ha
    obtain ⟨ps, hps, hmap⟩ := ih has
    refine ⟨p :: ps, by rw [mapM_cons_of_ok hp, hps]; rfl, ?_⟩
    rw [List.map_cons, hmap, Shape.place?_eq_some_iff.mp (Shape.place_eq_ok_iff.mp hp)]

/-- Putting back what a step holds leads back to an up-to-date sheet, if nothing has changed
elsewhere. -/
theorem exists_undo_eq_sheet {step : Step shape} {rest : List (Step shape)}
    (h : d.sheet.UpToDate) (h' : d'.sheet.UpToDate) (hundo : d'.history.undo = step :: rest)
    (hcells : ∀ e ∈ step.cells, e.2 = d.sheet.cell e.1)
    (helse : ∀ q, q ∉ step.cells.map Prod.fst → d'.sheet.cell q = d.sheet.cell q) :
    ∃ o, d'.undo? = some o ∧ o.document.sheet = d.sheet := by
  cases ho : d'.undo? with
  | none => simp [undo?_eq_none_iff.mp ho] at hundo
  | some o =>
    obtain ⟨step', rest', hundo', hsheet, hgiven, -⟩ := undo?_spec h' ho
    obtain ⟨rfl, rfl⟩ := List.cons.inj (hundo'.symm.trans hundo)
    refine ⟨o, rfl, h.eq_of_given hsheet fun q => ?_⟩
    rw [hgiven (fun q => (d.sheet.cell q).given) fun e he => congrArg Cell.given (hcells e he)]
    split
    · rfl
    · next hq => rw [helse q hq]

/-- A cell that is not to be recolored is the same after coloring. -/
theorem recolored_eq_self {p : shape.Place} (hp : ¬d.Recolors as color p) :
    (if shape.address p ∈ as then { d.sheet.cell p with color } else d.sheet.cell p) =
      d.sheet.cell p := by
  split
  · next mentioned =>
    have same : (d.sheet.cell p).color = color := not_not.mp fun hne => hp ⟨mentioned, hne⟩
    rw [← same]
  · rfl

/-- If no color changes, all there is to do is nothing. -/
theorem colorsInOneStep_self (none : ∀ p, ¬d.Recolors as color p) :
    d.ColorsInOneStep as color d where
  cell p := (recolored_eq_self (none p)).symm
  links := rfl
  formulas := rfl
  path := rfl
  unchanged _ := rfl
  recorded p hp := absurd hp (none p)
  undone p hp := absurd hp (none p)

/-- Coloring just the cells that change, one after another, is a single step. -/
theorem colorsInOneStep_perform {touched : List shape.Place} (h : d.sheet.UpToDate)
    (hne : touched ≠ []) (mem_touched : ∀ p, p ∈ touched ↔ d.Recolors as color p)
    (order : touched.Pairwise fun p q =>
      as.idxOf (shape.address p) < as.idxOf (shape.address q)) :
    d.ColorsInOneStep as color
      (d.perform ⟨.colorChange, touched.map fun p => (p, d.sheet.cell p)⟩ fun s =>
        touched.foldl (fun s p => s.setColor p color) s).document := by
  generalize hstep : (⟨.colorChange, touched.map fun p => (p, d.sheet.cell p)⟩ : Step shape) = step
  have hcells : step.cells = touched.map fun p => (p, d.sheet.cell p) := hstep ▸ rfl
  have places : step.cells.map Prod.fst = touched := by
    simp [hcells, Function.comp_def]
  have before : ∀ e ∈ step.cells, e.2 = d.sheet.cell e.1 := by
    simp [hcells]
  rw [perform]
  generalize hs : (d.history.dropRemarks step).foldl Session.remark d.session = s
  have start : s.sheet = d.sheet := hs ▸ Session.sheet_foldl_remark _ _
  have colored : ∀ p, (touched.foldl (fun s p => s.setColor p color) s).sheet.cell p =
      if p ∈ touched then { d.sheet.cell p with color } else d.sheet.cell p := fun p => by
    rw [Session.cell_foldl_setColor, start]
  refine ⟨fun p => ?_, ?_, ?_, rfl, fun none => ?_, fun p _ => ⟨rfl, step.cells, ?_, fun q => ?_,
    before, ?_⟩, fun p _ hlimit => ?_⟩
  · refine (colored p).trans ?_
    split
    · next hp => rw [if_pos ((mem_touched p).mp hp).1]
    · next hp => exact (recolored_eq_self (mt (mem_touched p).mpr hp)).symm
  · exact (Session.links_foldl_setColor touched color).trans (by rw [start])
  · exact (Session.formulas_foldl_setColor touched color).trans (by rw [start])
  · obtain ⟨p, rest, rfl⟩ := List.exists_cons_of_ne_nil hne
    exact absurd ((mem_touched p).mp List.mem_cons_self) (none p)
  · rw [← hstep]
    rfl
  · rw [places, mem_touched]
  · rw [hcells, List.map_map, List.pairwise_map]
    exact order
  · have latest := List.take_cons (a := step) (l := d.history.undo) hlimit
    refine exists_undo_eq_sheet h (Session.upToDate_foldl_setColor (start ▸ h) _ color) latest
      before fun q hq => (colored q).trans (if_neg ?_)
    rwa [places] at hq

/-- **Coloring comes to a single step** on an up-to-date sheet. -/
theorem exists_setColors_colorsInOneStep (h : d.sheet.UpToDate) (has : ∀ a ∈ as, shape.Holds a)
    (color : Color) :
    ∃ o, d.setColors as color = .ok o ∧ d.ColorsInOneStep as color o.document := by
  obtain ⟨ps, hps, hmap⟩ := exists_mapM_place_eq_ok has
  have mem_touched : ∀ p, p ∈ (ps.eraseDups.filter fun p => (d.sheet.cell p).color != color) ↔
      d.Recolors as color p := fun p => by
    simp [Recolors, ← hmap, Shape.address_injective.eq_iff]
  obtain ⟨o, ho⟩ := exists_setColors_eq_ok hps d color
  refine ⟨o, ho, ?_⟩
  rw [setColors, hps, ok_bind] at ho
  dsimp only at ho
  split at ho
  · next hempty =>
    obtain rfl := Except.ok.inj ho
    refine colorsInOneStep_self fun p hp => ?_
    simpa [List.isEmpty_iff.mp hempty] using (mem_touched p).mpr hp
  · next hempty =>
    obtain rfl := Except.ok.inj ho
    refine colorsInOneStep_perform h (mt List.isEmpty_iff.mpr hempty) mem_touched ?_
    simp only [← hmap, idxOf_map_of_injective Shape.address_injective]
    exact (pairwise_eraseDups ps).filter _

/-- **Coloring comes to a single step** whatever was done to the document before. If no step can be
kept, there is none to undo, but all else holds. -/
theorem coloring_run (shape : Shape) (limit : Nat) (actions : List Action) (as : List Address)
    (color : Color) (has : ∀ a ∈ as, shape.Holds a) :
    let d := run shape limit actions
    d.history.limit = limit ∧
      ∃ o, d.setColors as color = .ok o ∧ d.ColorsInOneStep as color o.document :=
  ⟨(follows_run shape limit actions).limit_eq,
    exists_setColors_colorsInOneStep (upToDate_run shape limit actions) has color⟩

/-- Of two cells that are mentioned one has the color already, and the other, which is mentioned
twice, comes back in the color that it had when the step is undone. -/
theorem coloring_run_one_of_two :
    let d := run ⟨1, 2⟩ 1 [.setColors [⟨0, 0⟩] 7, .setText ⟨0, 1⟩ "=A1"]
    let as : List Address := [⟨0, 1⟩, ⟨0, 0⟩, ⟨0, 1⟩]
    ¬d.Recolors as 7 ⟨0, by decide⟩ ∧ d.Recolors as 7 ⟨1, by decide⟩ ∧
      ∃ o, d.setColors as 7 = .ok o ∧ d.ColorsInOneStep as 7 o.document ∧
        ∃ o', o.document.undo? = some o' ∧ o'.document.sheet = d.sheet := by
  intro d as
  have same : (d.sheet.cell ⟨0, by decide⟩).color = 7 := by cbv
  have other : (d.sheet.cell ⟨1, by decide⟩).color ≠ 7 := by cbv
  have mentioned : Shape.address ⟨1, 2⟩ ⟨1, by decide⟩ ∈ as := by decide
  have recolors : d.Recolors as 7 ⟨1, by decide⟩ := ⟨mentioned, other⟩
  obtain ⟨limit, o, ho, h⟩ := coloring_run ⟨1, 2⟩ 1
    [.setColors [⟨0, 0⟩] 7, .setText ⟨0, 1⟩ "=A1"] as 7 (by decide)
  exact ⟨fun h => h.2 same, recolors, o, ho, h, h.undone _ recolors (Nat.le_of_eq limit.symm)⟩

end Document

end Quadrille
