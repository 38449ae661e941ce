import Mathlib.Data.List.Basic
import Quadrille.Proofs.Sheet.Edits

/-!
# Grids in memory

In memory there are no places, only a list of cells that stand row after row, and a cell is reached
by arithmetic: its row times the number of columns, plus its column. What can go wrong there cannot
be said of places. Rows and columns can be confused, the cells can be made in another order than
they are looked for, and reading and writing can disagree about what lies in the grid. None of it
shows on a grid that is square and has been written evenly.

So the grid is set up once more as such a list, in which each cell carries the address that it was
made with (`FlatGrid`). It is made by two nested loops, and read and written by index. The list is
in order if the address of each cell is the one that leads to its index (`FlatGrid.RowMajor`). Then
reading finds the right cell; and whatever reading finds, writing changes.

The cells of a sheet are such a list, and making, reading and writing them come to the same as
making, reading and writing the list.

## Main definitions

* `FlatGrid`, `FlatGrid.RowMajor`
* `FlatGrid.blank`, `FlatGrid.at?`, `FlatGrid.write`
* `Sheet.flat` — the cells of a sheet as such a list

## Main results

* `FlatGrid.RowMajor.exists_at?_eq_some` — reading finds the cell of the address
* `FlatGrid.at?_write`, `FlatGrid.RowMajor.write` — a write changes one cell, and not the order
* `Sheet.rowMajor_flat` — the list of a sheet is in order
* `Sheet.flat_blank`, `Sheet.at?_flat`, `Session.flat_write` — sheets and their lists agree
-/

namespace Quadrille

/-- One loop over the indices comes to two nested loops over rows and columns. -/
theorem map_range_eq_flatMap {α : Type} (f : Nat → Nat → α) (rows columns : Nat) :
    ((List.range (rows * columns)).map fun i => f (i / columns) (i % columns)) =
      (List.range rows).flatMap fun row => (List.range columns).map (f row) := by
  induction rows with
  | zero => simp
  | succ rows ih =>
    rw [Nat.succ_mul, List.range_add, List.map_append, ih, List.range_succ, List.flatMap_append]
    congr 1
    rw [List.map_map, List.flatMap_singleton]
    refine List.map_congr_left fun column hcolumn => ?_
    have hlt : column < columns := List.mem_range.mp hcolumn
    have hpos : 0 < columns := by omega
    simp [Nat.mul_comm rows, Nat.mul_add_div hpos, Nat.div_eq_of_lt hlt, Nat.mod_eq_of_lt hlt]

/-- The cells of a grid in one list. Each of them knows its address. -/
structure FlatGrid where
  shape : Shape
  cells : List (Address × Cell)

namespace FlatGrid

/-- A grid of blank cells, made row by row. -/
def blank (shape : Shape) : FlatGrid where
  shape
  cells := (List.range shape.rows).flatMap fun row =>
    (List.range shape.columns).map fun column => (⟨row, column⟩, Cell.blank)

/-- Where the cell of an address is to be found. -/
def index (g : FlatGrid) (a : Address) : Nat :=
  a.row * g.shape.columns + a.column

/-- The address of the cell that is found at an index. -/
def addressAt (g : FlatGrid) (i : Nat) : Address :=
  ⟨i / g.shape.columns, i % g.shape.columns⟩

/-- The cell found for an address, with the address that it carries. -/
def at? (g : FlatGrid) (a : Address) : Option (Address × Cell) :=
  if g.shape.Holds a then g.cells[g.index a]? else none

/-- Writes to the cell found for an address. Outside the grid nothing is written. -/
def write (g : FlatGrid) (a : Address) (e : Edit) : FlatGrid :=
  if g.shape.Holds a then
    { g with cells := g.cells.modify (g.index a) fun c => (c.1, c.2.edit e) }
  else g

/-- The list has a cell for every row and column, and at each index stands the one whose address
leads there. -/
structure RowMajor (g : FlatGrid) : Prop where
  length_eq : g.cells.length = g.shape.rows * g.shape.columns
  address_eq : ∀ (i : Nat) (c : Address × Cell), g.cells[i]? = some c → c.1 = g.addressAt i

variable {g : FlatGrid} {a b : Address}

/-! ### Indices -/

/-- Row and column are found again from the index. -/
theorem addressAt_index (h : g.shape.Holds a) : g.addressAt (g.index a) = a :=
  Shape.place?_eq_some_iff.mp (dif_pos h)

theorem index_eq_iff (ha : g.shape.Holds a) (hb : g.shape.Holds b) :
    g.index a = g.index b ↔ a = b := by
  refine ⟨fun h => ?_, fun h => by rw [h]⟩
  rw [← addressAt_index ha, h, addressAt_index hb]

/-! ### Reading and writing -/

theorem at?_of_holds (h : g.shape.Holds a) : g.at? a = g.cells[g.index a]? :=
  if_pos h

theorem at?_of_not_holds (h : ¬g.shape.Holds a) : g.at? a = none :=
  if_neg h

/-- In the grid there is a cell at every address, and it is the one of that address. -/
theorem RowMajor.exists_at?_eq_some (hg : g.RowMajor) (ha : g.shape.Holds a) :
    ∃ c, g.at? a = some (a, c) := by
  have hlt : g.index a < g.cells.length := hg.length_eq ▸ Shape.index_lt ha
  obtain ⟨⟨a', c⟩, hc⟩ : ∃ c, g.cells[g.index a]? = some c := ⟨_, List.getElem?_eq_getElem hlt⟩
  have haddress : a' = g.addressAt (g.index a) := hg.address_eq _ _ hc
  rw [addressAt_index ha] at haddress
  exact ⟨c, by rw [at?_of_holds ha, hc, haddress]⟩

/-- **A write changes the cell that reading finds, and no other.** -/
theorem at?_write (g : FlatGrid) (a b : Address) (e : Edit) :
    (g.write a e).at? b =
      if a = b then (g.at? b).map fun c => (c.1, c.2.edit e) else g.at? b := by
  rw [write]
  by_cases ha : g.shape.Holds a
  · rw [if_pos ha]
    by_cases hb : g.shape.Holds b
    -- Reading goes by the sizes of the grid, which are the same after the write.
    · have hread : ∀ cells, at? { g with cells } b = cells[g.index b]? := fun _ => if_pos hb
      rw [hread, at?_of_holds hb, List.getElem?_modify]
      by_cases hab : a = b
      · simp [hab]
      · have hindex : g.index a ≠ g.index b := mt (index_eq_iff ha hb).mp hab
        simp [hab, hindex]
    · have hne : a ≠ b := fun h => hb (h ▸ ha)
      rw [if_neg hne, at?_of_not_holds hb]
      exact at?_of_not_holds hb
  · rw [if_neg ha]
    split
    · next hab => rw [← hab, at?_of_not_holds ha, Option.map_none]
    · rfl

/-- Writing leaves the order as it is. -/
theorem RowMajor.write (hg : g.RowMajor) (a : Address) (e : Edit) : (g.write a e).RowMajor := by
  rw [FlatGrid.write]
  split
  · refine ⟨(List.length_modify ..).trans hg.length_eq, fun i c hc => ?_⟩
    rw [List.getElem?_modify] at hc
    obtain ⟨old, hold, rfl⟩ := Option.map_eq_some_iff.mp hc
    have haddress : old.1 = g.addressAt i := hg.address_eq i old hold
    split
    · exact haddress
    · exact haddress
  · exact hg

end FlatGrid

/-! ### Sheets as lists -/

variable {shape : Shape}

/-- The cells of a sheet in one list. -/
def Sheet.flat (s : Sheet shape) : FlatGrid where
  shape
  cells := s.entries

namespace Sheet

theorem getElem?_entries (s : Sheet shape) (p : shape.Place) :
    s.entries[p.val]? = some (shape.address p, s.cell p) := by
  simp [entries, places]

/-- Without the addresses the list is the one in which the sheet keeps its cells. -/
theorem map_snd_entries (s : Sheet shape) :
    s.entries.map Prod.snd = s.cells.entries.toList := by
  refine List.ext_getElem? fun i => ?_
  by_cases hi : i < shape.size
  · rw [List.getElem?_map, s.getElem?_entries ⟨i, hi⟩]
    simp [cell, Table.get, hi]
  · simp [entries, places, Nat.le_of_not_lt hi]

theorem length_entries (s : Sheet shape) : s.entries.length = shape.size := by
  rw [entries, List.length_map, places, List.length_finRange]

/-- **The list of a sheet is in order.** -/
theorem rowMajor_flat (s : Sheet shape) : s.flat.RowMajor where
  length_eq := s.length_entries
  address_eq i c hc := by
    obtain ⟨hi, -⟩ := List.getElem?_eq_some_iff.mp hc
    have hp := s.getElem?_entries ⟨i, s.length_entries ▸ hi⟩
    rw [← Option.some.inj (hp.symm.trans hc)]
    rfl

/-- Reading the list of a sheet by index comes to looking for the place of the address. -/
theorem at?_flat (s : Sheet shape) (a : Address) :
    s.flat.at? a = (shape.place? a).map fun p => (a, s.cell p) := by
  by_cases ha : shape.Holds a
  · have hp : shape.place? a = some ⟨_, Shape.index_lt ha⟩ := dif_pos ha
    rw [FlatGrid.at?_of_holds (g := s.flat) ha, hp]
    refine (s.getElem?_entries ⟨_, Shape.index_lt ha⟩).trans ?_
    rw [Shape.place?_eq_some_iff.mp hp]
    rfl
  · rw [FlatGrid.at?_of_not_holds (g := s.flat) ha, Shape.place?, dif_neg ha]
    rfl

/-- Two nested loops over rows and columns make the list of the blank sheet. -/
theorem flat_blank (shape : Shape) : (blank : Sheet shape).flat = FlatGrid.blank shape := by
  have hcells : ∀ p : shape.Place, (blank : Sheet shape).cell p = Cell.blank := Table.get_fill _
  have hentries : (blank : Sheet shape).entries = (List.range shape.size).map fun i =>
      (⟨i / shape.columns, i % shape.columns⟩, Cell.blank) := by
    simp only [entries, hcells]
    rw [← List.map_coe_finRange_eq_range, List.map_map]
    rfl
  rw [flat, FlatGrid.blank, hentries]
  congr 1
  exact map_range_eq_flatMap (fun row column => (Address.mk row column, Cell.blank)) _ _

end Sheet

/-- The index of the address of a place is the place. -/
theorem Sheet.index_address (s : Sheet shape) (p : shape.Place) :
    s.flat.index (shape.address p) = p.val :=
  Nat.div_add_mod' ..

/-- **Writing to a place of a sheet comes to writing to its list by index.** -/
theorem Session.flat_write (s : Session shape) (p : shape.Place) (e : Edit) :
    (s.write p e).sheet.flat = s.sheet.flat.write (shape.address p) e := by
  have hp : s.sheet.flat.shape.Holds (shape.address p) := Shape.holds_address p
  rw [FlatGrid.write, if_pos hp, Sheet.index_address]
  -- Not `at?_write`, which says nothing of indices that belong to no address.
  refine congrArg (FlatGrid.mk shape) (List.ext_getElem? fun i => ?_)
  rw [List.getElem?_modify]
  by_cases hi : i < shape.size
  · have old := s.sheet.getElem?_entries ⟨i, hi⟩
    have new := (s.write p e).sheet.getElem?_entries ⟨i, hi⟩
    refine new.trans ?_
    rw [cell_write, show s.sheet.flat.cells[i]? = _ from old]
    split
    · next hpi =>
      subst hpi
      simp
    · next hpi =>
      have hindex : p.val ≠ i := fun h => hpi (Fin.ext h)
      simp [hindex]
  · have beyond : ∀ s : Sheet shape, s.entries[i]? = none := fun s =>
      List.getElem?_eq_none (s.length_entries ▸ Nat.le_of_not_lt hi)
    rw [beyond, show s.sheet.flat.cells[i]? = none from beyond _]
    rfl

end Quadrille
