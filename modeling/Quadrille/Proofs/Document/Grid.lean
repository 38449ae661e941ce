import Quadrille.Proofs.Document.Coloring
import Quadrille.Proofs.Document.RoundTrip
import Quadrille.Proofs.Sheet.RowMajor

/-!
# The grid of a document

Whatever has been done with a document, its cells are the grid that it was made with: one cell for
every row and column, row after row. A cell is asked for by its address or by its name, and written
through its address, and all three come to the same cell.

The numbers of rows and columns that a document is made with are 64-bit words, so every cell of it
has a name that can be read. Therefore no two cells have the same name, and each is found under its
own.

## Main definitions

* `Document.ReachedByIndex` — what reading and writing cells have to do with the list of the cells

## Main results

* `Document.reachedByIndex`
* `Document.grid_run`
-/

namespace Quadrille

variable {shape : Shape}

/-- The place of an address is the place of another only if they are the same. -/
theorem Shape.place?_eq_iff {a b : Address} {p q : shape.Place} (hp : shape.place? a = some p)
    (hq : shape.place? b = some q) : p = q ↔ a = b := by
  rw [← place?_eq_some_iff.mp hp, ← place?_eq_some_iff.mp hq]
  exact address_injective.eq_iff.symm

/-- The text and the color of the cell found for an address, with the address that it carries. -/
def FlatGrid.given? (g : FlatGrid) (a : Address) : Option (Address × String × Color) :=
  (g.at? a).map fun c => (c.1, c.2.given)

namespace Document

/-- The cells of a document are reached through a list of cells by index. In the grid a cell is
found that carries the address asked for, and outside nothing is found. A name leads to the address
that it stands for. At any point of an operation, a write to a place is one to the cell found for
the address. Setting texts and colors changes the texts and colors of the cells that are found and
of no others, and clearing makes the list anew. -/
structure ReachedByIndex (d : Document shape) (g : FlatGrid) : Prop where
  shape_eq : g.shape = shape
  rowMajor : g.RowMajor
  inside : ∀ a, shape.Holds a → ∃ c, g.at? a = some (a, c) ∧ d.cellAt? a = some c
  outside : ∀ a, ¬shape.Holds a → g.at? a = none ∧ d.cellAt? a = none
  named : ∀ name c, d.cellNamed? name = some c ↔
    ∃ a, Address.ofName? name = some a ∧ g.at? a = some (a, c)
  write : ∀ (s : Session shape) a p e, shape.place? a = some p →
    (s.write p e).sheet.flat = s.sheet.flat.write a e
  setText : ∀ a text, shape.Holds a → ∃ o, d.setText a text = .ok o ∧
    ∀ b, o.document.sheet.flat.given? b =
      if a = b then (g.given? b).map fun c => (c.1, text, c.2.2) else g.given? b
  setColors : ∀ as color, (∀ a ∈ as, shape.Holds a) → ∃ o, d.setColors as color = .ok o ∧
    ∀ b, o.document.sheet.flat.at? b =
      if b ∈ as then (g.at? b).map fun c => (c.1, { c.2 with color }) else g.at? b
  clear : d.session.clear.sheet.flat = FlatGrid.blank shape

variable {d : Document shape} {a b : Address}

theorem cellAt?_eq (d : Document shape) (a : Address) :
    d.cellAt? a = (d.sheet.flat.at? a).map Prod.snd := by
  rw [cellAt?, Sheet.at?_flat, Option.map_map]
  rfl

theorem given?_flat (s : Sheet shape) (a : Address) :
    s.flat.given? a = (shape.place? a).map fun p => (a, (s.cell p).given) := by
  rw [FlatGrid.given?, Sheet.at?_flat, Option.map_map]
  rfl

theorem cellNamed?_eq_some_iff {name : String} {c : Cell} : d.cellNamed? name = some c ↔
    ∃ a, Address.ofName? name = some a ∧ d.sheet.flat.at? a = some (a, c) := by
  simp only [Sheet.at?_flat, cellNamed?, Shape.named?, Option.map_eq_some_iff,
    Option.bind_eq_some_iff, Prod.mk.injEq, true_and]
  constructor
  · rintro ⟨p, ⟨a, ha, hp⟩, rfl⟩
    exact ⟨a, ha, p, hp, rfl⟩
  · rintro ⟨a, ha, p, hp, rfl⟩
    exact ⟨p, ⟨a, ha, hp⟩, rfl⟩

theorem exists_setText_given? (h : d.sheet.UpToDate) (ha : shape.Holds a) (text : String) :
    ∃ o, d.setText a text = .ok o ∧ ∀ b, o.document.sheet.flat.given? b =
      if a = b then (d.sheet.flat.given? b).map fun c => (c.1, text, c.2.2)
      else d.sheet.flat.given? b := by
  obtain ⟨o, ho⟩ := exists_setText_eq_ok (dif_pos ha) d text
  obtain ⟨p, hp, -, hgiven, -⟩ := setText_spec h ho
  refine ⟨o, ho, fun b => ?_⟩
  rw [given?_flat, given?_flat]
  cases hq : shape.place? b with
  | none => simp
  | some q =>
    rw [Option.map_some, hgiven, if_congr (Shape.place?_eq_iff hp hq) rfl rfl]
    split
    · next hab =>
      obtain rfl : p = q := (Shape.place?_eq_iff hp hq).mpr hab
      rfl
    · rfl

theorem exists_setColors_at? (h : d.sheet.UpToDate) {as : List Address}
    (has : ∀ a ∈ as, shape.Holds a) (color : Color) :
    ∃ o, d.setColors as color = .ok o ∧ ∀ b, o.document.sheet.flat.at? b =
      if b ∈ as then (d.sheet.flat.at? b).map fun c => (c.1, { c.2 with color })
      else d.sheet.flat.at? b := by
  obtain ⟨o, ho, hcolors⟩ := exists_setColors_colorsInOneStep h has color
  refine ⟨o, ho, fun b => ?_⟩
  rw [Sheet.at?_flat, Sheet.at?_flat]
  cases hq : shape.place? b with
  | none => simp
  | some q =>
    rw [Option.map_some, hcolors.cell, Shape.place?_eq_some_iff.mp hq]
    split <;> rfl

/-- **The cells of a document are reached by index,** if its sheet is up to date. -/
theorem reachedByIndex (h : d.sheet.UpToDate) : d.ReachedByIndex d.sheet.flat where
  shape_eq := rfl
  rowMajor := d.sheet.rowMajor_flat
  inside a ha := by
    obtain ⟨c, hc⟩ := d.sheet.rowMajor_flat.exists_at?_eq_some ha
    exact ⟨c, hc, by rw [cellAt?_eq, hc]; rfl⟩
  outside a ha := by
    have hnone : d.sheet.flat.at? a = none := FlatGrid.at?_of_not_holds ha
    exact ⟨hnone, by rw [cellAt?_eq, hnone]; rfl⟩
  named name c := cellNamed?_eq_some_iff
  write s a p e hp := by
    rw [← Shape.place?_eq_some_iff.mp hp]
    exact s.flat_write p e
  setText a text ha := exists_setText_given? h ha text
  setColors as color has := exists_setColors_at? h has color
  clear := by rw [Session.sheet_clear, Sheet.flat_blank]

/-! ### Names -/

/-- A cell is found under its own name. -/
theorem at?_ofName?_name (h : shape.Nameable) {s : Sheet shape} {e : Address × Cell}
    (he : e ∈ s.flat.cells) : (Address.ofName? e.1.name).bind s.flat.at? = some e := by
  obtain ⟨p, -, rfl⟩ := List.mem_map.mp he
  have hname := Shape.named?_nameOf h p
  obtain ⟨a, ha, hp⟩ := Option.bind_eq_some_iff.mp hname
  rw [Shape.nameOf] at ha
  rw [ha, Option.bind_some, Sheet.at?_flat, hp, Shape.place?_eq_some_iff.mp hp]
  rfl

/-- No two cells have the same name. -/
theorem nodup_names (h : shape.Nameable) (s : Sheet shape) :
    (s.flat.cells.map fun e => e.1.name).Nodup := by
  have hinj : Function.Injective shape.nameOf := fun p q hpq => by
    have hp := Shape.named?_nameOf h p
    rw [hpq, Shape.named?_nameOf h q] at hp
    exact (Option.some.inj hp).symm
  rw [show s.flat.cells = s.entries from rfl, Sheet.entries, List.map_map]
  exact (List.nodup_finRange _).map hinj

/-- **The cells of a document are the grid that it was made with.** A new document has blank cells,
made row by row, of which there is at least one row and one column. Whatever is done with it, its
cells are kept in the order of rows and columns and reached by index, each of them is found under
its own name, and no two have the same. A write to one changes that one and no other. -/
theorem grid_run (rows columns : UInt64) (limit : Nat) (actions : List Action) :
    let shape := Shape.clamped rows.toNat columns.toNat
    let d := run shape limit actions
    let g := d.sheet.flat
    (blank shape limit).sheet.flat = FlatGrid.blank ⟨max 1 rows.toNat, max 1 columns.toNat⟩ ∧
    d.sheet.cells.entries.toList = g.cells.map Prod.snd ∧
    d.ReachedByIndex g ∧
    (∀ a e b, (g.write a e).RowMajor ∧ (g.write a e).at? b =
      if a = b then (g.at? b).map fun c => (c.1, c.2.edit e) else g.at? b) ∧
    (∀ e ∈ g.cells, (Address.ofName? e.1.name).bind g.at? = some e) ∧
    (g.cells.map fun e => e.1.name).Nodup := by
  intro shape d g
  have hnameable := Shape.nameable_clamped rows columns
  have hreached : d.ReachedByIndex g := reachedByIndex (upToDate_run shape limit actions)
  exact ⟨Sheet.flat_blank shape, d.sheet.map_snd_entries.symm, hreached,
    fun a e b => ⟨hreached.rowMajor.write a e, g.at?_write a b e⟩,
    fun e he => at?_ofName?_name hnameable he, nodup_names hnameable d.sheet⟩

example : (run ⟨2, 3⟩ 1 [.setText ⟨1, 0⟩ "7"]).sheet.flat.cells.map
    (fun e => (e.1.name, e.2.text)) =
      [("A1", ""), ("B1", ""), ("C1", ""), ("A2", "7"), ("B2", ""), ("C2", "")] := by
  cbv

end Document

end Quadrille
