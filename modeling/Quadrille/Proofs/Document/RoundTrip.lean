import Quadrille.Proofs.Archive.RoundTrip
import Quadrille.Proofs.Document.Run

/-!
# Saving and loading loses nothing

Loading what was saved gives the sheet that was saved, whatever sheet it is loaded onto: the texts
and colors, and with them the values and complaints, the links and the formulas.

Neither the order of recalculation nor the loops that come and go while the cells are put on the
sheet one by one need to be looked at. The stored document holds the text and the color of every
cell that is not blank, under a name that leads back to its place, so loading gives every place the
text and color that it had. The sheet is up to date afterwards, as every sheet is, and an up-to-date
sheet is determined by its texts and colors.

## Main results

* `Shape.named?_nameOf` — the name of a place leads back to it
* `Document.load_stored` — loading the stored cells of an up-to-date sheet gives the sheet
* `Document.round_trip_run`
-/

namespace Quadrille

variable {shape : Shape}

namespace Shape

/-- Whether every place of a grid can be named, as it can be if the numbers of rows and columns fit
a 64-bit word. -/
def Nameable (shape : Shape) : Prop :=
  shape.rows ≤ Count.largest ∧ shape.columns ≤ Count.largest

theorem nameable_clamped (rows columns : UInt64) :
    (clamped rows.toNat columns.toNat).Nameable := by
  have fits (n : UInt64) : max 1 n.toNat ≤ Count.largest :=
    Nat.max_le.mpr ⟨by decide, Nat.le_of_lt_succ n.toNat_lt⟩
  exact ⟨fits rows, fits columns⟩

theorem named?_nameOf (h : shape.Nameable) (p : shape.Place) :
    shape.named? (shape.nameOf p) = some p := by
  obtain ⟨hrow, hcolumn⟩ := holds_address p
  rw [named?, nameOf,
    Address.ofName?_name (Nat.lt_of_lt_of_le hrow h.1) (Nat.lt_of_lt_of_le hcolumn h.2)]
  exact place?_address p

end Shape

/-- The places of a sheet that are stored. -/
def Sheet.storedPlaces (s : Sheet shape) : List shape.Place :=
  (places shape).filter fun p => !(s.cell p).isDefault

theorem Sheet.stored_entries (s : Sheet shape) : Archive.stored s.entries =
    s.storedPlaces.map fun p => .ofCell (shape.address p) (s.cell p) := by
  rw [Archive.stored, entries, List.filter_map, List.map_map]
  rfl

theorem Sheet.mem_storedPlaces {s : Sheet shape} {p : shape.Place} :
    p ∈ s.storedPlaces ↔ (s.cell p).isDefault = false := by
  simp [storedPlaces, places]

namespace Document

variable {d : Document shape} {s : Sheet shape}

/-- Every stored cell of a sheet finds its place again. -/
theorem exists_placed_of_stored (h : shape.Nameable) (s : Sheet shape) :
    ∃ placed, (Archive.stored s.entries).mapM (placeOfStored shape) = .ok placed ∧
      contents placed = s.storedPlaces.map fun p =>
        (p, { text := (s.cell p).text, color := (s.cell p).color }) := by
  refine ⟨s.storedPlaces.map fun p => (p, .ofCell (shape.address p) (s.cell p)), ?_, ?_⟩
  · rw [mapM_eq_ok_iff, Sheet.stored_entries, List.forall₂_map_left_iff, List.forall₂_map_right_iff,
      List.forall₂_same]
    intro p _
    have found : shape.named? (StoredCell.ofCell (shape.address p) (s.cell p)).name = some p :=
      Shape.named?_nameOf h p
    rw [placeOfStored, found]
  · rw [contents, List.map_map]
    rfl

/-- **Loading the stored cells of a sheet** gives the sheet, whatever it is loaded onto. -/
theorem load_stored (h : shape.Nameable) (hs : s.UpToDate) (d : Document shape) :
    ∃ o, d.load (Archive.stored s.entries) = .ok o ∧ o.document.sheet = s ∧
      o.document.history = d.history.clear ∧ o.document.modified = false := by
  obtain ⟨placed, loaded, hcontents⟩ := exists_placed_of_stored h s
  refine ⟨_, load_eq_ok_iff.mpr ⟨placed, loaded, rfl⟩, ?_, rfl, rfl⟩
  have hgiven : ∀ e ∈ contents placed, e.2.given = (s.cell e.1).given := by
    rw [hcontents]
    simp [Cell.given]
  have hplaces : (contents placed).map Prod.fst = s.storedPlaces := by
    rw [hcontents, List.map_map]
    exact List.map_id _
  have hblank : d.session.clear.sheet.UpToDate := by
    rw [Session.sheet_clear]
    exact Sheet.upToDate_blank
  refine hs.eq_of_given (Session.upToDate_foldl_restore hblank _) fun p => ?_
  rw [Session.given_foldl_restore hblank (g := fun p => (s.cell p).given) hgiven, hplaces]
  split
  · rfl
  · rename_i hp
    have hdefault : (s.cell p).isDefault = true := by
      simpa [Sheet.mem_storedPlaces] using hp
    rw [Cell.given_of_isDefault hdefault, Session.sheet_clear]
    simp [Sheet.cell, Sheet.blank]

/-- **Saving and loading loses nothing.** Take any two documents of the same numbers of rows and
columns, each after any actions. Loading what the first is saved as onto the second succeeds. It
leaves the sheet of the first, with every text, color, value and complaint, no step to undo or to
redo, and no mark for unsaved work; and it is saved as the same document again. -/
theorem round_trip_run (rows columns : UInt64) (limit limit' : Nat)
    (actions actions' : List Action) :
    let shape := Shape.clamped rows.toNat columns.toNat
    let saved := run shape limit actions
    ∃ o, (run shape limit' actions').loadText saved.archived = .ok o ∧
      o.document.sheet = saved.sheet ∧ o.document.history.undo = [] ∧
      o.document.history.redo = [] ∧ o.document.modified = false ∧
      o.document.archived = saved.archived := by
  intro shape saved
  obtain ⟨o, ho, hsheet, hhistory, hmodified⟩ := load_stored (Shape.nameable_clamped rows columns)
    (upToDate_run shape limit actions) (run shape limit' actions')
  refine ⟨o, ?_, hsheet, ?_, ?_, hmodified, ?_⟩
  · rw [loadText, archived, Archive.read_write]
    exact ho
  · rw [hhistory]
    rfl
  · rw [hhistory]
    rfl
  · rw [archived, archived, hsheet]

end Document

end Quadrille
