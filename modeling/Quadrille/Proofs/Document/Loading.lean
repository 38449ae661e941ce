import Quadrille.Proofs.Address
import Quadrille.Proofs.Document.InPlace
import Quadrille.Proofs.Document.Independence

/-!
# What a document is after loading

A load puts the stored cells on a blank sheet one after another, and each of them sets off a
recalculation. Cells may refer to others that come later, one cell may be stored several times under
different spellings of its name, and loops may come and go in between. None of this matters in the
end. Each cell has the text and the color that were stored for it last, and everything else is what
it would be if somebody had typed the texts in.

There is nothing to prove about the order: texts and colors are those of the last write, the sheet
is up to date as it is after every write, and an up-to-date sheet is determined by its texts.

## Main definitions

* `StoredCell.lastFor` — the stored cell that a place is loaded from
* `Document.Replaced` — a document is another after its contents have been replaced

## Main results

* `Document.replaced_of_load`
* `Document.loading_replaces` — loading succeeds, and replaces the contents
-/

namespace Quadrille

variable {shape : Shape}

namespace StoredCell

/-- The stored cell that a place is loaded from: the last one with a name of the place. -/
def lastFor (stored : List StoredCell) (p : shape.Place) : Option StoredCell :=
  (stored.filter fun c => shape.named? c.name = some p).getLast?

variable {c : StoredCell} {p : shape.Place}

theorem lastFor_append_cons {before after : List StoredCell} (hc : shape.named? c.name = some p)
    (hafter : ∀ b ∈ after, shape.named? b.name ≠ some p) :
    lastFor (before ++ c :: after) p = some c := by
  have hnil : (after.filter fun b => shape.named? b.name = some p) = [] := by
    rw [List.filter_eq_nil_iff]
    simpa using hafter
  rw [lastFor, List.filter_append, List.filter_cons_of_pos (by simpa using hc), hnil,
    List.getLast?_concat]

theorem lastFor_eq_none {stored : List StoredCell}
    (h : ∀ b ∈ stored, shape.named? b.name ≠ some p) : lastFor stored p = none := by
  rw [lastFor, List.getLast?_eq_none_iff, List.filter_eq_nil_iff]
  simpa using h

end StoredCell

namespace Document

/-- A document is what another becomes when its contents are replaced by stored cells. Cells have
text and color of the cell stored last for them, and are blank if there is none. Results, links and
formulas are those of a new document into which the texts have been typed, in any order. Size,
path and limit of the history are kept, and there is nothing to undo, to redo or to save. -/
structure Replaced (d d' : Document shape) (stored : List StoredCell) : Prop where
  given : ∀ p before c after, stored = before ++ c :: after → shape.named? c.name = some p →
    (∀ b ∈ after, shape.named? b.name ≠ some p) →
      (d'.sheet.cell p).text = c.text ∧ (d'.sheet.cell p).color = c.color
  blank : ∀ p, (∀ c ∈ stored, shape.named? c.name ≠ some p) → d'.sheet.cell p = Cell.blank
  retyped : ∀ (limit : Nat) (order : List Address),
    (∀ p, (d'.sheet.cell p).text ≠ "" → shape.address p ∈ order) →
      let fresh : Document shape := run shape limit (order.map fun a => .setText a (d'.textAt a))
      (∀ p, (d'.sheet.cell p).text = (fresh.sheet.cell p).text ∧
        (d'.sheet.cell p).value = (fresh.sheet.cell p).value ∧
        (d'.sheet.cell p).error = (fresh.sheet.cell p).error) ∧
      d'.sheet.links = fresh.sheet.links ∧ d'.sheet.formulas = fresh.sheet.formulas
  kept : d' = { sheet := d'.sheet, history := { limit := d.history.limit }, path := d.path }

variable {d d' : Document shape} {o o' : Outcome shape} {stored : List StoredCell}

/-- The places that are found belong to the stored cells one by one. -/
theorem map_snd_of_mapM_placeOfStored {placed : List (shape.Place × StoredCell)}
    (h : stored.mapM (placeOfStored shape) = .ok placed) :
    placed.map Prod.snd = stored ∧ ∀ e ∈ placed, shape.named? e.2.name = some e.1 := by
  have hplace : ∀ {c : StoredCell} {e : shape.Place × StoredCell},
      placeOfStored shape c = .ok e → e.2 = c ∧ shape.named? c.name = some e.1 := by
    intro c e he
    rw [placeOfStored] at he
    split at he
    · next p hp =>
      obtain rfl := Except.ok.inj he
      exact ⟨rfl, hp⟩
    · simp at he
  have hall : List.Forall₂ (fun c e => e.2 = c ∧ shape.named? c.name = some e.1) stored placed :=
    (mapM_eq_ok_iff.mp h).imp fun _ _ => hplace
  constructor
  · clear h
    induction hall with
    | nil => rfl
    | cons he _ ih => rw [List.map_cons, he.1, ih]
  · intro e he
    obtain ⟨c, -, rfl, hc⟩ := exists_of_forall₂_right hall e he
    exact hc

/-- What is put on the sheet last at a place is the cell that is stored last for it. -/
theorem getLast?_contents {placed : List (shape.Place × StoredCell)}
    (h : stored.mapM (placeOfStored shape) = .ok placed) (p : shape.Place) :
    ((contents placed).filter fun e => e.1 = p).getLast? =
      (StoredCell.lastFor stored p).map fun c => (p, { text := c.text, color := c.color }) := by
  obtain ⟨rfl, hnamed⟩ := map_snd_of_mapM_placeOfStored h
  have hfilter : (placed.filter fun e => shape.named? e.2.name = some p) =
      placed.filter fun e => e.1 = p :=
    List.filter_congr fun e he => by rw [hnamed e he]; simp
  have hcontents : ((contents placed).filter fun e => e.1 = p) =
      contents (placed.filter fun e => e.1 = p) := by
    rw [contents, List.filter_map]
    rfl
  have hlast : StoredCell.lastFor (placed.map Prod.snd) p =
      (placed.filter fun e => e.1 = p).getLast?.map Prod.snd := by
    rw [← hfilter, StoredCell.lastFor, List.filter_map, List.getLast?_map]
    rfl
  rw [hcontents, hlast, contents, List.getLast?_map]
  cases hlast : (placed.filter fun e => e.1 = p).getLast? with
  | none => rfl
  | some e =>
    obtain rfl : e.1 = p := by
      simpa using (List.mem_filter.mp (List.mem_of_getLast? hlast)).2
    rfl

/-- After a load, every place is given what was stored for it last. -/
theorem given_of_load (ho : d.load stored = .ok o) (p : shape.Place) :
    (o.document.sheet.cell p).given =
      (StoredCell.lastFor stored p).elim Cell.blank.given fun c => (c.text, c.color) := by
  obtain ⟨placed, hplaced, rfl⟩ := load_eq_ok_iff.mp ho
  have hblank : d.session.clear.sheet.UpToDate := by
    rw [Session.sheet_clear]
    exact Sheet.upToDate_blank
  refine (Session.given_foldl_restore_eq_getLast? hblank _).trans ?_
  rw [getLast?_contents hplaced, Session.sheet_clear]
  cases StoredCell.lastFor stored p with
  | none => simp [Sheet.cell, Sheet.blank]
  | some c => rfl

theorem replaced_of_load (ho : d.load stored = .ok o) : d.Replaced o.document stored := by
  have h : o.document.sheet.UpToDate := (load_spec ho).1
  constructor
  case given =>
    rintro p before c after rfl hc hafter
    have hgiven := given_of_load ho p
    rw [StoredCell.lastFor_append_cons hc hafter] at hgiven
    exact Prod.mk.inj hgiven
  case blank =>
    intro p hp
    have hgiven := given_of_load ho p
    rw [StoredCell.lastFor_eq_none hp] at hgiven
    exact h.cell_eq_blank hgiven
  case retyped =>
    intro limit order horder fresh
    have hfresh : fresh.sheet.UpToDate := upToDate_run shape limit _
    have htexts : o.document.sheet.texts = fresh.sheet.texts := (texts_rebuild horder limit).symm
    refine ⟨fun p => ⟨congrFun htexts p, ?_⟩,
      hfresh.toIndexed.links_eq_of_texts_eq h.toIndexed htexts,
      hfresh.toIndexed.formulas_eq_of_texts_eq h.toIndexed htexts⟩
    exact Prod.mk.inj (hfresh.result_eq_of_texts_eq h htexts p)
  case kept =>
    obtain ⟨placed, -, rfl⟩ := load_eq_ok_iff.mp ho
    rfl

/-- Nothing of what a sheet was before a load remains. -/
theorem sheet_eq_of_load (ho : d.load stored = .ok o) (ho' : d'.load stored = .ok o') :
    o'.document.sheet = o.document.sheet :=
  (load_spec ho).1.eq_of_given (load_spec ho').1 fun p => by
    rw [given_of_load ho, given_of_load ho']

/-- Stored cells that all have a place can be loaded. -/
theorem exists_load_eq_ok (d : Document shape)
    (hnames : ∀ c ∈ stored, shape.named? c.name ≠ none) : ∃ o, d.load stored = .ok o := by
  cases hload : d.load stored with
  | ok o => exact ⟨o, rfl⟩
  | error e =>
    obtain ⟨before, c, after, rfl, -, hnone, -⟩ := load_eq_error_iff.mp hload
    exact absurd hnone (hnames c (by simp))

/-- **Loading replaces the contents of a document by what the text says,** whatever the document was
before. It makes no difference how the names in the text are spelt. -/
theorem loading_replaces (d : Document shape) {text : String} {stored : List StoredCell}
    (hread : Archive.read text = .ok stored)
    (hnames : ∀ c ∈ stored, shape.named? c.name ≠ none) :
    (∃ o, d.loadText text = .ok o ∧ d.Replaced o.document stored ∧
      ∀ (d' : Document shape) o', d'.loadText text = .ok o' →
        o'.document.sheet = o.document.sheet) ∧
    ∀ name name', Address.Respells name name' → shape.named? name = shape.named? name' := by
  have hload : ∀ d : Document shape, d.loadText text = d.load stored := fun d => by
    rw [loadText, hread]
    rfl
  refine ⟨?_, fun name name' h => ?_⟩
  · obtain ⟨o, ho⟩ := exists_load_eq_ok d hnames
    refine ⟨o, (hload d).trans ho, replaced_of_load ho, fun d' o' ho' => ?_⟩
    rw [hload] at ho'
    exact sheet_eq_of_load ho ho'
  · rw [Shape.named?, Shape.named?, Address.ofName?_eq_of_respells h]

/-- A text in which a cell is stored twice, under two spellings of its name: first on a loop, and
then without text. It is loaded onto a sheet with other contents, of which nothing is left. -/
theorem loading_replaces_respelt :
    let text := "<Spreadsheet><SpreadsheetCell IndexName=\"a1\"><Text>=A1</Text>" ++
      "</SpreadsheetCell><SpreadsheetCell IndexName=\"A01\"/></Spreadsheet>"
    let stored : List StoredCell := [{ name := "a1", text := "=A1" }, { name := "A01" }]
    let d : Document ⟨1, 2⟩ := run ⟨1, 2⟩ 9 [.setText ⟨0, 1⟩ "=A1"]
    Archive.read text = .ok stored ∧ (∀ c ∈ stored, (⟨1, 2⟩ : Shape).named? c.name ≠ none) ∧
      ∃ o, d.loadText text = .ok o ∧ (o.document.sheet.cell ⟨0, by decide⟩).text = "" ∧
        o.document.sheet.cell ⟨1, by decide⟩ = Cell.blank := by
  intro text stored d
  have hread : Archive.read text = .ok stored := by decide +kernel
  have hnames : ∀ c ∈ stored, (⟨1, 2⟩ : Shape).named? c.name ≠ none := by decide
  obtain ⟨⟨o, ho, hreplaced, -⟩, -⟩ := loading_replaces d hread hnames
  refine ⟨hread, hnames, o, ho, ?_, hreplaced.blank _ (by decide)⟩
  exact (hreplaced.given _ [_] { name := "A01" } [] rfl (by decide) (by simp)).1

end Document

end Quadrille
