import Quadrille.Proofs.Document.Changes
import Quadrille.Proofs.Sheet.Cache

/-!
# Remembered formulas are not part of a document

In a document that has been worked on, a formula is remembered for a cell if and only if the text of
the cell is an equals sign and something that can be read, and it is what is read there. So nothing
is gained or lost by what is remembered but time: forgetting it all before an operation changes
neither what the operation leaves, nor what it reports, nor how it fails.

## Main definitions

* `Document.uncached`, `Outcome.uncached` — with all formulas forgotten
* `Document.Transparent` — no operation depends on what is remembered

## Main results

* `Document.transparent_of_faithful`
* `Document.cache_run`
-/

namespace Quadrille

variable {shape : Shape}

/-- The document with all formulas forgotten. -/
def Document.uncached (d : Document shape) : Document shape :=
  { d with sheet := d.sheet.uncached }

/-- What an operation leaves and reports, with all formulas forgotten. -/
def Outcome.uncached (o : Outcome shape) : Outcome shape :=
  { o with document := o.document.uncached }

/-- The documents are the same but for the formulas that are remembered, and both remember the right
ones. -/
structure Document.Alike (d d' : Document shape) : Prop where
  session : d.session.Alike d'.session
  history_eq : d'.history = d.history
  path_eq : d'.path = d.path
  modified_eq : d'.modified = d.modified

/-- The outcomes are those of documents that are alike, with the same journal. -/
structure Outcome.Alike (o o' : Outcome shape) : Prop where
  document : o.document.Alike o'.document
  journal_eq : o'.journal = o.journal

/-- Both operations fail with the same complaint, or both go well and their outcomes are alike. -/
inductive Outcome.BothAlike {ε : Type} :
    Except ε (Outcome shape) → Except ε (Outcome shape) → Prop where
  | error (e : ε) : BothAlike (.error e) (.error e)
  | ok {o o' : Outcome shape} (h : o.Alike o') : BothAlike (.ok o) (.ok o')

namespace Document

variable {d d' : Document shape}

theorem alike_uncached (h : d.sheet.Faithful) : d.Alike d.uncached :=
  ⟨Session.alike_uncached h, rfl, rfl, rfl⟩

namespace Alike

/-! ### Operations on documents that are alike -/

theorem uncached_eq (h : d.Alike d') : d'.uncached = d.uncached := by
  have hsheet : d'.sheet.uncached = d.sheet.uncached :=
    congrArg (fun s => s.sheet) h.session.uncached_eq
  rw [uncached, uncached, hsheet, h.history_eq, h.path_eq, h.modified_eq]

theorem cell_eq (h : d.Alike d') (p : shape.Place) : d'.sheet.cell p = d.sheet.cell p :=
  h.session.cell_eq p

theorem archived_eq (h : d.Alike d') : d'.archived = d.archived := by
  rw [archived, archived, Sheet.entries, Sheet.entries]
  simp only [h.cell_eq]

theorem inverse_eq (h : d.Alike d') (step : Step shape) : d'.inverse step = d.inverse step := by
  rw [inverse, inverse]
  simp only [h.cell_eq]

theorem perform (h : d.Alike d') (step : Step shape) {act : Session shape → Session shape}
    (hact : ∀ {s s' : Session shape}, s.Alike s' → (act s).Alike (act s')) :
    (d.perform step act).Alike (d'.perform step act) := by
  rw [Document.perform, Document.perform, h.history_eq]
  have hs := hact (h.session.foldl_remark (d.history.dropRemarks step))
  exact ⟨⟨hs.withoutJournal, rfl, h.path_eq, rfl⟩, hs.journal_eq⟩

theorem setText (h : d.Alike d') (a : Address) (text : String) :
    Outcome.BothAlike (d.setText a text) (d'.setText a text) := by
  rw [Document.setText, Document.setText]
  cases shape.place a with
  | error e => exact .error e
  | ok p =>
    simp only [h.cell_eq, ok_bind]
    split
    · exact .ok ⟨h, rfl⟩
    · exact .ok (h.perform _ fun hs => hs.setText p text)

theorem setColors (h : d.Alike d') (as : List Address) (color : Color) :
    Outcome.BothAlike (d.setColors as color) (d'.setColors as color) := by
  rw [Document.setColors, Document.setColors]
  cases as.mapM shape.place with
  | error e => exact .error e
  | ok ps =>
    simp only [h.cell_eq, ok_bind]
    split
    · exact .ok ⟨h, rfl⟩
    · exact .ok (h.perform _ fun hs => hs.foldl_setColor _ color)

theorem undo? (h : d.Alike d') : Option.Rel Outcome.Alike d.undo? d'.undo? := by
  rw [Document.undo?, Document.undo?, h.history_eq]
  cases d.history.undo with
  | nil => exact .none
  | cons step rest =>
    have hs := (h.session.remark (.undoing step.kind)).foldl_restore step.cells
    refine .some ⟨⟨hs.withoutJournal, ?_, h.path_eq, rfl⟩, hs.journal_eq⟩
    rw [h.inverse_eq]

theorem redo? (h : d.Alike d') : Option.Rel Outcome.Alike d.redo? d'.redo? := by
  rw [Document.redo?, Document.redo?, h.history_eq]
  cases d.history.redo with
  | nil => exact .none
  | cons step rest =>
    simp only [h.inverse_eq]
    have hs := ((h.session.remark (.redoing step.kind)).foldl_restore step.cells).foldl_remark
      (d.history.dropRemarks (d.inverse step))
    exact .some ⟨⟨hs.withoutJournal, rfl, h.path_eq, rfl⟩, hs.journal_eq⟩

theorem clearHistory (h : d.Alike d') : d.clearHistory.Alike d'.clearHistory :=
  ⟨h.session, congrArg History.clear h.history_eq, h.path_eq, h.modified_eq⟩

theorem load (h : d.Alike d') (stored : List StoredCell) :
    Outcome.BothAlike (d.load stored) (d'.load stored) := by
  rw [Document.load, Document.load]
  cases stored.mapM (placeOfStored shape) with
  | error e => exact .error e
  | ok placed =>
    have hs := (h.session.clear.foldl_restore (contents placed)).remark (.loaded placed.length)
    rw [contents, List.foldl_map, List.foldl_map] at hs
    refine .ok ⟨⟨hs.withoutJournal, ?_, h.path_eq, rfl⟩, hs.journal_eq⟩
    exact congrArg History.clear h.history_eq

theorem loadText (h : d.Alike d') (text : String) :
    Outcome.BothAlike (d.loadText text) (d'.loadText text) := by
  rw [Document.loadText, Document.loadText]
  cases (Archive.read text).mapError DocumentError.archive with
  | error e => exact .error e
  | ok stored => exact h.load stored

theorem loadFrom (h : d.Alike d') (path : String) (contents : Except FileError String) :
    Outcome.BothAlike (d.loadFrom path contents) (d'.loadFrom path contents) := by
  rw [Document.loadFrom, Document.loadFrom]
  cases contents.mapError DocumentError.file with
  | error e => exact .error e
  | ok text =>
    rw [ok_bind, ok_bind]
    have hload := h.loadText text
    generalize d.loadText text = r at hload ⊢
    generalize d'.loadText text = r' at hload ⊢
    rcases hload with e | ho
    · exact .error e
    · exact .ok ⟨⟨ho.document.session, ho.document.history_eq, rfl, ho.document.modified_eq⟩,
        ho.journal_eq⟩

theorem saveFile (h : d.Alike d') (files : Files) :
    (ReaderT.run (m := Id) d.saveFile files).1.Alike (ReaderT.run (m := Id) d'.saveFile files).1 ∧
      (ReaderT.run (m := Id) d'.saveFile files).2 =
        (ReaderT.run (m := Id) d.saveFile files).2 := by
  rw [run_saveFile, run_saveFile, h.path_eq, h.archived_eq]
  cases d.path with
  | none => exact ⟨h, rfl⟩
  | some path =>
    dsimp only
    cases files.writeBytes path d.archived.toUTF8 with
    | error e => exact ⟨h, rfl⟩
    | ok => exact ⟨⟨h.session, h.history_eq, h.path_eq, rfl⟩, rfl⟩

theorem saveAs (h : d.Alike d') (path : String) (files : Files) :
    (ReaderT.run (m := Id) (d.saveAs path) files).1.Alike
        (ReaderT.run (m := Id) (d'.saveAs path) files).1 ∧
      (ReaderT.run (m := Id) (d'.saveAs path) files).2 =
        (ReaderT.run (m := Id) (d.saveAs path) files).2 := by
  have hpath : Alike { d with path := some path } { d' with path := some path } :=
    ⟨h.session, h.history_eq, rfl, h.modified_eq⟩
  exact hpath.saveFile files

/-- **Documents that are alike stay so** whatever is done with both of them. -/
theorem act (h : d.Alike d') (action : Action) : (d.act action).Alike (d'.act action) := by
  have hafter : ∀ {ε : Type} {r r' : Except ε (Outcome shape)}, Outcome.BothAlike r r' →
      (d.after r).1.Alike (d'.after r').1 := by
    rintro ε r r' (e | ho)
    · exact h
    · exact ho.document
  have helim : ∀ {r r' : Option (Outcome shape)}, Option.Rel Outcome.Alike r r' →
      (r.elim (d, false) fun o => (o.document, true)).1.Alike
        (r'.elim (d', false) fun o => (o.document, true)).1 := by
    rintro r r' (ho | -)
    · exact ho.document
    · exact h
  cases action with
  | setText a text => exact hafter (h.setText a text)
  | setColors as color => exact hafter (h.setColors as color)
  | undo => exact helim h.undo?
  | redo => exact helim h.redo?
  | clearHistory => exact h.clearHistory
  | loadText text => exact hafter (h.loadText text)
  | loadFile path files => exact hafter (h.loadFrom path _)
  | saveFile files => exact (h.saveFile files).1
  | saveAs path files => exact (h.saveAs path files).1

theorem foldl_act (h : d.Alike d') (actions : List Action) :
    (actions.foldl Document.act d).Alike (actions.foldl Document.act d') := by
  induction actions generalizing d d' with
  | nil => exact h
  | cons action actions ih => exact ih (h.act action)

end Alike

/-! ### Nothing depends on what is remembered -/

end Document

theorem Outcome.Alike.uncached_eq {o o' : Outcome shape} (h : o.Alike o') :
    o'.uncached = o.uncached := by
  rw [uncached, uncached, h.document.uncached_eq, h.journal_eq]

theorem Outcome.BothAlike.map_uncached {ε : Type} {r r' : Except ε (Outcome shape)}
    (h : BothAlike r r') : r'.map Outcome.uncached = r.map Outcome.uncached := by
  rcases h with e | ho
  · rfl
  · exact congrArg Except.ok (ho.uncached_eq)

namespace Document

/-- Every operation gives the same when all formulas are forgotten first: the same failure, or the
same journal and a document that is the same but for the formulas that are remembered; and what is
saved is the same. -/
structure Transparent (d : Document shape) : Prop where
  setText : ∀ a text,
    (d.uncached.setText a text).map Outcome.uncached = (d.setText a text).map Outcome.uncached
  setColors : ∀ as color,
    (d.uncached.setColors as color).map Outcome.uncached =
      (d.setColors as color).map Outcome.uncached
  undo? : d.uncached.undo?.map Outcome.uncached = d.undo?.map Outcome.uncached
  redo? : d.uncached.redo?.map Outcome.uncached = d.redo?.map Outcome.uncached
  clearHistory : d.uncached.clearHistory.uncached = d.clearHistory.uncached
  load : ∀ stored,
    (d.uncached.load stored).map Outcome.uncached = (d.load stored).map Outcome.uncached
  loadText : ∀ text,
    (d.uncached.loadText text).map Outcome.uncached = (d.loadText text).map Outcome.uncached
  loadFile : ∀ path (files : Files),
    (ReaderT.run (m := Id) (d.uncached.loadFile path) files).map Outcome.uncached =
      (ReaderT.run (m := Id) (d.loadFile path) files).map Outcome.uncached
  saveFile : ∀ files : Files,
    (ReaderT.run (m := Id) d.uncached.saveFile files).map Document.uncached id =
      (ReaderT.run (m := Id) d.saveFile files).map Document.uncached id
  saveAs : ∀ path (files : Files),
    (ReaderT.run (m := Id) (d.uncached.saveAs path) files).map Document.uncached id =
      (ReaderT.run (m := Id) (d.saveAs path) files).map Document.uncached id
  archived : d.uncached.archived = d.archived

/-- **No operation depends on what is remembered,** as long as it is right. -/
theorem transparent_of_faithful {d : Document shape} (h : d.sheet.Faithful) : d.Transparent := by
  have halike := alike_uncached h
  have helim : ∀ {r r' : Option (Outcome shape)}, Option.Rel Outcome.Alike r r' →
      r'.map Outcome.uncached = r.map Outcome.uncached := by
    rintro r r' (ho | -)
    · exact congrArg some ho.uncached_eq
    · rfl
  have hsave : ∀ {r r' : Document shape × Except DocumentError String},
      r.1.Alike r'.1 ∧ r'.2 = r.2 →
        r'.map Document.uncached id = r.map Document.uncached id := fun hr =>
    Prod.ext hr.1.uncached_eq hr.2
  exact {
    setText := fun a text => (halike.setText a text).map_uncached
    setColors := fun as color => (halike.setColors as color).map_uncached
    undo? := helim halike.undo?
    redo? := helim halike.redo?
    clearHistory := halike.clearHistory.uncached_eq
    load := fun stored => (halike.load stored).map_uncached
    loadText := fun text => (halike.loadText text).map_uncached
    loadFile := fun path files => (halike.loadFrom path _).map_uncached
    saveFile := fun files => hsave (halike.saveFile files)
    saveAs := fun path files => hsave (halike.saveAs path files)
    archived := halike.archived_eq }

/-- What is remembered, in a document that has been worked on. -/
theorem formulas_get_eq_some_iff {d : Document shape} (h : d.sheet.Indexed) {p : shape.Place}
    {f : Formula} :
    d.sheet.formulas.get p = some f ↔
      ∃ body, body ≠ "" ∧ (d.sheet.cell p).text = "=" ++ body ∧ Formula.ofText body = .ok f := by
  rw [h.formulas]
  refine Outlook.formula?_ofText_eq_some_iff.trans (exists_congr fun body => ?_)
  rw [Input.ofText_eq_formula_iff, and_assoc]
  rfl

/-- **Remembered formulas are not part of a document,** whatever has been done with it. A formula is
remembered for a cell if and only if the text of the cell is an equals sign and something, blank or
not, that reads as a formula; and then it is the one that is read there. Every operation gives the
same cells, the same links, the same history, the same journal and the same result when all formulas
are forgotten before it, and so do any number of actions after one another. -/
theorem cache_run (shape : Shape) (limit : Nat) (actions : List Action) :
    let d := run shape limit actions
    (∀ p f, d.sheet.formulas.get p = some f ↔
      ∃ body, body ≠ "" ∧ (d.sheet.cell p).text = "=" ++ body ∧ Formula.ofText body = .ok f) ∧
    d.Transparent ∧
    ∀ later : List Action,
      (later.foldl act d.uncached).uncached = (later.foldl act d).uncached := by
  intro d
  have h : d.sheet.Indexed := (upToDate_run shape limit actions).toIndexed
  exact ⟨fun p f => formulas_get_eq_some_iff h, transparent_of_faithful h.faithful,
    fun later => ((alike_uncached h.faithful).foldl_act later).uncached_eq⟩

/-- A formula is forgotten with the text that it was read from, also when the text is put back by
undoing. -/
example :
    let d : Document ⟨1, 1⟩ := run ⟨1, 1⟩ 9 [.setText ⟨0, 0⟩ "= ", .setText ⟨0, 0⟩ "=(", .undo]
    d.sheet.formulas.get ⟨0, by decide⟩ = some .blank ∧
      (d.act .redo).sheet.formulas.get ⟨0, by decide⟩ = none := by
  constructor <;> cbv

end Document

end Quadrille
