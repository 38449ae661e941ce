import Quadrille.Proofs.Document.Operations

/-!
# Runs of a document

A document is worked on by a sequence of actions, each of which may fail. What the files around it
answer is not known beforehand, so an action on a file carries the answers that it gets, and they
may be different ones each time.

Every document that can be reached in this way is up to date. This is the one invariant of runs that
everything about the cells of a document rests on.

## Main definitions

* `Action` — what can be done with a document
* `Document.attempt`, `Document.act`, `Document.run`

## Main results

* `Document.upToDate_run`
-/

namespace Quadrille

/-- What the files around a document answer during one action. -/
structure Files where
  size : String → Except FileError Nat
  readBytes : String → Except FileError ByteArray
  writeBytes : String → ByteArray → Except FileError Unit

instance : FileStore (ReaderM Files) where
  size path := do return (← read).size path
  readBytes path := do return (← read).readBytes path
  writeBytes path contents := do return (← read).writeBytes path contents

/-- Something that can be done with a document. -/
inductive Action where
  | setText (a : Address) (text : String)
  | setColors (as : List Address) (color : Color)
  | undo
  | redo
  | clearHistory
  | loadText (text : String)
  | loadFile (path : String) (files : Files)
  | saveFile (files : Files)
  | saveAs (path : String) (files : Files)

variable {shape : Shape}

namespace Document

/-- The document that an operation leaves, and whether the operation went well. -/
def after (d : Document shape) {ε : Type} : Except ε (Outcome shape) → Document shape × Bool
  | .ok o => (o.document, true)
  | .error _ => (d, false)

/-- Does something with a document. The result says whether it went well; undoing and redoing go
well if there is a step to undo or redo. -/
def attempt (d : Document shape) : Action → Document shape × Bool
  | .setText a text => d.after (d.setText a text)
  | .setColors as color => d.after (d.setColors as color)
  | .undo => d.undo?.elim (d, false) fun o => (o.document, true)
  | .redo => d.redo?.elim (d, false) fun o => (o.document, true)
  | .clearHistory => (d.clearHistory, true)
  | .loadText text => d.after (d.loadText text)
  | .loadFile path files => d.after (ReaderT.run (m := Id) (d.loadFile path) files)
  | .saveFile files =>
    let (d', result) := ReaderT.run (m := Id) d.saveFile files
    (d', result.isOk)
  | .saveAs path files =>
    let (d', result) := ReaderT.run (m := Id) (d.saveAs path) files
    (d', result.isOk)

/-- The document after an action. -/
def act (d : Document shape) (action : Action) : Document shape :=
  (d.attempt action).1

/-- The document after some actions, beginning with an empty one that keeps at most `limit`
steps. -/
def run (shape : Shape) (limit : Nat) (actions : List Action) : Document shape :=
  actions.foldl act (blank shape limit)

variable {d : Document shape} {o : Outcome shape} {action : Action}

/-! ### What an action does to sheet and history -/

/-- What holds of a document and of those that an operation gives holds of the one that is left. -/
theorem after_induction {P : Document shape → Prop} {ε : Type} {r : Except ε (Outcome shape)}
    (hd : P d) (ho : ∀ o, r = .ok o → P o.document) : P (d.after r).1 := by
  cases r with
  | ok o => exact ho o rfl
  | error e => exact hd

theorem loadText_spec {text : String} (ho : d.loadText text = .ok o) :
    o.document.sheet.UpToDate ∧ o.document.history = d.history.clear := by
  obtain ⟨stored, -, ho⟩ := bind_eq_ok_iff.mp ho
  exact load_spec ho

theorem loadFrom_spec {path : String} {contents : Except FileError String}
    (ho : d.loadFrom path contents = .ok o) :
    o.document.sheet.UpToDate ∧ o.document.history = d.history.clear := by
  obtain ⟨text, -, ho⟩ := bind_eq_ok_iff.mp ho
  obtain ⟨loaded, hload, ho⟩ := bind_eq_ok_iff.mp ho
  obtain rfl := Except.ok.inj ho
  have hloaded : loaded.document.sheet.UpToDate ∧
      loaded.document.history = d.history.clear := loadText_spec hload
  exact hloaded

/-- What saving gives, from what the file answers. -/
theorem run_saveFile (d : Document shape) (files : Files) :
    ReaderT.run (m := Id) d.saveFile files =
      match d.path with
      | none => (d, .error .noPath)
      | some path =>
        match files.writeBytes path d.archived.toUTF8 with
        | .error e => (d, .error (.file e))
        | .ok () => (d.saved, .ok path) := by
  rw [saveFile]
  cases hpath : d.path with
  | none => rfl
  | some path =>
    have hread : ReaderT.run (m := Id) (read : ReaderM Files Files) files = pure files := rfl
    simp only [FileStore.writeText, FileStore.writeBytes, bind_assoc, pure_bind, ReaderT.run_bind,
      hread]
    cases files.writeBytes path d.archived.toUTF8 <;> rfl

/-- Saving changes neither the sheet nor the history, whatever the files answer. -/
theorem saveFile_spec (files : Files) :
    (ReaderT.run (m := Id) d.saveFile files).1.sheet = d.sheet ∧
      (ReaderT.run (m := Id) d.saveFile files).1.history = d.history := by
  rw [run_saveFile]
  cases d.path with
  | none => exact ⟨rfl, rfl⟩
  | some path =>
    dsimp only
    cases files.writeBytes path d.archived.toUTF8 <;> exact ⟨rfl, rfl⟩

theorem saveAs_spec (path : String) (files : Files) :
    (ReaderT.run (m := Id) (d.saveAs path) files).1.sheet = d.sheet ∧
      (ReaderT.run (m := Id) (d.saveAs path) files).1.history = d.history :=
  saveFile_spec (d := { d with path := some path }) files

/-- **Every action leaves an up-to-date sheet up to date.** -/
theorem upToDate_act (h : d.sheet.UpToDate) : (d.act action).sheet.UpToDate := by
  cases action with
  | setText a text =>
    refine after_induction (P := fun d => d.sheet.UpToDate) h fun o ho => ?_
    obtain ⟨p, -, hsheet, -⟩ := setText_spec h ho
    exact hsheet
  | setColors as color =>
    refine after_induction (P := fun d => d.sheet.UpToDate) h fun o ho => ?_
    obtain ⟨ps, touched, -, -, hsheet, -⟩ := setColors_spec h ho
    exact hsheet
  | undo =>
    rw [act, attempt]
    cases ho : d.undo? with
    | none => exact h
    | some o =>
      obtain ⟨step, rest, -, hsheet, -⟩ := undo?_spec h ho
      exact hsheet
  | redo =>
    rw [act, attempt]
    cases ho : d.redo? with
    | none => exact h
    | some o =>
      obtain ⟨step, rest, -, hsheet, -⟩ := redo?_spec h ho
      exact hsheet
  | clearHistory => exact h
  | loadText text =>
    exact after_induction (P := fun d => d.sheet.UpToDate) h fun o ho => (loadText_spec ho).1
  | loadFile path files =>
    exact after_induction (P := fun d => d.sheet.UpToDate) h fun o ho => (loadFrom_spec ho).1
  | saveFile files =>
    show (ReaderT.run (m := Id) d.saveFile files).1.sheet.UpToDate
    rw [(saveFile_spec files).1]
    exact h
  | saveAs path files =>
    show (ReaderT.run (m := Id) (d.saveAs path) files).1.sheet.UpToDate
    rw [(saveAs_spec path files).1]
    exact h

/-- **The sheet of every document is up to date,** whatever has been done with it. -/
theorem upToDate_run (shape : Shape) (limit : Nat) (actions : List Action) :
    (run shape limit actions).sheet.UpToDate := by
  have hfold : ∀ (actions : List Action) (d : Document shape), d.sheet.UpToDate →
      (actions.foldl act d).sheet.UpToDate := by
    intro actions
    induction actions with
    | nil => exact fun _ h => h
    | cons action actions ih => exact fun d h => ih _ (upToDate_act h)
  exact hfold actions _ Sheet.upToDate_blank

/-! ### Actions that go well -/

variable {d' : Document shape} {actions rest : List Action}

/-- Whether some actions go well, each on the document that those before it leave. -/
def GoesWell : Document shape → List Action → Prop
  | _, [] => True
  | d, action :: rest => (d.attempt action).2 = true ∧ (d.act action).GoesWell rest

theorem goesWell_append :
    d.GoesWell (actions ++ rest) ↔ d.GoesWell actions ∧ (actions.foldl act d).GoesWell rest := by
  induction actions generalizing d with
  | nil => simp [GoesWell]
  | cons action actions ih => simp [GoesWell, ih, and_assoc]

/-- Actions that go well lead from one document to another. -/
def Leads (d : Document shape) (actions : List Action) (d' : Document shape) : Prop :=
  d.GoesWell actions ∧ actions.foldl act d = d'

theorem leads_append : d.Leads (actions ++ rest) d' ↔
    ∃ d₁, d.Leads actions d₁ ∧ d₁.Leads rest d' := by
  simp [Leads, goesWell_append, List.foldl_append, and_assoc]

theorem leads_cons {action : Action} : d.Leads (action :: actions) d' ↔
    ∃ d₁, d.attempt action = (d₁, true) ∧ d₁.Leads actions d' := by
  simp [Leads, GoesWell, act, Prod.ext_iff, and_assoc, and_comm, and_left_comm]

end Document

end Quadrille
