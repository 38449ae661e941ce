import Quadrille.Proofs.Document.Changes

/-!
# Operations in place

An operation that may fail is a function from a document to a failure or a new document, so the old
one cannot be spoilt by it. That says nothing about when things are checked. Here the same
operations are written as programs that work on one document in place, change it bit by bit and tell
observers at once. A program that fails leaves everything that it has done so far, and one that
checked a stored cell just before it puts the cell on the sheet would leave half a document behind.

The programs come to the same as the operations (`exec_setTextInPlace` and the like). What they
check is checked before they change anything, for all entries of a list; after that nothing can
fail. So a failure leaves the document as it was and tells nothing, and the complaint is about the
first entry that deserves one.

Saving is written in place from the start: it gives a document even when it fails.

## Main definitions

* `InPlace`, `InPlace.exec` — programs in place, and what they leave
* `Document.setTextInPlace`, `Document.setColorsInPlace`, `Document.loadInPlace`,
  `Document.loadTextInPlace`, `Document.loadFromInPlace` — the operations
* `Document.Atomic` — a program leaves no trace if it fails, and fails in the cases given

## Main results

* `Document.atomic_setText`, `Document.atomic_setColors`, `Document.atomic_loadText`,
  `Document.atomic_loadFrom`
* `Document.no_trace_of_failure` — these, and the same of saving and of failed actions
-/

namespace Quadrille

variable {shape : Shape} {ε α β : Type}

/-! ### Programs -/

/-- A document and a journal that go on from where a session ends. -/
def Outcome.resume (o : Outcome shape) (s : Session shape) : Outcome shape :=
  { document := { o.document with sheet := s.sheet }, journal := s.journal }

/-- A program that works on a document and a journal in place. When it fails, what it has done stays
done. -/
abbrev InPlace (shape : Shape) (ε α : Type) := ExceptT ε (StateM (Outcome shape)) α

namespace InPlace

/-- Runs a program. This gives its result, and the document and the journal that it leaves. -/
def exec (x : InPlace shape ε α) (o : Outcome shape) : Except ε α × Outcome shape :=
  StateT.run (m := Id) (ExceptT.run x) o

/-- Fails if something has failed. -/
def check (r : Except ε α) : InPlace shape ε α :=
  ExceptT.mk (pure r)

/-- Works on the sheet, and keeps the journal. -/
def work (f : Session shape → Session shape) : InPlace shape ε Unit :=
  modify fun o => o.resume (f o.session)

/-- Changes the document without touching the sheet. -/
def amend (f : Document shape → Document shape) : InPlace shape ε Unit :=
  modify fun o => { o with document := f o.document }

/-- The document as it is now. -/
def document : InPlace shape ε (Document shape) :=
  return (← get).document

variable {o : Outcome shape}

theorem exec_bind (x : InPlace shape ε α) (f : α → InPlace shape ε β) (o : Outcome shape) :
    (x >>= f).exec o =
      match x.exec o with
      | (.ok a, o') => (f a).exec o'
      | (.error e, o') => (.error e, o') := by
  simp only [exec, ExceptT.run, StateT.run, bind, ExceptT.bind, ExceptT.mk, StateT.bind]
  rcases x o with ⟨e | a, o'⟩ <;> rfl

@[simp] theorem exec_check (r : Except ε α) : (check r).exec o = (r, o) := rfl

@[simp] theorem exec_work (f : Session shape → Session shape) :
    (work f : InPlace shape ε Unit).exec o = (.ok (), o.resume (f o.session)) := rfl

@[simp] theorem exec_amend (f : Document shape → Document shape) :
    (amend f : InPlace shape ε Unit).exec o = (.ok (), { o with document := f o.document }) := rfl

@[simp] theorem exec_document :
    (document : InPlace shape ε (Document shape)).exec o = (.ok o.document, o) := rfl

/-- Checking the entries of a list changes nothing, whether or not all of them pass. -/
theorem exec_mapM_check {γ : Type} (r : γ → Except ε α) (cs : List γ) :
    (cs.mapM fun c => (check (r c) : InPlace shape ε α)).exec o = (cs.mapM r, o) := by
  induction cs with
  | nil => rfl
  | cons c cs ih =>
    rw [List.mapM_cons, exec_bind, exec_check]
    cases hc : r c with
    | error e => rw [mapM_cons_of_error hc]
    | ok a =>
      rw [mapM_cons_of_ok hc]
      simp only [exec_bind, ih]
      cases cs.mapM r <;> rfl

/-- Work that is done for each entry of a list cannot fail, and is the same as if it were done in
one go. -/
theorem exec_forM_work {γ : Type} (f : γ → Session shape → Session shape) (cs : List γ) :
    (forM cs fun c => (work (f c) : InPlace shape ε Unit)).exec o =
      (.ok (), o.resume (cs.foldl (fun s c => f c s) o.session)) := by
  induction cs generalizing o with
  | nil => rfl
  | cons c cs ih =>
    rw [List.forM_cons, exec_bind, exec_work]
    exact ih

/-- Work that comes before a failure is not undone. -/
example (f : Session shape → Session shape) (e : ε) :
    (do work f; check (.error e) : InPlace shape ε Unit).exec o =
      (.error e, o.resume (f o.session)) := rfl

end InPlace

/-- The text in a file, or why there is none. -/
def Files.contents (files : Files) (path : String) : Except FileError String :=
  (files.readBytes path).bind FileStore.decode

namespace Document

open InPlace

/-! ### The operations as programs -/

/-- Records a new step, and marks the document as modified. -/
def recordInPlace (step : Step shape) : InPlace shape ε Unit := do
  let d ← document
  work fun s => (d.history.dropRemarks step).foldl Session.remark s
  amend fun d => { d with history := d.history.record step }
  amend fun d => { d with modified := true }

/-- Sets the text of a cell. -/
def setTextInPlace (a : Address) (text : String) : InPlace shape OutOfRange Unit := do
  let p ← check (shape.place a)
  let d ← document
  if (d.sheet.cell p).text = text then
    return
  recordInPlace ⟨.textChange, [(p, d.sheet.cell p)]⟩
  work fun s => s.setText p text

/-- Sets the color of some cells, one after another. -/
def setColorsInPlace (as : List Address) (color : Color) : InPlace shape OutOfRange Unit := do
  let ps ← as.mapM fun a => check (shape.place a)
  let d ← document
  let touched := ps.eraseDups.filter fun p => (d.sheet.cell p).color != color
  if touched.isEmpty then
    return
  recordInPlace ⟨.colorChange, touched.map fun p => (p, d.sheet.cell p)⟩
  forM touched fun p => work fun s => s.setColor p color

/-- Replaces the contents of a document by stored cells: clears the sheet, and then puts the cells
on it one after another, first the color of each and then its text. -/
def loadInPlace (stored : List StoredCell) : InPlace shape DocumentError Unit := do
  let placed ← stored.mapM fun c => check (placeOfStored shape c)
  work Session.clear
  forM placed fun (p, c) => work fun s => (s.setColor p c.color).setText p c.text
  work fun s => s.remark (.loaded placed.length)
  amend clearHistory
  amend saved

/-- Replaces the contents of a document by those of a stored document. -/
def loadTextInPlace (text : String) : InPlace shape DocumentError Unit := do
  let stored ← check ((Archive.read text).mapError .archive)
  loadInPlace stored

/-- Loads a document from a file with the given contents. -/
def loadFromInPlace (path : String) (contents : Except FileError String) :
    InPlace shape DocumentError Unit := do
  let text ← check (contents.mapError .file)
  loadTextInPlace text
  amend fun d => { d with path := some path }

/-- What an operation on a document comes to: its outcome, or a failure and the document as it
was. -/
def settle (d : Document shape) : Except ε (Outcome shape) → Except ε Unit × Outcome shape
  | .ok o => (.ok (), o)
  | .error e => (.error e, { document := d })

variable {d : Document shape} {o : Outcome shape}

/-- A step is recorded before it is carried out. -/
theorem exec_recordInPlace_bind (step : Step shape) (x : InPlace shape ε Unit)
    {act : Session shape → Session shape}
    (hx : ∀ o : Outcome shape, x.exec o = (.ok (), o.resume (act o.session))) :
    (recordInPlace step >>= fun _ => x).exec { document := d } = (.ok (), d.perform step act) := by
  simp only [recordInPlace, exec_bind, exec_document, exec_work, exec_amend, hx]
  rfl

theorem exec_setTextInPlace (d : Document shape) (a : Address) (text : String) :
    (setTextInPlace a text).exec { document := d } = d.settle (d.setText a text) := by
  rw [setTextInPlace, setText, exec_bind, exec_check]
  cases shape.place a with
  | error e => rfl
  | ok p =>
    simp only [exec_bind, exec_document, ok_bind]
    split
    · rfl
    · exact exec_recordInPlace_bind _ _ fun o => exec_work _

theorem exec_setColorsInPlace (d : Document shape) (as : List Address) (color : Color) :
    (setColorsInPlace as color).exec { document := d } = d.settle (d.setColors as color) := by
  rw [setColorsInPlace, setColors, exec_bind, exec_mapM_check]
  cases as.mapM shape.place with
  | error e => rfl
  | ok ps =>
    simp only [exec_bind, exec_document, ok_bind]
    split
    · rfl
    · exact exec_recordInPlace_bind _ _ fun o => exec_forM_work (fun p s => s.setColor p color) _

theorem exec_loadInPlace (d : Document shape) (stored : List StoredCell) :
    (loadInPlace stored).exec { document := d } = d.settle (d.load stored) := by
  rw [loadInPlace, load, exec_bind, exec_mapM_check]
  cases stored.mapM (placeOfStored shape) with
  | error e => rfl
  | ok placed =>
    simp only [exec_bind, exec_work, exec_forM_work, exec_amend]
    rfl

theorem exec_loadTextInPlace (d : Document shape) (text : String) :
    (loadTextInPlace text).exec { document := d } = d.settle (d.loadText text) := by
  rw [loadTextInPlace, loadText, exec_bind, exec_check]
  cases (Archive.read text).mapError DocumentError.archive with
  | error e => rfl
  | ok stored => exact exec_loadInPlace d stored

theorem exec_loadFromInPlace (d : Document shape) (path : String)
    (contents : Except FileError String) :
    (loadFromInPlace path contents).exec { document := d } =
      d.settle (d.loadFrom path contents) := by
  rw [loadFromInPlace, loadFrom, exec_bind, exec_check]
  cases contents.mapError DocumentError.file with
  | error e => rfl
  | ok text =>
    simp only [exec_bind, exec_loadTextInPlace, ok_bind]
    cases d.loadText text <;> rfl

/-! ### What fails -/

/-- The program does the same as the operation and fails for the given reasons. If it fails, the
document is as it was and the journal is empty. -/
structure Atomic (d : Document shape) (program : InPlace shape ε Unit)
    (operation : Except ε (Outcome shape)) (Refused : ε → Prop) : Prop where
  exec_eq : program.exec { document := d } = d.settle operation
  untouched : ∀ e o, program.exec { document := d } = (.error e, o) → o = { document := d }
  error_iff : ∀ e, (program.exec { document := d }).1 = .error e ↔ Refused e

/-- What settles to an operation is atomic, since an operation that fails has no outcome. -/
theorem Atomic.of_exec_eq {program : InPlace shape ε Unit} {operation : Except ε (Outcome shape)}
    {Refused : ε → Prop} (h : program.exec { document := d } = d.settle operation)
    (herror : ∀ e, operation = .error e ↔ Refused e) : d.Atomic program operation Refused where
  exec_eq := h
  untouched e o ho := by
    rw [h] at ho
    cases operation with
    | ok _ => simp [settle] at ho
    | error _ => exact (Prod.mk.inj ho).2.symm
  error_iff e := by
    rw [h, ← herror]
    cases operation <;> simp [settle]

/-- An address is refused if it is outside the grid. -/
def Misplaced (shape : Shape) (a : Address) (e : OutOfRange) : Prop :=
  ¬shape.Holds a ∧ e = ⟨a⟩

/-- Of some addresses, the first that is outside the grid is refused. -/
def FirstMisplaced (shape : Shape) (as : List Address) (e : OutOfRange) : Prop :=
  ∃ before a after, as = before ++ a :: after ∧ (∀ b ∈ before, shape.Holds b) ∧
    Misplaced shape a e

/-- Of some stored cells, the first whose name is not that of a cell in the grid is refused. -/
def FirstMisnamed (shape : Shape) (stored : List StoredCell) (e : DocumentError) : Prop :=
  ∃ before c after, stored = before ++ c :: after ∧
    (∀ b ∈ before, shape.named? b.name ≠ none) ∧ shape.named? c.name = none ∧
      e = .invalidCellName c.name

/-- A text is refused if it cannot be read, or for a stored cell without a place. -/
def Unloadable (shape : Shape) (text : String) (e : DocumentError) : Prop :=
  (∃ e', Archive.read text = .error e' ∧ e = .archive e') ∨
    ∃ stored, Archive.read text = .ok stored ∧ FirstMisnamed shape stored e

/-- A file is refused if it cannot be read, or for the text in it. -/
def UnloadableFrom (shape : Shape) (contents : Except FileError String) (e : DocumentError) :
    Prop :=
  (∃ e', contents = .error e' ∧ e = .file e') ∨
    ∃ text, contents = .ok text ∧ Unloadable shape text e

/-- A document cannot be saved without a path, or if the file cannot be written. -/
def Unsavable (d : Document shape) (files : Files) (e : DocumentError) : Prop :=
  d.path = none ∧ e = .noPath ∨
    ∃ path e', d.path = some path ∧ files.writeBytes path d.archived.toUTF8 = .error e' ∧
      e = .file e'

theorem place_eq_error_iff {a : Address} {e : OutOfRange} :
    shape.place a = .error e ↔ Misplaced shape a e := by
  rw [Misplaced, Shape.place, Shape.place?]
  by_cases h : shape.Holds a <;> simp [h, eq_comm]

theorem exists_place_eq_ok_iff {a : Address} :
    (∃ p, shape.place a = .ok p) ↔ shape.Holds a := by
  rw [Shape.place, Shape.place?]
  by_cases h : shape.Holds a <;> simp [h]

theorem placeOfStored_eq_error_iff {c : StoredCell} {e : DocumentError} :
    placeOfStored shape c = .error e ↔
      shape.named? c.name = none ∧ e = .invalidCellName c.name := by
  rw [placeOfStored]
  cases shape.named? c.name <;> simp [eq_comm]

theorem exists_placeOfStored_eq_ok_iff {c : StoredCell} :
    (∃ y, placeOfStored shape c = .ok y) ↔ shape.named? c.name ≠ none := by
  rw [placeOfStored]
  cases shape.named? c.name <;> simp

theorem mapM_place_eq_error_iff {as : List Address} {e : OutOfRange} :
    as.mapM shape.place = .error e ↔ FirstMisplaced shape as e := by
  simp only [mapM_eq_error_iff, exists_place_eq_ok_iff, place_eq_error_iff, FirstMisplaced]

theorem atomic_setText (d : Document shape) (a : Address) (text : String) :
    d.Atomic (setTextInPlace a text) (d.setText a text) (Misplaced shape a) := by
  refine .of_exec_eq (exec_setTextInPlace d a text) fun e => ?_
  refine bind_eq_error_iff.trans ((or_iff_left ?_).trans place_eq_error_iff)
  rintro ⟨p, -, h⟩
  split at h <;> cases h

theorem atomic_setColors (d : Document shape) (as : List Address) (color : Color) :
    d.Atomic (setColorsInPlace as color) (d.setColors as color) (FirstMisplaced shape as) := by
  refine .of_exec_eq (exec_setColorsInPlace d as color) fun e => ?_
  refine bind_eq_error_iff.trans ((or_iff_left ?_).trans mapM_place_eq_error_iff)
  rintro ⟨ps, -, h⟩
  dsimp only at h
  split at h <;> cases h

theorem load_eq_error_iff {stored : List StoredCell} {e : DocumentError} :
    d.load stored = .error e ↔ FirstMisnamed shape stored e := by
  refine bind_eq_error_iff.trans ((or_iff_left ?_).trans ?_)
  · rintro ⟨placed, -, h⟩
    cases h
  · simp only [mapM_eq_error_iff, exists_placeOfStored_eq_ok_iff, placeOfStored_eq_error_iff,
      FirstMisnamed]

theorem loadText_eq_error_iff {text : String} {e : DocumentError} :
    d.loadText text = .error e ↔ Unloadable shape text e := by
  refine bind_eq_error_iff.trans (or_congr ?_ ?_)
  · rw [mapError_eq_error_iff]
    exact exists_congr fun e' => and_congr_right fun _ => eq_comm
  · simp only [mapError_eq_ok_iff, load_eq_error_iff]

theorem atomic_loadText (d : Document shape) (text : String) :
    d.Atomic (loadTextInPlace text) (d.loadText text) (Unloadable shape text) :=
  .of_exec_eq (exec_loadTextInPlace d text) fun _ => loadText_eq_error_iff

theorem atomic_loadFrom (d : Document shape) (path : String) (contents : Except FileError String) :
    d.Atomic (loadFromInPlace path contents) (d.loadFrom path contents)
      (UnloadableFrom shape contents) := by
  refine .of_exec_eq (exec_loadFromInPlace d path contents) fun e => ?_
  refine bind_eq_error_iff.trans (or_congr ?_ ?_)
  · rw [mapError_eq_error_iff]
    exact exists_congr fun e' => and_congr_right fun _ => eq_comm
  · simp only [mapError_eq_ok_iff]
    refine exists_congr fun text => and_congr_right fun _ => ?_
    refine bind_eq_error_iff.trans ((or_iff_left ?_).trans loadText_eq_error_iff)
    rintro ⟨o, -, h⟩
    cases h

/-- Saving fails without a path or when the file cannot be written. -/
theorem saveFile_eq_error_iff {files : Files} {e : DocumentError} :
    (ReaderT.run (m := Id) d.saveFile files).2 = .error e ↔ Unsavable d files e := by
  rw [run_saveFile, Unsavable]
  cases d.path with
  | none => simp [eq_comm]
  | some path =>
    simp only [Option.some.injEq, exists_and_left, exists_eq_left']
    cases files.writeBytes path d.archived.toUTF8 <;> simp [eq_comm]

/-- Saving gives the document as it was if it fails. -/
theorem saveFile_fst_eq_of_error {files : Files} {e : DocumentError}
    (h : (ReaderT.run (m := Id) d.saveFile files).2 = .error e) :
    (ReaderT.run (m := Id) d.saveFile files).1 = d := by
  rw [run_saveFile] at h ⊢
  cases hpath : d.path with
  | none => rfl
  | some path =>
    rw [hpath] at h
    dsimp only at h ⊢
    cases hwrite : files.writeBytes path d.archived.toUTF8 with
    | error e' => rfl
    | ok _ =>
      rw [hwrite] at h
      cases h

theorem firstMisplaced_singleton {a : Address} {e : OutOfRange} :
    FirstMisplaced shape [a] e ↔ Misplaced shape a e := by
  constructor
  · rintro ⟨before, b, after, heq, -, h⟩
    obtain rfl : a = b := by
      rcases before with - | ⟨c, before⟩
      · exact (List.cons.inj heq).1
      · simp at heq
    exact h
  · exact fun h => ⟨[], a, [], rfl, by simp, h⟩

/-- An action that fails leaves the document as it was, unless it is to save to another file. -/
theorem act_eq_of_failed {action : Action} (hsaveAs : ∀ path files, action ≠ .saveAs path files)
    (h : (d.attempt action).2 = false) : d.act action = d := by
  have hafter : ∀ {ε : Type} {r : Except ε (Outcome shape)}, (d.after r).2 = false →
      (d.after r).1 = d := by
    intro ε r hr
    cases r with
    | ok o => simp [after] at hr
    | error e => rfl
  have helim : ∀ {r : Option (Outcome shape)},
      (r.elim (d, false) fun o => (o.document, true)).2 = false →
        (r.elim (d, false) fun o => (o.document, true)).1 = d := by
    intro r hr
    cases r with
    | some o => simp at hr
    | none => rfl
  cases action with
  | setText a text => exact hafter h
  | setColors as color => exact hafter h
  | undo => exact helim h
  | redo => exact helim h
  | clearHistory => simp [attempt] at h
  | loadText text => exact hafter h
  | loadFile path files => exact hafter h
  | saveFile files =>
    have h : (ReaderT.run (m := Id) d.saveFile files).2.isOk = false := h
    show (ReaderT.run (m := Id) d.saveFile files).1 = d
    cases hresult : (ReaderT.run (m := Id) d.saveFile files).2 with
    | error e => exact saveFile_fst_eq_of_error hresult
    | ok path => simp [hresult, Except.isOk, Except.toBool] at h
  | saveAs path files => exact absurd rfl (hsaveAs path files)

/-- **What fails leaves no trace.** Edits and loads may be carried out in place, on any document
whatever: if they fail, after any number of good entries, the document is as it was, and observers
have been told nothing. They fail for the first entry that has no place in the grid, and loads also
for a file or a text that cannot be read, and for nothing else. Saving that fails leaves the
document as it was, too. -/
theorem no_trace_of_failure (d : Document shape) :
    (∀ a text, d.Atomic (setTextInPlace a text) (d.setText a text) (Misplaced shape a)) ∧
    (∀ a color, d.Atomic (setColorsInPlace [a] color) (d.setColor a color) (Misplaced shape a)) ∧
    (∀ as color,
      d.Atomic (setColorsInPlace as color) (d.setColors as color) (FirstMisplaced shape as)) ∧
    (∀ text, d.Atomic (loadTextInPlace text) (d.loadText text) (Unloadable shape text)) ∧
    (∀ path (files : Files), d.Atomic (loadFromInPlace path (files.contents path))
      (ReaderT.run (m := Id) (d.loadFile path) files)
      (UnloadableFrom shape (files.contents path))) ∧
    (∀ (files : Files) e,
      (ReaderT.run (m := Id) d.saveFile files).2 = .error e ↔ Unsavable d files e) ∧
    (∀ (files : Files) e, (ReaderT.run (m := Id) d.saveFile files).2 = .error e →
      (ReaderT.run (m := Id) d.saveFile files).1 = d) ∧
    ∀ action : Action, (∀ path files, action ≠ .saveAs path files) →
      (d.attempt action).2 = false → d.act action = d ∧ d.told action = [] := by
  refine ⟨atomic_setText d, fun a color => ?_, atomic_setColors d, atomic_loadText d,
    fun path files => atomic_loadFrom d path _, fun _ _ => saveFile_eq_error_iff,
    fun _ _ => saveFile_fst_eq_of_error,
    fun action hsaveAs h => ⟨act_eq_of_failed hsaveAs h, told_eq_nil_of_failed h⟩⟩
  have hone : Misplaced shape a = FirstMisplaced shape [a] :=
    funext fun _ => propext firstMisplaced_singleton.symm
  rw [hone]
  exact atomic_setColors d [a] color

end Document

end Quadrille
