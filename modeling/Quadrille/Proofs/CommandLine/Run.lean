import Mathlib
import Quadrille.CommandLine.Run
import Quadrille.Proofs.CommandLine.Items
import Quadrille.Proofs.Document.Run
import Quadrille.Proofs.Files.Disk
import Quadrille.Proofs.Sheet.RowMajor

/-!
# What a run of the program comes to

The program does nothing with a document that could not be done with it otherwise: a run that goes
well is a run of actions on a new document. They come in a fixed order, whatever the order of the
options: a load, the edits, the colors, and as many undos as were asked for or as there are steps.
What is printed and what is saved are read off the document that this gives. So whatever holds of
documents that can be reached by actions holds of the one that is printed.

The order on the command line counts within each kind of option only. For this nothing about
documents is needed, since what runs is given by the options as a whole.

Counts, assignments, colors and settings files are taken as their readers take them. What these take
is said by `Options.readCount_eq_ok_iff`, `Options.splitAssignment_eq_ok_iff`,
`CommandLine.readColor_eq_ok_iff` and `SettingsFile.ofText_eq_ok_iff`.

## Main definitions

* `CommandLine.settingsPath?`, `CommandLine.SettingsAt` — the settings file that counts
* `CommandLine.actions?` — the actions that some options ask for
* `CommandLine.printed` — the lines of the cells that have text, row by row
* `CommandLine.Course` — how a run that goes well comes about

## Main results

* `CommandLine.work_eq_ok_iff` — editing, coloring and undoing are actions
* `CommandLine.exists_course` — what a run that goes well comes to
* `CommandLine.run_course` — the same from the arguments, and in which orders they may come
-/

namespace Quadrille

/-- What a disk answers as long as it is not written. -/
def Disk.files (disk : Disk) : Files where
  size := disk.size
  readBytes := disk.read
  writeBytes path contents := (disk.write path contents).map fun _ => ()

/-! ### Settings -/

namespace CommandLine

open Document

variable {disk disk' : Disk} {userConfig : Option String} {o : Options} {path : String}

/-- The settings file that counts: one that is asked for, or else the user's own, if it exists and
is not to be ignored. -/
def settingsPath? (o : Options) (userConfig : Option String) (disk : Disk) : Option String :=
  o.config.or
    ((if o.ignoreUserConfig then none else userConfig).filter fun path => (disk.size path).isOk)

/-- What a settings file makes, of which there need not be one. -/
def SettingsAt (disk : Disk) (f : SettingsFile) : Option String → Prop
  | none => f = {}
  | some path => ∃ size text, disk.size path = .ok size ∧ size ≤ SettingsFile.largestSize ∧
      (disk.read path).bind FileStore.decode = .ok text ∧ SettingsFile.ofText text = .ok f

/-- A settings file makes one thing only. -/
theorem SettingsAt.unique {f f' : SettingsFile} {path? : Option String}
    (h : SettingsAt disk f path?) (h' : SettingsAt disk f' path?) : f = f' := by
  cases path? with
  | none => exact h.trans h'.symm
  | some path =>
    obtain ⟨_, text, -, -, htext, hf⟩ := h
    obtain ⟨_, text', -, -, htext', hf'⟩ := h'
    obtain rfl : text = text' := Except.ok.inj (htext.symm.trans htext')
    exact Except.ok.inj (hf.symm.trans hf')

/-- The sizes that options ask for, or else a settings file, or else the default ones. -/
def sizes (o : Options) (f : SettingsFile) : Settings where
  rows := o.rows.getD (f.rows.getD 50)
  columns := o.columns.getD (f.columns.getD 26)
  historyLimit := f.historyLimit.getD 100

/-- Reading settings leaves the disk alone, and gives those of the file. -/
theorem exists_of_run_load {result : Except SettingsError Settings}
    (h : disk.run (Settings.load path) = (result, disk')) :
    disk' = disk ∧ ∀ s, result = .ok s → ∃ f, SettingsAt disk f (some path) ∧ s = f.apply {} := by
  have hfailed : ∀ e : SettingsError, ((.error e : Except SettingsError Settings), disk) =
      (result, disk') → disk' = disk ∧
        ∀ s, result = .ok s → ∃ f, SettingsAt disk f (some path) ∧ s = f.apply {} := by
    rintro e ⟨⟩
    exact ⟨rfl, by simp⟩
  rw [Settings.load, Disk.run_bind, Disk.run_size] at h
  cases hsize : disk.size path with
  | error e => exact hfailed _ (by simpa [hsize] using h)
  | ok size =>
    simp only [hsize] at h
    split at h
    · exact hfailed _ h
    · next hlarge =>
      rw [Disk.run_bind, Disk.run_readText] at h
      cases htext : (disk.read path).bind FileStore.decode with
      | error e => exact hfailed _ (by simpa [htext] using h)
      | ok text =>
        simp only [htext] at h
        cases hfile : SettingsFile.ofText text with
        | error line => exact hfailed _ (by simpa [hfile] using h)
        | ok f =>
          simp only [hfile, Disk.run_pure] at h
          obtain ⟨rfl, rfl⟩ := Prod.mk.inj h
          refine ⟨rfl, fun s hs => ⟨f, ⟨size, text, hsize, by omega, htext, hfile⟩, ?_⟩⟩
          exact (Except.ok.inj hs).symm

/-- A file that is asked for has to be there, the user's own need not be. -/
theorem exists_of_run_resolve {explicit userFile : Option String}
    {result : Except SettingsError Settings}
    (h : disk.run (Settings.resolve explicit userFile) = (result, disk')) :
    disk' = disk ∧ ∀ s, result = .ok s → ∃ f, SettingsAt disk f
      (explicit.or (userFile.filter fun path => (disk.size path).isOk)) ∧ s = f.apply {} := by
  rw [Settings.resolve.eq_def] at h
  split at h
  · exact exists_of_run_load h
  · obtain ⟨rfl, rfl⟩ := Prod.mk.inj h
    exact ⟨rfl, fun s hs => ⟨{}, rfl, (Except.ok.inj hs).symm⟩⟩
  · next path =>
    rw [Disk.run_bind, Disk.run_size] at h
    cases hsize : disk.size path with
    | error e =>
      simp only [hsize, Disk.run_pure] at h
      obtain ⟨rfl, rfl⟩ := Prod.mk.inj h
      refine ⟨rfl, fun s hs => ⟨{}, ?_, (Except.ok.inj hs).symm⟩⟩
      simp [Option.filter, hsize, Except.isOk, Except.toBool, SettingsAt]
    | ok size =>
      simp only [hsize] at h
      simpa [Option.filter, hsize, Except.isOk, Except.toBool] using exists_of_run_load h

/-- The sizes that the options ask for come first. -/
theorem exists_of_run_settings {result : Except RunError Settings}
    (h : disk.run (settings o userConfig) = (result, disk')) :
    disk' = disk ∧ ∀ s, result = .ok s →
      ∃ f, SettingsAt disk f (settingsPath? o userConfig disk) ∧ s = sizes o f := by
  obtain ⟨resolved, disk₁, hresolve, h⟩ := Disk.exists_of_run_bind h
  obtain ⟨rfl, hresolved⟩ := exists_of_run_resolve hresolve
  cases resolved with
  | error e =>
    obtain ⟨rfl, rfl⟩ := Prod.mk.inj h
    exact ⟨rfl, by simp⟩
  | ok s =>
    obtain ⟨rfl, rfl⟩ := Prod.mk.inj h
    obtain ⟨f, hf, rfl⟩ := hresolved s rfl
    exact ⟨rfl, fun s hs => ⟨f, hf, (Except.ok.inj hs).symm⟩⟩

variable {f : SettingsFile}

theorem run_load_of_settingsAt (h : SettingsAt disk f (some path)) :
    disk.run (Settings.load path) = (.ok (f.apply {}), disk) := by
  obtain ⟨size, text, hsize, hsmall, htext, hfile⟩ := h
  have hlarge : ¬SettingsFile.largestSize < size := Nat.not_lt.mpr hsmall
  rw [Settings.load, Disk.run_bind, Disk.run_size]
  simp only [hsize, if_neg hlarge]
  rw [Disk.run_bind, Disk.run_readText]
  simp only [htext, hfile, Disk.run_pure]

/-- What a settings file makes is what reading the settings gives. -/
theorem run_settings_of_settingsAt (h : SettingsAt disk f (settingsPath? o userConfig disk)) :
    disk.run (settings o userConfig) = (.ok (sizes o f), disk) := by
  have hresolve : disk.run (Settings.resolve o.config
      (if o.ignoreUserConfig then none else userConfig)) = (.ok (f.apply {}), disk) := by
    rw [settingsPath?] at h
    cases hconfig : o.config with
    | some path =>
      rw [hconfig, Option.some_or] at h
      exact run_load_of_settingsAt h
    | none =>
      rw [hconfig, Option.none_or] at h
      cases huser : if o.ignoreUserConfig then none else userConfig with
      | none =>
        rw [huser] at h
        obtain rfl : f = {} := h
        rfl
      | some path =>
        rw [huser] at h
        rw [Settings.resolve, Disk.run_bind, Disk.run_size]
        cases hsize : disk.size path with
        | error e =>
          obtain rfl : f = {} := by
            simpa [Option.filter, hsize, Except.isOk, Except.toBool, SettingsAt] using h
          rfl
        | ok size =>
          refine run_load_of_settingsAt ?_
          simpa [Option.filter, hsize, Except.isOk, Except.toBool] using h
  rw [settings, Disk.run_bind, hresolve]
  rfl

/-! ### Actions -/

/-- The action that an edit asks for. -/
def editAction? (shape : Shape) (edit : String × String) : Option Action :=
  (shape.named? edit.1).map fun p => .setText (shape.address p) edit.2

/-- The action that a color asks for. -/
def colorAction? (shape : Shape) (edit : String × String) : Option Action :=
  (shape.named? edit.1).bind fun p =>
    (readColor edit.2).toOption.map fun color => .setColors [shape.address p] color

/-- The load that some options ask for. -/
def loads (files : Files) (o : Options) : List Action :=
  o.file.toList.map fun path => .loadFile path files

/-- The actions that some options ask for, but for undoing: a load, then all edits, then all
colors. -/
def actions? (shape : Shape) (files : Files) (o : Options) : Option (List Action) := do
  let edits ← o.edits.mapM (editAction? shape)
  let colors ← o.colors.mapM (colorAction? shape)
  return loads files o ++ (edits ++ colors)

variable {shape : Shape} {d d' : Document shape}

theorem applyEdit_eq_ok_iff {edit : String × String} :
    applyEdit d edit = .ok d' ↔
      ∃ action, editAction? shape edit = some action ∧ d.attempt action = (d', true) := by
  rw [applyEdit, cellAddress, editAction?]
  cases shape.named? edit.1 with
  | none => simp [bind, Except.bind]
  | some p =>
    simp only [ok_bind, attempt, Option.map_some, Option.some.injEq, exists_eq_left']
    cases d.setText (shape.address p) edit.2 <;>
      simp [Except.mapError, bind, Except.bind, pure, Except.pure, after]

theorem applyColor_eq_ok_iff {edit : String × String} :
    applyColor d edit = .ok d' ↔
      ∃ action, colorAction? shape edit = some action ∧ d.attempt action = (d', true) := by
  rw [applyColor, cellAddress, colorAction?]
  cases shape.named? edit.1 with
  | none => simp [bind, Except.bind]
  | some p =>
    cases readColor edit.2 with
    | error e => simp [Except.toOption, bind, Except.bind]
    | ok color =>
      simp only [ok_bind, attempt, Option.bind_some, Except.toOption, Option.map_some,
        Option.some.injEq, exists_eq_left', setColor]
      cases d.setColors [shape.address p] color <;>
        simp [Except.mapError, bind, Except.bind, pure, Except.pure, after]

/-- What goes through a list of options performs the actions that they ask for. -/
theorem foldlM_eq_ok_iff {α : Type} {xs : List α} {action? : α → Option Action}
    {apply : Document shape → α → Except RunError (Document shape)}
    (happly : ∀ {d x d'}, apply d x = .ok d' ↔
      ∃ action, action? x = some action ∧ d.attempt action = (d', true)) :
    xs.foldlM apply d = .ok d' ↔
      ∃ actions, xs.mapM action? = some actions ∧ d.Leads actions d' := by
  induction xs generalizing d with
  | nil => simp [Leads, GoesWell, pure, Except.pure]
  | cons x xs ih =>
    rw [List.foldlM_cons, bind_eq_ok_iff]
    simp only [happly, ih, List.mapM_cons]
    constructor
    · rintro ⟨d₁, ⟨action, hx, hd₁⟩, actions, hxs, hlead⟩
      exact ⟨action :: actions, by simp [hx, hxs], leads_cons.mpr ⟨d₁, hd₁, hlead⟩⟩
    · rintro ⟨all, hall, hlead⟩
      simp only [bind, Option.bind_eq_some_iff, pure, Option.some.injEq] at hall
      obtain ⟨action, hx, actions, hxs, rfl⟩ := hall
      obtain ⟨d₁, hd₁, hlead⟩ := leads_cons.mp hlead
      exact ⟨d₁, ⟨action, hx, hd₁⟩, actions, hxs, hlead⟩

/-- Undoing stops where there is nothing left to undo. -/
theorem leads_undoSteps (d : Document shape) (n : Nat) :
    d.Leads (.replicate (min n d.history.undo.length) .undo) (undoSteps d n) := by
  induction n generalizing d with
  | zero => simp [Leads, GoesWell, undoSteps]
  | succ n ih =>
    rw [undoSteps]
    cases ho : d.undo? with
    | none =>
      have hnil : d.history.undo = [] := undo?_eq_none_iff.mp ho
      simp [Leads, GoesWell, hnil]
    | some o =>
      -- an undo takes one step from those that can be undone
      have hlength : d.history.undo.length = o.document.history.undo.length + 1 := by
        rw [undo?] at ho
        split at ho
        · simp at ho
        · next hundo =>
          rw [hundo, ← Option.some.inj ho]
          rfl
      rw [hlength, Nat.succ_min_succ, List.replicate_succ, leads_cons]
      exact ⟨o.document, by simp [attempt, ho], ih o.document⟩

/-- **Editing, coloring and undoing are actions.** -/
theorem work_eq_ok_iff : work o d = .ok d' ↔
    ∃ edits colors d₁, o.edits.mapM (editAction? shape) = some edits ∧
      o.colors.mapM (colorAction? shape) = some colors ∧ d.Leads (edits ++ colors) d₁ ∧
      undoSteps d₁ o.undo = d' := by
  have hedit : ∀ {d d' : Document shape}, o.edits.foldlM applyEdit d = .ok d' ↔
      ∃ actions, o.edits.mapM (editAction? shape) = some actions ∧ d.Leads actions d' :=
    foldlM_eq_ok_iff applyEdit_eq_ok_iff
  have hcolor : ∀ {d d' : Document shape}, o.colors.foldlM applyColor d = .ok d' ↔
      ∃ actions, o.colors.mapM (colorAction? shape) = some actions ∧ d.Leads actions d' :=
    foldlM_eq_ok_iff applyColor_eq_ok_iff
  simp only [work, bind_eq_ok_iff, hedit, hcolor, leads_append, pure, Except.pure,
    Except.ok.injEq]
  constructor
  · rintro ⟨d₁, ⟨edits, hedits, hlead⟩, d₂, ⟨colors, hcolors, hlead'⟩, hundo⟩
    exact ⟨edits, colors, d₂, hedits, hcolors, ⟨d₁, hlead, hlead'⟩, hundo⟩
  · rintro ⟨edits, colors, d₂, hedits, hcolors, ⟨d₁, hlead, hlead'⟩, hundo⟩
    exact ⟨d₁, ⟨edits, hedits, hlead⟩, d₂, ⟨colors, hcolors, hlead'⟩, hundo⟩

/-! ### Files -/

/-- Loading the document to begin with is the action that the options ask for first. -/
theorem leads_of_run_loadInput {result : Except RunError (Document shape)}
    (h : disk.run (loadInput o d) = (result, disk')) :
    disk' = disk ∧ ∀ d', result = .ok d' → d.Leads (loads disk.files o) d' := by
  rw [loadInput] at h
  rw [loads]
  cases hfile : o.file with
  | none =>
    simp only [hfile, Disk.run_pure] at h
    obtain ⟨rfl, rfl⟩ := Prod.mk.inj h
    refine ⟨rfl, fun d' hd' => ?_⟩
    obtain rfl := Except.ok.inj hd'
    simp [Leads, GoesWell]
  | some path =>
    simp only [hfile] at h
    obtain ⟨loaded, disk₁, hload, h⟩ := Disk.exists_of_run_bind h
    obtain ⟨rfl, rfl⟩ := Prod.mk.inj hload
    cases hloaded : d.loadFrom path ((disk.read path).bind FileStore.decode) with
    | error e =>
      rw [hloaded] at h
      obtain ⟨rfl, rfl⟩ := Prod.mk.inj h
      exact ⟨rfl, by simp⟩
    | ok outcome =>
      rw [hloaded] at h
      obtain ⟨rfl, rfl⟩ := Prod.mk.inj h
      refine ⟨rfl, fun d' hd' => ?_⟩
      obtain rfl := Except.ok.inj hd'
      have hattempt : d.attempt (.loadFile path disk.files) = (outcome.document, true) :=
        congrArg d.after hloaded
      exact leads_cons.mpr ⟨_, hattempt, trivial, rfl⟩

/-- The addresses in a grid, row by row. -/
def addresses (shape : Shape) : List Address :=
  (List.range shape.rows).flatMap fun row => (List.range shape.columns).map fun column =>
    ⟨row, column⟩

/-- The line that is printed for the cell at an address, if it has text. -/
def line? (d : Document shape) (a : Address) : Option String :=
  (d.cellAt? a).bind fun c => if c.text = "" then none else some (s!"{a.name}: {c.shown}" ++ "\n")

/-- What is printed. -/
def printed (d : Document shape) : String :=
  String.join ((addresses shape).filterMap (line? d))

/-- The places of a grid come row by row. -/
theorem map_address_places (shape : Shape) :
    (Sheet.places shape).map shape.address = addresses shape := by
  rw [addresses, ← map_range_eq_flatMap, ← List.map_coe_finRange_eq_range, List.map_map]
  rfl

/-- The listing holds the lines to print. -/
theorem unlines_listing (d : Document shape) : unlines d.listing = printed d := by
  rw [unlines, listing, printed, Sheet.entries, ← map_address_places, List.filterMap_map]
  congr 1
  induction Sheet.places shape with
  | nil => rfl
  | cons p ps ih =>
    rw [List.filterMap_cons, ← ih]
    by_cases htext : (d.sheet.cell p).text = ""
    · simp [line?, cellAt?, htext]
    · simp [line?, cellAt?, htext]

/-- Saving writes the file, and goes well if it can be written. -/
theorem run_saveAs (d : Document shape) (path : String) (disk : Disk) :
    disk.run (d.saveAs path) = match disk.write path d.archived.toUTF8 with
      | .ok disk' => (({ d with path := some path }.saved, .ok path), disk')
      | .error e => (({ d with path := some path }, .error (.file e)), disk) := by
  have harchived : archived { d with path := some path } = d.archived := rfl
  rw [saveAs, saveFile]
  dsimp only
  rw [Disk.run_bind, Disk.run_writeText, harchived]
  cases disk.write path d.archived.toUTF8 <;> rfl

/-- What is printed and saved is the document at the end. -/
theorem run_conclude (o : Options) (d : Document shape) (disk : Disk) :
    disk.run (conclude o d) = match o.output with
      | none => ({ stdout := printed d }, disk)
      | some path => match disk.write path d.archived.toUTF8 with
        | .ok disk' => ({ stdout := printed d, stderr := s!"Saved to {path}" ++ "\n" }, disk')
        | .error e => (failed (.save path (.file e)) (printed d), disk) := by
  rw [conclude, unlines_listing]
  cases o.output with
  | none => rfl
  | some path =>
    dsimp only
    rw [Disk.run_bind, run_saveAs]
    cases disk.write path d.archived.toUTF8 <;> simp [unlines]

theorem of_run_conclude {report : Report} (h : disk.run (conclude o d) = (report, disk'))
    (hexit : report.exitCode = 0) : report.stdout = printed d ∧
      match o.output with
      | none => disk' = disk ∧ report.stderr = ""
      | some path => disk.write path d.archived.toUTF8 = .ok disk' ∧
          report.stderr = s!"Saved to {path}" ++ "\n" := by
  rw [run_conclude] at h
  cases houtput : o.output with
  | none =>
    rw [houtput] at h
    obtain ⟨rfl, rfl⟩ := Prod.mk.inj h
    exact ⟨rfl, rfl, rfl⟩
  | some path =>
    rw [houtput] at h
    dsimp only at h ⊢
    cases hwrite : disk.write path d.archived.toUTF8 with
    | error e =>
      rw [hwrite] at h
      obtain ⟨rfl, rfl⟩ := Prod.mk.inj h
      simp [failed] at hexit
    | ok written =>
      rw [hwrite] at h
      obtain ⟨rfl, rfl⟩ := Prod.mk.inj h
      exact ⟨rfl, rfl, rfl⟩

/-! ### Runs -/

/-- All that is done with the document: what the options ask for, and then as many undos as they ask
for, or as there are steps. -/
def withUndos (s : Settings) (o : Options) (actions : List Action) : List Action :=
  let available := (Document.run s.shape s.historyLimit actions).history.undo.length
  actions ++ .replicate (min o.undo available) .undo

/-- The document of a run, made with the given settings. -/
def result (s : Settings) (o : Options) (actions : List Action) : Document s.shape :=
  Document.run s.shape s.historyLimit (withUndos s o actions)

/-- How a run with some options that goes well comes about. The settings file `f` and the actions
are found from the options and the disk, and everything else from these. -/
structure Course (o : Options) (userConfig : Option String) (disk disk' : Disk) (report : Report)
    (f : SettingsFile) (actions : List Action) : Prop where
  settings : SettingsAt disk f (settingsPath? o userConfig disk)
  asked : actions? (sizes o f).shape disk.files o = some actions
  goesWell : (blank (sizes o f).shape (sizes o f).historyLimit).GoesWell
    (withUndos (sizes o f) o actions)
  stdout : report.stdout = printed (result (sizes o f) o actions)
  notSaved : o.output = none → disk' = disk ∧ report.stderr = ""
  saved : ∀ path, o.output = some path →
    let text := (result (sizes o f) o actions).archived
    disk.write path text.toUTF8 = .ok disk' ∧ disk'.read path = .ok text.toUTF8 ∧
      report.stderr = s!"Saved to {path}" ++ "\n"

variable {report : Report}

/-- A document that has been loaded and worked on comes from actions that all go well. -/
theorem exists_actions_of_work {s : Settings} {files : Files} {d d' : Document s.shape}
    (hloads : (blank s.shape s.historyLimit).Leads (loads files o) d) (hwork : work o d = .ok d') :
    ∃ actions, actions? s.shape files o = some actions ∧
      (blank s.shape s.historyLimit).Leads (withUndos s o actions) d' := by
  obtain ⟨edits, colors, d₁, hedits, hcolors, hlead, rfl⟩ := work_eq_ok_iff.mp hwork
  have hactions : (blank s.shape s.historyLimit).Leads (loads files o ++ (edits ++ colors)) d₁ :=
    leads_append.mpr ⟨d, hloads, hlead⟩
  refine ⟨loads files o ++ (edits ++ colors), by simp [actions?, hedits, hcolors], ?_⟩
  refine leads_append.mpr ⟨d₁, hactions, ?_⟩
  rw [Document.run, hactions.2]
  exact leads_undoSteps d₁ o.undo

/-- **What a run that goes well comes to.** -/
theorem exists_course (h : disk.run (runOptions o userConfig) = (report, disk'))
    (hexit : report.exitCode = 0) :
    ∃ f actions, Course o userConfig disk disk' report f actions := by
  have hfailed : ∀ {e : RunError} {disk₁ : Disk}, (failed e "", disk₁) ≠ (report, disk') := by
    rintro e disk₁ ⟨⟩
    simp [failed] at hexit
  obtain ⟨made, disk₁, hsettings, h⟩ := Disk.exists_of_run_bind h
  obtain ⟨rfl, hmade⟩ := exists_of_run_settings hsettings
  cases made with
  | error e => exact absurd h hfailed
  | ok s =>
    obtain ⟨f, hf, rfl⟩ := hmade s rfl
    obtain ⟨loaded, disk₂, hload, h⟩ := Disk.exists_of_run_bind h
    obtain ⟨rfl, hloaded⟩ := leads_of_run_loadInput hload
    cases loaded with
    | error e => exact absurd h hfailed
    | ok d =>
      dsimp only at h
      cases hwork : work o d with
      | error e =>
        rw [hwork] at h
        exact absurd h hfailed
      | ok d' =>
        rw [hwork] at h
        obtain ⟨hstdout, houtput⟩ := of_run_conclude h hexit
        obtain ⟨actions, hactions, hgoesWell, hresult⟩ :=
          exists_actions_of_work (hloaded d rfl) hwork
        obtain rfl : result (sizes o f) o actions = d' := hresult
        refine ⟨f, actions, hf, hactions, hgoesWell, hstdout, fun hnone => ?_, fun path hpath => ?_⟩
        · simpa [hnone] using houtput
        · rw [hpath] at houtput
          exact ⟨houtput.1, Disk.read_of_write houtput.1, houtput.2⟩

/-- With the settings that count and a document to begin with that can be worked on, a run comes to
its conclusion. -/
theorem run_runOptions_of_work {d d' : Document shape}
    (hf : SettingsAt disk f (settingsPath? o userConfig disk)) (hshape : (sizes o f).shape = shape)
    (hload : disk.run (loadInput o (blank shape (sizes o f).historyLimit)) = (.ok d, disk))
    (hwork : work o d = .ok d') :
    disk.run (runOptions o userConfig) = disk.run (conclude o d') := by
  subst hshape
  rw [runOptions, Disk.run_bind, run_settings_of_settingsAt hf]
  dsimp only
  rw [Disk.run_bind, hload]
  dsimp only
  rw [hwork]

/-- **The command line is the library applied in a fixed order.** What can be read consists of
items, in one way or another, and the options are what the items stand for. A run that goes well is
a run of the actions that they ask for. Items of different kinds can change places in all runs, also
in those that fail. -/
theorem run_course {arguments : List String} (h : Options.ofArguments arguments = .run o) :
    (∃ items, Options.WellFormed items ∧ Options.words items = arguments) ∧
    ∀ items, Options.WellFormed items → Options.words items = arguments →
      o = Options.ofItems items ∧
      (∀ userConfig disk disk' report,
        disk.run (run arguments userConfig) = (report, disk') → report.exitCode = 0 →
          ∃ f actions, Course o userConfig disk disk' report f actions) ∧
      ∀ items', Options.SameByKind items items' →
        ∀ (m : Type → Type) [Monad m] [FileStore m] (userConfig : Option String),
          (run (Options.words items') userConfig : m Report) = run arguments userConfig := by
  obtain ⟨items, hwell, rfl, rfl⟩ := Options.ofArguments_eq_run_iff.mp h
  refine ⟨⟨items, hwell, rfl⟩, fun items' hwell' hwords => ?_⟩
  have hsame : Options.ofItems items = Options.ofItems items' :=
    Invocation.run.inj (h.symm.trans (hwords ▸ Options.ofArguments_words hwell'))
  refine ⟨hsame, fun userConfig disk disk' report hrun hexit => ?_, ?_⟩
  · rw [run, h] at hrun
    exact exists_course hrun hexit
  · intro items'' hkinds m _ _ userConfig
    rw [run, run, ← hwords, Options.ofArguments_words_congr hkinds hwell']

/-- A disk with a settings file and a stored document. -/
def sampleDisk : Disk where
  entries := [
    (["settings"], .file "rows = 1\ncolumns = 2\n".toUTF8),
    (["in"], .file ("<Spreadsheet><SpreadsheetCell IndexName=\"B1\"><Text>b</Text>" ++
      "</SpreadsheetCell></Spreadsheet>").toUTF8)]

/-- Two edits of one cell and two colors for another, of which the second is undone. -/
def sampleOptions : Options where
  file := some "in"
  edits := [("A1", "x"), ("A1", "y")]
  colors := [("B1", "7"), ("B1", "0xFF")]
  undo := 1
  output := some "out"
  config := some "settings"

set_option maxRecDepth 4000 in
theorem settingsAt_sampleDisk :
    SettingsAt sampleDisk { rows := some 1, columns := some 2 } (some "settings") := by
  refine ⟨21, "rows = 1\ncolumns = 2\n", ?_, by decide, ?_, ?_⟩ <;> cbv

set_option maxRecDepth 4000 in
theorem run_loadFile_sampleDisk (d : Document shape) : sampleDisk.run (d.loadFile "in") =
    (((d.load [{ name := "B1", text := "b" }]).map fun o =>
      { o with document := { o.document with path := some "in" } }), sampleDisk) := by
  have hcontents : (sampleDisk.read "in").bind FileStore.decode =
      .ok ("<Spreadsheet><SpreadsheetCell IndexName=\"B1\"><Text>b</Text>" ++
        "</SpreadsheetCell></Spreadsheet>") := by
    cbv
  have hstored : Archive.read ("<Spreadsheet><SpreadsheetCell IndexName=\"B1\"><Text>b</Text>" ++
      "</SpreadsheetCell></Spreadsheet>") = .ok [{ name := "B1", text := "b" }] := by
    decide +kernel
  have hload : ∀ text, Archive.read text = .ok [{ name := "B1", text := "b" }] →
      d.loadText text = d.load [{ name := "B1", text := "b" }] := fun text htext => by
    rw [loadText.eq_def, htext]
    rfl
  have hrun : sampleDisk.run (d.loadFile "in") =
      (d.loadFrom "in" ((sampleDisk.read "in").bind FileStore.decode), sampleDisk) := rfl
  rw [hrun, hcontents, loadFrom, Except.mapError, ok_bind, hload _ hstored]
  cases d.load [{ name := "B1", text := "b" }] <;> rfl

set_option maxRecDepth 4000 in
theorem exists_work_sampleOptions : ∃ d d' : Document ⟨1, 2⟩,
    sampleDisk.run (loadInput sampleOptions (blank ⟨1, 2⟩ 100)) = (.ok d, sampleDisk) ∧
      work sampleOptions d = .ok d' ∧ printed d' = "A1: y\nB1: b\n" := by
  have hworked : ((blank ⟨1, 2⟩ 100).load [{ name := "B1", text := "b" }]).toOption.bind (fun o =>
      (work sampleOptions { o.document with path := some "in" }).toOption.map printed) =
        some "A1: y\nB1: b\n" := by
    cbv
  obtain ⟨o, ho, hworked⟩ := Option.bind_eq_some_iff.mp hworked
  obtain ⟨d, hd, hprinted⟩ := Option.map_eq_some_iff.mp hworked
  refine ⟨{ o.document with path := some "in" }, d, ?_, toOption_eq_some_iff.mp hd, hprinted⟩
  rw [loadInput.eq_def]
  dsimp only [sampleOptions]
  rw [Disk.run_bind, run_loadFile_sampleDisk, toOption_eq_some_iff.mp ho]
  rfl

theorem exists_write_sampleDisk (contents : ByteArray) :
    ∃ disk', sampleDisk.write "out" contents = .ok disk' := by
  have hwritable : (sampleDisk.write "out" contents).isOk = true := by cbv
  cases hwrite : sampleDisk.write "out" contents with
  | ok disk' => exact ⟨disk', rfl⟩
  | error e => simp [hwrite, Except.isOk, Except.toBool] at hwritable

/-- There are a settings file and a document to load. Of the colors, which come last, one is undone,
although the options for all this stand in another order. -/
theorem run_course_sample :
    let arguments := ["-u", "1", "--color", "B1=7", "--set", "A1=x", "in", "--color", "B1=0xFF",
      "-s", "A1=y", "-o", "out", "--config", "settings"]
    let f : SettingsFile := { rows := some 1, columns := some 2 }
    let actions : List Action := [.loadFile "in" sampleDisk.files, .setText ⟨0, 0⟩ "x",
      .setText ⟨0, 0⟩ "y", .setColors [⟨0, 1⟩] 7, .setColors [⟨0, 1⟩] 0xFF]
    Options.ofArguments arguments = .run sampleOptions ∧
      ∃ disk' report, sampleDisk.run (run arguments none) = (report, disk') ∧
        (report.exitCode = 0 ∧ report.stdout = "A1: y\nB1: b\n") ∧
        Course sampleOptions none sampleDisk disk' report f actions := by
  intro arguments f actions
  have hread : Options.ofArguments arguments = .run sampleOptions := by cbv
  obtain ⟨d, d', hload, hwork, hprinted⟩ := exists_work_sampleOptions
  obtain ⟨disk', hwrite⟩ := exists_write_sampleDisk d'.archived.toUTF8
  have hconclude : sampleDisk.run (conclude sampleOptions d') =
      ({ stdout := printed d', stderr := "Saved to out\n" }, disk') := by
    rw [run_conclude]
    dsimp only [sampleOptions]
    rw [hwrite]
    rfl
  have hrun : sampleDisk.run (run arguments none) =
      ({ stdout := printed d', stderr := "Saved to out\n" }, disk') := by
    rw [run, hread, ← hconclude]
    exact run_runOptions_of_work settingsAt_sampleDisk rfl hload hwork
  obtain ⟨⟨items, hwell, hwords⟩, hitems⟩ := run_course hread
  obtain ⟨-, hcourse, -⟩ := hitems items hwell hwords
  obtain ⟨f', actions', hcourse⟩ := hcourse none sampleDisk _ _ hrun rfl
  obtain rfl : f' = f := hcourse.settings.unique settingsAt_sampleDisk
  have hactions : actions? ⟨1, 2⟩ sampleDisk.files sampleOptions = some actions := rfl
  obtain rfl : actions' = actions := Option.some.inj (hcourse.asked.symm.trans hactions)
  exact ⟨hread, disk', _, hrun, ⟨rfl, hprinted⟩, hcourse⟩

end CommandLine

end Quadrille
