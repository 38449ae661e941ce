import Quadrille.Proofs.Document.InPlace

/-!
# What has been saved, and where

A document says two things about the files around it: whether there may be work that has not been
saved, and which file it belongs to. Each is a statement about the past. The first is about the
latest action that saved the document or loaded another one into it, the second about the latest
that did so with a file. What came before does not count, and neither does what came after, as long
as nothing of the kind was among it. So both go by what one action does that is of the kind, and
what one action leaves alone that is not.

The mark for unsaved work errs on one side only. It is not taken away when undoing leads back to
what was saved, but a document without it is the one that was saved.

The file of a document is the one that it was loaded from or saved to last, unless saving it to
another file has failed since. Then it is that other file, although nothing has been written there,
and saving the document the next time writes it.

## Main definitions

* `Document.Never`, `Document.IsLatest` — that nothing of a kind has happened (since something did)
* `Document.Syncs`, `Document.Adopts` — the kinds that the two statements are about
* `Document.pathsWritten` — the files that are written when a document is saved

## Main results

* `Document.unmodified_run` — there is no unsaved work without a mark
* `Document.path_run` — the file of a document, as long as saving it to another does not fail
-/

namespace Quadrille

variable {shape : Shape}

/-- Whether an action exchanges the contents of a document with a text or a file. -/
def Action.isExchange : Action → Bool
  | .loadText _ | .loadFile .. | .saveFile _ | .saveAs .. => true
  | _ => false

/-- The file that an action is to load from or to save to. -/
def Action.path? : Action → Option String
  | .loadFile path _ | .saveAs path _ => some path
  | _ => none

namespace Document

/-! ### The latest action of a kind -/

section Latest

variable (P : Document shape → Action → Prop)

/-- None of some actions is of a kind. Whether an action is may depend on the document that those
before it leave. -/
def Never : Document shape → List Action → Prop
  | _, [] => True
  | d, action :: rest => ¬P d action ∧ Never (d.act action) rest

/-- An action is of a kind, and none of those after it is. -/
structure IsLatest (d : Document shape) (before : List Action) (action : Action)
    (after : List Action) : Prop where
  holds : P (before.foldl act d) action
  never_since : Never P ((before ++ [action]).foldl act d) after

/-- Among some actions one is the latest of a kind, unless there is none. -/
theorem never_or_exists_isLatest (d : Document shape) (actions : List Action) :
    Never P d actions ∨ ∃ before action after, actions = before ++ action :: after ∧
      IsLatest P d before action after := by
  induction actions generalizing d with
  | nil => exact .inl trivial
  | cons action rest ih =>
    -- The first action counts only if none of the later ones does.
    obtain hrest | ⟨before, latest, after, rfl, hlatest⟩ := ih (d.act action)
    · by_cases haction : P d action
      · exact .inr ⟨[], action, rest, rfl, haction, hrest⟩
      · exact .inl ⟨haction, hrest⟩
    · exact .inr ⟨action :: before, latest, after, rfl, hlatest.holds, hlatest.never_since⟩

end Latest

/-- A run goes on after one of its actions. -/
theorem run_append_cons (shape : Shape) (limit : Nat) (before : List Action) (action : Action)
    (after : List Action) :
    run shape limit (before ++ [action]) = (run shape limit before).act action ∧
      run shape limit (before ++ action :: after) =
        after.foldl act (run shape limit (before ++ [action])) := by
  simp [run, List.foldl_append]

variable {d d' : Document shape} {o : Outcome shape} {action : Action} {actions : List Action}

/-! ### What one action does to the mark and the file -/

/-- An operation that goes well leaves the document of its outcome. -/
theorem exists_of_after_eq_true {ε : Type} {r : Except ε (Outcome shape)}
    (h : (d.after r).2 = true) : ∃ o, r = .ok o ∧ (d.after r).1 = o.document := by
  cases r with
  | ok o => exact ⟨o, rfl, rfl⟩
  | error e => simp [after] at h

/-- A document is another after some work on the sheet: it belongs to the same file, and it is
marked unless the sheet is the same. -/
structure Worked (d d' : Document shape) : Prop where
  path_eq : d'.path = d.path
  marked : d'.modified = true ∨ d'.sheet = d.sheet ∧ d'.modified = d.modified

theorem Worked.refl (d : Document shape) : d.Worked d where
  path_eq := rfl
  marked := .inr ⟨rfl, rfl⟩

theorem worked_setText {a : Address} {text : String} (ho : d.setText a text = .ok o) :
    d.Worked o.document := by
  obtain ⟨p, -, ho⟩ := bind_eq_ok_iff.mp ho
  split at ho
  · obtain rfl := Except.ok.inj ho
    exact .refl d
  · obtain rfl := Except.ok.inj ho
    exact ⟨rfl, .inl rfl⟩

theorem worked_setColors {as : List Address} {color : Color} (ho : d.setColors as color = .ok o) :
    d.Worked o.document := by
  obtain ⟨ps, -, ho⟩ := bind_eq_ok_iff.mp ho
  dsimp only at ho
  split at ho
  · obtain rfl := Except.ok.inj ho
    exact .refl d
  · obtain rfl := Except.ok.inj ho
    exact ⟨rfl, .inl rfl⟩

theorem worked_undo? (ho : d.undo? = some o) : d.Worked o.document := by
  rw [undo?] at ho
  split at ho
  · simp at ho
  · obtain rfl := Option.some.inj ho
    exact ⟨rfl, .inl rfl⟩

theorem worked_redo? (ho : d.redo? = some o) : d.Worked o.document := by
  rw [redo?] at ho
  split at ho
  · simp at ho
  · obtain rfl := Option.some.inj ho
    exact ⟨rfl, .inl rfl⟩

/-- What is no exchange is work on the sheet, if it does anything at all. -/
theorem worked_act (h : action.isExchange = false) : d.Worked (d.act action) := by
  cases action with
  | setText a text => exact after_induction (.refl d) fun o ho => worked_setText ho
  | setColors as color => exact after_induction (.refl d) fun o ho => worked_setColors ho
  | undo =>
    rw [act, attempt]
    cases ho : d.undo? with
    | none => exact .refl d
    | some o => exact worked_undo? ho
  | redo =>
    rw [act, attempt]
    cases ho : d.redo? with
    | none => exact .refl d
    | some o => exact worked_redo? ho
  | clearHistory => exact ⟨rfl, .inr ⟨rfl, rfl⟩⟩
  | _ => simp [Action.isExchange] at h

/-- Loading takes the mark away. -/
theorem unmarked_of_loadText {text : String} (ho : d.loadText text = .ok o) :
    o.document.modified = false ∧ o.document.path = d.path := by
  obtain ⟨stored, -, ho⟩ := bind_eq_ok_iff.mp ho
  obtain ⟨placed, -, rfl⟩ := load_eq_ok_iff.mp ho
  exact ⟨rfl, rfl⟩

theorem unmarked_of_loadFrom {path : String} {contents : Except FileError String}
    (ho : d.loadFrom path contents = .ok o) :
    o.document.modified = false ∧ o.document.path = some path := by
  obtain ⟨text, -, ho⟩ := bind_eq_ok_iff.mp ho
  obtain ⟨loaded, hload, ho⟩ := bind_eq_ok_iff.mp ho
  obtain rfl := Except.ok.inj ho
  exact ⟨(unmarked_of_loadText hload).1, rfl⟩

/-- Saving keeps the file, and takes the mark away if it goes well. -/
theorem path_of_saveFile (d : Document shape) (files : Files) :
    (ReaderT.run (m := Id) d.saveFile files).1.path = d.path ∧
      ((ReaderT.run (m := Id) d.saveFile files).2.isOk = true →
        (ReaderT.run (m := Id) d.saveFile files).1.modified = false) := by
  rw [run_saveFile]
  cases hpath : d.path with
  | none => exact ⟨hpath, by simp [Except.isOk, Except.toBool]⟩
  | some path =>
    dsimp only
    cases files.writeBytes path d.archived.toUTF8 with
    | error e => exact ⟨hpath, by simp [Except.isOk, Except.toBool]⟩
    | ok _ => exact ⟨hpath, fun _ => rfl⟩

/-- A failure changes neither the sheet nor the mark. -/
theorem act_of_failed (h : (d.attempt action).2 = false) :
    (d.act action).sheet = d.sheet ∧ (d.act action).modified = d.modified := by
  by_cases hsaveAs : ∃ path files, action = .saveAs path files
  -- This is the one failure that leaves a trace, and all of it is the path.
  · obtain ⟨path, files, rfl⟩ := hsaveAs
    have h : (ReaderT.run (m := Id) (d.saveAs path) files).2.isOk = false := h
    cases hresult : (ReaderT.run (m := Id) (d.saveAs path) files).2 with
    | ok _ => simp [hresult, Except.isOk, Except.toBool] at h
    | error e =>
      have hsame : (ReaderT.run (m := Id) (d.saveAs path) files).1 =
          { d with path := some path } := saveFile_fst_eq_of_error hresult
      rw [show d.act (.saveAs path files) = _ from hsame]
      exact ⟨rfl, rfl⟩
  · rw [act_eq_of_failed (fun path files heq => hsaveAs ⟨path, files, heq⟩) h]
    exact ⟨rfl, rfl⟩

/-! ### Unsaved work -/

/-- An action saves a document or loads another into it, and that goes well. -/
def Syncs (d : Document shape) (action : Action) : Prop :=
  action.isExchange = true ∧ (d.attempt action).2 = true

theorem modified_act_of_syncs (h : d.Syncs action) : (d.act action).modified = false := by
  obtain ⟨hexchange, hwell⟩ := h
  cases action with
  | loadText text =>
    obtain ⟨o, ho, hdocument⟩ := exists_of_after_eq_true hwell
    exact (congrArg modified hdocument).trans (unmarked_of_loadText ho).1
  | loadFile path files =>
    obtain ⟨o, ho, hdocument⟩ := exists_of_after_eq_true hwell
    exact (congrArg modified hdocument).trans (unmarked_of_loadFrom ho).1
  | saveFile files => exact (path_of_saveFile d files).2 hwell
  | saveAs path files => exact (path_of_saveFile { d with path := some path } files).2 hwell
  | _ => simp [Action.isExchange] at hexchange

/-- Everything else sets the mark, or changes neither the mark nor the sheet. -/
theorem marked_act (h : ¬d.Syncs action) : (d.act action).modified = true ∨
    (d.act action).sheet = d.sheet ∧ (d.act action).modified = d.modified := by
  cases hexchange : action.isExchange with
  | false => exact (worked_act hexchange).marked
  | true => exact .inr (act_of_failed (by simpa [Syncs, hexchange] using h))

/-- **As long as nothing is saved or loaded,** the mark stays where it is set, and the sheet is the
same where it is not. -/
theorem marked_foldl_act (h : Never Syncs d actions) : (actions.foldl act d).modified = true ∨
    (actions.foldl act d).sheet = d.sheet ∧ (actions.foldl act d).modified = d.modified := by
  induction actions generalizing d with
  | nil => exact .inr ⟨rfl, rfl⟩
  | cons action rest ih =>
    obtain hmarked | ⟨hsheet, hmodified⟩ := ih h.2
    · exact .inl hmarked
    · rw [List.foldl_cons, hsheet, hmodified]
      exact marked_act h.1

/-- Without a mark the sheet is the same, and so is the text that it is stored as. -/
theorem eq_of_unmarked (h : Never Syncs d actions)
    (hunmarked : (actions.foldl act d).modified = false) :
    (actions.foldl act d).sheet = d.sheet ∧ (actions.foldl act d).archived = d.archived := by
  obtain hmarked | ⟨hsheet, -⟩ := marked_foldl_act h
  · rw [hunmarked] at hmarked
    cases hmarked
  · exact ⟨hsheet, by rw [archived, archived, hsheet]⟩

/-- **There is no unsaved work without a mark.** A document without it is, to the last cell, what it
was right after the latest action that saved it or loaded another into it, and a blank one if there
was none. So it is also stored as the same text. Nothing but such an action can leave another sheet
without a mark, whatever is done in between and whether or not it fails. -/
theorem unmodified_run (shape : Shape) (limit : Nat) (actions : List Action) :
    let new : Document shape := blank shape limit
    let d := run shape limit actions
    (Never Syncs new actions ∨ ∃ before action after, actions = before ++ action :: after ∧
      IsLatest Syncs new before action after) ∧
    (∀ before action after, actions = before ++ action :: after →
      IsLatest Syncs new before action after →
        let synced := run shape limit (before ++ [action])
        synced.modified = false ∧
          (d.modified = false → d.sheet = synced.sheet ∧ d.archived = synced.archived)) ∧
    (Never Syncs new actions → d.modified = false →
      (∀ p, d.sheet.cell p = Cell.blank) ∧ d.archived = new.archived) ∧
    ∀ (start : Document shape) rest, Never Syncs start rest →
      (rest.foldl act start).sheet ≠ start.sheet → (rest.foldl act start).modified = true := by
  intro new d
  refine ⟨never_or_exists_isLatest Syncs new actions, ?_, fun hnever hunmarked => ?_,
    fun start rest hnever hne => (marked_foldl_act hnever).resolve_right fun h => hne h.1⟩
  · rintro before action after rfl hlatest synced
    obtain ⟨hsynced, hrun⟩ := run_append_cons shape limit before action after
    have hmodified : synced.modified = false :=
      (congrArg modified hsynced).trans (modified_act_of_syncs hlatest.holds)
    have hd : d = after.foldl act synced := hrun
    refine ⟨hmodified, fun hunmarked => ?_⟩
    rw [hd] at hunmarked ⊢
    exact eq_of_unmarked hlatest.never_since hunmarked
  · obtain ⟨hsheet, harchived⟩ := eq_of_unmarked hnever hunmarked
    refine ⟨fun p => ?_, harchived⟩
    rw [show d.sheet = Sheet.blank from hsheet]
    exact Table.get_fill _ _

/-! ### The file of a document -/

/-- An action loads a document from a file or saves it to one that is given with the action, and
that goes well. -/
def Adopts (d : Document shape) (action : Action) : Prop :=
  action.path? ≠ none ∧ (d.attempt action).2 = true

/-- Saving to another file than that of the document fails. -/
def FailsToMove (d : Document shape) (action : Action) : Prop :=
  (∃ path files, action = .saveAs path files ∧ d.path ≠ some path) ∧
    (d.attempt action).2 = false

/-- After saving to a file this is the file of the document, even if that fails. -/
theorem path_act_saveAs (d : Document shape) (path : String) (files : Files) :
    (d.act (.saveAs path files)).path = some path :=
  (path_of_saveFile { d with path := some path } files).1

theorem path_act_of_adopts (h : d.Adopts action) : (d.act action).path = action.path? := by
  obtain ⟨hpath, hwell⟩ := h
  cases action with
  | loadFile path files =>
    obtain ⟨o, ho, hdocument⟩ := exists_of_after_eq_true hwell
    exact (congrArg Document.path hdocument).trans (unmarked_of_loadFrom ho).2
  | saveAs path files => exact path_act_saveAs d path files
  | _ => simp [Action.path?] at hpath

/-- Nothing else changes the file, but for saving to another file that fails. -/
theorem path_act (h : ¬d.Adopts action) (hmove : ¬d.FailsToMove action) :
    (d.act action).path = d.path := by
  cases hwell : (d.attempt action).2 with
  | false =>
    by_cases hsaveAs : ∃ path files, action = .saveAs path files
    -- A document that is saved again to its own file keeps it, whether or not that fails.
    · obtain ⟨path, files, rfl⟩ := hsaveAs
      have hsame : d.path = some path := by
        by_contra hother
        exact hmove ⟨⟨path, files, rfl, hother⟩, hwell⟩
      rw [path_act_saveAs, hsame]
    · rw [act_eq_of_failed (fun path files heq => hsaveAs ⟨path, files, heq⟩) hwell]
  | true =>
    have hpath : action.path? = none := by simpa [Adopts, hwell] using h
    cases action with
    | loadText text =>
      obtain ⟨o, ho, hdocument⟩ := exists_of_after_eq_true hwell
      exact (congrArg Document.path hdocument).trans (unmarked_of_loadText ho).2
    | saveFile files => exact (path_of_saveFile d files).1
    | loadFile path files => simp [Action.path?] at hpath
    | saveAs path files => simp [Action.path?] at hpath
    | _ => exact (worked_act rfl).path_eq

theorem path_foldl_act (h : Never Adopts d actions) (hmove : Never FailsToMove d actions) :
    (actions.foldl act d).path = d.path := by
  induction actions generalizing d with
  | nil => rfl
  | cons action rest ih => exact (ih h.2 hmove.2).trans (path_act h.1 hmove.1)

/-- The files around a document, with a list of the paths that they have been asked to write. -/
abbrev WatchedFiles := ReaderT Files (StateM (List String))

instance : FileStore WatchedFiles where
  size path := do return (← read).size path
  readBytes path := do return (← read).readBytes path
  writeBytes path contents := do
    modify (· ++ [path])
    return (← read).writeBytes path contents

/-- The files that are written when a document is saved, or are asked to be. -/
def pathsWritten (d : Document shape) (files : Files) : List String :=
  let watched : WatchedFiles (Document shape × Except DocumentError String) := d.saveFile
  (StateT.run (m := Id) (ReaderT.run watched files) []).2

/-- Saving writes the file of a document and no other. -/
theorem pathsWritten_eq (d : Document shape) (files : Files) :
    d.pathsWritten files = d.path.toList := by
  rw [pathsWritten, saveFile]
  cases d.path with
  | none => rfl
  | some path =>
    have hwrite : ∀ contents written,
        let watched : WatchedFiles _ := FileStore.writeBytes path contents
        StateT.run (m := Id) (ReaderT.run watched files) written =
          (files.writeBytes path contents, written ++ [path]) := fun _ _ => rfl
    dsimp only at hwrite
    simp only [FileStore.writeText, ReaderT.run_bind, StateT.run_bind, hwrite]
    cases files.writeBytes path d.archived.toUTF8 <;> rfl

/-- **The file of a document** is the one that it was loaded from or saved to last, and there is
none before that, as long as saving to another file has not failed since. Saving the document writes
this file and no other. Nothing else that fails changes the file. -/
theorem path_run (shape : Shape) (limit : Nat) (actions : List Action) :
    let new : Document shape := blank shape limit
    let d := run shape limit actions
    (∀ before action after, actions = before ++ action :: after →
      IsLatest Adopts new before action after →
        Never FailsToMove (run shape limit (before ++ [action])) after →
          d.path = action.path? ∧ ∀ files, d.pathsWritten files = action.path?.toList) ∧
    (Never Adopts new actions → Never FailsToMove new actions →
      d.path = none ∧ ∀ files, d.pathsWritten files = []) ∧
    ∀ action, (d.attempt action).2 = false → ¬d.FailsToMove action →
      (d.act action).path = d.path := by
  intro new d
  refine ⟨?_, fun hnever hmove => ?_, fun action hfailed hmove => ?_⟩
  · rintro before action after rfl hlatest hmove
    obtain ⟨hadopted, hrun⟩ := run_append_cons shape limit before action after
    have hpath : d.path = action.path? :=
      calc d.path
          = (after.foldl act (run shape limit (before ++ [action]))).path := congrArg _ hrun
        _ = (run shape limit (before ++ [action])).path :=
          path_foldl_act hlatest.never_since hmove
        _ = ((run shape limit before).act action).path := congrArg _ hadopted
        _ = action.path? := path_act_of_adopts hlatest.holds
    exact ⟨hpath, fun files => by rw [pathsWritten_eq, hpath]⟩
  · have hpath : d.path = none := path_foldl_act hnever hmove
    exact ⟨hpath, fun files => by rw [pathsWritten_eq, hpath]; rfl⟩
  · exact path_act (fun hadopts => Bool.false_ne_true (hfailed.symm.trans hadopts.2)) hmove

/-- Files that can neither be read nor written. -/
def refusing : Files where
  size _ := .error .notFound
  readBytes _ := .error .notFound
  writeBytes _ _ := .error .notFound

/-- Files that can be written, but not read. -/
def accepting : Files :=
  { refusing with writeBytes := fun _ _ => .ok () }

/-- Loading a file fails, and so does saving the document. A new document still belongs to no file
afterwards, and one that has been saved still belongs to the file that it was saved to, also if
saving it to this very file fails the next time. -/
theorem path_run_refused :
    let new : Document ⟨1, 1⟩ := blank ⟨1, 1⟩ 100
    let saved : Document ⟨1, 1⟩ := new.act (.saveAs "f" accepting)
    let refused : List Action := [.loadFile "g" refusing, .saveFile refusing]
    let rest : List Action := refused ++ [.saveAs "f" refusing]
    let d : Document ⟨1, 1⟩ := run ⟨1, 1⟩ 100 (.saveAs "f" accepting :: rest)
    (Never Adopts new refused ∧ Never FailsToMove new refused ∧
      (run ⟨1, 1⟩ 100 refused).path = none) ∧
    (IsLatest Adopts new [] (.saveAs "f" accepting) rest ∧ Never FailsToMove saved rest ∧
      d.path = some "f" ∧ d.pathsWritten accepting = ["f"]) ∧
    (d.attempt (.loadFile "g" refusing)).2 = false ∧
      (d.act (.loadFile "g" refusing)).path = d.path := by
  intro new saved refused rest d
  have hfails : ∀ {start : Document ⟨1, 1⟩} {action : Action},
      (start.attempt action).2 = false → ¬start.Adopts action := fun hfailed hadopts =>
    Bool.false_ne_true (hfailed.symm.trans hadopts.2)
  have hload : ∀ start : Document ⟨1, 1⟩, ¬start.FailsToMove (.loadFile "g" refusing) := by
    simp [FailsToMove]
  have hsave : ∀ start : Document ⟨1, 1⟩, ¬start.FailsToMove (.saveFile refusing) := by
    simp [FailsToMove]
  have hnew : Never Adopts new refused := ⟨hfails (by cbv), hfails (by cbv), trivial⟩
  have hnewMove : Never FailsToMove new refused := ⟨hload _, hsave _, trivial⟩
  have hlatest : IsLatest Adopts new [] (.saveAs "f" accepting) rest :=
    ⟨⟨by simp [Action.path?], by cbv⟩,
      hfails (by cbv), hfails (by cbv), hfails (by cbv), trivial⟩
  have hmove : Never FailsToMove saved rest := by
    refine ⟨hload _, hsave _, ?_, trivial⟩
    rintro ⟨⟨path, files, heq, hother⟩, -⟩
    obtain ⟨rfl, rfl⟩ := Action.saveAs.inj heq
    exact hother (by cbv)
  have hfailed : (d.attempt (.loadFile "g" refusing)).2 = false := by cbv
  obtain ⟨hsince, -, hkept⟩ := path_run ⟨1, 1⟩ 100 (.saveAs "f" accepting :: rest)
  obtain ⟨hpath, hwritten⟩ := hsince [] _ rest rfl hlatest hmove
  exact ⟨⟨hnew, hnewMove, ((path_run ⟨1, 1⟩ 100 refused).2.1 hnew hnewMove).1⟩,
    ⟨hlatest, hmove, hpath, hwritten accepting⟩, hfailed, hkept _ hfailed (hload d)⟩

/-- A new document is to be saved to a file that cannot be written. Then this is its file, and the
next time that it is saved this file is written. -/
theorem path_of_failed_saveAs :
    let actions : List Action := [.saveAs "missing/f" refusing]
    let d : Document ⟨1, 1⟩ := run ⟨1, 1⟩ 100 actions
    Never Adopts (blank ⟨1, 1⟩ 100) actions ∧ d.path = some "missing/f" ∧
      (d.attempt (.saveFile accepting)).2 = true ∧ d.pathsWritten accepting = ["missing/f"] := by
  intro actions d
  have hfailed : ((blank ⟨1, 1⟩ 100).attempt (.saveAs "missing/f" refusing)).2 = false := by cbv
  have hpath : d.path = some "missing/f" := by cbv
  refine ⟨⟨by simp [Adopts, hfailed], trivial⟩, hpath, by cbv, ?_⟩
  rw [pathsWritten_eq, hpath]
  rfl

end Document

end Quadrille
