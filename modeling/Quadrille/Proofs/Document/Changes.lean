import Mathlib
import Quadrille.Proofs.Document.Cells
import Quadrille.Proofs.Document.Independence
import Quadrille.Proofs.Document.Timeline
import Quadrille.Proofs.Sheet.Changes

/-!
# What observers of a document are told

During an edit, and during undoing and redoing, observers are told of a property of a cell if and
only if it reads differently afterwards, and only once. During a load they are told of everything
that reads differently, and possibly of more. An action that fails tells nothing.

An observer reads what a cell shows and the complaint on it, while the journal is kept about what is
stored. On an up-to-date sheet the two are the same, since no complaint there is blank and whatever
has a complaint shows it.

For undoing and redoing one thing has to be known of the steps in the history: putting back one of
them must not set off two recalculations, or a cell that both of them reach would be told of twice.
An edit changes one text at most, so neighbouring grids of a timeline differ in one text at most,
and moving along the timeline keeps that.

## Main definitions

* `Timeline.Gradual` — neighbouring grids differ in one text at most
* `Cell.DiffersIn` — a property reads differently
* `Document.told` — what observers are told during an action

## Main results

* `Document.gradual_runBeside`
* `Document.told_exactly`, `Document.mem_told_of_isLoad`
* `Document.told_run`
-/

namespace Quadrille

variable {shape : Shape}

/-! ### Gradual timelines -/

namespace Timeline

/-- The grids differ in the text of one cell at most. -/
def Adjacent (g g' : Grid shape) : Prop :=
  ∀ p q, (g.get p).text ≠ (g'.get p).text → (g.get q).text ≠ (g'.get q).text → p = q

theorem Adjacent.symm {g g' : Grid shape} (h : Adjacent g g') : Adjacent g' g :=
  fun p q hp hq => h p q (Ne.symm hp) (Ne.symm hq)

/-- From any grid of the timeline to the next, one text at most changes. -/
structure Gradual (t : Timeline shape) : Prop where
  past : (t.current :: t.past).IsChain Adjacent
  future : (t.current :: t.future).IsChain Adjacent

namespace Gradual

variable {t : Timeline shape} {grid : Grid shape}

/-- A timeline of one grid. -/
theorem single (grid : Grid shape) : Gradual ⟨[], grid, []⟩ :=
  ⟨.singleton grid, .singleton grid⟩

theorem edit (h : Gradual t) (limit : Nat) (hgrid : Adjacent grid t.current) :
    Gradual (t.edit limit grid) := by
  rw [Timeline.edit]
  split
  · exact h
  · refine ⟨?_, .singleton grid⟩
    have hchain : (grid :: t.current :: t.past).IsChain Adjacent := .cons_cons hgrid h.past
    exact hchain.take (limit + 1)

theorem undo (h : Gradual t) : Gradual t.undo := by
  obtain ⟨past, current, future⟩ := t
  cases past with
  | nil => exact h
  | cons grid past =>
    obtain ⟨hgrid, hpast⟩ := List.isChain_cons_cons.mp h.past
    exact ⟨hpast, .cons_cons hgrid.symm h.future⟩

theorem redo (h : Gradual t) : Gradual t.redo := by
  obtain ⟨past, current, future⟩ := t
  cases future with
  | nil => exact h
  | cons grid future =>
    obtain ⟨hgrid, hfuture⟩ := List.isChain_cons_cons.mp h.future
    exact ⟨.cons_cons hgrid.symm h.past, hfuture⟩

end Gradual

end Timeline

/-- The session that an operation ends with. -/
def Outcome.session (o : Outcome shape) : Session shape :=
  { sheet := o.document.sheet, journal := o.journal }

namespace Document

variable {d : Document shape} {t : Timeline shape} {limit : Nat} {o : Outcome shape}
  {action : Action}

/-- An edit changes the text of one cell at most. -/
theorem adjacent_act (h : d.sheet.UpToDate) {as : List Address} (hedit : action.edited = some as) :
    Timeline.Adjacent (d.act action).sheet.cells d.sheet.cells := by
  have htext : ∀ p, ((d.act action).sheet.cells.get p).text =
      (action.effect p (d.sheet.cell p).given).1 := fun p =>
    congrArg Prod.fst (given_act h hedit p)
  intro p q hp hq
  rw [htext] at hp hq
  cases action with
  | setText a text =>
    have hplace : ∀ r, ((Action.setText a text).effect r (d.sheet.cell r).given).1 ≠
        (d.sheet.cells.get r).text → shape.address r = a := by
      intro r hr
      by_contra hne
      rw [Action.effect, if_neg hne] at hr
      exact hr rfl
    have haddress : shape.address p = shape.address q := (hplace p hp).trans (hplace q hq).symm
    have hplaces := congrArg shape.place? haddress
    rw [Shape.place?_address, Shape.place?_address] at hplaces
    exact Option.some.inj hplaces
  | setColors bs color =>
    refine absurd ?_ hp
    rw [Action.effect]
    split
    · split <;> rfl
    · rfl
  | _ => simp [Action.edited] at hedit

theorem gradual_attempt (hf : Follows limit d t) (h : t.Gradual) (action : Action) :
    (t.step limit action (d.attempt action).1.sheet.cells (d.attempt action).2).Gradual := by
  have hedit : ∀ {action : Action} {as}, action.edited = some as →
      (t.edit limit (d.act action).sheet.cells).Gradual := fun hedit =>
    h.edit limit (hf.current_eq ▸ adjacent_act hf.upToDate hedit)
  cases action with
  | setText a text =>
    rw [Timeline.step]
    split
    · exact hedit rfl
    · exact h
  | setColors as color =>
    rw [Timeline.step]
    split
    · exact hedit rfl
    · exact h
  | undo => exact h.undo
  | redo => exact h.redo
  | clearHistory => exact .single _
  | loadText text =>
    rw [Timeline.step]
    split
    · exact .single _
    · exact h
  | loadFile path files =>
    rw [Timeline.step]
    split
    · exact .single _
    · exact h
  | saveFile files => exact h
  | saveAs path files => exact h

theorem gradual_runBeside (shape : Shape) (limit : Nat) (actions : List Action) :
    (runBeside shape limit actions).2.Gradual := by
  have hfold : ∀ (actions : List Action) (state : Document shape × Timeline shape),
      Follows limit state.1 state.2 → state.2.Gradual →
        (actions.foldl (advance limit) state).2.Gradual := by
    intro actions
    induction actions with
    | nil => exact fun _ _ h => h
    | cons action actions ih =>
      exact fun state hf h => ih _ (hf.attempt action) (gradual_attempt hf h action)
  exact hfold actions _ (Follows.blank shape limit) (.single _)

/-! ### What operations report -/

theorem reports_perform {step : Step shape} {act : Session shape → Session shape}
    (hact : ∀ s : Session shape, s.sheet = d.sheet → Session.Reports s (act s)) :
    Session.Reports d.session (d.perform step act).session := by
  have hsheet : ((d.history.dropRemarks step).foldl Session.remark d.session).sheet = d.sheet :=
    Session.sheet_foldl_remark _ _
  refine Session.Reports.congr_left (hact _ hsheet) (fun q => ?_) ?_
  · rw [hsheet]
    rfl
  · exact Session.changes_foldl_remark _ _

theorem reports_setText (h : d.sheet.UpToDate) {a : Address} {text : String}
    (ho : d.setText a text = .ok o) : Session.Reports d.session o.session := by
  obtain ⟨p, -, ho⟩ := bind_eq_ok_iff.mp ho
  split at ho
  · obtain rfl := Except.ok.inj ho
    exact .refl _
  · obtain rfl := Except.ok.inj ho
    exact reports_perform fun s hs => Session.reports_setText (hs ▸ h.toIndexed) p text

theorem reports_setColors {as : List Address} {color : Color}
    (ho : d.setColors as color = .ok o) : Session.Reports d.session o.session := by
  obtain ⟨ps, -, ho⟩ := bind_eq_ok_iff.mp ho
  dsimp only at ho
  split at ho
  · obtain rfl := Except.ok.inj ho
    exact .refl _
  · obtain rfl := Except.ok.inj ho
    exact reports_perform fun s _ => Session.reports_foldl_setColor s _ color

/-- Putting back the cells of a step that leads to an adjacent grid. -/
theorem reports_revert (h : d.sheet.UpToDate) {step : Step shape} {rest : List (Step shape)}
    {grids : List (Grid shape)} (htrail : Trail d.sheet.cells (step :: rest) grids)
    (hgradual : (d.sheet.cells :: grids).IsChain Timeline.Adjacent) (r : Remark shape) :
    Session.Reports d.session (revert (d.session.remark r) step) := by
  cases htrail with
  | @cons _ s _ _ grids hs hbridges _ =>
    have hadjacent : Timeline.Adjacent d.sheet.cells s.cells :=
      (List.isChain_cons_cons.mp hgradual).1
    have hreports : Session.Reports (d.session.remark r)
        (step.cells.foldl (fun s e => s.restore e.1 e.2) (d.session.remark r)) := by
      refine Session.reports_foldl_restore (g := fun q => (s.cells.get q).given) h
        (fun e he => congrArg Cell.given (hbridges.cells e he)) fun e _ e' _ he he' => ?_
      exact hadjacent e.1 e'.1 (Ne.symm he) (Ne.symm he')
    exact hreports.congr_left (fun _ => rfl) rfl

theorem reports_undo? (hf : Follows limit d t) (hg : t.Gradual) (ho : d.undo? = some o) :
    Session.Reports d.session o.session := by
  rw [undo?] at ho
  split at ho
  · simp at ho
  · next step rest hundo =>
    obtain rfl := Option.some.inj ho
    have hpast := hf.past
    have hgradual := hg.past
    rw [hundo] at hpast
    rw [hf.current_eq] at hgradual
    exact reports_revert hf.upToDate hpast hgradual _

theorem reports_redo? (hf : Follows limit d t) (hg : t.Gradual) (ho : d.redo? = some o) :
    Session.Reports d.session o.session := by
  rw [redo?] at ho
  split at ho
  · simp at ho
  · next step rest hredo =>
    obtain rfl := Option.some.inj ho
    have hfuture := hf.future
    have hgradual := hg.future
    rw [hredo] at hfuture
    rw [hf.current_eq] at hgradual
    refine (reports_revert hf.upToDate hfuture hgradual (.redoing step.kind)).congr (fun q => ?_) ?_
    · exact congrArg (fun s : Sheet shape => s.cell q) (Session.sheet_foldl_remark _ _)
    · exact Session.changes_foldl_remark _ _

/-- A load conceals nothing. -/
theorem tells_load (h : d.sheet.UpToDate) {stored : List StoredCell}
    (ho : d.load stored = .ok o) : Session.Tells d.session o.session := by
  obtain ⟨placed, -, rfl⟩ := load_eq_ok_iff.mp ho
  have hclear : d.session.clear.sheet.UpToDate := by
    rw [Session.sheet_clear]
    exact Sheet.upToDate_blank
  exact (Session.tells_clear h).trans (Session.tells_foldl_restore hclear _)

theorem tells_loadText (h : d.sheet.UpToDate) {text : String} (ho : d.loadText text = .ok o) :
    Session.Tells d.session o.session := by
  obtain ⟨stored, -, ho⟩ := bind_eq_ok_iff.mp ho
  exact tells_load h ho

theorem tells_loadFrom (h : d.sheet.UpToDate) {path : String}
    {contents : Except FileError String} (ho : d.loadFrom path contents = .ok o) :
    Session.Tells d.session o.session := by
  obtain ⟨text, -, ho⟩ := bind_eq_ok_iff.mp ho
  obtain ⟨loaded, hload, ho⟩ := bind_eq_ok_iff.mp ho
  obtain rfl := Except.ok.inj ho
  have htells : Session.Tells d.session loaded.session := tells_loadText h hload
  exact htells

/-! ### What observers are told -/

/-- What an operation tells, if it goes well. -/
def toldBy {ε : Type} : Except ε (Outcome shape) → List (Change shape)
  | .ok o => o.journal.changes.toList
  | .error _ => []

/-- What observers are told during an action, in order. -/
def told (d : Document shape) : Action → List (Change shape)
  | .setText a text => toldBy (d.setText a text)
  | .setColors as color => toldBy (d.setColors as color)
  | .undo => d.undo?.elim [] fun o => o.journal.changes.toList
  | .redo => d.redo?.elim [] fun o => o.journal.changes.toList
  | .loadText text => toldBy (d.loadText text)
  | .loadFile path files => toldBy (ReaderT.run (m := Id) (d.loadFile path) files)
  | .clearHistory | .saveFile _ | .saveAs .. => []

end Document

/-- Whether an action loads a document. -/
def Action.isLoad : Action → Bool
  | .loadText _ | .loadFile .. => true
  | _ => false

/-- A property reads differently on the second cell. -/
def Cell.DiffersIn (c c' : Cell) : Property → Prop
  | .text => c.text ≠ c'.text
  | .value => c.shown ≠ c'.shown
  | .backgroundColor => c.color ≠ c'.color
  | .error => c.complaint ≠ c'.complaint

/-- A cell that shows what it should shows what it holds. -/
theorem Sheet.Solved.presents {s : Sheet shape} {p : shape.Place} (h : s.Solved p) :
    (s.cell p).Presents (s.cell p).value (s.cell p).error := by
  have hresult : (s.cell p).result = loopResult ∨ (s.cell p).result = failedResult ∨
      (s.cell p).error = none := by
    rcases h with ⟨-, hr⟩ | ⟨-, hr⟩
    · exact Or.inl hr
    · rw [computed] at hr
      cases ho : s.texts.outlook p <;> rw [ho] at hr
      case unparsable => exact Or.inr (Or.inl hr)
      case invalidReference => exact Or.inr (Or.inl hr)
      all_goals exact Or.inr (Or.inr (congrArg Prod.snd hr))
  rcases hresult with hr | hr | herror
  · obtain ⟨hvalue, herror⟩ := Prod.mk.inj hr
    rw [hvalue, herror]
    exact Cell.presents_of_result_eq_some hr (by decide)
  · obtain ⟨hvalue, herror⟩ := Prod.mk.inj hr
    rw [hvalue, herror]
    exact Cell.presents_of_result_eq_some hr (by decide)
  · rw [herror]
    exact Cell.presents_of_result_eq_none (Prod.ext rfl herror)

/-- On up-to-date sheets, what is stored is another if and only if it reads differently. -/
theorem Sheet.UpToDate.differAt_iff {s s' : Sheet shape} (h : s.UpToDate) (h' : s'.UpToDate)
    {p : shape.Place} {x : Property} :
    s.DifferAt s' ⟨p, x⟩ ↔ (s.cell p).DiffersIn (s'.cell p) x := by
  obtain ⟨-, -, hshown, hcomplaint⟩ := (h.solved p).presents
  obtain ⟨-, -, hshown', hcomplaint'⟩ := (h'.solved p).presents
  cases x <;> simp [DifferAt, Cell.standing, Cell.DiffersIn, hshown, hshown', hcomplaint,
    hcomplaint']

namespace Document

variable {d : Document shape} {t : Timeline shape} {limit : Nat} {o : Outcome shape}
  {action : Action}

/-- The changes are the properties that read differently on the second sheet, each once. -/
def AreDifferences (changes : List (Change shape)) (s s' : Sheet shape) : Prop :=
  changes.Nodup ∧ ∀ p x, ⟨p, x⟩ ∈ changes ↔ (s.cell p).DiffersIn (s'.cell p) x

theorem areDifferences_nil (s : Sheet shape) : AreDifferences [] s s :=
  ⟨List.nodup_nil, fun p x => by cases x <;> simp [Cell.DiffersIn]⟩

/-- What a report says about an operation that begins with an empty journal. -/
theorem areDifferences_of_reports (h : d.sheet.UpToDate) (ho : o.document.sheet.UpToDate)
    (hreports : Session.Reports d.session o.session) :
    AreDifferences o.journal.changes.toList d.sheet o.document.sheet := by
  obtain ⟨new, hnew, hnodup, hmem⟩ := hreports
  obtain rfl : o.journal.changes.toList = new := hnew
  exact ⟨hnodup, fun p x => (hmem ⟨p, x⟩).trans (h.differAt_iff ho)⟩

theorem areDifferences_after {ε : Type} {r : Except ε (Outcome shape)} (h : d.sheet.UpToDate)
    (hafter : (d.after r).1.sheet.UpToDate)
    (hr : ∀ o, r = .ok o → Session.Reports d.session o.session) :
    AreDifferences (toldBy r) d.sheet (d.after r).1.sheet := by
  cases r with
  | ok o => exact areDifferences_of_reports h hafter (hr o rfl)
  | error e => exact areDifferences_nil d.sheet

theorem areDifferences_elim {r : Option (Outcome shape)} (h : d.sheet.UpToDate)
    (helim : (r.elim (d, false) fun o => (o.document, true)).1.sheet.UpToDate)
    (hr : ∀ o, r = some o → Session.Reports d.session o.session) :
    AreDifferences (r.elim [] fun o => o.journal.changes.toList) d.sheet
      (r.elim (d, false) fun o => (o.document, true)).1.sheet := by
  cases r with
  | some o => exact areDifferences_of_reports h helim (hr o rfl)
  | none => exact areDifferences_nil d.sheet

/-- **Observers are told exactly what reads differently,** during everything but a load. -/
theorem told_exactly (hf : Follows limit d t) (hg : t.Gradual) (haction : action.isLoad = false) :
    AreDifferences (d.told action) d.sheet (d.act action).sheet := by
  have h := hf.upToDate
  have hact : (d.act action).sheet.UpToDate := upToDate_act h
  cases action with
  | setText a text => exact areDifferences_after h hact fun o ho => reports_setText h ho
  | setColors as color => exact areDifferences_after h hact fun o ho => reports_setColors ho
  | undo => exact areDifferences_elim h hact fun o ho => reports_undo? hf hg ho
  | redo => exact areDifferences_elim h hact fun o ho => reports_redo? hf hg ho
  | clearHistory => exact areDifferences_nil d.sheet
  | saveFile files =>
    have hsheet : (d.act (.saveFile files)).sheet = d.sheet := (saveFile_spec files).1
    rw [hsheet]
    exact areDifferences_nil d.sheet
  | saveAs path files =>
    have hsheet : (d.act (.saveAs path files)).sheet = d.sheet := (saveAs_spec path files).1
    rw [hsheet]
    exact areDifferences_nil d.sheet
  | loadText text => simp [Action.isLoad] at haction
  | loadFile path files => simp [Action.isLoad] at haction

theorem mem_toldBy_of_tells {ε : Type} {r : Except ε (Outcome shape)} (h : d.sheet.UpToDate)
    (hafter : (d.after r).1.sheet.UpToDate)
    (hr : ∀ o, r = .ok o → Session.Tells d.session o.session) {p : shape.Place} {x : Property}
    (hx : (d.sheet.cell p).DiffersIn ((d.after r).1.sheet.cell p) x) : ⟨p, x⟩ ∈ toldBy r := by
  cases r with
  | ok o =>
    obtain ⟨new, hnew, hmem⟩ := hr o rfl
    obtain rfl : o.journal.changes.toList = new := hnew
    exact hmem _ ((h.differAt_iff hafter).mpr hx)
  | error e => exact absurd hx (((areDifferences_nil d.sheet).2 p x).not.mp List.not_mem_nil)

/-- Nothing is concealed during a load. -/
theorem mem_told_of_isLoad (h : d.sheet.UpToDate) (haction : action.isLoad = true)
    {p : shape.Place} {x : Property}
    (hx : (d.sheet.cell p).DiffersIn ((d.act action).sheet.cell p) x) :
    ⟨p, x⟩ ∈ d.told action := by
  have hact : (d.act action).sheet.UpToDate := upToDate_act h
  cases action with
  | loadText text => exact mem_toldBy_of_tells h hact (fun o ho => tells_loadText h ho) hx
  | loadFile path files => exact mem_toldBy_of_tells h hact (fun o ho => tells_loadFrom h ho) hx
  | _ => simp [Action.isLoad] at haction

/-- An action that fails tells nothing. -/
theorem told_eq_nil_of_failed (h : (d.attempt action).2 = false) : d.told action = [] := by
  have hafter : ∀ {ε : Type} {r : Except ε (Outcome shape)}, (d.after r).2 = false →
      toldBy r = [] := by
    intro ε r hr
    cases r with
    | ok o => simp [after] at hr
    | error e => rfl
  have helim : ∀ {r : Option (Outcome shape)},
      (r.elim (d, false) fun o => (o.document, true)).2 = false →
        (r.elim [] fun o => o.journal.changes.toList) = [] := by
    intro r hr
    cases r with
    | some o => simp at hr
    | none => rfl
  cases action with
  | setText a text => exact hafter h
  | setColors as color => exact hafter h
  | undo => exact helim h
  | redo => exact helim h
  | loadText text => exact hafter h
  | loadFile path files => exact hafter h
  | clearHistory => rfl
  | saveFile files => rfl
  | saveAs path files => rfl

/-- **Observers are told the truth,** whatever has been done with a document before. During an
action that is not a load they are told of exactly the properties that read differently afterwards,
of each of them once; so they are told nothing if nothing does. During a load they are told at least
of those. An action that fails tells nothing. -/
theorem told_run (shape : Shape) (limit : Nat) (actions : List Action) :
    let d := run shape limit actions
    (∀ action : Action, action.isLoad = false → (d.told action).Nodup ∧
      ∀ p x, ⟨p, x⟩ ∈ d.told action ↔
        (d.sheet.cell p).DiffersIn ((d.act action).sheet.cell p) x) ∧
    (∀ action : Action, action.isLoad = false →
      (∀ p, (d.act action).sheet.cell p = d.sheet.cell p) → d.told action = []) ∧
    (∀ action : Action, action.isLoad = true →
      ∀ p x, (d.sheet.cell p).DiffersIn ((d.act action).sheet.cell p) x →
        ⟨p, x⟩ ∈ d.told action) ∧
    ∀ action : Action, (d.attempt action).2 = false → d.told action = [] := by
  intro d
  have hf := follows_run shape limit actions
  have hexactly : ∀ action : Action, action.isLoad = false →
      AreDifferences (d.told action) d.sheet (d.act action).sheet := fun action =>
    told_exactly hf (gradual_runBeside shape limit actions)
  refine ⟨hexactly, fun action haction hsame => ?_,
    fun action haction p x => mem_told_of_isLoad hf.upToDate haction,
    fun action => told_eq_nil_of_failed⟩
  refine List.eq_nil_iff_forall_not_mem.mpr fun ⟨p, x⟩ hmem => ?_
  have hdiffers := ((hexactly action haction).2 p x).mp hmem
  rw [hsame] at hdiffers
  exact List.not_mem_nil (((areDifferences_nil d.sheet).2 p x).mpr hdiffers)

/-- Undoing the step that closed a loop tells of the complaint on the cell at the other end, once,
and not of the text there. -/
theorem told_run_opened_loop :
    let actions : List Action := [.setText ⟨0, 0⟩ "=B1", .setText ⟨0, 1⟩ "=A1"]
    let d : Document ⟨1, 2⟩ := run ⟨1, 2⟩ 9 actions
    (d.told .undo).Nodup ∧ ⟨⟨0, by decide⟩, .error⟩ ∈ d.told .undo ∧
      ⟨⟨0, by decide⟩, .text⟩ ∉ d.told .undo := by
  have hcells : let actions : List Action := [.setText ⟨0, 0⟩ "=B1", .setText ⟨0, 1⟩ "=A1"]
      let d : Document ⟨1, 2⟩ := run ⟨1, 2⟩ 9 actions
      (d.sheet.cell ⟨0, by decide⟩).complaint = some loopComplaint ∧
        ((d.act .undo).sheet.cell ⟨0, by decide⟩).complaint = none ∧
        (d.sheet.cell ⟨0, by decide⟩).text = ((d.act .undo).sheet.cell ⟨0, by decide⟩).text := by
    refine ⟨?_, ?_, ?_⟩ <;> cbv
  intro actions d
  obtain ⟨hbefore, hafter, htext⟩ := hcells
  obtain ⟨hnodup, hmem⟩ := (told_run ⟨1, 2⟩ 9 actions).1 .undo rfl
  refine ⟨hnodup, (hmem _ _).mpr fun hsame => ?_, fun htold => (hmem _ _).mp htold htext⟩
  exact absurd (hbefore.symm.trans (hsame.trans hafter)) (Option.some_ne_none _)

end Document

end Quadrille
