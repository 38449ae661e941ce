import Quadrille.Proofs.Document.Changes
import Quadrille.Proofs.Document.Reversal
import Quadrille.Proofs.Sheet.Warnings

/-!
# What becomes of a full history

Redoing puts a step on the stack of those to undo, and like every step that is put there it may push
the oldest one out. It never does. The two stacks share one limit: a step that waits to be redone
keeps a place for itself, because the edit that takes the last place free leaves nothing to redo.

So there is one way only to lose a step for lack of space, and that is an edit which changes
something. It loses the oldest step to undo, at most one, and all steps to redo. Clearing the
history and loading a document lose every step, and they do so whether there is space or not.

A dropped step is mentioned in a warning, which is how it can be seen from outside that nothing is
dropped elsewhere: no other part of any operation warns of anything.

## Main definitions

* `History.subjects` — what the steps of a history are about, through both stacks
* `Document.warned` — the warnings given during an action
* `Document.Edits`, `Document.Empties` — the actions that lose steps

## Main results

* `Document.edit_cases` — an edit does nothing, or records one step
* `Document.capacity_run`
-/

namespace Quadrille

variable {shape : Shape}

/-- What a step is about: its kind and its cells. It stays the same when the step is turned
round. -/
def Step.subject (step : Step shape) : StepKind × List shape.Place :=
  (step.kind, step.cells.map Prod.fst)

/-- What the steps of a history are about, from the last that can be redone to the first that can be
undone. -/
def History.subjects (h : History shape) : List (StepKind × List shape.Place) :=
  (h.redo.reverse ++ h.undo).map Step.subject

theorem History.subjects_of_lists {h : History shape} {undo redo : List (Step shape)}
    (hundo : h.undo = undo) (hredo : h.redo = redo) :
    h.subjects = (redo.reverse ++ undo).map Step.subject := by
  rw [subjects, hundo, hredo]

namespace Document

variable {d : Document shape} {o : Outcome shape} {t : Timeline shape} {limit : Nat}
  {action : Action}

@[simp]
theorem subject_inverse (d : Document shape) (step : Step shape) :
    (d.inverse step).subject = step.subject := by
  rw [Step.subject, inverse, List.map_map]
  rfl

/-! ### Warnings -/

/-- The warnings of an operation, if it goes well. -/
def warnedBy {ε : Type} : Except ε (Outcome shape) → List (Remark shape)
  | .ok o => o.journal.warnings
  | .error _ => []

/-- The warnings given during an action, in order. -/
def warned (d : Document shape) : Action → List (Remark shape)
  | .setText a text => warnedBy (d.setText a text)
  | .setColors as color => warnedBy (d.setColors as color)
  | .undo => d.undo?.elim [] fun o => o.journal.warnings
  | .redo => d.redo?.elim [] fun o => o.journal.warnings
  | .loadText text => warnedBy (d.loadText text)
  | .loadFile path files => warnedBy (ReaderT.run (m := Id) (d.loadFile path) files)
  | .clearHistory | .saveFile _ | .saveAs .. => []

theorem warnings_foldl_dropRemarks (s : Session shape) (h : History shape) (step : Step shape) :
    ((h.dropRemarks step).foldl Session.remark s).warnings = s.warnings ++ h.dropRemarks step := by
  refine Session.warnings_foldl_remark s fun r hr => ?_
  obtain ⟨dropped, -, rfl⟩ := List.mem_map.mp hr
  rfl

/-- Recording a step warns of what is dropped. -/
theorem warnings_perform {step : Step shape} {act : Session shape → Session shape}
    (hact : ∀ s, (act s).warnings = s.warnings) :
    (d.perform step act).journal.warnings = d.history.dropRemarks step :=
  (hact _).trans ((warnings_foldl_dropRemarks d.session d.history step).trans (List.nil_append _))

theorem warnings_undo? (ho : d.undo? = some o) : o.journal.warnings = [] := by
  rw [undo?] at ho
  split at ho
  · simp at ho
  · next step rest _ =>
    obtain rfl := Option.some.inj ho
    exact (Session.warnings_foldl_restore _ step.cells).trans
      (Session.warnings_remark_of_ne _ (by simp [Remark.level]))

/-- Redoing warns of what is dropped. -/
theorem warnings_redo? {step : Step shape} {rest : List (Step shape)} (ho : d.redo? = some o)
    (hredo : d.history.redo = step :: rest) :
    o.journal.warnings = d.history.dropRemarks (d.inverse step) := by
  rw [redo?, hredo] at ho
  obtain rfl := Option.some.inj ho
  refine (warnings_foldl_dropRemarks _ d.history _).trans ?_
  have hrevert : (revert (d.session.remark (.redoing step.kind)) step).warnings = [] :=
    (Session.warnings_foldl_restore _ step.cells).trans
      (Session.warnings_remark_of_ne _ (by simp [Remark.level]))
  rw [hrevert, List.nil_append]

theorem warnings_load {stored : List StoredCell} (ho : d.load stored = .ok o) :
    o.journal.warnings = [] := by
  obtain ⟨placed, -, rfl⟩ := load_eq_ok_iff.mp ho
  refine (Session.warnings_remark_of_ne _ (by simp [Remark.level])).trans ?_
  rw [Session.warnings_foldl_restore, Session.warnings_clear]
  rfl

theorem warnings_loadText {text : String} (ho : d.loadText text = .ok o) :
    o.journal.warnings = [] := by
  obtain ⟨stored, -, ho⟩ := bind_eq_ok_iff.mp ho
  exact warnings_load ho

theorem warnings_loadFrom {path : String} {contents : Except FileError String}
    (ho : d.loadFrom path contents = .ok o) : o.journal.warnings = [] := by
  obtain ⟨text, -, ho⟩ := bind_eq_ok_iff.mp ho
  obtain ⟨loaded, hload, ho⟩ := bind_eq_ok_iff.mp ho
  obtain rfl := Except.ok.inj ho
  have hloaded : loaded.journal.warnings = [] := warnings_loadText hload
  exact hloaded

theorem warnedBy_eq_nil {ε : Type} {r : Except ε (Outcome shape)}
    (hr : ∀ o, r = .ok o → o.journal.warnings = []) : warnedBy r = [] := by
  cases r with
  | ok o => exact hr o rfl
  | error e => rfl

/-! ### Edits -/

/-- An action is an edit, and changes something. -/
def Edits (d : Document shape) (action : Action) : Prop :=
  action.edited ≠ none ∧ (d.act action).sheet.cells ≠ d.sheet.cells

/-- An action forgets all steps: it clears the history, or it loads a document and that goes
well. -/
def Empties (d : Document shape) (action : Action) : Prop :=
  action = .clearHistory ∨ action.isLoad = true ∧ (d.attempt action).2 = true

/-- What an edit comes to that goes well: nothing, or one step that is recorded and leaves other
cells than there were. The step keeps the cells as they were. -/
def NothingOrStep (d : Document shape) (o : Outcome shape) : Prop :=
  o = { document := d } ∨
    o.document.sheet.cells ≠ d.sheet.cells ∧ ∃ step : Step shape,
      (∀ e ∈ step.cells, e.2 = d.sheet.cell e.1) ∧
      o.document.history = d.history.record step ∧
      o.journal.warnings = d.history.dropRemarks step

theorem cells_ne_of_given_ne {p : shape.Place}
    (h : (o.document.sheet.cell p).given ≠ (d.sheet.cell p).given) :
    o.document.sheet.cells ≠ d.sheet.cells := fun hcells =>
  h (congrArg (fun cells => (Table.get cells p).given) hcells)

theorem nothingOrStep_setText (h : d.sheet.UpToDate) {a : Address} {text : String}
    (ho : d.setText a text = .ok o) : NothingOrStep d o := by
  obtain ⟨p', hp', -, hgiven, -⟩ := setText_spec h ho
  obtain ⟨p, hp, ho⟩ := bind_eq_ok_iff.mp ho
  obtain rfl := Option.some.inj ((Shape.place_eq_ok_iff.mp hp).symm.trans hp')
  split at ho
  · obtain rfl := Except.ok.inj ho
    exact Or.inl rfl
  · next htext =>
    obtain rfl := Except.ok.inj ho
    refine Or.inr ⟨cells_ne_of_given_ne (p := p) fun hsame => htext ?_, _, fun e he => ?_, rfl,
      warnings_perform fun s => Session.warnings_setText s p text⟩
    · rw [hgiven, if_pos rfl] at hsame
      exact (congrArg Prod.fst hsame).symm
    · obtain rfl := List.mem_singleton.mp he
      rfl

theorem nothingOrStep_setColors (h : d.sheet.UpToDate) {as : List Address} {color : Color}
    (ho : d.setColors as color = .ok o) : NothingOrStep d o := by
  obtain ⟨ps', touched, hps', htouched, -, hgiven, -⟩ := setColors_spec h ho
  obtain ⟨ps, hps, ho⟩ := bind_eq_ok_iff.mp ho
  obtain rfl := Except.ok.inj (hps.symm.trans hps')
  dsimp only at ho
  split at ho
  · obtain rfl := Except.ok.inj ho
    exact Or.inl rfl
  · next hempty =>
    obtain rfl := Except.ok.inj ho
    obtain ⟨p, hp⟩ := List.isEmpty_eq_false_iff_exists_mem.mp (Bool.eq_false_iff.mpr hempty)
    obtain ⟨hmem, hcolor⟩ := List.mem_filter.mp hp
    have hne : (d.sheet.cell p).color ≠ color := by simpa using hcolor
    refine Or.inr ⟨cells_ne_of_given_ne (p := p) fun hsame => hne ?_, _, fun e he => ?_, rfl,
      warnings_perform fun s => Session.warnings_foldl_setColor s _ color⟩
    · rw [hgiven, if_pos ((htouched p).mpr ⟨List.mem_eraseDups.mp hmem, hne⟩)] at hsame
      exact (congrArg Prod.snd hsame).symm
    · obtain ⟨q, -, rfl⟩ := List.mem_map.mp he
      rfl

/-- **An edit does nothing, or it changes something and records one step.** -/
theorem edit_cases (h : d.sheet.UpToDate) (hedit : action.edited ≠ none) :
    (d.act action = d ∧ d.warned action = []) ∨
    ((d.act action).sheet.cells ≠ d.sheet.cells ∧ ∃ step : Step shape,
      (∀ e ∈ step.cells, e.2 = d.sheet.cell e.1) ∧
      (d.act action).history = d.history.record step ∧
      d.warned action = d.history.dropRemarks step) := by
  have hafter : ∀ {ε : Type} (r : Except ε (Outcome shape)),
      (∀ o, r = .ok o → NothingOrStep d o) → ((d.after r).1 = d ∧ warnedBy r = []) ∨
        ((d.after r).1.sheet.cells ≠ d.sheet.cells ∧ ∃ step : Step shape,
          (∀ e ∈ step.cells, e.2 = d.sheet.cell e.1) ∧
          (d.after r).1.history = d.history.record step ∧
          warnedBy r = d.history.dropRemarks step) := by
    rintro ε (e | o) hr
    · exact Or.inl ⟨rfl, rfl⟩
    · rcases hr o rfl with rfl | hstep
      · exact Or.inl ⟨rfl, rfl⟩
      · exact Or.inr hstep
  cases action with
  | setText a text => exact hafter _ fun o ho => nothingOrStep_setText h ho
  | setColors as color => exact hafter _ fun o ho => nothingOrStep_setColors h ho
  | _ => exact absurd rfl hedit

theorem edits_or_unchanged (h : d.sheet.UpToDate) (hedit : action.edited ≠ none) :
    d.Edits action ∨ (d.act action = d ∧ d.warned action = []) := by
  rcases edit_cases h hedit with hsame | ⟨hcells, -⟩
  · exact Or.inr hsame
  · exact Or.inl ⟨hedit, hcells⟩

/-- Recording a step drops the oldest one if there are as many to undo as the limit allows, and
otherwise none. -/
theorem exists_gone (step : Step shape) {h : History shape} (hle : h.undo.length ≤ h.limit) :
    ∃ gone : Option (Step shape), step :: h.undo = (h.record step).undo ++ gone.toList ∧
      (gone.isSome ↔ h.undo.length = h.limit) ∧
      h.dropRemarks step = gone.toList.map fun dropped => .historyFull h.limit dropped.kind := by
  have hsplit : step :: h.undo = (h.record step).undo ++ (step :: h.undo).drop h.limit :=
    (List.take_append_drop ..).symm
  have hlength : ((step :: h.undo).drop h.limit).length = h.undo.length + 1 - h.limit := by
    rw [List.length_drop, List.length_cons]
  rw [History.dropRemarks]
  rcases Nat.lt_or_eq_of_le hle with hlt | heq
  · have hnil : (step :: h.undo).drop h.limit = [] := List.eq_nil_of_length_eq_zero (by omega)
    rw [hnil] at hsplit ⊢
    exact ⟨none, hsplit, by simpa using Nat.ne_of_lt hlt, rfl⟩
  · obtain ⟨dropped, hdropped⟩ := List.length_eq_one_iff.mp (hlength.trans (by omega))
    rw [hdropped] at hsplit ⊢
    exact ⟨some dropped, hsplit, by simpa using heq, rfl⟩

/-! ### Space -/

/-- Undoing moves one step from the one stack to the other. -/
theorem subjects_undo? {limit : Nat} (hf : Follows limit d t) (ho : d.undo? = some o) :
    o.document.history.subjects = d.history.subjects := by
  cases hundo : d.history.undo with
  | nil => simp [undo?_eq_none_iff.mpr hundo] at ho
  | cons step rest =>
    obtain ⟨o', ho', -, -, hdocument⟩ := hf.exists_undo?_eq_some hundo
    obtain rfl := Option.some.inj (ho.symm.trans ho')
    rw [hdocument, History.subjects_of_lists rfl rfl, History.subjects_of_lists hundo rfl]
    simp

/-- Redoing moves it back. -/
theorem subjects_redo? {limit : Nat} (hf : Follows limit d t) (ho : d.redo? = some o) :
    o.document.history.subjects = d.history.subjects := by
  cases hredo : d.history.redo with
  | nil => simp [redo?_eq_none_iff.mpr hredo] at ho
  | cons step rest =>
    obtain ⟨o', ho', -, -, hdocument⟩ := hf.exists_redo?_eq_some hredo
    obtain rfl := Option.some.inj (ho.symm.trans ho')
    rw [hdocument, History.subjects_of_lists rfl rfl, History.subjects_of_lists rfl hredo]
    simp

/-- **Redoing drops nothing.** -/
theorem warned_redo (hf : Follows limit d t) : d.warned .redo = [] := by
  rw [warned]
  cases ho : d.redo? with
  | none => rfl
  | some o =>
    obtain ⟨step, rest, hredo, -, -, hhistory⟩ := redo?_spec hf.upToDate ho
    have hlength := hf.length_le
    rw [hredo, List.length_cons] at hlength
    refine (warnings_redo? ho hredo).trans ?_
    rw [History.dropRemarks, List.drop_eq_nil_of_le]
    · rfl
    · rw [hf.limit_eq, List.length_cons]
      omega

/-- Only an edit that changes something gives warnings. -/
theorem edits_of_warned (hf : Follows limit d t) (hwarned : d.warned action ≠ []) :
    d.Edits action := by
  have hedits : ∀ {action : Action}, action.edited ≠ none → d.warned action ≠ [] →
      d.Edits action := fun hedit hwarned =>
    (edits_or_unchanged hf.upToDate hedit).resolve_right fun h => hwarned h.2
  cases action with
  | setText a text => exact hedits (by simp [Action.edited]) hwarned
  | setColors as color => exact hedits (by simp [Action.edited]) hwarned
  | undo =>
    refine absurd ?_ hwarned
    rw [warned]
    cases ho : d.undo? with
    | none => rfl
    | some o => exact warnings_undo? ho
  | redo => exact absurd (warned_redo hf) hwarned
  | loadText text => exact absurd (warnedBy_eq_nil fun o ho => warnings_loadText ho) hwarned
  | loadFile path files => exact absurd (warnedBy_eq_nil fun o ho => warnings_loadFrom ho) hwarned
  | clearHistory | saveFile | saveAs => exact absurd rfl hwarned

/-- The steps in a history are about the same, unless there is an edit that changes something or
all steps are forgotten. -/
theorem subjects_act (hf : Follows limit d t)
    (hne : (d.act action).history.subjects ≠ d.history.subjects) :
    d.Edits action ∨ d.Empties action := by
  have hedits : ∀ {action : Action}, action.edited ≠ none →
      (d.act action).history.subjects ≠ d.history.subjects → d.Edits action := fun hedit hne =>
    (edits_or_unchanged hf.upToDate hedit).resolve_right fun h => hne (by rw [h.1])
  have hload : ∀ {ε : Type} {r : Except ε (Outcome shape)},
      (d.after r).1.history.subjects ≠ d.history.subjects → (d.after r).2 = true := by
    rintro ε (e | o) hr
    · exact absurd rfl hr
    · rfl
  cases action with
  | setText a text => exact Or.inl (hedits (by simp [Action.edited]) hne)
  | setColors as color => exact Or.inl (hedits (by simp [Action.edited]) hne)
  | undo =>
    refine absurd ?_ hne
    rw [act, attempt]
    cases ho : d.undo? with
    | none => rfl
    | some o => exact subjects_undo? hf ho
  | redo =>
    refine absurd ?_ hne
    rw [act, attempt]
    cases ho : d.redo? with
    | none => rfl
    | some o => exact subjects_redo? hf ho
  | clearHistory => exact Or.inr (Or.inl rfl)
  | loadText text => exact Or.inr (Or.inr ⟨rfl, hload hne⟩)
  | loadFile path files => exact Or.inr (Or.inr ⟨rfl, hload hne⟩)
  | saveFile files => exact absurd (congrArg History.subjects (saveFile_spec files).2) hne
  | saveAs path files => exact absurd (congrArg History.subjects (saveAs_spec path files).2) hne

theorem history_act_of_empties (h : d.Empties action) :
    (d.act action).history = d.history.clear := by
  have hafter : ∀ {ε : Type} {r : Except ε (Outcome shape)},
      (∀ o, r = .ok o → o.document.history = d.history.clear) → (d.after r).2 = true →
        (d.after r).1.history = d.history.clear := by
    rintro ε (e | o) hr hwell
    · simp [after] at hwell
    · exact hr o rfl
  rcases h with rfl | ⟨hload, hwell⟩
  · rfl
  · cases action with
    | loadText text => exact hafter (fun o ho => (loadText_spec ho).2) hwell
    | loadFile path files => exact hafter (fun o ho => (loadFrom_spec ho).2) hwell
    | _ => simp [Action.isLoad] at hload

/-- **A history is never fuller than its limit, and only an edit loses a step for it,** whatever has
been done with a document. The steps to undo and to redo together are at most as many as the limit
allows. Redoing takes one step from those to redo, adds its inverse to those to undo and drops
nothing. A warning that a step was dropped is given in edits that change something and nowhere else;
such an edit adds one step to those to undo, which has the cells as they were, leaves none to redo,
and drops the oldest step, with one warning, if there were as many as the limit allows. Everything
else keeps every step, but for clearing the history and loading, which forget all of them. -/
theorem capacity_run (shape : Shape) (limit : Nat) (actions : List Action) :
    let d := run shape limit actions
    d.history.undo.length + d.history.redo.length ≤ limit ∧
    (∀ d', d.attempt .redo = (d', true) → d.warned .redo = [] ∧
      d'.history.undo.length = d.history.undo.length + 1 ∧
      d'.history.redo.length + 1 = d.history.redo.length ∧
      ∃ step rest, d.history.redo = step :: rest ∧ d'.history.redo = rest ∧
        d'.history.undo = d.inverse step :: d.history.undo) ∧
    (∀ action, d.warned action ≠ [] → d.Edits action) ∧
    (∀ action, d.Edits action → ∃ (step : Step shape) (gone : Option (Step shape)),
      (∀ e ∈ step.cells, e.2 = d.sheet.cell e.1) ∧
      step :: d.history.undo = (d.act action).history.undo ++ gone.toList ∧
      (gone.isSome ↔ d.history.undo.length = limit) ∧
      (d.act action).history.redo = [] ∧
      d.warned action = gone.toList.map fun dropped => .historyFull limit dropped.kind) ∧
    (∀ action, (d.act action).history.subjects ≠ d.history.subjects →
      d.Edits action ∨ d.Empties action) ∧
    ∀ action, d.Empties action →
      (d.act action).history.undo = [] ∧ (d.act action).history.redo = [] := by
  intro d
  have hf := follows_run shape limit actions
  refine ⟨hf.length_le, fun d' hd' => ?_, fun action => edits_of_warned hf,
    fun action ⟨hedit, hcells⟩ => ?_, fun action => subjects_act hf, fun action hempties => ?_⟩
  · cases hredo : d.history.redo with
    | nil => simp [attempt, redo?_eq_none_iff.mpr hredo] at hd'
    | cons step rest =>
      obtain ⟨o, ho, -, -, hdocument⟩ := hf.exists_redo?_eq_some hredo
      rw [attempt, ho] at hd'
      obtain rfl : o.document = d' := congrArg Prod.fst hd'
      rw [hdocument]
      exact ⟨warned_redo hf, rfl, rfl, step, rest, rfl, rfl, rfl⟩
  · rcases edit_cases hf.upToDate hedit with ⟨hsame, -⟩ | ⟨-, step, hstep, hhistory, hwarned⟩
    · exact absurd (by rw [hsame]) hcells
    · have hle : d.history.undo.length ≤ d.history.limit := by
        rw [hf.limit_eq]
        exact (Nat.le_add_right ..).trans hf.length_le
      obtain ⟨gone, hsplit, hsome, hremarks⟩ := exists_gone step hle
      rw [hf.limit_eq] at hsome hremarks
      rw [hhistory, hwarned]
      exact ⟨step, gone, hstep, hsplit, hsome, rfl, hremarks⟩
  · rw [history_act_of_empties hempties]
    exact ⟨rfl, rfl⟩

/-- A document that keeps one step, and has one. The next edit drops it with a warning; undoing it
and redoing it does not. -/
theorem capacity_run_one_step :
    let d : Document ⟨1, 2⟩ := run ⟨1, 2⟩ 1 [.setText ⟨0, 0⟩ "1"]
    let next : Action := .setText ⟨0, 1⟩ "2"
    (d.Edits next ∧ ∃ step gone, step :: d.history.undo = (d.act next).history.undo ++ [gone] ∧
      d.warned next = [.historyFull 1 gone.kind]) ∧
    let d : Document ⟨1, 2⟩ := run ⟨1, 2⟩ 1 [.setText ⟨0, 0⟩ "1", .undo]
    (d.attempt .redo).2 = true ∧ (d.act .redo).history.undo.length = 1 ∧ d.warned .redo = [] := by
  intro d next
  have hlength : d.history.undo.length = 1 := by cbv
  have htexts : ((d.act next).sheet.cells.get ⟨1, by decide⟩).text ≠
      (d.sheet.cells.get ⟨1, by decide⟩).text := by
    have hafter : ((d.act next).sheet.cells.get ⟨1, by decide⟩).text = "2" := by cbv
    have hbefore : (d.sheet.cells.get ⟨1, by decide⟩).text = "" := by cbv
    rw [hafter, hbefore]
    decide
  have hedits : d.Edits next :=
    ⟨by simp [next, Action.edited], fun hcells => htexts (by rw [hcells])⟩
  have hcapacity := capacity_run ⟨1, 2⟩ 1 [.setText ⟨0, 0⟩ "1"]
  obtain ⟨step, gone, -, hsplit, hsome, -, hwarned⟩ := hcapacity.2.2.2.1 next hedits
  obtain ⟨dropped, rfl⟩ := Option.isSome_iff_exists.mp (hsome.mpr hlength)
  refine ⟨⟨hedits, step, dropped, hsplit, hwarned⟩, ?_⟩
  intro d
  have hwell : (d.attempt .redo).2 = true := by cbv
  have hnone : d.history.undo.length = 0 := by cbv
  obtain ⟨hnowarning, hgrown, -⟩ := (capacity_run ⟨1, 2⟩ 1 [.setText ⟨0, 0⟩ "1", .undo]).2.1
    (d.attempt .redo).1 (Prod.ext rfl hwell)
  refine ⟨hwell, hgrown.trans ?_, hnowarning⟩
  rw [hnone]

end Document

end Quadrille
