import Quadrille.Proofs.Sheet.Progress
import Quadrille.Proofs.Sheet.TaskStack

/-!
# What a walk does

Between tasks a walk is *sound*: formulas and links agree with the texts, the marks are right, and
the tasks form a stack whose frames are the active cells. Each task keeps it so. Entering a cell
that is settled releases it; entering one that can be computed pushes a frame; entering an active
cell, or a circular one with others active, closes all active cells, which lead to a cycle because
the stack says that each of them refers to the one above.

The walk that follows an edit begins with one cell whose formula has been forgotten and whose links
are those of its old text. Its first task puts that right, whatever the text is.

## Main definitions

* `Walk.Coherent`, `Walk.Sound` — the invariant, within a task and between tasks

## Main results

* `Walk.Sound.advance` — each task keeps the invariant
* `Walk.atRest_run_start`, `Walk.atRest_run_start_of_waiting` — a whole walk
* `Walk.run_start_ne_waiting` — it deals with the cell it is for
-/

namespace Quadrille

variable {shape : Shape}

namespace Walk

variable {before : Sheet shape} {w : Walk shape} {p q : shape.Place} {o : Outlook shape}
  {rest : List (Task shape)}

/-! ### What responding to an outlook changes -/

theorem cell_cutShort : (w.cutShort p).session.sheet.cell q =
    if w.marks.get q = .active ∨ q = p then (w.session.sheet.cell q).withResult loopResult
    else w.session.sheet.cell q := by
  rw [cutShort, Session.cell_foldl_complain, Session.sheet_remark]
  simp

theorem get_marks_cutShort : (w.cutShort p).marks.get q =
    if w.marks.get q = .active ∨ q = p then .circular else w.marks.get q := by
  rw [cutShort, Table.get_foldl_put]
  simp

theorem texts_cutShort : (w.cutShort p).session.sheet.texts = w.session.sheet.texts := by
  funext q
  rw [Sheet.texts, cell_cutShort]
  split <;> rfl

theorem tasks_settle (value : String) (error : Option String) :
    (w.settle p value error).tasks = w.tasks := by
  rw [settle]

theorem marks_settle (value : String) (error : Option String) :
    (w.settle p value error).marks = w.marks.put p .settled := by
  rw [settle]

theorem cell_settle (value : String) (error : Option String) :
    (w.settle p value error).session.sheet.cell q =
      if p = q then (w.session.sheet.cell p).withResult (value, error)
      else w.session.sheet.cell q :=
  Session.cell_writeResult (w.session.unlink p) p q value error

theorem texts_settle (value : String) (error : Option String) :
    (w.settle p value error).session.sheet.texts = w.session.sheet.texts := by
  funext q
  rw [Sheet.texts, cell_settle]
  split
  · next hpq => subst hpq; rfl
  · rfl

theorem texts_respond : (w.respond p o).session.sheet.texts = w.session.sheet.texts := by
  cases o with
  | literal text => rw [respond, texts_settle]
  | unparsable body e =>
    rw [respond, fail, texts_settle]
    rfl
  | blank text =>
    rw [respond, texts_settle]
    rfl
  | invalidReference tree name =>
    rw [respond, fail, texts_settle]
    rfl
  | computed tree targets =>
    rw [respond, pursue]
    split
    · exact texts_cutShort
    · rfl

theorem formulas_respond : (w.respond p o).session.sheet.formulas.get q =
    if p = q then o.formula?.or (w.session.sheet.formulas.get p)
    else w.session.sheet.formulas.get q := by
  have hkeep : w.session.sheet.formulas.get q = if p = q then w.session.sheet.formulas.get p
      else w.session.sheet.formulas.get q := by
    split
    · next hpq => rw [hpq]
    · rfl
  cases o with
  | literal text => simpa [respond, settle, Outlook.formula?] using hkeep
  | unparsable body e => simpa [respond, settle, fail, remark, Outlook.formula?] using hkeep
  | blank text => simp [respond, settle, remember, Outlook.formula?, Table.get_put]
  | invalidReference tree name =>
    simp [respond, settle, fail, remark, remember, Outlook.formula?, Table.get_put]
  | computed tree targets =>
    rw [respond, pursue]
    split <;> simp [cutShort, link, remember, Outlook.formula?, Table.get_put]

theorem links_respond : (w.respond p o).session.sheet.links =
    o.references?.elim (w.session.sheet.links.unlink p) (w.session.sheet.links.link p) := by
  cases o with
  | literal text => simp [respond, settle, Outlook.references?]
  | unparsable body e => simp [respond, settle, fail, remark, Outlook.references?]
  | blank text => simp [respond, settle, remember, Outlook.references?]
  | invalidReference tree name =>
    simp [respond, settle, fail, remark, remember, Outlook.references?]
  | computed tree targets =>
    rw [respond, pursue]
    split <;> simp [cutShort, link, remember, Outlook.references?]

/-- A cell with nothing to wait for is settled at once. -/
theorem respond_of_references?_eq_none (ho : o.references? = none) (value : String → Float) :
    (w.respond p o).tasks = w.tasks ∧ (w.respond p o).marks = w.marks.put p .settled ∧
      ∀ q, (w.respond p o).session.sheet.cell q =
        if p = q then (w.session.sheet.cell p).withResult (o.result value)
        else w.session.sheet.cell q := by
  cases o with
  | literal text =>
    rw [respond]
    exact ⟨tasks_settle _ _, marks_settle _ _, fun q => cell_settle _ _⟩
  | unparsable body e =>
    rw [respond, fail]
    exact ⟨tasks_settle _ _, marks_settle _ _, fun q => cell_settle _ _⟩
  | blank text =>
    rw [respond]
    exact ⟨tasks_settle _ _, marks_settle _ _, fun q => cell_settle _ _⟩
  | invalidReference tree name =>
    rw [respond, fail]
    exact ⟨tasks_settle _ _, marks_settle _ _, fun q => cell_settle _ _⟩
  | computed tree targets => simp [Outlook.references?] at ho

/-! ### The invariant -/

/-- The marks are right, and the tasks form a stack below the frame of `busy` whose frames are the
active cells. -/
structure Coherent (before : Sheet shape) (busy : Option shape.Place) (w : Walk shape) : Prop where
  underway : before.Underway w.session.sheet w.marks
  stack : ∃ active, Stack before.texts (fun q => w.marks.get q = .settled) busy w.tasks active ∧
    ∀ q, w.marks.get q = .active ↔ q ∈ active

/-- What holds between tasks. -/
structure Sound (before : Sheet shape) (w : Walk shape) : Prop extends
    Coherent before none w where
  indexed : w.session.sheet.Indexed

/-- The next cell to be entered is what the walk is busy with. -/
theorem Coherent.take (h : Coherent before none w) (ht : w.tasks = .enter p :: rest) :
    Coherent before (some p) { w with tasks := rest } := by
  obtain ⟨active, hstack, hactive⟩ := h.stack
  rw [ht] at hstack
  exact ⟨h.underway, active, hstack.take, hactive⟩

/-- A settled cell is not waited for. -/
theorem Coherent.release (h : Coherent before (some p) w) (hp : w.marks.get p = .settled) :
    Coherent before none w := by
  obtain ⟨active, hstack, hactive⟩ := h.stack
  exact ⟨h.underway, active, hstack.release hp, hactive⟩

/-- When no cell is active there is no one to wait for anything. -/
theorem Coherent.release_of_idle (h : Coherent before (some p) w)
    (hidle : ∀ q, w.marks.get q ≠ .active) : Coherent before none w := by
  obtain ⟨active, hstack, hactive⟩ := h.stack
  have hnil : active = [] := List.eq_nil_iff_forall_not_mem.mpr fun q hq =>
    hidle q ((hactive q).mpr hq)
  subst hnil
  exact ⟨h.underway, [], hstack.of_nil, hactive⟩

/-- Every active cell leads to the one that the walk is busy with. -/
theorem Coherent.reaches (h : Coherent before (some p) w) (hq : w.marks.get q = .active) :
    Relation.TransGen before.texts.Refers q p := by
  obtain ⟨active, hstack, hactive⟩ := h.stack
  exact hstack.reaches q ((hactive q).mp hq)

/-- An active cell can be computed from others. -/
theorem Coherent.references?_ne_none (h : Coherent before (some p) w)
    (hq : w.marks.get q = .active) : (before.texts.outlook q).references? ≠ none := by
  obtain ⟨active, hstack, hactive⟩ := h.stack
  obtain ⟨tree, targets, ho⟩ := hstack.outlook_eq q ((hactive q).mp hq)
  rw [ho]
  exact Option.some_ne_none targets

/-- **A loop is closed rightly:** the active cells and the one at hand all lead to a cycle. -/
theorem Coherent.cutShort (h : Coherent before (some p) w)
    (hp : w.marks.get p = .active ∨ w.marks.get p = .circular) :
    Coherent before none (w.cutShort p) := by
  have hloop : before.texts.Looped p := by
    rcases hp with hp | hp
    · exact ⟨p, .refl, h.reaches hp⟩
    · exact h.underway.looped p hp
  have hmembers : ∀ {q}, q ∈ (List.finRange shape.size).filter (fun q =>
      w.marks.get q == .active || q == p) ↔ w.marks.get q = .active ∨ q = p := by
    simp
  refine ⟨?_, [], .root none [], fun q => ?_⟩
  · refine h.underway.close (fun q hq => ?_) fun q => Session.cell_foldl_complain _ _ _
    rcases hmembers.mp hq with hq | rfl
    · exact ⟨by simp [hq], hloop.of_sees (h.reaches hq).to_reflTransGen⟩
    · exact ⟨by rcases hp with hp | hp <;> simp [hp], hloop⟩
  · refine iff_of_false (fun hq => ?_) (List.not_mem_nil)
    rw [get_marks_cutShort] at hq
    split at hq
    · exact absurd hq (by decide)
    · next hout => exact hout (Or.inl hq)

/-- Settling a cell without a frame takes it off what the stack waits for. -/
theorem exists_stack_settle {t : Texts shape} {marks : Marks shape} {tasks : List (Task shape)}
    {active : List shape.Place}
    (hstack : Stack t (fun q => marks.get q = .settled) (some p) tasks active) (hp : p ∉ active)
    (hactive : ∀ q, p ≠ q → (marks.get q = .active ↔ q ∈ active)) :
    ∃ active, Stack t (fun q => (marks.put p .settled).get q = .settled) none tasks active ∧
      ∀ q, (marks.put p .settled).get q = .active ↔ q ∈ active := by
  refine ⟨active, Stack.release (q := p) (hstack.mono fun q hq => ?_) ?_, fun q => ?_⟩
  · rw [Table.get_put]
    split
    · rfl
    · exact hq
  · exact Table.get_put_self _ _ _
  · rw [Table.get_put]
    split
    · next hpq =>
      subst hpq
      exact iff_of_false (by decide) hp
    · next hpq => exact hactive q hpq

/-- Entering a cell that refers to nothing. -/
theorem Coherent.respond_of_references?_eq_none (h : Coherent before (some p) w)
    (hp : w.marks.get p = .waiting) (hrefs : (before.texts.outlook p).references? = none) :
    Coherent before none (w.respond p (before.texts.outlook p)) := by
  obtain ⟨htasks, hmarks, hcells⟩ := Walk.respond_of_references?_eq_none (w := w) (p := p) hrefs
    w.session.sheet.numberNamed
  obtain ⟨active, hstack, hactive⟩ := h.stack
  have hfresh : p ∉ active := fun hmem =>
    absurd (hp.symm.trans ((hactive p).mpr hmem)) (by decide)
  refine ⟨?_, ?_⟩
  · rw [hmarks]
    refine h.underway.settle (Or.inl hp) (fun q hq => ?_) fun q => ?_
    · rw [Texts.refers_iff_mem_targets, Outlook.targets, hrefs] at hq
      simp at hq
    · rw [hcells, Sheet.computed, h.underway.texts_eq]
  · rw [hmarks, htasks]
    exact exists_stack_settle hstack hfresh fun q _ => hactive q

/-- Taking up a cell that can be computed. -/
theorem Coherent.pursue {tree : Tree} {targets : List shape.Place}
    (h : Coherent before (some p) w)
    (hp : w.marks.get p = .waiting ∨ w.marks.get p = .active)
    (ho : before.texts.outlook p = .computed tree targets) :
    Coherent before none (w.pursue p tree targets) := by
  rw [Walk.pursue]
  split
  · next hact => exact h.cutShort (Or.inl hact)
  · next hact =>
    have hwait : w.marks.get p = .waiting := hp.resolve_right hact
    obtain ⟨active, hstack, hactive⟩ := h.stack
    have hfresh : p ∉ active := fun hmem => hact ((hactive p).mpr hmem)
    refine ⟨h.underway.activate hwait, p :: active, ?_, fun q => ?_⟩
    · refine (hstack.mono fun q hq => ?_).push hfresh ho
      have hpq : p ≠ q := by
        rintro rfl
        exact absurd (hwait.symm.trans hq) (by decide)
      rw [Table.get_put_of_ne _ hpq, hq]
    · rw [Table.get_put, List.mem_cons]
      split
      · next hpq => exact iff_of_true rfl (Or.inl hpq.symm)
      · next hpq => rw [hactive q, or_iff_right (Ne.symm hpq)]

/-- Entering a cell that is waiting or active. -/
theorem Coherent.respond (h : Coherent before (some p) w)
    (hp : w.marks.get p = .waiting ∨ w.marks.get p = .active) :
    Coherent before none (w.respond p (before.texts.outlook p)) := by
  cases ho : before.texts.outlook p with
  | computed tree targets =>
    have hlinked : Coherent before (some p)
        ((w.remember p (.expression tree)).link p targets) :=
      ⟨h.underway.congr fun _ => rfl, h.stack⟩
    exact hlinked.pursue hp ho
  | _ =>
    have hrefs : (before.texts.outlook p).references? = none := by rw [ho]; rfl
    have hwait : w.marks.get p = .waiting := hp.resolve_right fun hact =>
      h.references?_ne_none hact hrefs
    rw [← ho]
    exact h.respond_of_references?_eq_none hwait hrefs

/-- Entering a cell reads its text again, after which formulas and links agree with the texts. -/
theorem Coherent.sound_enter (h : Coherent before (some p) { w with tasks := rest })
    (hs : w.session.sheet.IndexedBut p)
    (hp : w.marks.get p = .waiting ∨ w.marks.get p = .active) :
    Sound before (w.enter p rest) := by
  have ht : w.session.sheet.texts = before.texts := h.underway.texts_eq
  rw [enter, hs.outlook_eq, ht]
  have hremarked : Coherent before (some p)
      ({ w with tasks := rest }.remark (.recalculating p)) := ⟨h.underway, h.stack⟩
  refine
    { toCoherent := hremarked.respond hp
      indexed := hs.indexed texts_respond (fun q => ?_) ?_ }
  · rw [formulas_respond, ht]
    rfl
  · rw [links_respond, ht]
    rfl

theorem session_evaluate (tree : Tree) : (w.evaluate p tree rest).session =
    w.session.writeResult p (Number.display (tree.evaluate w.session.sheet.numberNamed)) none := by
  rw [evaluate]

/-- Computing a formula whose references are settled. -/
theorem Sound.evaluate {tree : Tree} (h : Sound before w)
    (ht : w.tasks = .evaluate p tree :: rest) : Sound before (w.evaluate p tree rest) := by
  obtain ⟨active, hstack, hactive⟩ := h.stack
  rw [ht] at hstack
  obtain ⟨below, targets, rfl, hfresh, hbelow, ho, htargets⟩ := hstack.evaluate_inv
  have hp : w.marks.get p = .active := (hactive p).mpr List.mem_cons_self
  have hcomputed : w.session.sheet.computed p =
      (Number.display (tree.evaluate w.session.sheet.numberNamed), none) := by
    rw [Sheet.computed, h.underway.texts_eq, ho, Outlook.result]
  have hcells : ∀ q, (w.evaluate p tree rest).session.sheet.cell q =
      if p = q then (w.session.sheet.cell p).withResult (w.session.sheet.computed p)
      else w.session.sheet.cell q := fun q => by
    rw [hcomputed, session_evaluate, Session.cell_writeResult]
  have hunderway : before.Underway (w.evaluate p tree rest).session.sheet
      (w.marks.put p .settled) := by
    refine h.underway.settle (Or.inr hp) (fun q hq => htargets q ?_) hcells
    rw [Texts.refers_iff_mem_targets, ho] at hq
    exact hq
  refine { underway := hunderway, stack := ?_, indexed := ?_ }
  · refine exists_stack_settle hbelow hfresh fun q hpq => ?_
    rw [hactive q, List.mem_cons, or_iff_right (Ne.symm hpq)]
  · refine h.indexed.congr (hunderway.texts_eq.trans h.underway.texts_eq.symm) ?_ ?_
    · rw [session_evaluate, Session.formulas_writeResult]
    · rw [session_evaluate, Session.links_writeResult]

/-- **Each task keeps the invariant.** -/
theorem Sound.advance (h : Sound before w) : Sound before w.advance := by
  rw [Walk.advance]
  split
  · exact h
  · next p tree rest ht => exact h.evaluate ht
  · next p rest ht =>
    have htake := h.toCoherent.take ht
    split
    · next hp => exact { toCoherent := htake.release hp, indexed := h.indexed }
    · next hp =>
      split
      · next hempty =>
        refine { toCoherent := htake.release_of_idle fun q hq => ?_, indexed := h.indexed }
        have hmem : q ∈ w.marks.places .active := by simp [Marks.places, hq]
        rw [List.isEmpty_iff.mp hempty] at hmem
        simp at hmem
      · refine { toCoherent := htake.cutShort (Or.inr hp), indexed := ?_ }
        refine h.indexed.congr texts_cutShort ?_ ?_
        · exact Session.formulas_foldl_complain _ _
        · exact Session.links_foldl_complain _ _
    · next hp => exact htake.sound_enter (h.indexed.but p) (Or.inl hp)
    · next hp => exact htake.sound_enter (h.indexed.but p) (Or.inr hp)

/-! ### Whole walks -/

theorem run_of_eq_nil (ht : w.tasks = []) : w.run = w := by
  rw [run, if_pos ht]

theorem run_of_ne_nil (ht : w.tasks ≠ []) : w.run = w.advance.run := by
  rw [run, if_neg ht]

/-- What holds at the beginning and is kept by each task holds at the end, when nothing is left to
do. -/
theorem run_induction {P : Walk shape → Prop} (hstep : ∀ w, w.tasks ≠ [] → P w → P w.advance)
    (hw : P w) : P w.run ∧ w.run.tasks = [] := by
  induction w using Walk.run.induct with
  | case1 w ht =>
    rw [run, if_pos ht]
    exact ⟨hw, ht⟩
  | case2 w ht ih =>
    rw [run, if_neg ht]
    exact ih (hstep w ht hw)

theorem Sound.atRest_run (h : Sound before w) : before.AtRest w.run.session.sheet w.run.marks := by
  obtain ⟨hsound, ht⟩ := run_induction (P := Sound before) (fun _ _ hw => hw.advance) h
  obtain ⟨active, hstack, hactive⟩ := hsound.stack
  rw [ht] at hstack
  obtain rfl := hstack.active_eq_nil
  refine { toUnderway := hsound.underway, indexed := hsound.indexed, idle := fun q hq => ?_ }
  exact List.not_mem_nil ((hactive q).mp hq)

variable {session : Session shape} {marks : Marks shape}

/-- A walk between others. -/
theorem sound_start (h : before.AtRest session.sheet marks) :
    Sound before (start session marks p) := by
  refine
    { underway := h.toUnderway, stack := ⟨[], ?_, fun q => ?_⟩, indexed := h.indexed }
  · exact .root none [p]
  · exact iff_of_false (h.idle q) List.not_mem_nil

theorem atRest_run_start (h : before.AtRest session.sheet marks) :
    before.AtRest (start session marks p).run.session.sheet (start session marks p).run.marks :=
  (sound_start h).atRest_run

/-- A walk that begins with the one cell where formulas and links may not agree with the text: after
its first task they do. -/
theorem sound_enter_start (hs : session.sheet.IndexedBut p)
    (hu : before.Underway session.sheet marks) (hidle : ∀ q, marks.get q ≠ .active)
    (hp : marks.get p = .waiting) : Sound before ((start session marks p).enter p []) := by
  have htaken : Coherent before (some p) { start session marks p with tasks := [] } := by
    refine ⟨hu, [], .root _ [], fun q => ?_⟩
    exact iff_of_false (hidle q) List.not_mem_nil
  exact htaken.sound_enter hs (Or.inl hp)

theorem advance_start_of_waiting (hp : marks.get p = .waiting) :
    (start session marks p).advance = (start session marks p).enter p [] := by
  rw [Walk.advance]
  simp [start, hp]

theorem run_start_eq_of_waiting (hp : marks.get p = .waiting) :
    (start session marks p).run = ((start session marks p).enter p []).run := by
  rw [run_of_ne_nil (by simp [start]), advance_start_of_waiting hp]

theorem atRest_run_start_of_waiting (hs : session.sheet.IndexedBut p)
    (hu : before.Underway session.sheet marks) (hidle : ∀ q, marks.get q ≠ .active)
    (hp : marks.get p = .waiting) :
    before.AtRest (start session marks p).run.session.sheet (start session marks p).run.marks := by
  rw [run_start_eq_of_waiting hp]
  exact (sound_enter_start hs hu hidle hp).atRest_run

/-! ### What is no longer waiting -/

theorem put_ne_waiting {m : Mark} (hm : m ≠ .waiting) (hq : p = q ∨ marks.get q ≠ .waiting) :
    (marks.put p m).get q ≠ .waiting := by
  rw [Table.get_put]
  split
  · exact hm
  · next hpq => exact hq.resolve_left hpq

theorem cutShort_ne_waiting (hq : p = q ∨ w.marks.get q ≠ .waiting) :
    (w.cutShort p).marks.get q ≠ .waiting := by
  rw [get_marks_cutShort]
  split
  · decide
  · next hout => exact hq.resolve_left fun hpq => hout (Or.inr hpq.symm)

theorem respond_ne_waiting (hq : p = q ∨ w.marks.get q ≠ .waiting) :
    (w.respond p o).marks.get q ≠ .waiting := by
  cases o with
  | computed tree targets =>
    rw [respond, pursue]
    split
    · exact cutShort_ne_waiting hq
    · exact put_ne_waiting (by decide) hq
  | _ => exact put_ne_waiting (by decide) hq

/-- No task makes a cell wait again, and a cell to be entered does not wait after that. -/
theorem advance_ne_waiting (hq : w.tasks.head? = some (.enter q) ∨ w.marks.get q ≠ .waiting) :
    w.advance.marks.get q ≠ .waiting := by
  rw [advance]
  split
  · next ht => exact hq.resolve_left (by simp [ht])
  · next p tree rest ht =>
    exact put_ne_waiting (by decide) (Or.inr (hq.resolve_left (by simp [ht])))
  · next p rest ht =>
    have hq' : p = q ∨ w.marks.get q ≠ .waiting := by simpa [ht] using hq
    have hkept : ∀ {m}, m ≠ Mark.waiting → w.marks.get p = m → w.marks.get q ≠ .waiting := by
      rintro m hm hp
      rcases hq' with rfl | hq'
      · rwa [hp]
      · exact hq'
    split
    · next hp => exact hkept (by decide) hp
    · next hp =>
      split
      · exact hkept (by decide) hp
      · exact cutShort_ne_waiting hq'
    · exact respond_ne_waiting hq'
    · exact respond_ne_waiting hq'

/-- **A walk deals with the cell that it is for,** and no cell waits again. -/
theorem run_start_ne_waiting (hq : p = q ∨ marks.get q ≠ .waiting) :
    (start session marks p).run.marks.get q ≠ .waiting := by
  rw [run, if_neg (by simp [start])]
  refine (run_induction (P := fun w => w.marks.get q ≠ .waiting) (fun w _ hw => ?_) ?_).1
  · exact advance_ne_waiting (Or.inr hw)
  · refine advance_ne_waiting (hq.imp_left ?_)
    rintro rfl
    rfl

end Walk

end Quadrille
