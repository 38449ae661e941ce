import Quadrille.Proofs.Sheet.Edits

/-!
# A remembered formula is as good as one read again

A formula is read when its cell is brought up to date, and remembered until the text of the cell is
changed. In between it stands for the text. That it is the right one is what every operation on a
sheet keeps, and nothing else is needed for the following: two sheets that differ in the formulas
they remember go through any operation side by side, with the same cells, the same links and the
same journal all the way. In particular a sheet may forget all its formulas at any time.

Whether a formula is remembered makes a difference in one place only, where a walk enters a cell,
and there it is the same formula on both sides.

## Main definitions

* `Sheet.Faithful` — remembered formulas are those of the texts
* `Sheet.uncached`, `Session.uncached` — with all formulas forgotten
* `Session.Alike` — faithful sessions that are the same but for what they remember

## Main results

* `Walk.Alike.advance`, `Walk.Alike.run`, `Cascade.Alike.run` — side by side through a recalculation
* `Session.Alike.setText`, `Session.Alike.foldl_restore`, `Session.Alike.clear`
-/

namespace Quadrille

variable {shape : Shape}

namespace Sheet

variable {s s' : Sheet shape} {p : shape.Place}

/-- A formula that is remembered is the one that the text of its cell reads as. -/
def Faithful (s : Sheet shape) : Prop :=
  ∀ p f, s.formulas.get p = some f → (s.texts.outlook p).formula? = some f

/-- The sheet with all formulas forgotten. -/
def uncached (s : Sheet shape) : Sheet shape :=
  { s with formulas := Table.fill none }

theorem faithful_uncached (s : Sheet shape) : s.uncached.Faithful := by
  intro p f hf
  rw [uncached, Table.get_fill] at hf
  exact absurd hf.symm (Option.some_ne_none f)

theorem Indexed.faithful (h : s.Indexed) : s.Faithful :=
  fun p _ hf => (h.formulas p).symm.trans hf

theorem Faithful.congr (h : s.Faithful) (ht : s'.texts = s.texts)
    (hf : s'.formulas = s.formulas) : s'.Faithful := by
  unfold Faithful
  rw [ht, hf]
  exact h

/-- What a cell comes to does not depend on what is remembered. -/
theorem Faithful.outlook_eq (h : s.Faithful) (p : shape.Place) :
    s.outlook p = s.texts.outlook p := by
  refine outlook_eq_of_formulas ?_
  cases hf : s.formulas.get p with
  | none => exact Or.inl rfl
  | some f => exact Or.inr (h p f hf).symm

end Sheet

/-! ### Sessions -/

namespace Session

variable {s s' : Session shape} {p q : shape.Place}

/-- The session with all formulas forgotten. -/
def uncached (s : Session shape) : Session shape :=
  { s with sheet := s.sheet.uncached }

/-- Both sessions are faithful, and they are the same but for the formulas that are remembered. -/
structure Alike (s s' : Session shape) : Prop where
  uncached_eq : s'.uncached = s.uncached
  left : s.sheet.Faithful
  right : s'.sheet.Faithful

theorem alike_uncached (h : s.sheet.Faithful) : s.Alike s.uncached :=
  ⟨rfl, h, s.sheet.faithful_uncached⟩

namespace Alike

theorem cells_eq (h : s.Alike s') : s'.sheet.cells = s.sheet.cells :=
  congrArg (fun s => s.sheet.cells) h.uncached_eq

theorem links_eq (h : s.Alike s') : s'.sheet.links = s.sheet.links :=
  congrArg (fun s => s.sheet.links) h.uncached_eq

theorem journal_eq (h : s.Alike s') : s'.journal = s.journal :=
  congrArg (fun s => s.journal) h.uncached_eq

theorem cell_eq (h : s.Alike s') (q : shape.Place) : s'.cell q = s.cell q :=
  congrArg (Table.get · q) h.cells_eq

theorem numberNamed_eq (h : s.Alike s') : s'.sheet.numberNamed = s.sheet.numberNamed :=
  congrArg (fun s => s.sheet.numberNamed) h.uncached_eq

theorem outlook_eq (h : s.Alike s') (p : shape.Place) :
    s'.sheet.outlook p = s.sheet.outlook p := by
  rw [h.right.outlook_eq, h.left.outlook_eq]
  exact congrArg (fun s => s.sheet.texts.outlook p) h.uncached_eq

theorem withoutJournal (h : s.Alike s') :
    ({ sheet := s.sheet } : Session shape).Alike { sheet := s'.sheet } where
  uncached_eq := congrArg (fun s => ({ sheet := s.sheet } : Session shape)) h.uncached_eq
  left := h.left
  right := h.right

/-- What looks at no formula and changes neither texts nor formulas keeps two sessions alike. -/
theorem map (h : s.Alike s') {f : Session shape → Session shape}
    (huncached : ∀ s, (f s).uncached = f s.uncached)
    (htexts : ∀ s, (f s).sheet.texts = s.sheet.texts)
    (hformulas : ∀ s, (f s).sheet.formulas = s.sheet.formulas) : (f s).Alike (f s') where
  uncached_eq := by rw [huncached, huncached, h.uncached_eq]
  left := h.left.congr (htexts s) (hformulas s)
  right := h.right.congr (htexts s') (hformulas s')

theorem remark (h : s.Alike s') (r : Remark shape) : (s.remark r).Alike (s'.remark r) :=
  h.map (f := fun s => s.remark r) (fun _ => rfl) (fun _ => rfl) fun _ => rfl

theorem foldl_remark (h : s.Alike s') (rs : List (Remark shape)) :
    (rs.foldl Session.remark s).Alike (rs.foldl Session.remark s') := by
  induction rs generalizing s s' with
  | nil => exact h
  | cons r rs ih => exact ih (h.remark r)

theorem link (h : s.Alike s') (p : shape.Place) (targets : List shape.Place) :
    (s.link p targets).Alike (s'.link p targets) :=
  h.map (f := fun s => s.link p targets) (fun _ => rfl) (fun _ => rfl) fun _ => rfl

theorem unlink (h : s.Alike s') (p : shape.Place) : (s.unlink p).Alike (s'.unlink p) :=
  h.map (f := fun s => s.unlink p) (fun _ => rfl) (fun _ => rfl) fun _ => rfl

theorem announce (h : s.Alike s') (p : shape.Place) (x : Property) :
    (s.announce p x).Alike (s'.announce p x) :=
  h.map (f := fun s => s.announce p x) (fun _ => rfl) (fun _ => rfl) fun _ => rfl

theorem uncached_write (s : Session shape) (p : shape.Place) (e : Edit) :
    (s.write p e).uncached = s.uncached.write p e := by
  rw [write, apply_ite uncached]
  rfl

theorem texts_write_of_ne {e : Edit} (he : e.property ≠ .text) (s : Session shape)
    (p : shape.Place) : (s.write p e).sheet.texts = s.sheet.texts := by
  funext q
  rw [Sheet.texts, cell_write]
  split
  · next hpq =>
    subst hpq
    cases e with
    | text text => exact absurd rfl he
    | _ => rfl
  · rfl

theorem write (h : s.Alike s') (p : shape.Place) {e : Edit} (he : e.property ≠ .text) :
    (s.write p e).Alike (s'.write p e) :=
  h.map (uncached_write · p e) (texts_write_of_ne he · p) (formulas_write · p e)

theorem writeResult (h : s.Alike s') (p : shape.Place) (value : String) (error : Option String) :
    (s.writeResult p value error).Alike (s'.writeResult p value error) :=
  (h.write p (by simp [Edit.property])).write p (by simp [Edit.property])

theorem foldl_complain (h : s.Alike s') (ps : List shape.Place) :
    (ps.foldl Walk.complain s).Alike (ps.foldl Walk.complain s') := by
  induction ps generalizing s s' with
  | nil => exact h
  | cons p ps ih => exact ih (h.writeResult p _ _)

/-- Remembering the formula that the text of a cell reads as. -/
theorem remember (h : s.Alike s') {f : Formula}
    (hf : (s.sheet.texts.outlook p).formula? = some f) :
    (s.remember p f).Alike (s'.remember p f) := by
  have hfaithful : ∀ {s : Session shape}, s.sheet.Faithful →
      (s.sheet.texts.outlook p).formula? = some f → (s.remember p f).sheet.Faithful := by
    intro s hs hf q g hg
    rw [formulas_remember, Table.get_put] at hg
    split at hg
    · next hpq =>
      obtain rfl := Option.some.inj hg
      exact hpq ▸ hf
    · exact hs q g hg
  refine ⟨h.uncached_eq, hfaithful h.left hf, hfaithful h.right ?_⟩
  rw [← hf]
  exact congrArg (fun s => (s.sheet.texts.outlook p).formula?) h.uncached_eq

/-- Writing a text and forgetting the formula that was read from the old one. -/
theorem write_text_forget (h : s.Alike s') (p : shape.Place) (text : String) :
    ((s.write p (.text text)).forget p).Alike ((s'.write p (.text text)).forget p) := by
  have hfaithful : ∀ {s : Session shape}, s.sheet.Faithful →
      ((s.write p (.text text)).forget p).sheet.Faithful := by
    intro s hs q g hg
    rw [formulas_forget, Table.get_put] at hg
    split at hg
    · exact absurd hg.symm (Option.some_ne_none g)
    · next hpq =>
      rw [formulas_write] at hg
      have htext : (s.write p (.text text)).sheet.texts q = s.sheet.texts q := by
        rw [texts_write_text, Function.update_of_ne (Ne.symm hpq)]
      have hq : ((s.write p (.text text)).sheet.texts.outlook q).formula? = some g := by
        rw [Texts.outlook, htext]
        exact hs q g hg
      exact hq
  refine ⟨?_, hfaithful h.left, hfaithful h.right⟩
  show (s'.write p (.text text)).uncached = (s.write p (.text text)).uncached
  rw [uncached_write, uncached_write, h.uncached_eq]

end Alike

end Session

/-! ### Walks -/

namespace Walk

variable {w w' : Walk shape} {p : shape.Place} {rest : List (Task shape)}

/-- The walks are at the same point, in sessions that are alike. -/
structure Alike (w w' : Walk shape) : Prop where
  session : w.session.Alike w'.session
  marks_eq : w'.marks = w.marks
  tasks_eq : w'.tasks = w.tasks
  looped_eq : w'.looped = w.looped

namespace Alike

theorem settle (h : w.Alike w') (p : shape.Place) (value : String) (error : Option String) :
    (w.settle p value error).Alike (w'.settle p value error) := by
  have hmarks : w'.marks.put p .settled = w.marks.put p .settled := by rw [h.marks_eq]
  rw [Walk.settle, Walk.settle]
  exact ⟨(h.session.unlink p).writeResult p value error, hmarks, h.tasks_eq, h.looped_eq⟩

theorem remark (h : w.Alike w') (r : Remark shape) : (w.remark r).Alike (w'.remark r) :=
  ⟨h.session.remark r, h.marks_eq, h.tasks_eq, h.looped_eq⟩

theorem remember (h : w.Alike w') {f : Formula}
    (hf : (w.session.sheet.texts.outlook p).formula? = some f) :
    (w.remember p f).Alike (w'.remember p f) :=
  ⟨h.session.remember hf, h.marks_eq, h.tasks_eq, h.looped_eq⟩

theorem link (h : w.Alike w') (p : shape.Place) (targets : List shape.Place) :
    (w.link p targets).Alike (w'.link p targets) :=
  ⟨h.session.link p targets, h.marks_eq, h.tasks_eq, h.looped_eq⟩

theorem withTasks (h : w.Alike w') (rest : List (Task shape)) :
    ({ w with tasks := rest } : Walk shape).Alike { w' with tasks := rest } :=
  ⟨h.session, h.marks_eq, rfl, h.looped_eq⟩

theorem cutShort (h : w.Alike w') (p : shape.Place) : (w.cutShort p).Alike (w'.cutShort p) := by
  rw [Walk.cutShort, Walk.cutShort, h.marks_eq]
  exact ⟨(h.session.remark _).foldl_complain _, rfl, rfl, rfl⟩

theorem pursue (h : w.Alike w') (p : shape.Place) (tree : Tree) (targets : List shape.Place) :
    (w.pursue p tree targets).Alike (w'.pursue p tree targets) := by
  rw [Walk.pursue, Walk.pursue, h.marks_eq, h.tasks_eq]
  split
  · exact h.cutShort p
  · exact ⟨h.session, rfl, rfl, h.looped_eq⟩

/-- Responding to the outlook of a text. What is remembered then is the formula of the text. -/
theorem respond (h : w.Alike w') {o : Outlook shape}
    (ho : w.session.sheet.texts.outlook p = o) : (w.respond p o).Alike (w'.respond p o) := by
  cases o with
  | literal text => exact h.settle p text none
  | unparsable body e => exact (h.remark _).settle p _ _
  | blank text => exact (h.remember (by rw [ho]; rfl)).settle p text none
  | invalidReference tree name =>
    exact ((h.remember (by rw [ho]; rfl)).remark _).settle p _ _
  | computed tree targets =>
    exact ((h.remember (by rw [ho]; rfl)).link p targets).pursue p tree targets

/-- **Entering a cell is the same** whether or not its formula is remembered. -/
theorem enter (h : w.Alike w') (p : shape.Place) (rest : List (Task shape)) :
    (w.enter p rest).Alike (w'.enter p rest) := by
  rw [Walk.enter, Walk.enter, h.session.outlook_eq]
  exact ((h.withTasks rest).remark _).respond (h.session.left.outlook_eq p).symm

theorem evaluate (h : w.Alike w') (p : shape.Place) (tree : Tree) (rest : List (Task shape)) :
    (w.evaluate p tree rest).Alike (w'.evaluate p tree rest) := by
  rw [Walk.evaluate, Walk.evaluate, h.marks_eq, h.session.numberNamed_eq]
  exact ⟨h.session.writeResult p _ _, rfl, rfl, h.looped_eq⟩

/-- **Side by side through one task.** -/
theorem advance (h : w.Alike w') : w.advance.Alike w'.advance := by
  rw [Walk.advance, Walk.advance, h.tasks_eq]
  split
  · exact h
  · exact h.evaluate _ _ _
  · simp only [h.marks_eq]
    split
    · exact h.marks_eq ▸ h.withTasks _
    · split
      · exact h.marks_eq ▸ h.withTasks _
      · exact h.cutShort _
    · exact h.enter _ _
    · exact h.enter _ _

theorem run (h : w.Alike w') : w.run.Alike w'.run := by
  induction w using Walk.run.induct generalizing w' with
  | case1 w ht =>
    rw [run_of_eq_nil ht, run_of_eq_nil (h.tasks_eq.trans ht)]
    exact h
  | case2 w ht ih =>
    have ht' : w'.tasks ≠ [] := h.tasks_eq ▸ ht
    rw [run_of_ne_nil ht, run_of_ne_nil ht']
    exact ih h.advance

end Alike

end Walk

/-! ### Recalculations -/

namespace Cascade

variable {c c' : Cascade shape} {p : shape.Place}

/-- The recalculations are at the same point, in sessions that are alike. -/
structure Alike (c c' : Cascade shape) : Prop where
  session : c.session.Alike c'.session
  marks_eq : c'.marks = c.marks
  seen_eq : c'.seen = c.seen
  queue_eq : c'.queue = c.queue

namespace Alike

theorem refresh (h : c.Alike c') (p : shape.Place) : (c.refresh p).Alike (c'.refresh p) := by
  have hwalk : (Walk.start c.session c.marks p).run.Alike
      (Walk.start c'.session c'.marks p).run :=
    Walk.Alike.run ⟨h.session, h.marks_eq, rfl, rfl⟩
  rw [Cascade.refresh, Cascade.refresh, hwalk.looped_eq]
  refine ⟨?_, hwalk.marks_eq, h.seen_eq, h.queue_eq⟩
  dsimp only
  split
  · exact hwalk.session.remark _
  · exact hwalk.session

theorem reach (h : c.Alike c') (p : shape.Place) : (c.reach p).Alike (c'.reach p) := by
  rw [Cascade.reach, Cascade.reach, h.seen_eq, h.queue_eq]
  split
  · exact h
  · exact ⟨(h.refresh p).session, (h.refresh p).marks_eq, rfl, rfl⟩

theorem foldl_reach (h : c.Alike c') (ps : List shape.Place) :
    (ps.foldl Cascade.reach c).Alike (ps.foldl Cascade.reach c') := by
  induction ps generalizing c c' with
  | nil => exact h
  | cons p ps ih => exact ih (h.reach p)

theorem visit (h : c.Alike c') (p : shape.Place) : (c.visit p).Alike (c'.visit p) := by
  rw [Cascade.visit, Cascade.visit, h.session.links_eq]
  exact h.foldl_reach _

theorem run (h : c.Alike c') : c.run.Alike c'.run := by
  induction c using Cascade.run.induct generalizing c' with
  | case1 c hqueue =>
    rw [run_of_eq_nil hqueue, run_of_eq_nil (h.queue_eq.trans hqueue)]
    exact h
  | case2 c p rest hqueue ih =>
    rw [run_of_eq_cons hqueue, run_of_eq_cons (h.queue_eq.trans hqueue)]
    have hrest : ({ c with queue := rest } : Cascade shape).Alike { c' with queue := rest } :=
      ⟨h.session, h.marks_eq, h.seen_eq, rfl⟩
    exact ih (hrest.visit p)

end Alike

end Cascade

/-! ### Operations of a session -/

namespace Session.Alike

variable {s s' : Session shape}

/-- **Side by side through a recalculation.** -/
theorem recalculate (h : s.Alike s') (p : shape.Place) :
    (s.recalculate p).Alike (s'.recalculate p) := by
  have hstart : (Cascade.start s p).Alike (Cascade.start s' p) := ⟨h, rfl, rfl, rfl⟩
  exact (hstart.refresh p).run.session

theorem setText (h : s.Alike s') (p : shape.Place) (text : String) :
    (s.setText p text).Alike (s'.setText p text) := by
  rw [Session.setText, Session.setText, h.cell_eq]
  split
  · exact h
  · exact (h.write_text_forget p text).recalculate p

theorem setColor (h : s.Alike s') (p : shape.Place) (color : Color) :
    (s.setColor p color).Alike (s'.setColor p color) :=
  h.write p (by simp [Edit.property])

theorem foldl_setColor (h : s.Alike s') (ps : List shape.Place) (color : Color) :
    (ps.foldl (fun s p => s.setColor p color) s).Alike
      (ps.foldl (fun s p => s.setColor p color) s') := by
  induction ps generalizing s s' with
  | nil => exact h
  | cons p ps ih => exact ih (h.setColor p color)

theorem restore (h : s.Alike s') (p : shape.Place) (c : Cell) :
    (s.restore p c).Alike (s'.restore p c) :=
  (h.setColor p c.color).setText p c.text

theorem foldl_restore (h : s.Alike s') (es : List (shape.Place × Cell)) :
    (es.foldl (fun s e => s.restore e.1 e.2) s).Alike
      (es.foldl (fun s e => s.restore e.1 e.2) s') := by
  induction es generalizing s s' with
  | nil => exact h
  | cons e es ih => exact ih (h.restore e.1 e.2)

theorem clear (h : s.Alike s') : s.clear.Alike s'.clear := by
  have hblank : ({ s with sheet := Sheet.blank } : Session shape).Alike
      { s' with sheet := Sheet.blank } := by
    have hfaithful : (Sheet.blank : Sheet shape).Faithful :=
      Sheet.upToDate_blank.toIndexed.faithful
    refine ⟨?_, hfaithful, hfaithful⟩
    rw [Session.uncached, Session.uncached, h.journal_eq]
  have hfold : ∀ (ps : List shape.Place) {s s' : Session shape}, s.Alike s' →
      (ps.foldl (fun s p => (((s.announce p .text).announce p .value).announce p
        .backgroundColor).announce p .error) s).Alike
      (ps.foldl (fun s p => (((s.announce p .text).announce p .value).announce p
        .backgroundColor).announce p .error) s') := by
    intro ps
    induction ps with
    | nil => exact fun h => h
    | cons p ps ih =>
      exact fun h => ih ((((h.announce p _).announce p _).announce p _).announce p _)
  simp only [Session.clear, h.cell_eq]
  exact hfold _ hblank

end Session.Alike

end Quadrille
