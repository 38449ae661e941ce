import Mathlib.Data.List.Nodup
import Quadrille.Proofs.Sheet.Edits

/-!
# What observers are told

A session *reports* the way from an earlier state of it if observers have been told of each property
of a cell that is another now, once, and of nothing else. Every single write does that. Two reports
one after the other are a report only if they are of different properties: a property that changes
there and back again is told twice and is not another in the end.

So the point is that nothing changes twice. Within a recalculation this is what the marks are for. A
cell that is waiting or active is as it was at the beginning, and only such cells are written to,
but for one case: a cell on a loop is complained about again when another walk runs into it, and
then it has the complaint already.

Where something may change twice, as during a load, there is still the weaker property that nothing
is concealed, and it needs no care at all.

## Main definitions

* `Cell.standing` — a property of a cell, as the write that would leave it alone
* `Session.Reports`, `Session.Tells`

## Main results

* `Session.Reports.trans`, `Session.Tells.trans`
* `Walk.Sound.reports_advance` — each task of a walk
* `Session.reports_recalculate`, `Session.reports_setText`
* `Session.reports_foldl_restore` — putting back cells of which one at most has another text
-/

namespace Quadrille

/-! ### Properties of a cell -/

namespace Cell

variable {c c' : Cell} {e : Edit} {x : Property}

/-- The write to a property that leaves the cell as it is. -/
def standing (c : Cell) : Property → Edit
  | .text => .text c.text
  | .value => .value c.value
  | .backgroundColor => .color c.color
  | .error => .error c.error

theorem edit_eq_self_iff : c.edit e = c ↔ c.standing e.property = e := by
  cases c
  cases e <;> simp [edit, standing, Edit.property, eq_comm]

theorem standing_edit : (c.edit e).standing x = if e.property = x then e else c.standing x := by
  cases e <;> cases x <;> rfl

theorem standing_eq_of_given_eq (h : c.given = c'.given) (hx : x = .text ∨ x = .backgroundColor) :
    c.standing x = c'.standing x := by
  obtain ⟨htext, hcolor⟩ := Prod.mk.inj h
  rcases hx with rfl | rfl
  · exact congrArg Edit.text htext
  · exact congrArg Edit.color hcolor

theorem standing_eq_of_result_eq (h : c.result = c'.result) (hx : x = .value ∨ x = .error) :
    c.standing x = c'.standing x := by
  obtain ⟨hvalue, herror⟩ := Prod.mk.inj h
  rcases hx with rfl | rfl
  · exact congrArg Edit.value hvalue
  · exact congrArg Edit.error herror

end Cell

variable {shape : Shape}

/-- The property is another on the second sheet. -/
def Sheet.DifferAt (s s' : Sheet shape) (change : Change shape) : Prop :=
  (s.cell change.place).standing change.property ≠ (s'.cell change.place).standing change.property

namespace Session

variable {s s' s'' : Session shape} {p q : shape.Place} {e : Edit} {change : Change shape}

/-! ### Reports -/

/-- Observers have been told of everything that is another now, once, and of nothing else. -/
def Reports (s s' : Session shape) : Prop :=
  ∃ new, s'.journal.changes.toList = s.journal.changes.toList ++ new ∧ new.Nodup ∧
    ∀ change, change ∈ new ↔ s.sheet.DifferAt s'.sheet change

/-- Observers have been told of everything that is another now. -/
def Tells (s s' : Session shape) : Prop :=
  ∃ new, s'.journal.changes.toList = s.journal.changes.toList ++ new ∧
    ∀ change, s.sheet.DifferAt s'.sheet change → change ∈ new

theorem Reports.tells : Reports s s' → Tells s s'
  | ⟨new, hnew, _, hmem⟩ => ⟨new, hnew, fun change => (hmem change).mpr⟩

theorem Reports.refl (s : Session shape) : Reports s s :=
  ⟨[], (List.append_nil _).symm, List.nodup_nil, fun change => by simp [Sheet.DifferAt]⟩

/-- What touches neither cells nor changes makes no difference. -/
theorem Reports.congr (h : Reports s s') (hcell : ∀ q, s''.sheet.cell q = s'.sheet.cell q)
    (hchanges : s''.journal.changes = s'.journal.changes) : Reports s s'' := by
  obtain ⟨new, hnew, hnodup, hmem⟩ := h
  refine ⟨new, hchanges ▸ hnew, hnodup, fun change => ?_⟩
  rw [hmem, Sheet.DifferAt, Sheet.DifferAt, hcell]

/-- **Two reports of different properties are one.** -/
theorem Reports.trans (h : Reports s s') (h' : Reports s' s'')
    (hdisjoint : ∀ change, s.sheet.DifferAt s'.sheet change →
      ¬s'.sheet.DifferAt s''.sheet change) : Reports s s'' := by
  obtain ⟨new, hnew, hnodup, hmem⟩ := h
  obtain ⟨new', hnew', hnodup', hmem'⟩ := h'
  refine ⟨new ++ new', by rw [hnew', hnew, List.append_assoc], ?_, fun change => ?_⟩
  · refine List.Nodup.append hnodup hnodup' fun change hchange hchange' => ?_
    exact hdisjoint change ((hmem change).mp hchange) ((hmem' change).mp hchange')
  · rw [List.mem_append, hmem, hmem']
    have hd := hdisjoint change
    unfold Sheet.DifferAt at hd ⊢
    constructor
    · rintro (hchange | hchange)
      · rwa [← not_not.mp (hd hchange)]
      · rwa [not_not.mp fun hfirst => hd hfirst hchange]
    · intro hchange
      by_cases hfirst : (s.sheet.cell change.place).standing change.property =
          (s'.sheet.cell change.place).standing change.property
      · exact Or.inr (hfirst ▸ hchange)
      · exact Or.inl hfirst

theorem Reports.congr_left (h : Reports s' s'') (hcell : ∀ q, s'.sheet.cell q = s.sheet.cell q)
    (hchanges : s'.journal.changes = s.journal.changes) : Reports s s'' := by
  refine ((Reports.refl s).congr hcell hchanges).trans h fun change hchange _ => ?_
  rw [Sheet.DifferAt, hcell] at hchange
  exact hchange rfl

theorem changes_foldl_remark (rs : List (Remark shape)) (s : Session shape) :
    (rs.foldl remark s).journal.changes = s.journal.changes := by
  induction rs generalizing s with
  | nil => rfl
  | cons r rs ih => exact ih (s.remark r)

/-- Nothing that is told first can be concealed by what is told later. -/
theorem Tells.trans (h : Tells s s') (h' : Tells s' s'') : Tells s s'' := by
  obtain ⟨new, hnew, hmem⟩ := h
  obtain ⟨new', hnew', hmem'⟩ := h'
  refine ⟨new ++ new', by rw [hnew', hnew, List.append_assoc], fun change hchange => ?_⟩
  rw [List.mem_append]
  by_cases hfirst : s.sheet.DifferAt s'.sheet change
  · exact Or.inl (hmem change hfirst)
  · refine Or.inr (hmem' change ?_)
    unfold Sheet.DifferAt at hfirst hchange ⊢
    rwa [← not_not.mp hfirst]

/-! ### Writes -/

theorem standing_write (e : Edit) (change : Change shape) :
    ((s.write p e).sheet.cell change.place).standing change.property =
      if ⟨p, e.property⟩ = change then e
      else (s.sheet.cell change.place).standing change.property := by
  obtain ⟨q, x⟩ := change
  rw [cell_write]
  by_cases hpq : p = q
  · subst hpq
    rw [if_pos rfl, Cell.standing_edit]
    simp
  · rw [if_neg hpq, if_neg (by simp [hpq])]

theorem write_eq_self (h : (s.sheet.cell p).standing e.property = e) : s.write p e = s :=
  if_pos (Cell.edit_eq_self_iff.mpr h)

/-- A single write reports itself. -/
theorem reports_write (s : Session shape) (p : shape.Place) (e : Edit) :
    Reports s (s.write p e) := by
  by_cases hsame : (s.sheet.cell p).standing e.property = e
  · rw [write_eq_self hsame]
    exact .refl s
  · have hchanges : (s.write p e).journal.changes = s.journal.changes.push ⟨p, e.property⟩ := by
      rw [write]
      exact congrArg (fun s : Session shape => s.journal.changes)
        (if_neg fun hedit => hsame (Cell.edit_eq_self_iff.mp hedit))
    refine ⟨[⟨p, e.property⟩], by rw [hchanges, Array.toList_push], List.nodup_singleton _,
      fun change => ?_⟩
    rw [List.mem_singleton, Sheet.DifferAt, standing_write]
    constructor
    · rintro rfl
      rw [if_pos rfl]
      exact hsame
    · intro hchange
      by_contra hne
      rw [if_neg (Ne.symm hne)] at hchange
      exact hchange rfl

/-- A write to a property that is as it was at the beginning. -/
theorem Reports.write (h : Reports s s')
    (hp : ¬s.sheet.DifferAt s'.sheet ⟨p, e.property⟩) : Reports s (s'.write p e) := by
  refine h.trans (reports_write s' p e) fun change hchange hwritten => ?_
  rw [Sheet.DifferAt, standing_write] at hwritten
  split at hwritten
  · next heq => exact hp (heq ▸ hchange)
  · exact hwritten rfl

/-- Writing an outcome to a cell that shows what it did at the beginning, or this outcome
already. -/
theorem Reports.writeResult {value : String} {error : Option String} (h : Reports s s')
    (hp : (s'.sheet.cell p).result = (s.sheet.cell p).result ∨
      (s'.sheet.cell p).result = (value, error)) : Reports s (s'.writeResult p value error) := by
  rcases hp with hp | hp
  · have hstanding : ∀ x, x = .value ∨ x = .error →
        (s.sheet.cell p).standing x = (s'.sheet.cell p).standing x := fun x =>
      Cell.standing_eq_of_result_eq hp.symm
    refine (h.write fun hchange => hchange (hstanding .value (Or.inl rfl))).write fun hchange => ?_
    have hkept := hstanding _ (Or.inr rfl)
    refine hchange (((standing_write _ _).trans (if_neg ?_)).trans hkept.symm).symm
    simp [Edit.property]
  · obtain ⟨hvalue, herror⟩ := Prod.mk.inj hp
    rw [Session.writeResult, write_eq_self (e := .value value) (congrArg Edit.value hvalue),
      write_eq_self (e := .error error) (congrArg Edit.error herror)]
    exact h

/-- Complaining about loops on cells that show what they did at the beginning, or the complaint
already. -/
theorem Reports.foldl_complain {ps : List shape.Place} (h : Reports s s')
    (hps : ∀ q ∈ ps, (s'.sheet.cell q).result = (s.sheet.cell q).result ∨
      (s'.sheet.cell q).result = loopResult) : Reports s (ps.foldl Walk.complain s') := by
  induction ps generalizing s' with
  | nil => exact h
  | cons p ps ih =>
    obtain ⟨hp, hps⟩ := List.forall_mem_cons.mp hps
    refine ih (h.writeResult hp) fun q hq => ?_
    rw [Walk.complain, cell_writeResult]
    split
    · exact Or.inr (Cell.result_withResult _ _)
    · exact hps q hq

end Session

/-! ### Walks -/

namespace Walk

open Session (Reports)

variable {s : Session shape} {w : Walk shape} {p : shape.Place} {o : Outlook shape}
  {rest : List (Task shape)}

/-- An outcome goes to a cell that has not been written to. -/
theorem reports_settle {value : String} {error : Option String} (h : Reports s w.session)
    (hp : w.session.sheet.cell p = s.sheet.cell p) :
    Reports s (w.settle p value error).session := by
  have hunlinked : Reports s (w.session.unlink p) := h.congr (fun _ => rfl) rfl
  rw [settle]
  exact hunlinked.writeResult (Or.inl (congrArg Cell.result hp))

/-- The cells that are complained about have not been written to, or have the complaint. -/
theorem reports_cutShort (hu : s.sheet.Underway w.session.sheet w.marks)
    (h : Reports s w.session) (hp : w.marks.get p ≠ .settled) :
    Reports s (w.cutShort p).session := by
  have hremarked : ∀ r, Reports s (w.session.remark r) := fun _ => h.congr (fun _ => rfl) rfl
  refine (hremarked _).foldl_complain fun q hq => ?_
  have hmark : w.marks.get q ≠ .settled := by
    rcases List.mem_filter.mp hq with ⟨-, hq⟩
    rcases (Bool.or_eq_true _ _).mp hq with hactive | hqp
    · simp [beq_iff_eq.mp hactive]
    · rwa [beq_iff_eq.mp hqp]
  cases hq : w.marks.get q with
  | waiting => exact Or.inl (congrArg Cell.result (hu.untouched q (Or.inl hq)))
  | active => exact Or.inl (congrArg Cell.result (hu.untouched q (Or.inr hq)))
  | settled => exact absurd hq hmark
  | circular => exact Or.inr (hu.circular q hq)

theorem reports_respond (hu : s.sheet.Underway w.session.sheet w.marks)
    (h : Reports s w.session) (hp : w.marks.get p = .waiting ∨ w.marks.get p = .active) :
    Reports s (w.respond p o).session := by
  have hcell := hu.untouched p hp
  cases o with
  | literal text => exact reports_settle h hcell
  | unparsable body e => exact reports_settle (h.congr (fun _ => rfl) rfl) hcell
  | blank text => exact reports_settle (h.congr (fun _ => rfl) rfl) hcell
  | invalidReference tree name => exact reports_settle (h.congr (fun _ => rfl) rfl) hcell
  | computed tree targets =>
    rw [respond, pursue]
    split
    · refine reports_cutShort (hu.congr fun _ => rfl) (h.congr (fun _ => rfl) rfl) ?_
      rcases hp with hp | hp <;> simp [link, remember, hp]
    · exact h.congr (fun _ => rfl) rfl

theorem reports_enter (hu : s.sheet.Underway w.session.sheet w.marks)
    (h : Reports s w.session) (hp : w.marks.get p = .waiting ∨ w.marks.get p = .active) :
    Reports s (w.enter p rest).session := by
  have hremarked : Reports s ({ w with tasks := rest }.remark (.recalculating p)).session :=
    h.congr (fun _ => rfl) rfl
  rw [enter]
  exact reports_respond hu hremarked hp

/-- **Each task is reported.** -/
theorem Sound.reports_advance (hw : Sound s.sheet w) (h : Reports s w.session) :
    Reports s w.advance.session := by
  rw [Walk.advance]
  split
  · exact h
  · next p tree rest ht =>
    obtain ⟨active, hstack, hactive⟩ := hw.stack
    rw [ht] at hstack
    obtain ⟨below, -, rfl, -⟩ := hstack.evaluate_inv
    have hp : w.marks.get p = .active := (hactive p).mpr List.mem_cons_self
    rw [session_evaluate]
    exact h.writeResult (Or.inl (congrArg Cell.result (hw.underway.untouched p (Or.inr hp))))
  · next p rest ht =>
    split
    · exact h
    · next hp =>
      split
      · exact h
      · exact reports_cutShort hw.underway h (by simp [hp])
    · next hp => exact reports_enter hw.underway h (Or.inl hp)
    · next hp => exact reports_enter hw.underway h (Or.inr hp)

theorem Sound.reports_run (hw : Sound s.sheet w) (h : Reports s w.session) :
    Reports s w.run.session :=
  (run_induction (P := fun w => Sound s.sheet w ∧ Reports s w.session)
    (fun _ _ hw => ⟨hw.1.advance, hw.1.reports_advance hw.2⟩) ⟨hw, h⟩).1.2

end Walk

/-! ### Recalculations -/

namespace Cascade

open Session (Reports)

variable {s : Session shape} {c : Cascade shape} {p : shape.Place} {ps : List shape.Place}

theorem reports_refresh (h : Reports s (Walk.start c.session c.marks p).run.session) :
    Reports s (c.refresh p).session := by
  rw [refresh]
  split
  · exact h.congr (fun _ => rfl) rfl
  · exact h

theorem Sound.reports_foldl_reach (hc : Sound s.sheet c) (h : Reports s c.session) :
    Reports s (ps.foldl Cascade.reach c).session := by
  induction ps generalizing c with
  | nil => exact h
  | cons p ps ih =>
    refine ih hc.reach ?_
    rw [Cascade.reach]
    split
    · exact h
    · exact reports_refresh ((Walk.sound_start hc.atRest).reports_run h)

theorem Sound.reports_run (hc : Sound s.sheet c) (h : Reports s c.session) :
    Reports s c.run.session := by
  refine (run_induction (P := fun c => Sound s.sheet c ∧ Reports s c.session)
    (fun c p rest _ hc => ?_) ⟨hc, h⟩).2
  have hrest : Sound s.sheet { c with queue := rest } := ⟨hc.1.atRest, hc.1.dealt⟩
  exact ⟨hrest.foldl_reach, hrest.reports_foldl_reach hc.2⟩

end Cascade

namespace Session

variable {s : Session shape} {p q : shape.Place} {text : String} {color : Color}

/-- **A recalculation is reported.** -/
theorem reports_recalculate (h : s.sheet.IndexedBut p) : Reports s (s.recalculate p) := by
  have hwaiting := Marks.get_fresh p
  have hwalk : Reports s (Walk.start s Marks.fresh p).run.session := by
    rw [Walk.run_start_eq_of_waiting hwaiting]
    refine Walk.Sound.reports_run ?_
      (Walk.reports_enter (.refl s.sheet) (.refl s) (Or.inl hwaiting))
    exact Walk.sound_enter_start h (.refl s.sheet) Marks.idle_fresh hwaiting
  exact (Cascade.sound_refresh_start h).reports_run (Cascade.reports_refresh hwalk)

/-! ### Edits -/

theorem eq_of_differAt_write {e : Edit} {change : Change shape}
    (h : s.sheet.DifferAt (s.write p e).sheet change) : ⟨p, e.property⟩ = change := by
  rw [Sheet.DifferAt, standing_write] at h
  by_contra hne
  rw [if_neg hne] at h
  exact h rfl

/-- **An edit of a text is reported.** The text changes first, and then only outcomes do. -/
theorem reports_setText (h : s.sheet.Indexed) (p : shape.Place) (text : String) :
    Reports s (s.setText p text) := by
  rw [setText]
  split
  · exact .refl s
  · have hbut := indexedBut_write_text h p text
    refine ((reports_write s p (.text text)).congr (fun _ => rfl) rfl).trans
      (reports_recalculate hbut) fun change hchange hlater => ?_
    obtain rfl := eq_of_differAt_write hchange
    exact hlater (Cell.standing_eq_of_given_eq (given_recalculate hbut).symm (Or.inl rfl))

theorem reports_setColor (s : Session shape) (p : shape.Place) (color : Color) :
    Reports s (s.setColor p color) :=
  reports_write s p (.color color)

theorem reports_foldl_setColor (s : Session shape) (ps : List shape.Place) (color : Color) :
    Reports s (ps.foldl (fun s p => s.setColor p color) s) := by
  induction ps generalizing s with
  | nil => exact .refl s
  | cons p ps ih =>
    -- the cell may come again further on, but it has the color by now
    have hkept :
        ((ps.foldl (fun s p => s.setColor p color) (s.setColor p color)).sheet.cell p).given =
          ((s.setColor p color).sheet.cell p).given := by
      rw [given_foldl_setColor, given_setColor, cell_setColor, if_pos rfl, if_pos rfl, ite_self]
    refine (reports_setColor s p color).trans (ih _) fun change hchange hlater => ?_
    obtain rfl := eq_of_differAt_write hchange
    exact hlater (Cell.standing_eq_of_given_eq hkept.symm (Or.inr rfl))

/-! ### Putting cells back -/

theorem texts_restore (h : s.sheet.UpToDate) (p : shape.Place) (c : Cell) :
    (s.restore p c).sheet.texts = Function.update s.sheet.texts p c.text := by
  funext q
  refine (congrArg Prod.fst (given_restore h c)).trans ?_
  by_cases hpq : p = q
  · subst hpq
    rw [if_pos rfl, Function.update_self]
    rfl
  · rw [if_neg hpq, Function.update_of_ne (Ne.symm hpq)]
    rfl

theorem reports_restore (h : s.sheet.UpToDate) (p : shape.Place) (c : Cell) :
    Reports s (s.restore p c) := by
  have hcolored := upToDate_setColor h p c.color
  refine (reports_setColor s p c.color).trans (reports_setText hcolored.toIndexed p c.text)
    fun change hchange hlater => ?_
  obtain rfl := eq_of_differAt_write hchange
  have hgiven : (((s.setColor p c.color).setText p c.text).sheet.cell p).given =
      (c.text, ((s.setColor p c.color).sheet.cell p).color) := by
    rw [given_setText hcolored, if_pos rfl]
  have hcolor := congrArg Prod.snd hgiven
  exact hlater (congrArg Edit.color hcolor.symm)

/-- **Putting cells back is reported,** if one of them at most gets another text. Then a single
recalculation takes place, and whatever else happens is a change of colors. -/
theorem reports_foldl_restore (h : s.sheet.UpToDate) {es : List (shape.Place × Cell)}
    {g : shape.Place → String × Color} (hes : ∀ e ∈ es, e.2.given = g e.1)
    (hone : ∀ e ∈ es, ∀ e' ∈ es, (g e.1).1 ≠ s.sheet.texts e.1 →
      (g e'.1).1 ≠ s.sheet.texts e'.1 → e.1 = e'.1) :
    Reports s (es.foldl (fun s e => s.restore e.1 e.2) s) := by
  induction es generalizing s with
  | nil => exact .refl s
  | cons e es ih =>
    obtain ⟨he, hes⟩ := List.forall_mem_cons.mp hes
    have hback := upToDate_restore h e.1 e.2
    have htext : e.2.text = (g e.1).1 := congrArg Prod.fst he
    -- where a later cell gets another text than it has by now, it gets another than it had
    have hearlier : ∀ e' ∈ es, (g e'.1).1 ≠ (s.restore e.1 e.2).sheet.texts e'.1 →
        e'.1 ≠ e.1 ∧ (g e'.1).1 ≠ s.sheet.texts e'.1 := by
      intro e' _ hne
      rw [texts_restore h] at hne
      have hplace : e'.1 ≠ e.1 := fun heq => hne <| by
        rw [heq, Function.update_self, htext]
      rw [Function.update_of_ne hplace] at hne
      exact ⟨hplace, hne⟩
    have hgiven : ∀ q, ((es.foldl (fun s e => s.restore e.1 e.2)
        (s.restore e.1 e.2)).sheet.cell q).given =
          if q ∈ es.map Prod.fst then g q else ((s.restore e.1 e.2).sheet.cell q).given :=
      fun q => given_foldl_restore hback hes
    refine (reports_restore h e.1 e.2).trans (ih hback hes fun a ha b hb hane hbne => ?_)
      fun change hchange hlater => ?_
    · exact hone a (List.mem_cons_of_mem _ ha) b (List.mem_cons_of_mem _ hb)
        (hearlier a ha hane).2 (hearlier b hb hbne).2
    · obtain ⟨q, x⟩ := change
      have hx : (x = .text ∨ x = .backgroundColor) ∨ x = .value ∨ x = .error := by
        cases x <;> simp
      rcases hx with hx | hx
      · -- what a cell is given, it is given once
        by_cases hq : e.1 = q
        · subst hq
          refine hlater (Cell.standing_eq_of_given_eq ?_ hx)
          refine Eq.trans ?_ (hgiven e.1).symm
          rw [given_restore h, if_pos rfl, he, ite_self]
        · refine hchange (Cell.standing_eq_of_given_eq ?_ hx)
          show (s.sheet.cell q).given = ((s.restore e.1 e.2).sheet.cell q).given
          rw [given_restore h, if_neg hq]
      · -- outcomes change only if a text does
        by_cases ht : (g e.1).1 = s.sheet.texts e.1
        · refine hchange (Cell.standing_eq_of_result_eq ?_ hx)
          refine (h.result_eq_of_texts_eq hback ?_ q).symm
          rw [texts_restore h, htext, ht, Function.update_eq_self]
        · refine hlater (Cell.standing_eq_of_result_eq ?_ hx)
          refine (hback.result_eq_of_texts_eq (upToDate_foldl_restore hback es) ?_ q).symm
          funext r
          refine (congrArg Prod.fst (hgiven r)).trans ?_
          split
          · next hr =>
            obtain ⟨e', he', rfl⟩ := List.mem_map.mp hr
            by_contra hne
            obtain ⟨hplace, hne⟩ := hearlier e' he' hne
            exact hplace (hone e' (List.mem_cons_of_mem _ he') e List.mem_cons_self hne ht)
          · rfl

/-- Putting cells back conceals nothing, whatever cells they are. -/
theorem tells_foldl_restore (h : s.sheet.UpToDate) (es : List (shape.Place × Cell)) :
    Tells s (es.foldl (fun s e => s.restore e.1 e.2) s) := by
  induction es generalizing s with
  | nil => exact (Reports.refl s).tells
  | cons e es ih => exact (reports_restore h e.1 e.2).tells.trans (ih (upToDate_restore h _ _))

/-! ### Clearing the sheet -/

/-- Everything is announced about the cells in use, and nothing else can be another. -/
theorem tells_clear (h : s.sheet.UpToDate) : Tells s s.clear := by
  have hfold : ∀ (ps : List shape.Place) (s : Session shape), ∃ new,
      (ps.foldl (fun s p => (((s.announce p .text).announce p .value).announce p
        .backgroundColor).announce p .error) s).journal.changes.toList =
          s.journal.changes.toList ++ new ∧ ∀ p ∈ ps, ∀ x, ⟨p, x⟩ ∈ new := by
    intro ps
    induction ps with
    | nil => exact fun s => ⟨[], (List.append_nil _).symm, by simp⟩
    | cons p ps ih =>
      intro s
      obtain ⟨new, hnew, hmem⟩ := ih
        ((((s.announce p .text).announce p .value).announce p .backgroundColor).announce p .error)
      refine ⟨⟨p, .text⟩ :: ⟨p, .value⟩ :: ⟨p, .backgroundColor⟩ :: ⟨p, .error⟩ :: new, ?_, ?_⟩
      · rw [List.foldl_cons, hnew]
        simp [announce]
      · intro q hq x
        rcases List.mem_cons.mp hq with rfl | hq
        · cases x <;> simp
        · simp [hmem q hq x]
  obtain ⟨new, hnew, hmem⟩ := hfold _ { s with sheet := Sheet.blank }
  refine ⟨new, hnew, fun change hchange => hmem change.place ?_ change.property⟩
  refine List.mem_filter.mpr ⟨List.mem_finRange _, ?_⟩
  by_contra hdefault
  have hblank : (s.cell change.place).isDefault = true := by simpa using hdefault
  rw [Sheet.DifferAt, sheet_clear, h.cell_eq_blank (Cell.given_of_isDefault hblank)] at hchange
  exact hchange (congrArg (fun c : Cell => c.standing _) (Table.get_fill _ _).symm)

end Session

end Quadrille
