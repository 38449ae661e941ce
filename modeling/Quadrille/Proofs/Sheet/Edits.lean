import Mathlib.Data.List.Induction
import Quadrille.Proofs.Sheet.Cascade

/-!
# What an edit does

Every operation that changes a sheet from outside leaves it up to date, and what it does to texts
and colors is read off its name. Together the two say everything, since nothing else on an
up-to-date sheet is free.

An edit of a text is the one case with an argument. The sheet with the new text and the old results
is what the recalculation starts from. There the cells that do not see the edited one are solved
because they see the same as before, and the others are the business of the recalculation.

## Main results

* `Session.upToDate_setText`, `Session.upToDate_setColor`, `Session.upToDate_foldl_restore`
* `Session.given_setText`, `Session.given_setColor`, `Session.given_foldl_restore`
-/

namespace Quadrille

variable {shape : Shape}

namespace Sheet

variable {s s' : Sheet shape} {p q : shape.Place}

/-- An up-to-date sheet stays so if nothing but colors is changed. -/
theorem UpToDate.congr (h : s.UpToDate) (ht : s'.texts = s.texts)
    (hr : ∀ q, (s'.cell q).result = (s.cell q).result) (hf : s'.formulas = s.formulas)
    (hl : s'.links = s.links) : s'.UpToDate where
  toIndexed := h.toIndexed.congr ht hf hl
  solved q := (h.solved q).congr (fun r _ => congrFun ht r) (hr q) fun r _ => hr r

end Sheet

namespace Session

variable {s : Session shape} {p q : shape.Place} {text : String}

/-! ### Texts -/

theorem cell_write_text : (s.write p (.text text)).sheet.cell q =
    if p = q then { s.sheet.cell p with text } else s.sheet.cell q :=
  cell_write s p q (.text text)

theorem result_write_text :
    ((s.write p (.text text)).sheet.cell q).result = (s.sheet.cell q).result := by
  rw [cell_write_text]
  split
  · next hpq => subst hpq; rfl
  · rfl

/-- The texts on the sheet that a recalculation starts from. -/
theorem texts_write_text : (s.write p (.text text)).sheet.texts =
    Function.update s.sheet.texts p text := by
  funext q
  rw [Sheet.texts, cell_write_text]
  by_cases hpq : p = q
  · subst hpq
    rw [if_pos rfl, Function.update_self]
  · rw [if_neg hpq, Function.update_of_ne (Ne.symm hpq)]
    rfl

theorem indexedBut_write_text (h : s.sheet.Indexed) (p : shape.Place) (text : String) :
    ((s.write p (.text text)).forget p).sheet.IndexedBut p := by
  have hother : ∀ q, p ≠ q →
      ((s.write p (.text text)).forget p).sheet.texts.outlook q = s.sheet.texts.outlook q := by
    intro q hpq
    refine congrArg (Outlook.ofText shape) ?_
    show (s.write p (.text text)).sheet.texts q = _
    rw [texts_write_text, Function.update_of_ne (Ne.symm hpq)]
  refine ⟨Or.inl ?_, fun q hpq => ?_, _, ?_, fun q hpq => congrArg _ (hother q hpq).symm⟩
  · rw [formulas_forget, Table.get_put_self]
  · rw [hother q hpq, formulas_forget, Table.get_put_of_ne _ hpq, formulas_write, h.formulas]
  · rw [links_forget, links_write]
    exact h.links

/-- A cell that does not see the edited one sees the same as before. -/
theorem agreeFrom_update {t : Texts shape} (hq : ¬t.Sees q p) (text : String) :
    t.AgreeFrom (Function.update t p text) q := by
  intro r hr
  refine Function.update_of_ne ?_ _ _
  rintro rfl
  exact hq hr

theorem sees_update_iff {t : Texts shape} :
    Texts.Sees (Function.update t p text) q p ↔ t.Sees q p := by
  constructor
  · intro hq
    by_contra hnot
    exact hnot ((agreeFrom_update hnot text).sees_of hq)
  · intro hq
    by_contra hnot
    have hagree := agreeFrom_update hnot (t p)
    rw [Function.update_idem, Function.update_eq_self] at hagree
    exact hnot (hagree.sees_of hq)

theorem solved_write_text (h : s.sheet.UpToDate)
    (hq : ¬(s.write p (.text text)).sheet.texts.Sees q p) :
    ((s.write p (.text text)).forget p).sheet.Solved q := by
  rw [texts_write_text, sees_update_iff] at hq
  refine (h.solved q).congr ?_ result_write_text fun r _ => result_write_text
  show s.sheet.texts.AgreeFrom (s.write p (.text text)).sheet.texts q
  rw [texts_write_text]
  exact agreeFrom_update hq text

/-- **An edit of a text leaves every cell as it should be.** -/
theorem upToDate_setText (h : s.sheet.UpToDate) (p : shape.Place) (text : String) :
    (s.setText p text).sheet.UpToDate := by
  rw [setText]
  split
  · exact h
  · exact upToDate_recalculate (indexedBut_write_text h.toIndexed p text)
      fun q => solved_write_text h

theorem given_setText (h : s.sheet.UpToDate) : ((s.setText p text).sheet.cell q).given =
    if p = q then (text, (s.sheet.cell p).color) else (s.sheet.cell q).given := by
  rw [setText]
  split
  · next htext =>
    split
    · next hpq =>
      subst hpq
      exact (Cell.given_of_text_eq htext).symm
    · rfl
  · have hbut := indexedBut_write_text h.toIndexed p text
    have hgiven : (((s.write p (.text text)).forget p).sheet.cell q).given =
        if p = q then (text, (s.sheet.cell p).color) else (s.sheet.cell q).given := by
      rw [cell_forget, cell_write_text]
      split <;> rfl
    rw [← hgiven, given_recalculate hbut]

/-! ### Colors -/

theorem cell_setColor (color : Color) : (s.setColor p color).sheet.cell q =
    if p = q then { s.sheet.cell p with color } else s.sheet.cell q :=
  cell_write s p q (.color color)

theorem given_setColor (color : Color) : ((s.setColor p color).sheet.cell q).given =
    if p = q then ((s.sheet.cell p).text, color) else (s.sheet.cell q).given := by
  rw [cell_setColor]
  split <;> rfl

theorem upToDate_setColor (h : s.sheet.UpToDate) (p : shape.Place) (color : Color) :
    (s.setColor p color).sheet.UpToDate := by
  refine h.congr (funext fun q => ?_) (fun q => ?_) (formulas_write _ _ _) (links_write _ _ _)
  · rw [Sheet.texts, cell_setColor]
    split
    · next hpq => subst hpq; rfl
    · rfl
  · rw [cell_setColor]
    split
    · next hpq => subst hpq; rfl
    · rfl

theorem upToDate_foldl_setColor (h : s.sheet.UpToDate) (ps : List shape.Place) (color : Color) :
    (ps.foldl (fun s p => s.setColor p color) s).sheet.UpToDate := by
  induction ps generalizing s with
  | nil => exact h
  | cons p ps ih => exact ih (upToDate_setColor h p color)

theorem given_foldl_setColor (ps : List shape.Place) (color : Color) :
    ((ps.foldl (fun s p => s.setColor p color) s).sheet.cell q).given =
      if q ∈ ps then ((s.sheet.cell q).text, color) else (s.sheet.cell q).given := by
  induction ps generalizing s with
  | nil => simp
  | cons p ps ih =>
    rw [List.foldl_cons, ih, given_setColor, cell_setColor]
    by_cases hpq : p = q
    · subst hpq
      rw [if_pos rfl, if_pos rfl, if_pos List.mem_cons_self]
      split <;> rfl
    · rw [if_neg hpq, if_neg hpq]
      simp only [List.mem_cons, Ne.symm hpq, false_or]

/-! ### Putting cells back -/

theorem upToDate_restore (h : s.sheet.UpToDate) (p : shape.Place) (c : Cell) :
    (s.restore p c).sheet.UpToDate :=
  upToDate_setText (upToDate_setColor h p c.color) p c.text

theorem given_restore (h : s.sheet.UpToDate) (c : Cell) :
    ((s.restore p c).sheet.cell q).given = if p = q then c.given else (s.sheet.cell q).given := by
  rw [restore, given_setText (upToDate_setColor h p c.color), given_setColor, cell_setColor,
    if_pos rfl]
  split <;> rfl

theorem upToDate_foldl_restore (h : s.sheet.UpToDate) (es : List (shape.Place × Cell)) :
    (es.foldl (fun s e => s.restore e.1 e.2) s).sheet.UpToDate := by
  induction es generalizing s with
  | nil => exact h
  | cons e es ih => exact ih (upToDate_restore h e.1 e.2)

/-- Each place is given what the last cell for it in the list has. -/
theorem given_foldl_restore_eq_getLast? (h : s.sheet.UpToDate) (es : List (shape.Place × Cell)) :
    ((es.foldl (fun s e => s.restore e.1 e.2) s).sheet.cell q).given =
      (es.filter fun e => e.1 = q).getLast?.elim (s.sheet.cell q).given fun e => e.2.given := by
  induction es using List.reverseRecOn with
  | nil => rfl
  | append_singleton es e ih =>
    rw [List.foldl_append, List.foldl_cons, List.foldl_nil,
      given_restore (upToDate_foldl_restore h es), List.filter_append]
    by_cases heq : e.1 = q
    · rw [if_pos heq, List.filter_cons_of_pos (by simpa using heq), List.filter_nil,
        List.getLast?_concat]
      rfl
    · rw [if_neg heq, List.filter_cons_of_neg (by simpa using heq), List.filter_nil,
        List.append_nil, ih]

/-- The places of a list are given what a function assigns to them, if the cells in the list are
according to the function. -/
theorem given_foldl_restore (h : s.sheet.UpToDate) {es : List (shape.Place × Cell)}
    {g : shape.Place → String × Color} (hes : ∀ e ∈ es, e.2.given = g e.1) :
    ((es.foldl (fun s e => s.restore e.1 e.2) s).sheet.cell q).given =
      if q ∈ es.map Prod.fst then g q else (s.sheet.cell q).given := by
  rw [given_foldl_restore_eq_getLast? h]
  cases hlast : (es.filter fun e => e.1 = q).getLast? with
  | none =>
    have hq : q ∉ es.map Prod.fst := by
      rintro hq
      obtain ⟨e, he, rfl⟩ := List.mem_map.mp hq
      have hnil := List.getLast?_eq_none_iff.mp hlast
      simpa using List.filter_eq_nil_iff.mp hnil e he
    rw [if_neg hq]
    rfl
  | some e =>
    obtain ⟨he, rfl⟩ : e ∈ es ∧ e.1 = q := by
      simpa using List.mem_filter.mp (List.mem_of_getLast? hlast)
    rw [if_pos (List.mem_map_of_mem he)]
    exact hes e he

/-! ### Clearing the sheet -/

theorem sheet_clear : s.clear.sheet = Sheet.blank := by
  have hfold : ∀ (ps : List shape.Place) (s : Session shape), (ps.foldl (fun s p =>
      (((s.announce p .text).announce p .value).announce p .backgroundColor).announce p .error)
        s).sheet = s.sheet := by
    intro ps
    induction ps with
    | nil => exact fun _ => rfl
    | cons p ps ih => exact fun s => by rw [List.foldl_cons, ih]; rfl
  exact hfold _ _

end Session

end Quadrille
