import Quadrille.Proofs.Document.Run

/-!
# What a cell shows depends on what it sees

The value and the complaint of a cell are a function of the texts of the cells that can be reached
from it. Nothing else enters: not the order in which the texts came about, nor what was undone,
loaded or failed on the way, nor any cell out of sight.

Three things follow. Edits of different cells can be made in either order. An edit changes nothing
on a cell that does not see an edited one. And typing all texts of a document into an empty one, in
any order, gives what the document shows already.

## Main definitions

* `Action.edited` — the cells that an edit is about
* `Action.effect` — what an edit makes of the text and the color of a cell

## Main results

* `Document.given_act` — an edit changes texts and colors by its effect, and nothing else of them
* `Document.independence_run`
-/

namespace Quadrille

variable {shape : Shape}

namespace Action

/-- The addresses of the cells that an edit is about, if the action is an edit. -/
def edited : Action → Option (List Address)
  | .setText a _ => some [a]
  | .setColors as _ => some as
  | _ => none

/-- What an edit makes of the text and the color of the cell at a place. -/
def effect (action : Action) (p : shape.Place) (given : String × Color) : String × Color :=
  match action with
  | .setText a text => if shape.address p = a then (text, given.2) else given
  | .setColors as color =>
    match as.mapM shape.place with
    | .ok ps => if p ∈ ps then (given.1, color) else given
    | .error _ => given
  | _ => given

variable {action : Action} {as : List Address} {p : shape.Place}

/-- An edit has no effect on other cells than those it is about. -/
theorem effect_of_not_mem (hedit : action.edited = some as) (hp : shape.address p ∉ as)
    (given : String × Color) : action.effect p given = given := by
  cases action with
  | setText a text =>
    obtain rfl := Option.some.inj hedit
    exact if_neg fun hpa => hp (List.mem_singleton.mpr hpa)
  | setColors bs color =>
    obtain rfl := Option.some.inj hedit
    rw [effect]
    cases hps : bs.mapM shape.place with
    | error e => rfl
    | ok ps =>
      refine if_neg fun hmem => hp ?_
      obtain ⟨b, hb, hplace⟩ := exists_of_forall₂_right (mapM_eq_ok_iff.mp hps) p hmem
      rw [Shape.place?_eq_some_iff.mp (Shape.place_eq_ok_iff.mp hplace)]
      exact hb
  | _ => simp [edited] at hedit

end Action

namespace Document

variable {d : Document shape} {action : Action} {as bs : List Address} {p q : shape.Place}

theorem given_act_setText (h : d.sheet.UpToDate) (a : Address) (text : String)
    (q : shape.Place) : ((d.act (.setText a text)).sheet.cell q).given =
      (Action.setText a text).effect q (d.sheet.cell q).given := by
  rw [act, attempt, Action.effect]
  cases hp : shape.place? a with
  | none =>
    have hfail : shape.place a = .error ⟨a⟩ := by rw [Shape.place, hp]
    have hq : shape.address q ≠ a := fun hqa => by
      rw [Shape.place?_eq_some_iff.mpr hqa] at hp
      simp at hp
    rw [setText, hfail, if_neg hq]
    rfl
  | some p =>
    obtain ⟨o, ho⟩ := exists_setText_eq_ok hp d text
    obtain ⟨p', hp', -, hgiven, -⟩ := setText_spec h ho
    obtain rfl := Option.some.inj (hp.symm.trans hp')
    have ha : shape.address p = a := Shape.place?_eq_some_iff.mp hp
    rw [ho]
    refine (hgiven q).trans ?_
    by_cases hpq : p = q
    · subst hpq
      rw [if_pos rfl, if_pos ha]
      rfl
    · have hqa : shape.address q ≠ a := fun hqa => hpq <| Option.some.inj <| by
        rw [← hp, Shape.place?_eq_some_iff.mpr hqa]
      rw [if_neg hpq, if_neg hqa]

theorem given_act_setColors (h : d.sheet.UpToDate) (as : List Address) (color : Color)
    (q : shape.Place) : ((d.act (.setColors as color)).sheet.cell q).given =
      (Action.setColors as color).effect q (d.sheet.cell q).given := by
  rw [act, attempt, Action.effect]
  cases hps : as.mapM shape.place with
  | error e =>
    rw [setColors, hps]
    rfl
  | ok ps =>
    obtain ⟨o, ho⟩ := exists_setColors_eq_ok hps d color
    obtain ⟨ps', touched, hps', htouched, -, hgiven, -⟩ := setColors_spec h ho
    obtain rfl := Except.ok.inj (hps.symm.trans hps')
    rw [ho]
    refine (hgiven q).trans ?_
    -- a cell of the color already is given what it has
    by_cases hq : q ∈ touched
    · rw [if_pos hq]
      exact (if_pos ((htouched q).mp hq).1).symm
    · rw [if_neg hq]
      dsimp only
      split
      · next hmem =>
        refine (Cell.given_of_color_eq ?_).symm
        by_contra hne
        exact hq ((htouched q).mpr ⟨hmem, hne⟩)
      · rfl

/-- **An edit changes texts and colors by its effect,** which does not depend on the document. -/
theorem given_act (h : d.sheet.UpToDate) (hedit : action.edited = some as) (q : shape.Place) :
    ((d.act action).sheet.cell q).given = action.effect q (d.sheet.cell q).given := by
  cases action with
  | setText a text => exact given_act_setText h a text q
  | setColors bs color => exact given_act_setColors h bs color q
  | _ => simp [Action.edited] at hedit

/-! ### Three consequences -/

/-- Edits of different cells can be made in either order. -/
theorem sheet_act_act_comm (h : d.sheet.UpToDate) {action' : Action}
    (hedit : action.edited = some as) (hedit' : action'.edited = some bs)
    (hdisjoint : ∀ a ∈ as, a ∉ bs) :
    ((d.act action).act action').sheet = ((d.act action').act action).sheet := by
  refine (upToDate_act (upToDate_act h)).eq_of_given (upToDate_act (upToDate_act h)) fun q => ?_
  rw [given_act (upToDate_act h) hedit', given_act h hedit, given_act (upToDate_act h) hedit,
    given_act h hedit']
  by_cases hq : shape.address q ∈ as
  · rw [Action.effect_of_not_mem hedit' (hdisjoint _ hq),
      Action.effect_of_not_mem hedit' (hdisjoint _ hq)]
  · rw [Action.effect_of_not_mem hedit hq, Action.effect_of_not_mem hedit hq]

/-- A cell that sees none of the edited cells keeps what it shows. -/
theorem result_act_of_not_sees (h : d.sheet.UpToDate) (hedit : action.edited = some as)
    (hp : ∀ q, d.sheet.texts.Sees p q → shape.address q ∉ as) :
    ((d.act action).sheet.cell p).result = (d.sheet.cell p).result := by
  refine Sheet.result_eq_of_agreeFrom (fun q hq => ?_) (fun q _ => h.solved q)
    fun q _ => (upToDate_act h).solved q
  have hgiven := given_act h hedit q
  rw [Action.effect_of_not_mem hedit (hp q hq)] at hgiven
  exact congrArg Prod.fst hgiven

/-- The text of the cell at an address, if it lies in the grid. -/
def textAt (d : Document shape) (a : Address) : String :=
  (d.cellAt? a).elim "" Cell.text

/-- Typing texts into some cells of a document, one after another. -/
theorem texts_foldl_setText (h : d.sheet.UpToDate) (text : Address → String)
    (order : List Address) :
    ((order.map fun a => Action.setText a (text a)).foldl act d).sheet.texts p =
      if shape.address p ∈ order then text (shape.address p) else d.sheet.texts p := by
  induction order generalizing d with
  | nil => simp
  | cons a order ih =>
    rw [List.map_cons, List.foldl_cons, ih (upToDate_act h)]
    have hstep : (d.act (.setText a (text a))).sheet.texts p =
        if shape.address p = a then text a else d.sheet.texts p := by
      refine (congrArg Prod.fst (given_act_setText h a (text a) p)).trans ?_
      rw [Action.effect]
      split <;> rfl
    rw [hstep]
    by_cases hmem : shape.address p ∈ order
    · rw [if_pos hmem, if_pos (List.mem_cons_of_mem a hmem)]
    · rw [if_neg hmem]
      by_cases hpa : shape.address p = a
      · rw [if_pos hpa, if_pos (hpa ▸ List.mem_cons_self), hpa]
      · rw [if_neg hpa, if_neg (by simp [hpa, hmem])]

/-- Typing the texts of a document into an empty one gives the texts of the document. -/
theorem texts_rebuild {order : List Address}
    (horder : ∀ p, d.sheet.texts p ≠ "" → shape.address p ∈ order) (limit : Nat) :
    (run shape limit (order.map fun a => .setText a (d.textAt a))).sheet.texts =
      d.sheet.texts := by
  funext p
  rw [run, texts_foldl_setText Sheet.upToDate_blank]
  split
  · rw [textAt, cellAt?, Shape.place?_address]
    rfl
  · next hmem =>
    have hempty : d.sheet.texts p = "" := by
      by_contra hne
      exact hmem (horder p hne)
    rw [hempty]
    simp [blank, Sheet.texts, Sheet.cell, Sheet.blank, Cell.blank]

/-- **What a cell shows depends only on the texts it sees,** in any two documents on grids of the
same size and whatever has been done with each. So edits of different cells commute, an edit changes
nothing on a cell that sees none of the edited ones, and a document shows what one would show that
is made from its texts, typed in any order. -/
theorem independence_run (shape : Shape) (limit : Nat) (actions : List Action) :
    let d := run shape limit actions
    (∀ limit' actions' p, let d' : Document shape := run shape limit' actions'
      (∀ q, Relation.ReflTransGen d.sheet.texts.Refers p q →
        (d'.sheet.cell q).text = (d.sheet.cell q).text) →
      (d'.sheet.cell p).result = (d.sheet.cell p).result ∧
        (d'.sheet.cell p).shown = (d.sheet.cell p).shown ∧
        (d'.sheet.cell p).complaint = (d.sheet.cell p).complaint) ∧
    (∀ action action' as bs, action.edited = some as → action'.edited = some bs →
      (∀ a ∈ as, a ∉ bs) →
        ((d.act action).act action').sheet = ((d.act action').act action).sheet) ∧
    (∀ action as p, action.edited = some as →
      (∀ q, Relation.ReflTransGen d.sheet.texts.Refers p q → shape.address q ∉ as) →
        ((d.act action).sheet.cell p).result = (d.sheet.cell p).result) ∧
    ∀ (limit' : Nat) (order : List Address),
      (∀ p, (d.sheet.cell p).text ≠ "" → shape.address p ∈ order) →
      let d' : Document shape :=
        run shape limit' (order.map fun a => .setText a (d.textAt a))
      ∀ p, (d'.sheet.cell p).text = (d.sheet.cell p).text ∧
        (d'.sheet.cell p).result = (d.sheet.cell p).result := by
  intro d
  have h : d.sheet.UpToDate := upToDate_run shape limit actions
  have hagree : ∀ limit' actions' p, let d' : Document shape := run shape limit' actions'
      d.sheet.texts.AgreeFrom d'.sheet.texts p →
        (d'.sheet.cell p).result = (d.sheet.cell p).result := fun limit' actions' p hp =>
    Sheet.result_eq_of_agreeFrom hp (fun q _ => h.solved q)
      fun q _ => (upToDate_run shape limit' actions').solved q
  refine ⟨fun limit' actions' p hp => ?_, fun action action' as bs => ?_, fun action as p => ?_,
    fun limit' order horder p => ?_⟩
  · have hresult := hagree limit' actions' p hp
    refine ⟨hresult, Cell.shown_eq_of_result_eq hresult, ?_⟩
    exact congrArg (Option.filter _) (congrArg Prod.snd hresult)
  · exact sheet_act_act_comm h
  · exact result_act_of_not_sees h
  · have htexts := texts_rebuild horder limit'
    exact ⟨congrFun htexts p, hagree _ _ p fun q _ => congrFun htexts q⟩

end Document

end Quadrille
