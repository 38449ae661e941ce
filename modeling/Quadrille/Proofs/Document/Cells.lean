import Quadrille.Proofs.Document.Run

/-!
# What the cells of a document show

Every cell of every document stands under its own equation: its text, and what is shown now by the
cells that the text names, say what it shows. No cell is ever left with what was right before some
earlier action.

The equation leaves one thing open, which of the cells with a proper formula carry the complaint
about loops. Those are exactly the cells from which a cycle of references can be reached.

## Main definitions

* `Cell.Presents` — a cell holds a value and a complaint, and shows them
* `Document.Equation` — the equation of a cell

## Main results

* `Document.equation_run` — it holds of every cell of every document
* `Document.loop_complaint_run` — and loops are found exactly
-/

namespace Quadrille

variable {shape : Shape}

/-- A cell holds a value and a complaint, and these are what it reports. -/
def Cell.Presents (c : Cell) (value : String) (error : Option String) : Prop :=
  c.value = value ∧ c.error = error ∧ c.shown = value ∧ c.complaint = error

theorem Cell.presents_of_result_eq_none {c : Cell} {value : String}
    (h : c.result = (value, none)) : c.Presents value none := by
  obtain ⟨hvalue, herror⟩ := Prod.mk.inj h
  have hcomplaint : c.complaint = none := by rw [complaint, herror, Option.filter_none]
  exact ⟨hvalue, herror, by rw [shown, hcomplaint, Option.getD_none, hvalue], hcomplaint⟩

/-- A complaint that is not blank is shown as it is. -/
theorem Cell.presents_of_result_eq_some {c : Cell} {message : String}
    (h : c.result = (message, some message)) (hmessage : Text.isAllBlank message = false) :
    c.Presents message (some message) := by
  obtain ⟨hvalue, herror⟩ := Prod.mk.inj h
  have hcomplaint : c.complaint = some message := by
    rw [complaint, herror, Option.filter_some_pos (by rw [hmessage]; rfl)]
  exact ⟨hvalue, herror, by rw [shown, hcomplaint, Option.getD_some], hcomplaint⟩

theorem Cell.complaint_eq_loopComplaint_iff {c : Cell} :
    c.complaint = some loopComplaint ↔ c.error = some loopComplaint := by
  rw [complaint, Option.filter_eq_some_iff]
  refine and_iff_left_of_imp fun _ => ?_
  decide

namespace Document

/-- What the cell at a place has to show. A text that is no formula, or a formula with nothing to
compute, is shown as it is. A formula that cannot be read, or that has a variable which is not the
name of a cell, shows that. Any other is on a loop or leads into one, or shows the number that it
computes to when every variable stands for the number shown now by the cell that it names. -/
structure Equation (d : Document shape) (p : shape.Place) : Prop where
  literal : (∀ body, body ≠ "" → (d.sheet.cell p).text ≠ "=" ++ body) →
    (d.sheet.cell p).Presents (d.sheet.cell p).text none
  blank : ∀ body, body ≠ "" → (d.sheet.cell p).text = "=" ++ body → Text.isAllBlank body = true →
    (d.sheet.cell p).Presents (d.sheet.cell p).text none
  unparsable : ∀ body e, body ≠ "" → (d.sheet.cell p).text = "=" ++ body →
    Formula.ofText body = .error e → (d.sheet.cell p).Presents "#error" (some "#error")
  misnamed : ∀ body tree name, body ≠ "" → (d.sheet.cell p).text = "=" ++ body →
    Formula.ofText body = .ok (.expression tree) → name ∈ tree.variableNames →
      d.cellNamed? name = none → (d.sheet.cell p).Presents "#error" (some "#error")
  computed : ∀ body tree, body ≠ "" → (d.sheet.cell p).text = "=" ++ body →
    Formula.ofText body = .ok (.expression tree) →
      (∀ name ∈ tree.variableNames, d.cellNamed? name ≠ none) →
        (d.sheet.cell p).Presents loopComplaint (some loopComplaint) ∨
          ∀ env : String → Float,
            (∀ name ∈ tree.variableNames, ∀ c, d.cellNamed? name = some c →
              env name = Number.read c.shown) →
            (d.sheet.cell p).Presents (Number.display (tree.evaluate env)) none

variable {d : Document shape} {p q : shape.Place} {body : String} {tree : Tree}

theorem cellNamed?_eq_none_iff {name : String} :
    d.cellNamed? name = none ↔ shape.named? name = none := by
  rw [cellNamed?, Option.map_eq_none_iff]

/-- In a formula whose variables all name cells, the numbers on the sheet are those of the cells. -/
theorem evaluate_eq_of_forall_shown {env : String → Float}
    (hnames : ∀ name ∈ tree.variableNames, d.cellNamed? name ≠ none)
    (henv : ∀ name ∈ tree.variableNames, ∀ c, d.cellNamed? name = some c →
      env name = Number.read c.shown) :
    tree.evaluate d.sheet.numberNamed = tree.evaluate env := by
  refine Tree.evaluate_congr fun name hleaf => ?_
  have hname : name ∈ tree.variableNames := Tree.mem_variableNames.mpr hleaf
  obtain ⟨c, hc⟩ := Option.ne_none_iff_exists'.mp (hnames name hname)
  rw [henv name hname c hc]
  obtain ⟨q, hq, rfl⟩ := Option.map_eq_some_iff.mp hc
  rw [Sheet.numberNamed, hq]

/-- The equation is what it means for a cell to be solved. -/
theorem equation_of_solved (h : d.sheet.Solved p) : d.Equation p := by
  have houtlook : ∀ body, body ≠ "" → (d.sheet.cell p).text = "=" ++ body →
      d.sheet.texts.outlook p = Outlook.ofText shape ("=" ++ body) := fun body _ htext =>
    congrArg (Outlook.ofText shape) htext
  have hfailed : ∀ {o}, d.sheet.texts.outlook p = o → o.references? = none →
      o.result d.sheet.numberNamed = failedResult →
        (d.sheet.cell p).Presents "#error" (some "#error") := by
    rintro o rfl hrefs hr
    refine Cell.presents_of_result_eq_some ?_ (by decide)
    exact (h.result_of_references?_eq_none hrefs).trans hr
  constructor
  case literal =>
    intro htext
    have ho : d.sheet.texts.outlook p = .literal (d.sheet.cell p).text :=
      Outlook.ofText_of_forall_ne htext
    refine Cell.presents_of_result_eq_none ?_
    rw [h.result_of_references?_eq_none (by rw [ho]; rfl), Sheet.computed, ho]
    rfl
  case blank =>
    intro body hbody htext hblank
    have ho : d.sheet.texts.outlook p = .blank (d.sheet.cell p).text := by
      rw [houtlook body hbody htext, Outlook.ofText_formula hbody, Formula.ofText, if_pos hblank,
        htext]
    refine Cell.presents_of_result_eq_none ?_
    rw [h.result_of_references?_eq_none (by rw [ho]; rfl), Sheet.computed, ho]
    rfl
  case unparsable =>
    intro body e hbody htext he
    refine hfailed (o := .unparsable body e) ?_ rfl rfl
    rw [houtlook body hbody htext, Outlook.ofText_formula hbody, he]
  case misnamed =>
    intro body tree name hbody htext htree hname hnone
    cases htargets : shape.targets tree.variableNames with
    | error bad =>
      refine hfailed (o := .invalidReference tree bad) ?_ rfl rfl
      rw [houtlook body hbody htext, Outlook.ofText_formula hbody, htree]
      simp only [htargets]
    | ok targets =>
      obtain ⟨q, -, hq⟩ := (Shape.mem_of_targets_eq_ok htargets).1 name hname
      simp [cellNamed?_eq_none_iff.mp hnone] at hq
  case computed =>
    intro body tree hbody htext htree hnames
    rcases h with ⟨-, hr⟩ | ⟨-, hr⟩
    · exact Or.inl (Cell.presents_of_result_eq_some hr (by decide))
    · refine Or.inr fun env henv => Cell.presents_of_result_eq_none ?_
      cases htargets : shape.targets tree.variableNames with
      | error bad =>
        obtain ⟨hbad, hnone⟩ := Shape.mem_of_targets_eq_error htargets
        exact absurd (cellNamed?_eq_none_iff.mpr hnone) (hnames bad hbad)
      | ok targets =>
        have ho : d.sheet.texts.outlook p = .computed tree targets := by
          rw [houtlook body hbody htext, Outlook.ofText_formula hbody, htree]
          simp only [htargets]
        rw [hr, Sheet.computed, ho, Outlook.result, evaluate_eq_of_forall_shown hnames henv]

/-- **Every cell of every document satisfies its equation,** whatever has been done with the
document. -/
theorem equation_run (shape : Shape) (limit : Nat) (actions : List Action) (p : shape.Place) :
    (run shape limit actions).Equation p :=
  equation_of_solved ((upToDate_run shape limit actions).solved p)

/-- The complaint about loops is on the cells from which a cycle can be reached. -/
theorem complaint_eq_loopComplaint_iff (h : d.sheet.UpToDate) :
    (d.sheet.cell p).complaint = some loopComplaint ↔ d.sheet.texts.Looped p :=
  Cell.complaint_eq_loopComplaint_iff.trans (h.solved p).error_eq_iff

/-- **Loops are found exactly.** The complaint about loops is on a cell if and only if a cycle of
references can be reached from it. So it is on every member of a cycle and on whatever refers to a
cell that has it, and an action after which no cycle can be reached from a cell leaves the cell
without it. -/
theorem loop_complaint_run (shape : Shape) (limit : Nat) (actions : List Action) :
    let d := run shape limit actions
    (∀ p, (d.sheet.cell p).complaint = some loopComplaint ↔
      ∃ q, Relation.ReflTransGen d.sheet.texts.Refers p q ∧
        Relation.TransGen d.sheet.texts.Refers q q) ∧
    (∀ p, Relation.TransGen d.sheet.texts.Refers p p →
      (d.sheet.cell p).complaint = some loopComplaint) ∧
    (∀ p q, Relation.TransGen d.sheet.texts.Refers p q →
      (d.sheet.cell q).complaint = some loopComplaint →
        (d.sheet.cell p).complaint = some loopComplaint) ∧
    ∀ action p, ¬(d.act action).sheet.texts.Looped p →
      ((d.act action).sheet.cell p).complaint ≠ some loopComplaint := by
  intro d
  have h : d.sheet.UpToDate := upToDate_run shape limit actions
  refine ⟨fun p => complaint_eq_loopComplaint_iff h, fun p hp => ?_, fun p q hpq hq => ?_,
    fun action p hp hcomplaint => ?_⟩
  · exact (complaint_eq_loopComplaint_iff h).mpr ⟨p, .refl, hp⟩
  · rw [complaint_eq_loopComplaint_iff h] at hq ⊢
    exact hq.of_sees hpq.to_reflTransGen
  · exact hp ((complaint_eq_loopComplaint_iff (upToDate_act h)).mp hcomplaint)

/-- A cell that refers to a cycle carries the complaint, until the cycle is broken. -/
example :
    let actions : List Action :=
      [.setText ⟨0, 0⟩ "=B1", .setText ⟨0, 1⟩ "=A1", .setText ⟨0, 2⟩ "=A1"]
    let broken := actions ++ [.setText ⟨0, 1⟩ ""]
    ((run ⟨1, 3⟩ 9 actions).cellNamed? "C1").bind Cell.complaint = some loopComplaint ∧
      ((run ⟨1, 3⟩ 9 broken).cellNamed? "C1").bind Cell.complaint = none := by
  constructor <;> cbv

end Document

end Quadrille
