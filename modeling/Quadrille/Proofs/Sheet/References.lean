import Mathlib.Logic.Relation
import Quadrille.Proofs.Formula.Variables
import Quadrille.Proofs.Sheet.Links
import Quadrille.Proofs.Traversal
import Quadrille.Sheet.Basic

/-!
# The graph of references

The texts of a grid determine which cells refer to which. `Texts.Refers` says it in terms of the
text alone: the text is a formula, the formula is read, every variable of it names a cell of the
grid, and the other cell is one of those. A formula with a single bad name refers to nothing.

Two properties of a cell are read off the graph. It is *looped* if a cycle can be reached from it,
and *grounded* if every chain of references from it ends. Over a finite grid they exclude each other
and leave nothing out, but only the first half is needed (`Grounded.not_looped`): a recalculation
establishes one or the other for each cell by what it does there.

Everything here depends only on the texts that a cell sees, those of the cells reachable from it.
`AgreeFrom` is that relation between two grids, and each notion has its `AgreeFrom` lemma.

## Main definitions

* `Texts.Refers`, `Texts.Sees` — one reference, and any number of them
* `Texts.Looped`, `Texts.Grounded`
* `Texts.AgreeFrom` — two grids look the same from a cell

## Main results

* `Sheet.evaluate_congr` — the cells that a formula refers to are all that its value depends on
* `Texts.refers_iff_mem_targets` — the graph is what `Outlook.ofText` computes
* `Texts.Grounded.not_looped`
-/

namespace Quadrille

/-! ### What a text says -/

/-- A formula is an equals sign with something behind it. -/
theorem Input.ofText_eq_formula_iff {s body : String} :
    Input.ofText s = .formula body ↔ body ≠ "" ∧ s = "=" ++ body := by
  have hs : ∀ cs : List Char, s.toList = '=' :: cs ↔ s = "=" ++ String.ofList cs := fun cs => by
    rw [← String.toList_inj]
    simp
  unfold Input.ofText
  split
  · next c cs h =>
    rw [Input.formula.injEq, (hs _).mp h]
    constructor
    · rintro rfl
      exact ⟨by simp, rfl⟩
    · rintro ⟨-, h⟩
      have := congrArg String.toList h
      rw [String.toList_append, String.toList_append] at this
      exact String.toList_inj.mp (List.append_cancel_left this)
  · next h =>
    refine ⟨fun hc => Input.noConfusion hc, fun ⟨hne, hbody⟩ => ?_⟩
    obtain ⟨c, cs, hcs⟩ : ∃ c cs, body.toList = c :: cs := by
      refine List.exists_cons_of_ne_nil fun hnil => hne ?_
      exact String.toList_inj.mp (by simpa using hnil)
    exact absurd (by rw [hbody, String.toList_append, hcs]; rfl) (h c cs)

theorem Input.eq_of_ofText_eq_literal {s text : String} (h : Input.ofText s = .literal text) :
    text = s := by
  unfold Input.ofText at h
  split at h
  · exact Input.noConfusion h
  · exact (Input.literal.inj h).symm

namespace Shape

variable {shape : Shape}

theorem targets_eq_ok_iff {names : List String} {ps : List shape.Place} :
    shape.targets names = .ok ps ↔
      ∃ qs, List.Forall₂ (fun name q => shape.named? name = some q) names qs ∧
        Links.increasing qs = ps := by
  rw [targets, bind_pure_comp]
  refine map_eq_ok_iff.trans (exists_congr fun qs => and_congr_left fun _ => ?_)
  rw [mapM_eq_ok_iff]
  refine Iff.of_eq (congrArg (List.Forall₂ · names qs) (funext₂ fun name q => propext ?_))
  cases shape.named? name <;> simp

/-- The places of some names are exactly those that one of the names denotes. -/
theorem mem_of_targets_eq_ok {names : List String} {ps : List shape.Place}
    (h : shape.targets names = .ok ps) :
    (∀ name ∈ names, ∃ p ∈ ps, shape.named? name = some p) ∧
      ∀ p ∈ ps, ∃ name ∈ names, shape.named? name = some p := by
  obtain ⟨qs, hall, rfl⟩ := targets_eq_ok_iff.mp h
  refine ⟨fun name hname => ?_, fun p hp => ?_⟩
  · obtain ⟨q, hq, hnq⟩ := exists_of_forall₂_left hall name hname
    exact ⟨q, Links.mem_increasing.mpr hq, hnq⟩
  · exact exists_of_forall₂_right hall p (Links.mem_increasing.mp hp)

theorem pairwise_of_targets_eq_ok {names : List String} {ps : List shape.Place}
    (h : shape.targets names = .ok ps) : ps.Pairwise (· < ·) := by
  obtain ⟨qs, -, rfl⟩ := targets_eq_ok_iff.mp h
  exact Links.pairwise_increasing qs

/-- The complaint about some names is one of them that is not the name of a cell. -/
theorem mem_of_targets_eq_error {names : List String} {bad : String}
    (h : shape.targets names = .error bad) : bad ∈ names ∧ shape.named? bad = none := by
  rw [targets, bind_pure_comp] at h
  obtain ⟨before, name, after, rfl, -, hname⟩ := mapM_eq_error_iff.mp (map_eq_error_iff.mp h)
  split at hname
  · simp at hname
  · next hnone =>
    obtain rfl := Except.error.inj hname
    exact ⟨by simp, hnone⟩

/-- Names have places if each of them is the name of a cell. -/
theorem exists_targets_eq_ok_iff {names : List String} :
    (∃ ps : List shape.Place, shape.targets names = .ok ps) ↔
      ∀ name ∈ names, ∃ q, shape.named? name = some q := by
  constructor
  · rintro ⟨ps, h⟩ name hname
    obtain ⟨q, -, hq⟩ := (mem_of_targets_eq_ok h).1 name hname
    exact ⟨q, hq⟩
  · intro h
    cases htargets : shape.targets names with
    | ok ps => exact ⟨ps, rfl⟩
    | error bad =>
      obtain ⟨hbad, hnone⟩ := mem_of_targets_eq_error htargets
      obtain ⟨q, hq⟩ := h bad hbad
      simp [hnone] at hq

end Shape

/-- **Evaluation reads no cell but those referred to.** What a formula comes to on two sheets is the
same if the cells that its variables name show the same on both. -/
theorem Sheet.evaluate_congr {shape : Shape} {f : Formula} {targets : List shape.Place}
    {s s' : Sheet shape} (htargets : shape.targets f.variableNames = .ok targets)
    (h : ∀ p ∈ targets, (s.cell p).shown = (s'.cell p).shown) :
    f.evaluate s.numberNamed = f.evaluate s'.numberNamed := by
  refine Formula.evaluate_congr fun name hname => ?_
  obtain ⟨p, hp, hnamed⟩ := (Shape.mem_of_targets_eq_ok htargets).1 name hname
  simp only [numberNamed, hnamed, h p hp]

/-! ### What a text comes to -/

namespace Outlook

variable {shape : Shape}

/-- The cells that a text refers to, if it is a formula that can be computed. -/
def references? : Outlook shape → Option (List shape.Place)
  | .computed _ targets => some targets
  | _ => none

theorem exists_eq_computed {o : Outlook shape} {targets : List shape.Place}
    (h : o.references? = some targets) : ∃ tree, o = .computed tree targets := by
  cases o with
  | computed tree targets' => exact ⟨tree, congrArg (computed tree) (Option.some.inj h)⟩
  | _ => simp [references?] at h

/-- The cells that a text refers to. -/
def targets (o : Outlook shape) : List shape.Place :=
  o.references?.getD []

/-- The formula that has been read from a text. -/
def formula? : Outlook shape → Option Formula
  | .literal _ | .unparsable .. => none
  | .blank _ => some .blank
  | .invalidReference tree _ | .computed tree _ => some (.expression tree)

/-- A way to read formulas matters only for the text that is read. -/
theorem ofInput_congr {read read' : String → Except FormulaError Formula} {text : String}
    (h : ∀ body, Input.ofText text = .formula body → read body = read' body) :
    ofInput shape read text = ofInput shape read' text := by
  unfold ofInput
  cases hbody : Input.ofText text with
  | literal shown => rfl
  | formula body => simp only [h body hbody]

/-- A formula is remembered for the texts that can be read as one. -/
theorem formula?_ofText_eq_some_iff {text : String} {f : Formula} :
    (ofText shape text).formula? = some f ↔
      ∃ body, Input.ofText text = .formula body ∧ Formula.ofText body = .ok f := by
  unfold ofText ofInput
  cases hbody : Input.ofText text with
  | literal shown => simp [formula?]
  | formula body =>
    have hread : (∃ b, Input.formula body = .formula b ∧ Formula.ofText b = .ok f) ↔
        Formula.ofText body = .ok f := by
      simp
    rw [hread]
    rcases hf : Formula.ofText body with e | (_ | tree)
    · simp [formula?, hf]
    · simp [formula?, hf]
    · cases htargets : shape.targets tree.variableNames <;> simp [formula?, hf, htargets]

/-- A text that is no formula is shown as it is. -/
theorem ofText_of_forall_ne {text : String} (h : ∀ body, body ≠ "" → text ≠ "=" ++ body) :
    ofText shape text = .literal text := by
  rw [ofText, ofInput]
  cases hinput : Input.ofText text with
  | literal shown => rw [Input.eq_of_ofText_eq_literal hinput]
  | formula body =>
    obtain ⟨hne, htext⟩ := Input.ofText_eq_formula_iff.mp hinput
    exact absurd htext (h body hne)

/-- What a formula comes to is a matter of reading it and of what its variables name. -/
theorem ofText_formula {body : String} (hbody : body ≠ "") :
    ofText shape ("=" ++ body) =
      match Formula.ofText body with
      | .error e => .unparsable body e
      | .ok .blank => .blank ("=" ++ body)
      | .ok (.expression tree) =>
        match shape.targets tree.variableNames with
        | .error name => .invalidReference tree name
        | .ok targets => .computed tree targets := by
  have hinput : Input.ofText ("=" ++ body) = .formula body :=
    Input.ofText_eq_formula_iff.mpr ⟨hbody, rfl⟩
  rw [ofText, ofInput]
  split
  · next shown hshown => exact Input.noConfusion (hinput.symm.trans hshown)
  · next other hother =>
    obtain rfl := Input.formula.inj (hinput.symm.trans hother)
    rfl

/-- How a text gets to be computed. -/
theorem ofInput_eq_computed_iff {read : String → Except FormulaError Formula} {text : String}
    {tree : Tree} {targets : List shape.Place} :
    ofInput shape read text = .computed tree targets ↔
      ∃ body, Input.ofText text = .formula body ∧ read body = .ok (.expression tree) ∧
        shape.targets tree.variableNames = .ok targets := by
  unfold ofInput
  constructor
  · intro h
    split at h
    · simp at h
    · next body hbody =>
      split at h
      · simp at h
      · simp at h
      · next tree' htree =>
        split at h
        · simp at h
        · next targets' htargets =>
          obtain ⟨rfl, rfl⟩ := Outlook.computed.inj h
          exact ⟨body, hbody, htree, htargets⟩
  · rintro ⟨body, hbody, htree, htargets⟩
    simp only [hbody, htree, htargets]

theorem ofText_eq_computed_iff {text : String} {tree : Tree} {targets : List shape.Place} :
    ofText shape text = .computed tree targets ↔
      ∃ body, Input.ofText text = .formula body ∧ Formula.ofText body = .ok (.expression tree) ∧
        shape.targets tree.variableNames = .ok targets :=
  ofInput_eq_computed_iff

end Outlook

/-! ### The graph -/

/-- The texts of the cells of a grid. -/
abbrev Texts (shape : Shape) := shape.Place → String

namespace Texts

variable {shape : Shape} {t t' : Texts shape} {p q r : shape.Place}

/-- What the text of a cell comes to. -/
def outlook (t : Texts shape) (p : shape.Place) : Outlook shape :=
  Outlook.ofText shape (t p)

/-- The text of one cell is a formula whose variables are all names of cells in the grid, and one of
them is the name of the other cell. -/
def Refers (t : Texts shape) (p q : shape.Place) : Prop :=
  ∃ body tree, Input.ofText (t p) = .formula body ∧
    Formula.ofText body = .ok (.expression tree) ∧
    (∀ name ∈ tree.variableNames, ∃ r, shape.named? name = some r) ∧
    ∃ name ∈ tree.variableNames, shape.named? name = some q

/-- The graph is the one that is computed from the texts. -/
theorem refers_iff_mem_targets : t.Refers p q ↔ q ∈ (t.outlook p).targets := by
  constructor
  · rintro ⟨body, tree, hbody, htree, hall, name, hname, hq⟩
    obtain ⟨targets, htargets⟩ := Shape.exists_targets_eq_ok_iff.mpr hall
    have ho : t.outlook p = .computed tree targets :=
      Outlook.ofText_eq_computed_iff.mpr ⟨body, hbody, htree, htargets⟩
    obtain ⟨s, hs, hname⟩ := (Shape.mem_of_targets_eq_ok htargets).1 name hname
    obtain rfl := Option.some.inj (hq.symm.trans hname)
    rw [ho]
    exact hs
  · intro hq
    cases ho : t.outlook p with
    | computed tree targets =>
      obtain ⟨body, hbody, htree, htargets⟩ := Outlook.ofText_eq_computed_iff.mp ho
      rw [ho] at hq
      exact ⟨body, tree, hbody, htree, Shape.exists_targets_eq_ok_iff.mp ⟨targets, htargets⟩,
        (Shape.mem_of_targets_eq_ok htargets).2 q hq⟩
    | _ => simp [ho, Outlook.targets, Outlook.references?] at hq

/-- A cell sees itself, what it refers to, and what those cells see. -/
def Sees (t : Texts shape) : shape.Place → shape.Place → Prop :=
  Relation.ReflTransGen t.Refers

/-- A cycle of references can be reached from the cell. -/
def Looped (t : Texts shape) (p : shape.Place) : Prop :=
  ∃ q, t.Sees p q ∧ Relation.TransGen t.Refers q q

/-- Every chain of references from the cell ends. -/
def Grounded (t : Texts shape) : shape.Place → Prop :=
  Acc fun q p => t.Refers p q

theorem Looped.of_sees (h : t.Sees p q) : t.Looped q → t.Looped p
  | ⟨r, hqr, hr⟩ => ⟨r, h.trans hqr, hr⟩

theorem Looped.exists_refers (h : t.Looped p) : ∃ q, t.Refers p q := by
  obtain ⟨r, hpr, hr⟩ := h
  rcases hpr.cases_head with rfl | ⟨q, hpq, -⟩
  · obtain ⟨q, hpq, -⟩ := Relation.TransGen.head'_iff.mp hr
    exact ⟨q, hpq⟩
  · exact ⟨q, hpq⟩

/-- No chain that ends runs into a cycle. -/
theorem Grounded.not_looped (h : t.Grounded p) : ¬t.Looped p := by
  induction h with
  | intro p _ ih =>
    rintro ⟨q, hpq, hq⟩
    -- a cell on a cycle refers to a cell on the cycle, so the cycle can be reached in one step more
    rcases hpq.cases_head with rfl | ⟨r, hpr, hrq⟩
    · obtain ⟨r, hpr, hrp⟩ := Relation.TransGen.head'_iff.mp hq
      exact ih r hpr ⟨p, hrp, hq⟩
    · exact ih r hpr ⟨q, hrq, hq⟩

/-! ### What a cell sees -/

/-- Every cell that is seen from `p` has the same text in both grids. -/
def AgreeFrom (t t' : Texts shape) (p : shape.Place) : Prop :=
  ∀ q, t.Sees p q → t' q = t q

theorem Refers.congr (h : t' p = t p) : t.Refers p q → t'.Refers p q := by
  unfold Refers
  rw [h]
  exact id

theorem AgreeFrom.refers (h : t.AgreeFrom t' p) (hpq : t.Refers p q) : t.AgreeFrom t' q :=
  fun r hr => h r (hr.head hpq)

theorem AgreeFrom.sees (h : t.AgreeFrom t' p) (hpq : t.Sees p q) : t'.Sees p q := by
  induction hpq with
  | refl => exact .refl
  | tail hpq hqr ih => exact ih.tail (hqr.congr (h _ hpq))

theorem AgreeFrom.sees_of (h : t.AgreeFrom t' p) (hpq : t'.Sees p q) : t.Sees p q := by
  induction hpq with
  | refl => exact .refl
  | tail _ hqr ih => exact ih.tail (hqr.congr (h _ ih).symm)

theorem AgreeFrom.symm (h : t.AgreeFrom t' p) : t'.AgreeFrom t p :=
  fun q hq => (h q (h.sees_of hq)).symm

theorem AgreeFrom.looped (h : t.AgreeFrom t' p) : t.Looped p → t'.Looped p := by
  rintro ⟨q, hpq, hq⟩
  have hagree : t.AgreeFrom t' q := fun r hr => h r (hpq.trans hr)
  obtain ⟨r, hqr, hrq⟩ := Relation.TransGen.head'_iff.mp hq
  exact ⟨q, h.sees hpq, Relation.TransGen.head' (hqr.congr (hagree q .refl))
    ((hagree.refers hqr).sees hrq)⟩

theorem AgreeFrom.grounded (h : t.AgreeFrom t' p) (hp : t.Grounded p) : t'.Grounded p := by
  induction hp with
  | intro p _ ih =>
    refine Acc.intro p fun q hpq => ?_
    have hq : t.Refers p q := hpq.congr (h p .refl).symm
    exact ih q hq (h.refers hq)

end Texts

end Quadrille
