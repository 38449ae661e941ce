import Quadrille.Proofs.Formula.Conservation
import Quadrille.Proofs.Formula.Variables
import Quadrille.Proofs.Sheet.References

/-!
# What a formula depends on

A formula is read in one place, its variables are collected in another, and the links between cells
are made of the cells that these variables name. Evaluation asks for none of this. It takes the
number of whatever name it comes to at a leaf, so a name that was lost on the way would go on being
read while nothing recalculated the formula when that cell changes.

No name is lost. An operand of the text is at a leaf as what it stands for, so the variables are
exactly the operands that stand for no number. Being all the names at the leaves, they are all that
the value depends on. And of the cells of a grid, the value depends on those that the variables name
and on no others.

## Main results

* `Formula.mem_leafNames_iff_of_ofText` — the names at the leaves are operands of the text
* `Formula.variableNames_suffice` — the variables are all that a formula depends on
-/

namespace Quadrille

/-! ### Operands -/

theorem StandsFor.unique {text : String} {leaf leaf' : Tree} (h : StandsFor text leaf)
    (h' : StandsFor text leaf') : leaf = leaf' :=
  (standsFor_iff.mp h).symm.trans (standsFor_iff.mp h')

theorem StandsFor.eq_of_variable {text name : String} (h : StandsFor text (.variable name)) :
    text = name := by
  cases h
  rfl

theorem Tree.mem_leafNames_iff {t : Tree} {name : String} :
    name ∈ t.leafNames ↔ .variable name ∈ t.leaves := by
  induction t with
  | constant x => simp [leafNames, leaves]
  | «variable» other => simp [leafNames, leaves]
  | binary op left right ihl ihr =>
    rw [leafNames, leaves, List.mem_append, List.mem_append, ihl, ihr]

theorem Formula.mem_leafNames_iff {f : Formula} {name : String} :
    name ∈ f.leafNames ↔ .variable name ∈ f.leaves := by
  cases f with
  | blank => simp [leafNames, leaves]
  | expression tree => exact Tree.mem_leafNames_iff

/-- **The names at the leaves** are the operands of the text that stand for no number. -/
theorem Formula.mem_leafNames_iff_of_ofText {f : Formula} {s name : String}
    (h : Formula.ofText s = .ok f) :
    name ∈ f.leafNames ↔ name ∈ Token.runs s ∧ ∀ x, ¬StandsFor name (.constant x) := by
  have hleaves : List.Forall₂ StandsFor (Token.runs s) f.leaves := forall₂_leaves_of_ofText h
  rw [mem_leafNames_iff]
  constructor
  · intro hname
    obtain ⟨text, htext, hstands⟩ := exists_of_forall₂_right hleaves _ hname
    obtain rfl := hstands.eq_of_variable
    exact ⟨htext, fun x hx => Tree.noConfusion (hx.unique hstands)⟩
  · rintro ⟨htext, hnumber⟩
    obtain ⟨leaf, hleaf, hstands⟩ := exists_of_forall₂_left hleaves name htext
    cases hstands with
    | constant begins number => exact absurd (.constant begins number) (hnumber _)
    | «variable» none => exact hleaf

namespace Formula

/-- **The variables of a formula are all that it depends on.** They list the names at its leaves,
each once, in the order of their first occurrence, and nothing else. Two tables that agree on them,
a name without a value counting as zero, give the same value, and a table for them alone gives the
value that any values for all names give. If the formula is read from a text, they are the operands
of the text that stand for no number. So wherever all of them name cells of a grid, every operand
that stands for no number names one of the cells referred to, and what these show determines the
value. -/
theorem variableNames_suffice (f : Formula) :
    (∀ names, f.Lists names ↔ names = f.variableNames) ∧
    (∀ b b' : Bindings, (∀ name ∈ f.variableNames, b.value name = b'.value name) →
      f.evaluate b.value = f.evaluate b'.value) ∧
    (∀ value, f.evaluate (Bindings.value (f.variableNames.map fun name => (name, value name))) =
      f.evaluate value) ∧
    ∀ s, Formula.ofText s = .ok f →
      (∀ text, text ∈ f.variableNames ↔
        text ∈ Token.runs s ∧ ∀ x, ¬StandsFor text (.constant x)) ∧
      ∀ (shape : Shape) (targets : List shape.Place),
        shape.targets f.variableNames = .ok targets →
          (∀ text ∈ Token.runs s, (∀ x, ¬StandsFor text (.constant x)) →
            ∃ p ∈ targets, shape.named? text = some p) ∧
          ∀ d d' : Sheet shape, (∀ p ∈ targets, (d.cell p).shown = (d'.cell p).shown) →
            f.evaluate d.numberNamed = f.evaluate d'.numberNamed := by
  refine ⟨fun names => lists_iff, fun b b' => evaluate_congr, f.evaluate_table, fun s hs => ?_⟩
  have operands : ∀ text, text ∈ f.variableNames ↔
      text ∈ Token.runs s ∧ ∀ x, ¬StandsFor text (.constant x) := fun text =>
    mem_variableNames.trans (mem_leafNames_iff_of_ofText hs)
  refine ⟨operands, fun shape targets htargets => ⟨fun text htext hnumber => ?_, ?_⟩⟩
  · exact (Shape.mem_of_targets_eq_ok htargets).1 text ((operands text).mpr ⟨htext, hnumber⟩)
  · exact fun d d' => Sheet.evaluate_congr htargets

/-- Two names come up twice and keep their first place. A table that lacks two of the three names
agrees with one that has a zero for one of them and a value for a name that does not occur. -/
theorem variableNames_suffice_repeated :
    let shape : Shape := ⟨3, 3⟩
    let targets : List shape.Place := [⟨0, by decide⟩, ⟨1, by decide⟩, ⟨8, by decide⟩]
    ∃ f, Formula.ofText "B1+A1*B1-C3/A1" = .ok f ∧ f.variableNames = ["B1", "A1", "C3"] ∧
      (∀ x y : Float, f.evaluate (Bindings.value [("B1", x)]) =
        f.evaluate (Bindings.value [("Z9", y), ("C3", Binary64.ofWord false 0), ("B1", x)])) ∧
      shape.targets f.variableNames = .ok targets ∧
      ∀ d d' : Sheet shape, (∀ p ∈ targets, (d.cell p).shown = (d'.cell p).shown) →
        f.evaluate d.numberNamed = f.evaluate d'.numberNamed := by
  intro shape targets
  obtain ⟨f, hread, hnames⟩ : ∃ f, Formula.ofText "B1+A1*B1-C3/A1" = .ok f ∧
      f.variableNames = ["B1", "A1", "C3"] := ⟨_, rfl, rfl⟩
  have htargets : shape.targets f.variableNames = .ok targets := by
    rw [hnames]
    rfl
  obtain ⟨-, htables, -, htext⟩ := variableNames_suffice f
  refine ⟨f, hread, hnames, fun x y => htables _ _ ?_, htargets, ?_⟩
  · rw [hnames]
    simp only [List.forall_mem_cons]
    exact ⟨rfl, rfl, rfl, by simp⟩
  · exact ((htext _ hread).2 shape targets htargets).2

end Formula

end Quadrille
