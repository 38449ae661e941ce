import Quadrille.Proofs.Document.Cells
import Quadrille.Proofs.Number.Display

/-!
# Exact numbers along references

A formula takes its numbers from texts: from what the cells that it names show. Nothing is lost on
the way, because a displayed number is read back. So the texts can be left out. There is a number
for each cell such that every formula that computes shows its own, and computes it from the numbers
of the cells that it names, to the last bit and through chains of any length. The sign of a zero is
the one thing that is lost between two cells.

## Main definitions

* `Document.Computes` — a cell shows the number that an expression comes to

## Main results

* `Document.exact_numbers_run` — formulas compute with exact numbers
-/

namespace Quadrille

variable {shape : Shape}

namespace Document

/-- The text of a cell is a formula with this expression, the variables are all names of cells, and
the cell does not carry the complaint about loops. -/
structure Computes (d : Document shape) (p : shape.Place) (tree : Tree) : Prop where
  formula : ∃ body, body ≠ "" ∧ (d.sheet.cell p).text = "=" ++ body ∧
    Formula.ofText body = .ok (.expression tree)
  named : ∀ name ∈ tree.variableNames, d.cellNamed? name ≠ none
  complaint_ne : (d.sheet.cell p).complaint ≠ some loopComplaint

variable {d : Document shape} {p q : shape.Place} {tree tree' : Tree}

/-- There is at most one expression in a cell. -/
theorem Computes.unique (h : d.Computes p tree) (h' : d.Computes p tree') : tree = tree' := by
  obtain ⟨body, hbody, htext, hread⟩ := h.formula
  obtain ⟨body', hbody', htext', hread'⟩ := h'.formula
  have hinput := Input.ofText_eq_formula_iff.mpr ⟨hbody, htext⟩
  obtain rfl : body = body' :=
    Input.formula.inj (hinput.symm.trans (Input.ofText_eq_formula_iff.mpr ⟨hbody', htext'⟩))
  exact Formula.expression.inj (Except.ok.inj (hread.symm.trans hread'))

theorem numberNamed_eq_of_named? {name : String} (h : shape.named? name = some q) :
    d.sheet.numberNamed name = Number.read (d.sheet.cell q).shown := by
  rw [Sheet.numberNamed, h]

/-- What such a cell shows is computed from the numbers on the sheet. -/
theorem Computes.presents (hequation : d.Equation p) (h : d.Computes p tree) :
    (d.sheet.cell p).Presents (Number.display (tree.evaluate d.sheet.numberNamed)) none := by
  obtain ⟨body, hbody, htext, hread⟩ := h.formula
  obtain hloop | hcomputed := hequation.computed body tree hbody htext hread h.named
  · exact absurd hloop.2.2.2 h.complaint_ne
  · refine hcomputed d.sheet.numberNamed fun name _ c hc => ?_
    obtain ⟨q, hq, rfl⟩ := Option.map_eq_some_iff.mp hc
    exact numberNamed_eq_of_named? hq

/-- Every number that formulas take from a computed cell is the one computed there. -/
theorem Computes.numberNamed_eq {name : String} (hequation : d.Equation q)
    (h : d.Computes q tree) (hname : shape.named? name = some q) :
    d.sheet.numberNamed name = Number.unsignZero (tree.evaluate d.sheet.numberNamed) := by
  obtain ⟨-, -, hshown, -⟩ := h.presents hequation
  rw [numberNamed_eq_of_named? hname, hshown, Number.read_display]

/-- **Formulas compute with exact numbers.** Displaying a number and reading it back keeps all of
its bits, but for the sign of a zero and the bits of what is no number. So after any run there is a
number for each cell such that a formula shows the number of its cell, and this number is what the
formula comes to if each of its variables stands for the number of the cell that it names: where
that is computed, the computed number itself but for the sign of a zero, and elsewhere the number
that the text shown there is read as. -/
theorem exact_numbers_run (shape : Shape) (limit : Nat) (actions : List Action) :
    (∀ bits, (Number.read (Number.display (Float.ofBits bits))).toBits = Number.keptBits bits) ∧
    let d := run shape limit actions
    ∃ number : shape.Place → Float, ∀ p tree, d.Computes p tree →
      (d.sheet.cell p).Presents (Number.display (number p)) none ∧
      ∀ env : String → Float,
        (∀ name ∈ tree.variableNames, ∀ q, shape.named? name = some q →
          (∀ tree', d.Computes q tree' → env name = Number.unsignZero (number q)) ∧
          ((∀ tree', ¬d.Computes q tree') → env name = Number.read (d.sheet.cell q).shown)) →
        number p = tree.evaluate env := by
  refine ⟨Number.toBits_read_display_ofBits, ?_⟩
  intro d
  have hequation : ∀ p, d.Equation p := equation_run shape limit actions
  have hnumber : ∀ p, ∃ x, ∀ tree, d.Computes p tree →
      x = tree.evaluate d.sheet.numberNamed := by
    intro p
    by_cases hp : ∃ tree, d.Computes p tree
    · obtain ⟨tree, htree⟩ := hp
      exact ⟨tree.evaluate d.sheet.numberNamed, fun tree' htree' => by rw [htree.unique htree']⟩
    · exact ⟨Binary64.notANumber, fun tree htree => absurd ⟨tree, htree⟩ hp⟩
  choose number hnumber using hnumber
  refine ⟨number, fun p tree hp => ⟨?_, fun env henv => ?_⟩⟩
  · rw [hnumber p tree hp]
    exact hp.presents (hequation p)
  · rw [hnumber p tree hp]
    refine Tree.evaluate_congr fun name hleaf => ?_
    have hname : name ∈ tree.variableNames := Tree.mem_variableNames.mpr hleaf
    obtain ⟨q, hq⟩ : ∃ q, shape.named? name = some q :=
      Option.ne_none_iff_exists'.mp (mt cellNamed?_eq_none_iff.mpr (hp.named name hname))
    obtain ⟨hcomputed, helse⟩ := henv name hname q hq
    by_cases hcell : ∃ tree', d.Computes q tree'
    · obtain ⟨tree', htree'⟩ := hcell
      rw [hcomputed tree' htree', htree'.numberNamed_eq (hequation q) hq, hnumber q tree' htree']
    · rw [helse fun tree' htree' => hcell ⟨tree', htree'⟩, numberNamed_eq_of_named? hq]

end Document

end Quadrille
