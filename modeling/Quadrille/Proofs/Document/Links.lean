import Quadrille.Proofs.Document.Run

/-!
# The links of a document

Links are changed cell by cell, when a text is read again, and are never computed anew for a whole
sheet. They are nevertheless the links of the texts that are on the sheet now: a cell has a list of
references exactly if its text is a formula that can be computed, the list has the cells that the
formula names and no others, and the two directions are one relation. Which actions led there, and
whether the cells show a number, a complaint or a loop, leaves no trace in them.

On a sheet this is `Sheet.Indexed`, which speaks of `Outlook.ofText` and of places. Here it is said
of texts, names and addresses. The order of places is the reading order of addresses
(`Shape.lt_iff_precedes`).

## Main definitions

* `Address.Precedes` — one address comes before another, row by row
* `Document.Formulates` — the text of a cell is a formula that can be computed
* `Document.LinkedByTexts` — links are those of the texts

## Main results

* `Document.linkedByTexts_run` — they are, in every document
-/

namespace Quadrille

variable {shape : Shape}

/-- One address comes before another in reading order: in an earlier row, or in the same row and an
earlier column. -/
def Address.Precedes (a b : Address) : Prop :=
  a.row < b.row ∨ a.row = b.row ∧ a.column < b.column

theorem Shape.lt_iff_precedes {p q : shape.Place} :
    p < q ↔ (shape.address p).Precedes (shape.address q) := by
  have hp := Nat.div_add_mod p.val shape.columns
  have hq := Nat.div_add_mod q.val shape.columns
  constructor
  · intro hpq
    rcases Nat.lt_or_eq_of_le (Nat.div_le_div_right (c := shape.columns) (Nat.le_of_lt hpq)) with
      hrow | hrow
    · exact Or.inl hrow
    · refine Or.inr ⟨hrow, ?_⟩
      rw [hrow] at hp
      show p.val % shape.columns < q.val % shape.columns
      have : p.val < q.val := hpq
      omega
  · rintro (hrow | ⟨hrow, hcolumn⟩)
    · exact Nat.lt_of_div_lt_div hrow
    · have hrow : p.val / shape.columns = q.val / shape.columns := hrow
      have hcolumn : p.val % shape.columns < q.val % shape.columns := hcolumn
      rw [hrow] at hp
      show p.val < q.val
      omega

namespace Document

/-- The text of the cell at a place is a formula that reads as an expression, and every variable of
the expression names a cell of the grid. -/
def Formulates (d : Document shape) (p : shape.Place) (tree : Tree) : Prop :=
  ∃ body, body ≠ "" ∧ (d.sheet.cell p).text = "=" ++ body ∧
    Formula.ofText body = .ok (.expression tree) ∧
    ∀ name ∈ tree.variableNames, ∃ q, shape.named? name = some q

/-- The links are those of the texts. A cell with a formula that can be computed has a list of
references, which are the cells that the formula names in reading order, and no other cell has one.
A cell is listed as a dependent of another if and only if the other is listed among its references,
and a cell that nothing refers to has no list of dependents. -/
structure LinkedByTexts (d : Document shape) : Prop where
  references_iff : ∀ p, (∃ targets, d.sheet.links.references.get p = some targets) ↔
    ∃ tree, d.Formulates p tree
  mem_references : ∀ p tree targets, d.Formulates p tree →
    d.sheet.links.references.get p = some targets →
      ∀ q, q ∈ targets ↔ ∃ name ∈ tree.variableNames, shape.named? name = some q
  references_increasing : ∀ p targets, d.sheet.links.references.get p = some targets →
    targets.Pairwise fun q r => (shape.address q).Precedes (shape.address r)
  mem_dependents : ∀ p q, (∃ ps, d.sheet.links.dependents.get q = some ps ∧ p ∈ ps) ↔
    ∃ targets, d.sheet.links.references.get p = some targets ∧ q ∈ targets
  dependents_increasing : ∀ q ps, d.sheet.links.dependents.get q = some ps →
    ps.Pairwise fun p r => (shape.address p).Precedes (shape.address r)
  dependents_ne_nil : ∀ q, d.sheet.links.dependents.get q ≠ some []

variable {d : Document shape} {p q : shape.Place} {tree : Tree}

/-- A formula that can be computed is one with an outlook of being computed. -/
theorem formulates_iff_exists_computed :
    d.Formulates p tree ↔ ∃ targets, d.sheet.texts.outlook p = .computed tree targets := by
  constructor
  · rintro ⟨body, hbody, htext, htree, hnames⟩
    obtain ⟨targets, htargets⟩ := Shape.exists_targets_eq_ok_iff.mpr hnames
    exact ⟨targets, Outlook.ofText_eq_computed_iff.mpr
      ⟨body, Input.ofText_eq_formula_iff.mpr ⟨hbody, htext⟩, htree, htargets⟩⟩
  · rintro ⟨targets, ho⟩
    obtain ⟨body, hinput, htree, htargets⟩ := Outlook.ofText_eq_computed_iff.mp ho
    obtain ⟨hbody, htext⟩ := Input.ofText_eq_formula_iff.mp hinput
    exact ⟨body, hbody, htext, htree, Shape.exists_targets_eq_ok_iff.mp ⟨targets, htargets⟩⟩

/-- A list of references belongs to the one expression that the text reads as. -/
theorem references_get_eq_some_iff (h : d.sheet.Indexed) {targets : List shape.Place} :
    d.sheet.links.references.get p = some targets ↔
      ∃ tree, d.sheet.texts.outlook p = .computed tree targets := by
  rw [h.links.references_get]
  cases d.sheet.texts.outlook p <;> simp [Outlook.references?]

theorem mem_dependentsOf_iff_exists :
    p ∈ d.sheet.links.dependentsOf q ↔
      ∃ ps, d.sheet.links.dependents.get q = some ps ∧ p ∈ ps := by
  rw [Links.dependentsOf]
  cases d.sheet.links.dependents.get q <;> simp

theorem linkedByTexts_of_indexed (h : d.sheet.Indexed) : d.LinkedByTexts where
  references_iff p := by
    simp only [references_get_eq_some_iff h, formulates_iff_exists_computed]
    exact exists_comm
  mem_references p tree targets hp htargets q := by
    obtain ⟨targets', ho⟩ := formulates_iff_exists_computed.mp hp
    obtain ⟨tree', ho'⟩ := (references_get_eq_some_iff h).mp htargets
    obtain ⟨rfl, rfl⟩ := Outlook.computed.inj (ho.symm.trans ho')
    obtain ⟨body, -, -, hnames⟩ := Outlook.ofText_eq_computed_iff.mp ho
    obtain ⟨hmem, hnamed⟩ := Shape.mem_of_targets_eq_ok hnames
    refine ⟨hnamed q, fun ⟨name, hname, hq⟩ => ?_⟩
    obtain ⟨r, hr, hnamer⟩ := hmem name hname
    obtain rfl := Option.some.inj (hq.symm.trans hnamer)
    exact hr
  references_increasing p targets htargets := by
    obtain ⟨tree, ho⟩ := (references_get_eq_some_iff h).mp htargets
    obtain ⟨body, -, -, hnames⟩ := Outlook.ofText_eq_computed_iff.mp ho
    exact (Shape.pairwise_of_targets_eq_ok hnames).imp Shape.lt_iff_precedes.mp
  mem_dependents p q := by
    simp only [← mem_dependentsOf_iff_exists, h.links.mem_dependentsOf, h.links.references_get]
  dependents_increasing q ps hps := by
    have hsorted := (h.links.tidy q).1
    rw [Links.dependentsOf, hps] at hsorted
    exact hsorted.imp Shape.lt_iff_precedes.mp
  dependents_ne_nil q := (h.links.tidy q).2

/-- **The links of every document are those of its texts,** whatever has been done with the
document. -/
theorem linkedByTexts_run (shape : Shape) (limit : Nat) (actions : List Action) :
    (run shape limit actions).LinkedByTexts :=
  linkedByTexts_of_indexed (upToDate_run shape limit actions).toIndexed

end Document

end Quadrille
