import Quadrille.Proofs.Sheet.References
import Quadrille.Sheet.Walk

/-!
# What a cell has to show

Every cell stands under an equation between what it shows and what its text comes to, in which the
variables of a formula take the numbers now shown by the cells that they name. A looped cell shows
the complaint about loops instead. A sheet is *up to date* when every cell is as it should be, the
formulas that are remembered are those of the texts, and the links are those of the graph.

The equations alone would not determine a sheet: two cells that refer to each other could show any
pair of values that fits, and `Solved` therefore says of each cell on which side of the line it
stands. With that, a cell is determined by the texts that it sees (`result_eq_of_agreeFrom`): a
looped one because there is one thing to show, a grounded one by induction along its references.

## Main definitions

* `Sheet.computed` — the outcome that the current contents of the sheet give for a cell
* `Sheet.Solved` — a cell shows what it should
* `Sheet.UpToDate` — all of them do, and formulas and links agree with the texts
* `Sheet.IndexedBut` — formulas and links agree with the texts except at one cell

## Main results

* `Sheet.Solved.congr` — whether a cell is solved depends on what it sees
* `Sheet.result_eq_of_agreeFrom` — and so does what it shows
* `Sheet.UpToDate.eq_of_given` — an up-to-date sheet is determined by texts and colors
* `Sheet.UpToDate.cell_eq_blank` — and a cell without text and color is blank
-/

namespace Quadrille

/-- What a computation leaves on a cell: value and complaint. -/
def Cell.result (c : Cell) : String × Option String :=
  (c.value, c.error)

/-- What an edit gives to a cell: text and color. -/
def Cell.given (c : Cell) : String × Color :=
  (c.text, c.color)

/-- The outcome for a formula that cannot be computed. -/
def failedResult : String × Option String :=
  (formulaComplaint, some formulaComplaint)

/-- The outcome for a cell on a loop or leading into one. -/
def loopResult : String × Option String :=
  (loopComplaint, some loopComplaint)

theorem Cell.shown_eq_of_result_eq {c d : Cell} (h : c.result = d.result) :
    c.shown = d.shown := by
  obtain ⟨hv, he⟩ := Prod.mk.inj h
  unfold Cell.shown Cell.complaint
  rw [hv, he]

theorem Cell.given_of_text_eq {c : Cell} {text : String} (h : c.text = text) :
    (text, c.color) = c.given := by
  rw [← h]
  rfl

theorem Cell.given_of_color_eq {c : Cell} {color : Color} (h : c.color = color) :
    (c.text, color) = c.given := by
  rw [← h]
  rfl

theorem Cell.given_of_isDefault {c : Cell} (h : c.isDefault = true) : c.given = blank.given := by
  rw [isDefault, Bool.and_eq_true, beq_iff_eq] at h
  obtain ⟨htext, hcolor⟩ := h
  have : c.text = "" := by simpa using htext
  simp [given, this, hcolor, blank]

theorem Cell.ext_given {c d : Cell} (hg : c.given = d.given) (hr : c.result = d.result) :
    c = d := by
  obtain ⟨ht, hc⟩ := Prod.mk.inj hg
  obtain ⟨hv, he⟩ := Prod.mk.inj hr
  cases c
  cases d
  simp_all

namespace Outlook

variable {shape : Shape}

/-- The outcome of a text, given the numbers that its variables stand for. -/
def result (value : String → Float) : Outlook shape → String × Option String
  | .literal text | .blank text => (text, none)
  | .unparsable .. | .invalidReference .. => failedResult
  | .computed tree _ => (Number.display (tree.evaluate value), none)

theorem result_ne_loopResult (value : String → Float) (o : Outlook shape) :
    (o.result value).2 ≠ some loopComplaint := by
  cases o <;> simp [result, failedResult, formulaComplaint, loopComplaint]

end Outlook

namespace Sheet

variable {shape : Shape} {s s' : Sheet shape} {p q : shape.Place}

/-- The texts on a sheet. -/
def texts (s : Sheet shape) : Texts shape :=
  fun p => (s.cell p).text

/-- The outcome for a cell, computed from what the sheet shows now. -/
def computed (s : Sheet shape) (p : shape.Place) : String × Option String :=
  (s.texts.outlook p).result s.numberNamed

/-- A looped cell shows the complaint about loops, and any other is grounded and shows what is
computed from the cells that it refers to. -/
def Solved (s : Sheet shape) (p : shape.Place) : Prop :=
  (s.texts.Looped p ∧ (s.cell p).result = loopResult) ∨
    (s.texts.Grounded p ∧ (s.cell p).result = s.computed p)

/-- An outcome depends on the text and on what is shown by the cells that the text refers to. -/
theorem computed_congr (ht : s'.texts p = s.texts p)
    (h : ∀ q, s.texts.Refers p q → (s'.cell q).result = (s.cell q).result) :
    s'.computed p = s.computed p := by
  have ho : s'.texts.outlook p = s.texts.outlook p := congrArg (Outlook.ofText shape) ht
  rw [computed, computed, ho]
  cases hp : s.texts.outlook p with
  | computed tree targets =>
    obtain ⟨body, -, -, htargets⟩ := Outlook.ofText_eq_computed_iff.mp hp
    have hshown : ∀ q ∈ targets, (s'.cell q).shown = (s.cell q).shown := by
      intro q hq
      refine Cell.shown_eq_of_result_eq (h q (Texts.refers_iff_mem_targets.mpr ?_))
      rw [hp]
      exact hq
    have hvalue : tree.evaluate s'.numberNamed = tree.evaluate s.numberNamed :=
      evaluate_congr (f := .expression tree) htargets hshown
    rw [Outlook.result, Outlook.result, hvalue]
  | _ => simp only [Outlook.result]

theorem Solved.congr (ht : s.texts.AgreeFrom s'.texts p)
    (hp : (s'.cell p).result = (s.cell p).result)
    (h : ∀ q, s.texts.Refers p q → (s'.cell q).result = (s.cell q).result) :
    s.Solved p → s'.Solved p := by
  rintro (⟨hloop, hr⟩ | ⟨hground, hr⟩)
  · exact Or.inl ⟨ht.looped hloop, hp.trans hr⟩
  · exact Or.inr ⟨ht.grounded hground, by rw [hp, hr, computed_congr (ht p .refl) h]⟩

theorem Solved.result_of_looped (h : s.Solved p) (hp : s.texts.Looped p) :
    (s.cell p).result = loopResult := by
  rcases h with ⟨-, hr⟩ | ⟨hground, -⟩
  · exact hr
  · exact absurd hp hground.not_looped

theorem Solved.result_of_grounded (h : s.Solved p) (hp : s.texts.Grounded p) :
    (s.cell p).result = s.computed p := by
  rcases h with ⟨hloop, -⟩ | ⟨-, hr⟩
  · exact absurd hloop hp.not_looped
  · exact hr

/-- A cell that refers to nothing is not looped. -/
theorem Solved.result_of_references?_eq_none (h : s.Solved p)
    (hp : (s.texts.outlook p).references? = none) : (s.cell p).result = s.computed p := by
  rcases h with ⟨hloop, -⟩ | ⟨-, hr⟩
  · obtain ⟨q, hq⟩ := hloop.exists_refers
    rw [Texts.refers_iff_mem_targets, Outlook.targets, hp] at hq
    simp at hq
  · exact hr

/-- The complaint about loops is on the looped cells and on no others. -/
theorem Solved.error_eq_iff (h : s.Solved p) :
    (s.cell p).error = some loopComplaint ↔ s.texts.Looped p := by
  rcases h with ⟨hloop, hr⟩ | ⟨hground, hr⟩
  · exact iff_of_true (congrArg Prod.snd hr) hloop
  · refine iff_of_false (fun he => ?_) hground.not_looped
    exact Outlook.result_ne_loopResult _ _ ((congrArg Prod.snd hr).symm.trans he)

/-- **What a cell shows depends only on the texts it sees.** -/
theorem result_eq_of_agreeFrom (ht : s.texts.AgreeFrom s'.texts p)
    (hs : ∀ q, s.texts.Sees p q → s.Solved q) (hs' : ∀ q, s'.texts.Sees p q → s'.Solved q) :
    (s'.cell p).result = (s.cell p).result := by
  rcases hs p .refl with ⟨hloop, hr⟩ | ⟨hground, -⟩
  · rw [hr, (hs' p .refl).result_of_looped (ht.looped hloop)]
  · induction hground with
    | intro p hacc ih =>
      have hground : s.texts.Grounded p := Acc.intro p hacc
      rw [(hs p .refl).result_of_grounded hground,
        (hs' p .refl).result_of_grounded (ht.grounded hground)]
      refine computed_congr (ht p .refl) fun q hq => ?_
      exact ih q hq (ht.refers hq) (fun r hr => hs r (hr.head hq))
        fun r hr => hs' r (hr.head (hq.congr (ht p .refl)))

/-! ### Sheets that are up to date -/

/-- The formulas that are remembered are those of the texts, and the links are those of the
graph. -/
structure Indexed (s : Sheet shape) : Prop where
  formulas : ∀ p, s.formulas.get p = (s.texts.outlook p).formula?
  links : s.links.Represents fun p => (s.texts.outlook p).references?

/-- Every cell shows what it should, and formulas and links agree with the texts. -/
structure UpToDate (s : Sheet shape) : Prop extends Indexed s where
  solved : ∀ p, s.Solved p

theorem Indexed.congr (h : s.Indexed) (ht : s'.texts = s.texts) (hf : s'.formulas = s.formulas)
    (hl : s'.links = s.links) : s'.Indexed where
  formulas p := by rw [hf, ht, h.formulas]
  links := by rw [hl, ht]; exact h.links

/-- Who refers to a cell, according to the links. -/
theorem Indexed.mem_dependentsOf (h : s.Indexed) :
    p ∈ s.links.dependentsOf q ↔ s.texts.Refers p q := by
  rw [h.links.mem_dependentsOf, Texts.refers_iff_mem_targets, Outlook.targets]
  cases (s.texts.outlook p).references? <;> simp

/-- While the formulas are those of the texts, reading a formula gives the same whether or not it
is remembered. -/
theorem outlook_eq_of_formulas
    (h : s.formulas.get p = none ∨ s.formulas.get p = (s.texts.outlook p).formula?) :
    s.outlook p = s.texts.outlook p := by
  refine Outlook.ofInput_congr fun body hbody => ?_
  unfold formula
  cases hf : s.formulas.get p with
  | none => rfl
  | some f =>
    have hf' : (s.texts.outlook p).formula? = some f := by
      rcases h with h | h
      · simp [hf] at h
      · exact h.symm.trans hf
    obtain ⟨body', hbody', hread⟩ := Outlook.formula?_ofText_eq_some_iff.mp hf'
    obtain rfl := Input.formula.inj (hbody.symm.trans hbody')
    exact hread.symm

/-- Formulas and links agree with the texts, but for one cell, whose formula may have been forgotten
and whose links may be any. -/
structure IndexedBut (s : Sheet shape) (p : shape.Place) : Prop where
  formula : s.formulas.get p = none ∨ s.formulas.get p = (s.texts.outlook p).formula?
  formulas : ∀ q, p ≠ q → s.formulas.get q = (s.texts.outlook q).formula?
  links : ∃ f, s.links.Represents f ∧ ∀ q, p ≠ q → f q = (s.texts.outlook q).references?

theorem Indexed.but (h : s.Indexed) (p : shape.Place) : s.IndexedBut p :=
  ⟨Or.inr (h.formulas p), fun q _ => h.formulas q, _, h.links, fun _ _ => rfl⟩

theorem IndexedBut.outlook_eq (h : s.IndexedBut p) : s.outlook p = s.texts.outlook p :=
  outlook_eq_of_formulas h.formula

/-- Reading the text of the cell again makes formulas and links agree everywhere. -/
theorem IndexedBut.indexed (h : s.IndexedBut p) (ht : s'.texts = s.texts)
    (hf : ∀ q, s'.formulas.get q =
      if p = q then (s.texts.outlook p).formula?.or (s.formulas.get p) else s.formulas.get q)
    (hl : s'.links = (s.texts.outlook p).references?.elim (s.links.unlink p) (s.links.link p)) :
    s'.Indexed where
  formulas q := by
    rw [hf, ht]
    split
    · next hpq =>
      subst hpq
      rcases h.formula with hp | hp
      · rw [hp, Option.or_none]
      · rw [hp, Option.or_self]
    · next hpq => exact h.formulas q hpq
  links := by
    obtain ⟨f, hrep, hother⟩ := h.links
    have hupdate : s'.links.Represents (Function.update f p (s.texts.outlook p).references?) := by
      rw [hl]
      cases (s.texts.outlook p).references? with
      | none => exact hrep.unlink p
      | some targets => exact hrep.link p targets
    refine hupdate.congr fun q => ?_
    rw [ht]
    by_cases hpq : p = q
    · subst hpq; rw [Function.update_self]
    · rw [Function.update_of_ne (Ne.symm hpq), hother q hpq]

theorem UpToDate.result_eq_of_texts_eq (h : s.UpToDate) (h' : s'.UpToDate)
    (ht : s'.texts = s.texts) (p : shape.Place) : (s'.cell p).result = (s.cell p).result :=
  result_eq_of_agreeFrom (fun q _ => congrFun ht q) (fun q _ => h.solved q) fun q _ => h'.solved q

theorem Indexed.formulas_eq_of_texts_eq (h : s.Indexed) (h' : s'.Indexed)
    (ht : s'.texts = s.texts) : s'.formulas = s.formulas :=
  Table.ext fun p => by rw [h.formulas, h'.formulas, ht]

theorem Indexed.links_eq_of_texts_eq (h : s.Indexed) (h' : s'.Indexed)
    (ht : s'.texts = s.texts) : s'.links = s.links :=
  h'.links.unique (ht ▸ h.links)

/-- **An up-to-date sheet is determined by its texts and colors.** -/
theorem UpToDate.eq_of_given (h : s.UpToDate) (h' : s'.UpToDate)
    (hg : ∀ p, (s'.cell p).given = (s.cell p).given) : s' = s := by
  have ht : s'.texts = s.texts := funext fun p => congrArg Prod.fst (hg p)
  have hcells : s'.cells = s.cells := Table.ext fun p =>
    Cell.ext_given (hg p) (h.result_eq_of_texts_eq h' ht p)
  have hformulas : s'.formulas = s.formulas :=
    h.toIndexed.formulas_eq_of_texts_eq h'.toIndexed ht
  have hlinks : s'.links = s.links := h.toIndexed.links_eq_of_texts_eq h'.toIndexed ht
  cases s
  cases s'
  simp_all

/-- A cell that has been given nothing is blank altogether. -/
theorem UpToDate.cell_eq_blank (h : s.UpToDate) (hp : (s.cell p).given = Cell.blank.given) :
    s.cell p = Cell.blank := by
  have ho : s.texts.outlook p = .literal "" := by
    rw [Texts.outlook, show s.texts p = "" from congrArg Prod.fst hp]
    rfl
  refine Cell.ext_given hp ?_
  rw [(h.solved p).result_of_references?_eq_none (by rw [ho]; rfl), computed, ho]
  rfl

theorem outlook_texts_blank (p : shape.Place) :
    (blank : Sheet shape).texts.outlook p = .literal "" := by
  have ht : (blank : Sheet shape).texts p = "" := by simp [texts, cell, blank, Cell.blank]
  rw [Texts.outlook, ht]
  rfl

theorem upToDate_blank : (blank : Sheet shape).UpToDate where
  formulas p := by
    rw [outlook_texts_blank]
    exact Table.get_fill none p
  links := Links.represents_none.congr fun p => by rw [outlook_texts_blank]; rfl
  solved p := by
    refine Or.inr ⟨Acc.intro p fun q hq => ?_, ?_⟩
    · rw [Texts.refers_iff_mem_targets, outlook_texts_blank] at hq
      simp [Outlook.targets, Outlook.references?] at hq
    · rw [computed, outlook_texts_blank]
      simp [cell, blank, Cell.blank, Cell.result, Outlook.result]

end Sheet

end Quadrille
