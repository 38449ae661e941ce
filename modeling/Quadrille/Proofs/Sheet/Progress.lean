import Quadrille.Proofs.Sheet.Session

/-!
# How far a recalculation has come

Between any two tasks of a recalculation the marks tell the truth about the sheet. A cell that is
waiting or active has not been written to. A settled cell shows what is computed from the cells that
it refers to, all of which are settled, and is grounded. A circular cell is looped and shows it.

The settled cells are closed under references, so no later write changes what one of them was
computed from: a write goes to a cell that is not settled. This is the whole reason why a cell needs
to be computed only once.

## Main definitions

* `Sheet.Underway` — the marks are right
* `Sheet.AtRest` — and no cell is active, as between two walks

## Main results

* `Underway.update` — which changes are right
* `Underway.settle`, `Underway.activate`, `Underway.close` — the three that are made
* `Underway.result_eq` — a cell that was right and does not see the edited cell is left as it was
* `Underway.solved` — once no cell that sees the edited cell is waiting, every cell is solved
-/

namespace Quadrille

variable {shape : Shape}

namespace Marks

@[simp] theorem get_fresh (q : shape.Place) : (fresh : Marks shape).get q = .waiting :=
  Table.get_fill _ q

/-- No cell is active when a recalculation begins. -/
theorem idle_fresh (q : shape.Place) : (fresh : Marks shape).get q ≠ .active := by
  simp

end Marks

namespace Sheet

variable {before s s' : Sheet shape} {marks : Marks shape} {o p q : shape.Place}

/-- The marks are right about a sheet that was `before` when the recalculation began. -/
structure Underway (before s : Sheet shape) (marks : Marks shape) : Prop where
  given : ∀ p, (s.cell p).given = (before.cell p).given
  untouched : ∀ p, marks.get p = .waiting ∨ marks.get p = .active → s.cell p = before.cell p
  settled : ∀ p, marks.get p = .settled → (s.cell p).result = s.computed p
  closed : ∀ p q, marks.get p = .settled → before.texts.Refers p q → marks.get q = .settled
  grounded : ∀ p, marks.get p = .settled → before.texts.Grounded p
  looped : ∀ p, marks.get p = .circular → before.texts.Looped p
  circular : ∀ p, marks.get p = .circular → (s.cell p).result = loopResult

namespace Underway

theorem refl (s : Sheet shape) : s.Underway s Marks.fresh := by
  constructor <;> simp

theorem texts_eq (h : before.Underway s marks) : s.texts = before.texts :=
  funext fun p => congrArg Prod.fst (h.given p)

/-! ### Changes of marks -/

/-- A change of sheet and marks is right if it keeps the settled cells, leaves alone the cells that
are waiting or active afterwards, settles only cells whose targets are settled and makes circular
only cells that are looped. -/
theorem update {marks' : Marks shape} (h : before.Underway s marks)
    (hgiven : ∀ q, (s'.cell q).given = (s.cell q).given)
    (hkeep : ∀ q, marks.get q = .settled →
      marks'.get q = .settled ∧ (s'.cell q).result = (s.cell q).result)
    (huntouched : ∀ q, marks'.get q = .waiting ∨ marks'.get q = .active →
      (marks.get q = .waiting ∨ marks.get q = .active) ∧ s'.cell q = s.cell q)
    (hsettled : ∀ q, marks'.get q = .settled → marks.get q = .settled ∨
      (s'.cell q).result = s.computed q ∧ ∀ r, before.texts.Refers q r → marks.get r = .settled)
    (hcircular : ∀ q, marks'.get q = .circular →
      (marks.get q = .circular ∧ (s'.cell q).result = (s.cell q).result) ∨
        (before.texts.Looped q ∧ (s'.cell q).result = loopResult)) :
    before.Underway s' marks' := by
  have htext : ∀ q, s'.texts q = s.texts q := fun q => congrArg Prod.fst (hgiven q)
  have htargets : ∀ q, marks'.get q = .settled → ∀ r, before.texts.Refers q r →
      marks.get r = .settled := by
    intro q hq r hr
    rcases hsettled q hq with hold | ⟨-, hnew⟩
    · exact h.closed q r hold hr
    · exact hnew r hr
  -- what a settled cell is computed from is settled already, and so is not changed
  have hcomputed : ∀ q, marks'.get q = .settled → s'.computed q = s.computed q := by
    intro q hq
    refine computed_congr (htext q) fun r hr => (hkeep r (htargets q hq r ?_)).2
    rwa [h.texts_eq] at hr
  constructor
  case given => exact fun q => (hgiven q).trans (h.given q)
  case untouched =>
    intro q hq
    obtain ⟨hold, hcell⟩ := huntouched q hq
    rw [hcell, h.untouched q hold]
  case settled =>
    intro q hq
    rw [hcomputed q hq]
    rcases hsettled q hq with hold | ⟨hnew, -⟩
    · rw [(hkeep q hold).2, h.settled q hold]
    · exact hnew
  case closed => exact fun q r hq hr => (hkeep r (htargets q hq r hr)).1
  case grounded => exact fun q hq => Acc.intro q fun r hr => h.grounded r (htargets q hq r hr)
  case looped =>
    intro q hq
    rcases hcircular q hq with ⟨hold, -⟩ | ⟨hnew, -⟩
    · exact h.looped q hold
    · exact hnew
  case circular =>
    intro q hq
    rcases hcircular q hq with ⟨hold, hcell⟩ | ⟨-, hnew⟩
    · rw [hcell, h.circular q hold]
    · exact hnew

theorem congr (h : before.Underway s marks) (hcell : ∀ q, s'.cell q = s.cell q) :
    before.Underway s' marks := by
  have hresult : ∀ q, (s'.cell q).result = (s.cell q).result := fun q => by rw [hcell]
  refine h.update (fun q => by rw [hcell]) ?_ ?_ ?_ ?_
  · exact fun q hq => ⟨hq, hresult q⟩
  · exact fun q hq => ⟨hq, hcell q⟩
  · exact fun q hq => Or.inl hq
  · exact fun q hq => Or.inl ⟨hq, hresult q⟩

/-- A cell whose targets are settled is written and settled. -/
theorem settle (h : before.Underway s marks) (hp : marks.get p = .waiting ∨ marks.get p = .active)
    (htargets : ∀ q, before.texts.Refers p q → marks.get q = .settled)
    (hcell : ∀ q, s'.cell q = if p = q then (s.cell p).withResult (s.computed p) else s.cell q) :
    before.Underway s' (marks.put p .settled) := by
  have hself : s'.cell p = (s.cell p).withResult (s.computed p) := by rw [hcell, if_pos rfl]
  have hother : ∀ {q}, p ≠ q → s'.cell q = s.cell q := fun hq => by rw [hcell, if_neg hq]
  have hmark : ∀ {q m}, m ≠ .settled → (marks.put p .settled).get q = m →
      p ≠ q ∧ marks.get q = m := by
    intro q m hm hq
    by_cases hpq : p = q
    · subst hpq
      rw [Table.get_put_self] at hq
      exact absurd hq.symm hm
    · exact ⟨hpq, (Table.get_put_of_ne _ hpq _).symm.trans hq⟩
  refine h.update (fun q => ?_) (fun q hq => ?_) (fun q hq => ?_) (fun q hq => ?_) fun q hq => ?_
  · by_cases hpq : p = q
    · subst hpq; rw [hself, Cell.given_withResult]
    · rw [hother hpq]
  · have hpq : p ≠ q := by
      rintro rfl
      rcases hp with hp | hp <;> simp [hp] at hq
    rw [Table.get_put_of_ne _ hpq, hother hpq]
    exact ⟨hq, rfl⟩
  · rcases hq with hq | hq
    · exact ⟨Or.inl (hmark (by decide) hq).2, hother (hmark (by decide) hq).1⟩
    · exact ⟨Or.inr (hmark (by decide) hq).2, hother (hmark (by decide) hq).1⟩
  · by_cases hpq : p = q
    · subst hpq
      exact Or.inr ⟨by rw [hself, Cell.result_withResult], htargets⟩
    · exact Or.inl ((Table.get_put_of_ne _ hpq _).symm.trans hq)
  · obtain ⟨hpq, hold⟩ := hmark (by decide) hq
    exact Or.inl ⟨hold, congrArg Cell.result (hother hpq)⟩

/-- A waiting cell becomes active. -/
theorem activate (h : before.Underway s marks) (hp : marks.get p = .waiting) :
    before.Underway s (marks.put p .active) := by
  have hmark : ∀ {q m}, m ≠ .active → (marks.put p .active).get q = m → marks.get q = m := by
    intro q m hm hq
    by_cases hpq : p = q
    · subst hpq
      rw [Table.get_put_self] at hq
      exact absurd hq.symm hm
    · rwa [Table.get_put_of_ne _ hpq] at hq
  refine h.update (fun q => rfl) (fun q hq => ⟨?_, rfl⟩) (fun q hq => ⟨?_, rfl⟩)
    (fun q hq => Or.inl (hmark (by decide) hq)) fun q hq => Or.inl ⟨hmark (by decide) hq, rfl⟩
  · have hpq : p ≠ q := by
      rintro rfl
      simp [hp] at hq
    rw [Table.get_put_of_ne _ hpq, hq]
  · by_cases hpq : p = q
    · subst hpq; exact Or.inl hp
    · rwa [Table.get_put_of_ne _ hpq] at hq

/-- Looped cells that are not settled become circular and show it. -/
theorem close {ps : List shape.Place} (h : before.Underway s marks)
    (hps : ∀ q ∈ ps, marks.get q ≠ .settled ∧ before.texts.Looped q)
    (hcell : ∀ q, s'.cell q = if q ∈ ps then (s.cell q).withResult loopResult else s.cell q) :
    before.Underway s' (ps.foldl (fun marks q => marks.put q .circular) marks) := by
  have hin : ∀ {q}, q ∈ ps → s'.cell q = (s.cell q).withResult loopResult := fun hq => by
    rw [hcell, if_pos hq]
  have hout : ∀ {q}, q ∉ ps → s'.cell q = s.cell q := fun hq => by rw [hcell, if_neg hq]
  have hmark : ∀ {q m}, m ≠ .circular →
      (ps.foldl (fun marks q => marks.put q .circular) marks).get q = m →
        q ∉ ps ∧ marks.get q = m := by
    intro q m hm hq
    rw [Table.get_foldl_put] at hq
    split at hq
    · exact absurd hq.symm hm
    · exact ⟨‹_›, hq⟩
  refine h.update (fun q => ?_) (fun q hq => ?_) (fun q hq => ?_)
    (fun q hq => Or.inl (hmark (by decide) hq).2) fun q hq => ?_
  · by_cases hq : q ∈ ps
    · rw [hin hq, Cell.given_withResult]
    · rw [hout hq]
  · have hnot : q ∉ ps := fun hmem => (hps q hmem).1 hq
    rw [Table.get_foldl_put, if_neg hnot, hout hnot]
    exact ⟨hq, rfl⟩
  · rcases hq with hq | hq
    · exact ⟨Or.inl (hmark (by decide) hq).2, hout (hmark (by decide) hq).1⟩
    · exact ⟨Or.inr (hmark (by decide) hq).2, hout (hmark (by decide) hq).1⟩
  · by_cases hmem : q ∈ ps
    · exact Or.inr ⟨(hps q hmem).2, by rw [hin hmem, Cell.result_withResult]⟩
    · rw [Table.get_foldl_put, if_neg hmem] at hq
      exact Or.inl ⟨hq, congrArg Cell.result (hout hmem)⟩

/-! ### The end of a recalculation -/

/-- A cell that was right and does not see the edited cell is left as it was. -/
theorem result_eq (h : before.Underway s marks)
    (hbefore : ∀ p, ¬before.texts.Sees p o → before.Solved p) (hp : ¬before.texts.Sees p o) :
    (s.cell p).result = (before.cell p).result := by
  have hcases : ∀ q, s.cell q = before.cell q ∨ marks.get q = .settled ∨
      marks.get q = .circular := by
    intro q
    cases hq : marks.get q with
    | waiting => exact Or.inl (h.untouched q (Or.inl hq))
    | active => exact Or.inl (h.untouched q (Or.inr hq))
    | settled => exact Or.inr (Or.inl rfl)
    | circular => exact Or.inr (Or.inr rfl)
  rcases hbefore p hp with ⟨hloop, hr⟩ | ⟨hground, -⟩
  · rcases hcases p with hq | hq | hq
    · rw [hq]
    · exact absurd hloop (h.grounded p hq).not_looped
    · rw [hr, h.circular p hq]
  · induction hground with
    | intro p hacc ih =>
      have hground : before.texts.Grounded p := Acc.intro p hacc
      rcases hcases p with hq | hq | hq
      · rw [hq]
      · rw [h.settled p hq, (hbefore p hp).result_of_grounded hground]
        refine computed_congr (congrFun h.texts_eq p) fun r hr => ?_
        exact ih r hr fun hro => hp (hro.head hr)
      · exact absurd (h.looped p hq) hground.not_looped

/-- **A recalculation that has come to its end leaves every cell solved,** if it has dealt with all
the cells that see the edited one. -/
theorem solved (h : before.Underway s marks) (hidle : ∀ p, marks.get p ≠ .active)
    (hdone : ∀ p, before.texts.Sees p o → marks.get p ≠ .waiting)
    (hbefore : ∀ p, ¬before.texts.Sees p o → before.Solved p) (p : shape.Place) : s.Solved p := by
  cases hp : marks.get p with
  | waiting =>
    have hpo : ¬before.texts.Sees p o := fun hpo => hdone p hpo hp
    have htexts : before.texts.AgreeFrom s.texts p := fun q _ => congrFun h.texts_eq q
    refine (hbefore p hpo).congr htexts (h.result_eq hbefore hpo) fun q hq => ?_
    exact h.result_eq hbefore fun hqo => hpo (hqo.head hq)
  | active => exact absurd hp (hidle p)
  | settled => exact Or.inr ⟨h.texts_eq ▸ h.grounded p hp, h.settled p hp⟩
  | circular => exact Or.inl ⟨h.texts_eq ▸ h.looped p hp, h.circular p hp⟩

end Underway

/-- What holds between walks: the marks are right, none is active, and formulas and links agree with
the texts. -/
structure AtRest (before s : Sheet shape) (marks : Marks shape) : Prop extends
    Underway before s marks where
  indexed : s.Indexed
  idle : ∀ q, marks.get q ≠ .active

end Sheet

end Quadrille
