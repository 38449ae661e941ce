import Quadrille.Proofs.Sheet.Walk

/-!
# What a recalculation does

The search for the cells that see the edited one is a matter of two sets: those that have been
reached, and those among them whose dependents have still to be looked at. A cell that refers to a
reached cell has been reached itself or is a dependent of a queued one, so when the queue is empty
everything that sees the edited cell has been reached, and with it brought up to date.

What the walks on the way do to the sheet does not concern the search, since no walk changes a text:
the links that it follows are those of the texts throughout.

## Main results

* `seen_foldl_reach`, `mem_queue_foldl_reach` — one round of the search
* `Cascade.Sound.run` — the whole search
* `Session.upToDate_recalculate` — after it every cell is as it should be
-/

namespace Quadrille

variable {shape : Shape}

namespace Cascade

variable {before : Sheet shape} {c : Cascade shape} {ps rest : List shape.Place}
  {o p q : shape.Place}

/-! ### The search -/

theorem run_of_eq_nil (hc : c.queue = []) : c.run = c := by
  rw [run]
  split
  · rfl
  · next hc' => simp [hc] at hc'

theorem run_of_eq_cons (hc : c.queue = p :: rest) :
    c.run = ({ c with queue := rest }.visit p).run := by
  rw [run]
  split
  · next hc' => simp [hc] at hc'
  · next hc' =>
    obtain ⟨rfl, rfl⟩ := List.cons.inj (hc.symm.trans hc')
    rfl

/-- What is kept by looking at the dependents of a queued cell is kept by the whole search. -/
theorem run_induction {P : Cascade shape → Prop}
    (hstep : ∀ c p rest, c.queue = p :: rest → P c → P ({ c with queue := rest }.visit p))
    (hc : P c) : P c.run := by
  induction c using Cascade.run.induct with
  | case1 c hqueue =>
    rw [run_of_eq_nil hqueue]
    exact hc
  | case2 c p rest hqueue ih =>
    rw [run_of_eq_cons hqueue]
    exact ih (hstep c p rest hqueue hc)

/-- A cell has been reached afterwards if it had been before or is one of the cells to be
reached. -/
theorem seen_foldl_reach :
    (ps.foldl reach c).seen.get q = true ↔ c.seen.get q = true ∨ q ∈ ps := by
  induction ps generalizing c with
  | nil => simp
  | cons p ps ih =>
    rw [List.foldl_cons, ih, List.mem_cons, reach]
    split
    · next hp =>
      refine ⟨Or.imp_right Or.inr, ?_⟩
      rintro (hq | rfl | hq)
      · exact Or.inl hq
      · exact Or.inl hp
      · exact Or.inr hq
    · rw [Table.get_put]
      split
      · next hpq => simp [hpq]
      · next hpq => simp [Ne.symm hpq]

/-- A cell is queued when it is reached for the first time. -/
theorem mem_queue_foldl_reach :
    q ∈ (ps.foldl reach c).queue ↔ q ∈ c.queue ∨ (q ∈ ps ∧ c.seen.get q = false) := by
  induction ps generalizing c with
  | nil => simp
  | cons p ps ih =>
    rw [List.foldl_cons, ih, List.mem_cons, reach]
    split
    · next hp =>
      refine or_congr_right (and_congr_left fun hq => (or_iff_right ?_).symm)
      rintro rfl
      simp [hp] at hq
    · next hp =>
      rw [Table.get_put, List.mem_append, List.mem_singleton]
      split
      · next hpq =>
        subst hpq
        have hseen : c.seen.get p = false := by simpa using hp
        simp [hseen]
      · next hpq => simp [Ne.symm hpq]

/-- Whatever refers to a reached cell has been reached, or the cell is in the queue. -/
def Closed (before : Sheet shape) (c : Cascade shape) : Prop :=
  ∀ p q, before.texts.Refers p q → c.seen.get q = true → c.seen.get p = true ∨ q ∈ c.queue

theorem Closed.visit (h : Closed before c) (hs : c.session.sheet.Indexed)
    (ht : c.session.sheet.texts = before.texts) (hc : c.queue = p :: rest) :
    Closed before ({ c with queue := rest }.visit p) := by
  intro a b hab hb
  rw [Cascade.visit, seen_foldl_reach] at hb ⊢
  rw [mem_queue_foldl_reach]
  cases hbs : c.seen.get b with
  | false => exact Or.inr (Or.inr ⟨hb.resolve_left (by simp [hbs]), rfl⟩)
  | true =>
    rcases h a b hab hbs with ha | hqueue
    · exact Or.inl (Or.inl ha)
    · rw [hc, List.mem_cons] at hqueue
      rcases hqueue with rfl | hqueue
      · exact Or.inl (Or.inr (hs.mem_dependentsOf.mpr (ht ▸ hab)))
      · exact Or.inr (Or.inl hqueue)

/-- When the queue is empty, everything that sees a reached cell has been reached. -/
theorem Closed.seen_of_sees (h : Closed before c) (hc : c.queue = []) (ho : c.seen.get o = true)
    (hp : before.texts.Sees p o) : c.seen.get p = true := by
  induction hp using Relation.ReflTransGen.head_induction_on with
  | refl => exact ho
  | head hpq _ ih => exact (h _ _ hpq ih).resolve_right (by simp [hc])

/-! ### The invariant -/

/-- What holds between two walks of a recalculation. -/
structure Sound (before : Sheet shape) (c : Cascade shape) : Prop where
  atRest : before.AtRest c.session.sheet c.marks
  /-- What has been reached is up to date. -/
  dealt : ∀ q, c.seen.get q = true → c.marks.get q ≠ .waiting

theorem sheet_refresh :
    (c.refresh p).session.sheet = (Walk.start c.session c.marks p).run.session.sheet := by
  rw [refresh]
  split <;> rfl

theorem atRest_refresh (h : before.AtRest c.session.sheet c.marks) (p : shape.Place) :
    before.AtRest (c.refresh p).session.sheet (c.refresh p).marks := by
  rw [sheet_refresh]
  exact Walk.atRest_run_start h

theorem Sound.reach (h : Sound before c) : Sound before (c.reach p) := by
  rw [Cascade.reach]
  split
  · exact h
  · refine ⟨atRest_refresh h.atRest p, fun q hq => Walk.run_start_ne_waiting ?_⟩
    by_cases hpq : p = q
    · exact Or.inl hpq
    · rw [Table.get_put_of_ne _ hpq] at hq
      exact Or.inr (h.dealt q hq)

theorem Sound.foldl_reach (h : Sound before c) : Sound before (ps.foldl Cascade.reach c) := by
  induction ps generalizing c with
  | nil => exact h
  | cons p ps ih => exact ih h.reach

/-- **The whole search.** It ends with an empty queue, and what was known in between is known
then. -/
theorem Sound.run (h : Sound before c) (hclosed : Closed before c) (ho : c.seen.get o = true) :
    Sound before c.run ∧ Closed before c.run ∧ c.run.queue = [] ∧ c.run.seen.get o = true := by
  induction c using Cascade.run.induct with
  | case1 c hc =>
    rw [run_of_eq_nil hc]
    exact ⟨h, hclosed, hc, ho⟩
  | case2 c p rest hc ih =>
    rw [run_of_eq_cons hc]
    refine ih (Sound.foldl_reach ⟨h.atRest, h.dealt⟩) ?_ (seen_foldl_reach.mpr (Or.inl ho))
    exact hclosed.visit h.atRest.indexed h.atRest.texts_eq hc

/-! ### The beginning -/

theorem seen_refresh_start {session : Session shape} :
    ((start session o).refresh o).seen.get q = true ↔ o = q := by
  rw [refresh, start, Table.get_put]
  split <;> simp [*]

/-- The recalculation after an edit, when the edited cell has been brought up to date. -/
theorem sound_refresh_start {session : Session shape} (h : session.sheet.IndexedBut o) :
    Sound session.sheet ((start session o).refresh o) := by
  refine ⟨?_, fun q hq => Walk.run_start_ne_waiting (Or.inl (seen_refresh_start.mp hq))⟩
  rw [sheet_refresh]
  exact Walk.atRest_run_start_of_waiting h (.refl session.sheet) Marks.idle_fresh
    (Marks.get_fresh o)

/-- The recalculation after an edit, when it has ended. -/
theorem sound_run_refresh_start {session : Session shape} (h : session.sheet.IndexedBut o) :
    Sound session.sheet ((start session o).refresh o).run ∧
      ∀ p, session.sheet.texts.Sees p o →
        ((start session o).refresh o).run.seen.get p = true := by
  have hclosed : Closed session.sheet ((start session o).refresh o) := fun p q _ hq =>
    Or.inr (List.mem_singleton.mpr (seen_refresh_start.mp hq).symm)
  obtain ⟨hsound, hclosed, hqueue, ho⟩ :=
    (sound_refresh_start h).run hclosed (seen_refresh_start.mpr rfl)
  exact ⟨hsound, fun p hp => hclosed.seen_of_sees hqueue ho hp⟩

end Cascade

namespace Session

variable {s : Session shape} {o p : shape.Place}

/-- The marks of the recalculation after an edit, once it has ended. -/
theorem exists_marks_recalculate (h : s.sheet.IndexedBut o) :
    ∃ marks, s.sheet.AtRest (s.recalculate o).sheet marks ∧
      ∀ p, s.sheet.texts.Sees p o → marks.get p ≠ .waiting := by
  obtain ⟨hsound, hseen⟩ := Cascade.sound_run_refresh_start h
  exact ⟨_, hsound.atRest, fun p hp => hsound.dealt p (hseen p hp)⟩

/-- **After a recalculation every cell is as it should be,** if those that do not see the edited
cell were so before. -/
theorem upToDate_recalculate (h : s.sheet.IndexedBut o)
    (hs : ∀ p, ¬s.sheet.texts.Sees p o → s.sheet.Solved p) : (s.recalculate o).sheet.UpToDate := by
  obtain ⟨marks, hrest, hdone⟩ := exists_marks_recalculate h
  exact { toIndexed := hrest.indexed, solved := hrest.solved hrest.idle hdone hs }

/-- A recalculation gives no cell another text or color. -/
theorem given_recalculate (h : s.sheet.IndexedBut o) :
    ((s.recalculate o).sheet.cell p).given = (s.sheet.cell p).given := by
  obtain ⟨marks, hrest, -⟩ := exists_marks_recalculate h
  exact hrest.given p

end Session

end Quadrille
