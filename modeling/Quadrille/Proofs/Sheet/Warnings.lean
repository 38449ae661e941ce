import Quadrille.Proofs.Sheet.Changes

/-!
# Work on a sheet is no cause for warnings

Remarks are of different weight. Those made in the course of a recalculation say which cells were
looked at, which formulas could not be understood and where loops were found, and none of that is
unusual. So the warnings in a journal are there for what becomes of the history, whatever has been
done with the sheet meanwhile.

## Main definitions

* `Journal.warnings` — the remarks that are warnings

## Main results

* `Session.warnings_recalculate`, `Session.warnings_setText`
* `Session.warnings_foldl_restore`, `Session.warnings_clear`
-/

namespace Quadrille

variable {shape : Shape}

/-- The remarks that are warnings, in order. -/
def Journal.warnings (j : Journal shape) : List (Remark shape) :=
  j.remarks.toList.filter fun r => r.level = .warn

namespace Session

variable (s : Session shape) (p : shape.Place)

/-- The warnings in the journal of a session. -/
def warnings : List (Remark shape) :=
  s.journal.warnings

theorem warnings_remark (r : Remark shape) :
    (s.remark r).warnings = s.warnings ++ if r.level = .warn then [r] else [] := by
  rw [warnings, warnings, remark, Journal.warnings, Array.toList_push, List.filter_append,
    List.filter_singleton]
  by_cases hr : r.level = .warn <;> simp [Journal.warnings, hr]

theorem warnings_remark_of_ne {r : Remark shape} (hr : r.level ≠ .warn) :
    (s.remark r).warnings = s.warnings := by
  rw [warnings_remark, if_neg hr, List.append_nil]

theorem warnings_foldl_remark {rs : List (Remark shape)} (hrs : ∀ r ∈ rs, r.level = .warn) :
    (rs.foldl remark s).warnings = s.warnings ++ rs := by
  induction rs generalizing s with
  | nil => exact (List.append_nil _).symm
  | cons r rs ih =>
    obtain ⟨hr, hrs⟩ := List.forall_mem_cons.mp hrs
    rw [List.foldl_cons, ih _ hrs, warnings_remark, if_pos hr, List.append_assoc]
    rfl

theorem warnings_write (e : Edit) : (s.write p e).warnings = s.warnings := by
  rw [write]
  split <;> rfl

theorem warnings_writeResult (value : String) (error : Option String) :
    (s.writeResult p value error).warnings = s.warnings := by
  rw [writeResult, warnings_write, warnings_write]

theorem warnings_foldl_complain (ps : List shape.Place) :
    (ps.foldl Walk.complain s).warnings = s.warnings := by
  induction ps generalizing s with
  | nil => rfl
  | cons p ps ih => rw [List.foldl_cons, ih, Walk.complain, warnings_writeResult]

end Session

/-! ### Recalculations -/

namespace Walk

variable {w : Walk shape} {p : shape.Place} {o : Outlook shape} {rest : List (Task shape)}

theorem warnings_settle (value : String) (error : Option String) :
    (w.settle p value error).session.warnings = w.session.warnings :=
  (w.session.unlink p).warnings_writeResult p value error

theorem warnings_cutShort : (w.cutShort p).session.warnings = w.session.warnings :=
  (Session.warnings_foldl_complain _ _).trans
    (Session.warnings_remark_of_ne _ (by simp [Remark.level]))

theorem warnings_respond : (w.respond p o).session.warnings = w.session.warnings := by
  cases o with
  | literal text => exact warnings_settle text none
  | unparsable body e =>
    exact (warnings_settle _ _).trans (Session.warnings_remark_of_ne _ (by simp [Remark.level]))
  | blank text => exact warnings_settle text none
  | invalidReference tree name =>
    exact (warnings_settle _ _).trans (Session.warnings_remark_of_ne _ (by simp [Remark.level]))
  | computed tree targets =>
    rw [respond, pursue]
    split
    · exact warnings_cutShort
    · rfl

theorem warnings_advance : w.advance.session.warnings = w.session.warnings := by
  have henter : ∀ p rest, (w.enter p rest).session.warnings = w.session.warnings := fun p rest =>
    warnings_respond.trans (Session.warnings_remark_of_ne _ (by simp [Remark.level]))
  rw [advance]
  split
  · rfl
  · exact Session.warnings_writeResult _ _ _ _
  · split
    · rfl
    · split
      · rfl
      · exact warnings_cutShort
    · exact henter _ _
    · exact henter _ _

theorem warnings_run : w.run.session.warnings = w.session.warnings :=
  (run_induction (P := fun w' => w'.session.warnings = w.session.warnings)
    (fun _ _ hw => warnings_advance.trans hw) rfl).1

end Walk

namespace Cascade

variable {c : Cascade shape} {p : shape.Place} {ps : List shape.Place}

theorem warnings_refresh : (c.refresh p).session.warnings = c.session.warnings := by
  rw [refresh]
  split
  · exact (Session.warnings_remark_of_ne _ (by simp [Remark.level])).trans Walk.warnings_run
  · exact Walk.warnings_run

theorem warnings_foldl_reach : (ps.foldl reach c).session.warnings = c.session.warnings := by
  induction ps generalizing c with
  | nil => rfl
  | cons p ps ih =>
    rw [List.foldl_cons, ih, reach]
    split
    · rfl
    · exact warnings_refresh

theorem warnings_run : c.run.session.warnings = c.session.warnings :=
  run_induction (P := fun c' => c'.session.warnings = c.session.warnings)
    (fun _ _ _ _ hc => warnings_foldl_reach.trans hc) rfl

end Cascade

/-! ### Operations of a session -/

namespace Session

variable (s : Session shape) (p : shape.Place)

/-- **A recalculation gives no warnings.** -/
theorem warnings_recalculate : (s.recalculate p).warnings = s.warnings :=
  Cascade.warnings_run.trans Cascade.warnings_refresh

theorem warnings_setText (text : String) : (s.setText p text).warnings = s.warnings := by
  rw [setText]
  split
  · rfl
  · exact (warnings_recalculate _ p).trans (warnings_write s p _)

theorem warnings_foldl_setColor (ps : List shape.Place) (color : Color) :
    (ps.foldl (fun s p => s.setColor p color) s).warnings = s.warnings := by
  induction ps generalizing s with
  | nil => rfl
  | cons p ps ih => exact (ih _).trans (warnings_write s p _)

theorem warnings_foldl_restore (es : List (shape.Place × Cell)) :
    (es.foldl (fun s e => s.restore e.1 e.2) s).warnings = s.warnings := by
  induction es generalizing s with
  | nil => rfl
  | cons e es ih =>
    rw [List.foldl_cons, ih, restore, warnings_setText]
    exact warnings_write s e.1 _

theorem warnings_clear : s.clear.warnings = s.warnings := by
  have hfold : ∀ (ps : List shape.Place) (s : Session shape), (ps.foldl (fun s p =>
      (((s.announce p .text).announce p .value).announce p .backgroundColor).announce p .error)
        s).warnings = s.warnings := by
    intro ps
    induction ps with
    | nil => exact fun _ => rfl
    | cons p ps ih => exact fun s => ih _
  exact hfold _ _

end Session

end Quadrille
