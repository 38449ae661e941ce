import Quadrille.Proofs.Sheet.Equations
import Quadrille.Sheet.Recalculation

/-!
# What the steps of a session change

One lemma for each operation of a session and each part of a sheet: cells, links and formulas. A
write changes one property of one cell and nothing else, the operations on links and formulas leave
the cells alone, and remarks leave the whole sheet alone. The rest of the theory
sees sessions only through these.
-/

namespace Quadrille

/-- A cell with another outcome. -/
def Cell.withResult (c : Cell) (r : String × Option String) : Cell :=
  { c with value := r.1, error := r.2 }

@[simp] theorem Cell.result_withResult (c : Cell) (r : String × Option String) :
    (c.withResult r).result = r := rfl

@[simp] theorem Cell.given_withResult (c : Cell) (r : String × Option String) :
    (c.withResult r).given = c.given := rfl

/-- After the same write to every place of a list, the entries at these places are written and the
others are not. -/
theorem Table.get_foldl_put {α : Type} {n : Nat} (ps : List (Fin n)) (t : Table α n) (x : α)
    (q : Fin n) :
    (ps.foldl (fun t p => t.put p x) t).get q = if q ∈ ps then x else t.get q := by
  induction ps generalizing t with
  | nil => simp
  | cons p ps ih =>
    rw [List.foldl_cons, ih, get_put]
    by_cases hq : q ∈ ps
    · rw [if_pos hq, if_pos (List.mem_cons_of_mem _ hq)]
    · rw [if_neg hq]
      by_cases hpq : p = q
      · rw [if_pos hpq, if_pos (hpq ▸ List.mem_cons_self)]
      · rw [if_neg hpq, if_neg (by simp [hq, Ne.symm hpq])]

namespace Session

variable {shape : Shape} (s : Session shape) (p q : shape.Place)

/-! ### Remarks -/

@[simp] theorem sheet_remark (r : Remark shape) : (s.remark r).sheet = s.sheet := rfl

theorem sheet_foldl_remark (rs : List (Remark shape)) :
    (rs.foldl remark s).sheet = s.sheet := by
  induction rs generalizing s with
  | nil => rfl
  | cons r rs ih => rw [List.foldl_cons, ih, sheet_remark]

/-! ### Writes -/

theorem cell_write (e : Edit) :
    (s.write p e).sheet.cell q = if p = q then (s.sheet.cell p).edit e else s.sheet.cell q := by
  rw [write]
  split
  · next h =>
    split
    · next hpq => rw [← hpq]; exact h.symm
    · rfl
  · exact Table.get_put _ _ _ _

@[simp] theorem links_write (e : Edit) : (s.write p e).sheet.links = s.sheet.links := by
  rw [write]
  split <;> rfl

@[simp] theorem formulas_write (e : Edit) : (s.write p e).sheet.formulas = s.sheet.formulas := by
  rw [write]
  split <;> rfl

theorem cell_writeResult (value : String) (error : Option String) :
    (s.writeResult p value error).sheet.cell q =
      if p = q then (s.sheet.cell p).withResult (value, error) else s.sheet.cell q := by
  rw [writeResult, cell_write, cell_write, cell_write, if_pos rfl]
  split <;> rfl

@[simp] theorem links_writeResult (value : String) (error : Option String) :
    (s.writeResult p value error).sheet.links = s.sheet.links := by
  rw [writeResult, links_write, links_write]

@[simp] theorem formulas_writeResult (value : String) (error : Option String) :
    (s.writeResult p value error).sheet.formulas = s.sheet.formulas := by
  rw [writeResult, formulas_write, formulas_write]

/-! ### Links and formulas -/

@[simp] theorem links_link (targets : List shape.Place) :
    (s.link p targets).sheet.links = s.sheet.links.link p targets := rfl

@[simp] theorem formulas_link (targets : List shape.Place) :
    (s.link p targets).sheet.formulas = s.sheet.formulas := rfl

@[simp] theorem links_unlink : (s.unlink p).sheet.links = s.sheet.links.unlink p := rfl

@[simp] theorem formulas_unlink : (s.unlink p).sheet.formulas = s.sheet.formulas := rfl

@[simp] theorem links_remember (f : Formula) :
    (s.remember p f).sheet.links = s.sheet.links := rfl

@[simp] theorem formulas_remember (f : Formula) :
    (s.remember p f).sheet.formulas = s.sheet.formulas.put p (some f) := rfl

@[simp] theorem cell_forget : (s.forget p).sheet.cell q = s.sheet.cell q := rfl

@[simp] theorem links_forget : (s.forget p).sheet.links = s.sheet.links := rfl

@[simp] theorem formulas_forget :
    (s.forget p).sheet.formulas = s.sheet.formulas.put p none := rfl

/-! ### The complaint about loops on several cells -/

theorem cell_foldl_complain (ps : List shape.Place) :
    (ps.foldl Walk.complain s).sheet.cell q =
      if q ∈ ps then (s.sheet.cell q).withResult loopResult else s.sheet.cell q := by
  induction ps generalizing s with
  | nil => simp
  | cons p ps ih =>
    rw [List.foldl_cons, ih, Walk.complain, cell_writeResult]
    by_cases hpq : p = q
    · subst hpq
      rw [if_pos rfl, if_pos List.mem_cons_self]
      split <;> rfl
    · simp [hpq, Ne.symm hpq]

@[simp] theorem links_foldl_complain (ps : List shape.Place) :
    (ps.foldl Walk.complain s).sheet.links = s.sheet.links := by
  induction ps generalizing s with
  | nil => rfl
  | cons p ps ih => rw [List.foldl_cons, ih, Walk.complain, links_writeResult]

@[simp] theorem formulas_foldl_complain (ps : List shape.Place) :
    (ps.foldl Walk.complain s).sheet.formulas = s.sheet.formulas := by
  induction ps generalizing s with
  | nil => rfl
  | cons p ps ih => rw [List.foldl_cons, ih, Walk.complain, formulas_writeResult]

end Session

end Quadrille
