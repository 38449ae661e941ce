import Quadrille.Proofs.Document.Run
import Quadrille.Proofs.Sheet.Agenda

/-!
# Recalculations of a document

What a new text sets off in a document that has been worked on, whatever loops of references there
are before or after it: it comes to an end within a number of tasks that depends on the size of the
grid alone, it evaluates no cell twice, and it deals with every cell that is affected.

The cells that are affected are meant by the links as they are at the end. No walk changes a text,
so the links at the end are those that the search followed, but for the edited cell itself, whose
links are put right before the search begins.

## Main results

* `Document.recalculation_run`
-/

namespace Quadrille

variable {shape : Shape}

namespace Document

/-- **The recalculation after an edit,** in any document that can be reached, for any cell and any
new text. It consists of walks for different cells, one after another, and each walk ends when its
tasks are done, of which there are not more in all than the size of the grid allows. No cell is
evaluated twice. The edited cell, and every cell that leads to it along the links that there are at
the end, has a walk of its own; it has been dealt with when that walk is over, and also at the end,
whether or not this walk or one before it was cut short by a loop. -/
theorem recalculation_run (shape : Shape) (limit : Nat) (actions : List Action)
    (journal : Journal shape) (p : shape.Place) (text : String) :
    let s : Session shape := { sheet := (run shape limit actions).sheet, journal }
    let edited := (s.write p (.text text)).forget p
    let start := Cascade.start edited p
    let order := edited.itinerary p
    let last := order.foldl Cascade.refresh start
    ((s.cell p).text ≠ text → s.setText p text = edited.recalculate p) ∧
    edited.recalculate p = last.session ∧
    order.Nodup ∧
    (∀ w : Walk shape, Walk.advance^[w.agenda.length] w = w.run ∧ w.run.tasks = []) ∧
    (start.agenda order).length ≤ shape.size * (shape.size + 2) ∧
    ((start.agenda order).filterMap Task.evaluated?).Nodup ∧
    (∀ q, Relation.ReflTransGen (fun q r => q ∈ last.session.sheet.links.dependentsOf r) q p →
      q ∈ order ∧ last.marks.Done q) ∧
    ∀ earlier q later, order = earlier ++ q :: later →
      ((earlier ++ [q]).foldl Cascade.refresh start).marks.Done q := by
  intro s edited start order last
  have hindexed : s.sheet.Indexed := (upToDate_run shape limit actions).toIndexed
  have hbut : edited.sheet.IndexedBut p := Session.indexedBut_write_text hindexed p text
  obtain ⟨hrest, hdone⟩ := Session.done_recalculated hbut
  refine ⟨fun hne => if_neg hne, edited.recalculate_eq p, edited.nodup_itinerary p,
    fun w => ⟨w.iterate_advance_agenda, w.tasks_run⟩, edited.length_agenda_itinerary_le p,
    (Session.evaluates_itinerary hbut).nodup, fun q hq => hdone q ?_,
    fun earlier q later => Session.done_foldl_refresh hbut⟩
  -- the links at the end are those of the texts, and the texts have not been changed
  refine Relation.ReflTransGen.mono (fun a b hab => ?_) q p hq
  show edited.sheet.texts.Refers a b
  rw [← hrest.texts_eq]
  exact hrest.indexed.mem_dependentsOf.mp hab

/-- Closing a loop between two cells. The walk for the edited one is cut short, the other finds
itself dealt with, and nothing has been evaluated. -/
example :
    let s : Session ⟨1, 2⟩ := { sheet := (run ⟨1, 2⟩ 9 [.setText ⟨0, 0⟩ "=B1"]).sheet }
    let p : Shape.Place ⟨1, 2⟩ := ⟨1, by decide⟩
    let edited := (s.write p (.text "=A1")).forget p
    (edited.itinerary p).map Fin.val = [1, 0] ∧
      ((Cascade.start edited p).agenda (edited.itinerary p)).filterMap Task.evaluated? = [] ∧
      (edited.recalculated p).marks.get p = .circular := by
  refine ⟨?_, ?_, ?_⟩ <;> cbv

end Document

end Quadrille
