import Mathlib.Data.Finset.Basic
import Mathlib.Data.Fintype.Basic
import Quadrille.Proofs.Sheet.Pending

/-!
# The books of a recalculation

One mark per cell rules out by its type much of what could go wrong in a recalculation. Another way
to keep the books is with three sets of cells: those that are being calculated, those that are
settled, and of the settled ones those that are circular. Then nothing is ruled out. A cell could be
left among those being calculated after its walk, and be taken for part of a loop by the next one.

Here such a ledger is kept beside the walks of a recalculation. It takes its own decisions, from its
own sets, and it comes out that they are those of the marks at every task
(`Ledger.ofMarks_advance`). So what is known of the marks holds of the sets. In particular nothing
is left among the cells being calculated when a walk is over, whether or not it was cut short.

## Implementation notes

A `Stage` is a recalculation in the middle of a walk. From the end of a walk any cell may be next:
which cells the search picks is no matter for the ledger. That the stages of an actual recalculation
are among them is part of the main result.

## Main definitions

* `Ledger`, `Ledger.advance` — the three sets, and what a task does to them
* `Stage`, `Stage.Next` — a recalculation in the middle of a walk, and what comes after it
* `Stage.Kept` — the ledger is in order

## Main results

* `Ledger.ofMarks_advance` — the sets and the marks go together
* `Session.stages_kept` — the ledger is in order at every stage of a recalculation
-/

namespace Quadrille

variable {shape : Shape}

/-- Three sets of cells that say how far a recalculation has come. -/
@[ext]
structure Ledger (shape : Shape) where
  /-- The cells whose evaluation has been put off for the cells that they refer to. -/
  calculating : Finset shape.Place
  /-- The cells that are up to date. -/
  settled : Finset shape.Place
  /-- The cells that were found to be on a loop or to lead into one. -/
  circular : Finset shape.Place

namespace Ledger

/-- The ledger before a recalculation. -/
def empty : Ledger shape :=
  ⟨∅, ∅, ∅⟩

/-- A cell with nothing to wait for is settled. -/
def settle (l : Ledger shape) (p : shape.Place) : Ledger shape :=
  { l with settled := insert p l.settled }

/-- A cell waits for others. -/
def take (l : Ledger shape) (p : shape.Place) : Ledger shape :=
  { l with calculating := insert p l.calculating }

/-- A cell has been evaluated. -/
def finish (l : Ledger shape) (p : shape.Place) : Ledger shape :=
  { l with calculating := l.calculating.erase p, settled := insert p l.settled }

/-- A cell closes a loop or leads into one. It and all that are being calculated are settled as
circular. -/
def abort (l : Ledger shape) (p : shape.Place) : Ledger shape where
  calculating := ∅
  settled := l.settled ∪ insert p l.calculating
  circular := l.circular ∪ insert p l.calculating

/-- What a task does to the ledger, by the ledger's own sets and the sheet that the task finds. -/
def advance (l : Ledger shape) (s : Sheet shape) : Task shape → Ledger shape
  | .enter p =>
    if p ∈ l.settled then
      if p ∈ l.circular ∧ l.calculating ≠ ∅ then l.abort p else l
    else
      match (s.outlook p).references? with
      | none => l.settle p
      | some _ => if p ∈ l.calculating then l.abort p else l.take p
  | .evaluate p _ => l.finish p

/-! ### The ledger that the marks amount to -/

/-- The ledger that says what some marks say. -/
def ofMarks (marks : Marks shape) : Ledger shape where
  calculating := {q | marks.get q = .active}
  settled := {q | marks.get q = .settled ∨ marks.get q = .circular}
  circular := {q | marks.get q = .circular}

variable {marks : Marks shape} {w : Walk shape} {p q : shape.Place} {task : Task shape}
  {rest : List (Task shape)}

theorem mem_calculating : q ∈ (ofMarks marks).calculating ↔ marks.get q = .active := by
  simp [ofMarks]

theorem mem_settled : q ∈ (ofMarks marks).settled ↔ marks.Done q := by
  simp [ofMarks, Marks.Done]

theorem mem_circular : q ∈ (ofMarks marks).circular ↔ marks.get q = .circular := by
  simp [ofMarks]

theorem ext_mem {l l' : Ledger shape} (hcal : ∀ q, q ∈ l.calculating ↔ q ∈ l'.calculating)
    (hset : ∀ q, q ∈ l.settled ↔ q ∈ l'.settled) (hcir : ∀ q, q ∈ l.circular ↔ q ∈ l'.circular) :
    l = l' :=
  Ledger.ext (Finset.ext hcal) (Finset.ext hset) (Finset.ext hcir)

theorem ofMarks_fresh : ofMarks (Marks.fresh : Marks shape) = empty := by
  refine ext_mem (fun q => ?_) (fun q => ?_) (fun q => ?_)
  · simp [mem_calculating, empty]
  · simp [mem_settled, Marks.Done, empty]
  · simp [mem_circular, empty]

/-- A cell that was active or waiting is settled. -/
theorem ofMarks_put_settled (hp : marks.get p ≠ .circular) :
    ofMarks (marks.put p .settled) = (ofMarks marks).finish p := by
  refine ext_mem (fun q => ?_) (fun q => ?_) (fun q => ?_)
  · rw [mem_calculating, finish, Finset.mem_erase, mem_calculating, Table.get_put]
    split
    · next hpq => simp [hpq]
    · next hpq => simp [Ne.symm hpq]
  · rw [mem_settled, finish, Finset.mem_insert, mem_settled, Marks.Done, Table.get_put]
    split
    · next hpq => simp [hpq]
    · next hpq => simp [Ne.symm hpq, Marks.Done]
  · rw [mem_circular, finish, mem_circular, Table.get_put]
    split
    · next hpq => simp [← hpq, hp]
    · rfl

theorem ofMarks_put_active (hp : marks.get p = .waiting) :
    ofMarks (marks.put p .active) = (ofMarks marks).take p := by
  refine ext_mem (fun q => ?_) (fun q => ?_) (fun q => ?_)
  · rw [mem_calculating, take, Finset.mem_insert, mem_calculating, Table.get_put]
    split
    · next hpq => simp [hpq]
    · next hpq => simp [Ne.symm hpq]
  · rw [mem_settled, take, mem_settled, Marks.Done, Table.get_put]
    split
    · next hpq => simp [← hpq, hp, Marks.Done]
    · rfl
  · rw [mem_circular, take, mem_circular, Table.get_put]
    split
    · next hpq => simp [← hpq, hp]
    · rfl

theorem ofMarks_cutShort : ofMarks (w.cutShort p).marks = (ofMarks w.marks).abort p := by
  have hmember : ∀ q, q ∈ insert p (ofMarks w.marks).calculating ↔
      w.marks.get q = .active ∨ q = p := fun q => by
    rw [Finset.mem_insert, mem_calculating, or_comm]
  refine ext_mem (fun q => ?_) (fun q => ?_) (fun q => ?_)
  · refine iff_of_false (fun hq => ?_) (Finset.notMem_empty q)
    rw [mem_calculating, Walk.get_marks_cutShort] at hq
    split at hq
    · exact absurd hq (by decide)
    · next hout => exact hout (Or.inl hq)
  · rw [mem_settled, abort, Finset.mem_union, hmember, mem_settled, Marks.Done,
      Walk.get_marks_cutShort]
    split
    · next hin => exact iff_of_true (Or.inr rfl) (Or.inr hin)
    · next hout => rw [or_iff_left hout, Marks.Done]
  · rw [mem_circular, abort, Finset.mem_union, hmember, mem_circular, Walk.get_marks_cutShort]
    split
    · next hin => exact iff_of_true rfl (Or.inr hin)
    · next hout => rw [or_iff_left hout]

/-- Settling is the same whether or not the cell is taken off those being calculated, if it is not
one of them. -/
theorem finish_eq_settle {l : Ledger shape} (hp : p ∉ l.calculating) : l.finish p = l.settle p := by
  rw [finish, settle, Finset.erase_eq_of_notMem hp]

/-! ### One task -/

/-- Entering a cell that is waiting or active. -/
theorem ofMarks_enter (h : w.Orderly) (ht : w.tasks = .enter p :: rest)
    (hp : w.marks.get p = .waiting ∨ w.marks.get p = .active) :
    ofMarks (w.enter p rest).marks =
      (ofMarks w.marks).advance w.session.sheet (.enter p) := by
  have hnot : p ∉ (ofMarks w.marks).settled := fun hdone => by
    have hdone := Marks.done_iff.mp (mem_settled.mp hdone)
    exact hp.elim hdone.1 hdone.2
  have hcal : p ∈ (ofMarks w.marks).calculating ↔ w.marks.get p = .active := mem_calculating
  rw [advance, if_neg hnot]
  cases hrefs : (w.session.sheet.outlook p).references? with
  | none =>
    obtain ⟨hact, -, hmarks⟩ := h.enter_of_references?_eq_none ht hrefs
    have hwait : w.marks.get p = .waiting := hp.resolve_right hact
    rw [hmarks, ofMarks_put_settled (by simp [hwait])]
    exact finish_eq_settle (hcal.not.mpr hact)
  | some targets =>
    obtain ⟨tree, ho⟩ := Outlook.exists_eq_computed hrefs
    dsimp only
    rw [Walk.enter, ho, Walk.respond, Walk.pursue]
    split
    · next hact =>
      rw [if_pos (hcal.mpr hact)]
      exact ofMarks_cutShort
    · next hact =>
      rw [if_neg (hcal.not.mpr hact)]
      exact ofMarks_put_active (hp.resolve_right hact)

/-- **The sets and the marks go together.** -/
theorem ofMarks_advance (h : w.Orderly) (ht : w.tasks = task :: rest) :
    ofMarks w.advance.marks = (ofMarks w.marks).advance w.session.sheet task := by
  rw [Walk.advance, ht]
  cases task with
  | evaluate p tree =>
    have hp : w.marks.get p = .active := (h.active_iff p).mpr (by simp [ht])
    exact ofMarks_put_settled (by simp [hp])
  | enter p =>
    dsimp only
    cases hp : w.marks.get p with
    | waiting => exact ofMarks_enter h ht (Or.inl hp)
    | active => exact ofMarks_enter h ht (Or.inr hp)
    | settled =>
      have hdone : p ∈ (ofMarks w.marks).settled := mem_settled.mpr (Or.inl hp)
      have hcir : p ∉ (ofMarks w.marks).circular := mem_circular.not.mpr (by simp [hp])
      dsimp only
      rw [advance, if_pos hdone, if_neg fun hboth => hcir hboth.1]
    | circular =>
      have hdone : p ∈ (ofMarks w.marks).settled := mem_settled.mpr (Or.inr hp)
      have hcir : p ∈ (ofMarks w.marks).circular := mem_circular.mpr hp
      have hempty : (w.marks.places .active).isEmpty ↔ (ofMarks w.marks).calculating = ∅ := by
        simp [Marks.places, Finset.ext_iff, mem_calculating, List.filter_eq_nil_iff]
      dsimp only
      rw [advance, if_pos hdone]
      split
      · next hnone =>
        rw [if_neg fun hboth => hboth.2 (hempty.mp hnone)]
      · next hsome =>
        rw [if_pos ⟨hcir, hempty.not.mp hsome⟩]
        exact ofMarks_cutShort

end Ledger

/-! ### Stages -/

/-- A recalculation in the middle of a walk. -/
structure Stage (shape : Shape) where
  /-- The cell that the walk is for. -/
  origin : shape.Place
  walk : Walk shape
  ledger : Ledger shape

namespace Stage

variable {st st' : Stage shape} {c : Cascade shape} {p q : shape.Place}

/-- The sheet as it is. -/
def sheet (st : Stage shape) : Sheet shape :=
  st.walk.session.sheet

/-- The beginning of a recalculation. -/
def first (s : Session shape) (origin : shape.Place) : Stage shape :=
  ⟨origin, Walk.start s Marks.fresh origin, Ledger.empty⟩

/-- The session that a walk leaves to the next one. -/
def handedOn (st : Stage shape) : Session shape :=
  if st.walk.looped then st.walk.session.remark (.inLoop st.origin) else st.walk.session

/-- What may come after a stage: the next task, or another walk when there is none. The next walk
goes on with the marks and the ledger as they are. -/
inductive Next : Stage shape → Stage shape → Prop
  | task {st : Stage shape} {task : Task shape} {rest : List (Task shape)}
      (ht : st.walk.tasks = task :: rest) :
      Next st ⟨st.origin, st.walk.advance, st.ledger.advance st.sheet task⟩
  | walk {st : Stage shape} (p : shape.Place) (ht : st.walk.tasks = []) :
      Next st ⟨p, Walk.start st.handedOn st.walk.marks p, st.ledger⟩

/-- One stage comes after another, with any number of stages in between. -/
def Reaches : Stage shape → Stage shape → Prop :=
  Relation.ReflTransGen Next

theorem sheet_handedOn : st.handedOn.sheet = st.sheet := by
  rw [handedOn]
  split <;> rfl

/-! ### The invariant -/

/-- The walk is orderly, the ledger says what the marks say, and the cell that the walk is for is to
be entered next or has been entered. -/
structure Sound (st : Stage shape) : Prop where
  orderly : st.walk.Orderly
  ledger_eq : st.ledger = Ledger.ofMarks st.walk.marks
  origin : st.walk.tasks.head? = some (.enter st.origin) ∨
    st.walk.marks.get st.origin ≠ .waiting

theorem sound_first (s : Session shape) (o : shape.Place) : (first s o).Sound where
  orderly := by
    refine Walk.orderly_start Marks.idle_fresh ?_
    constructor <;> simp
  ledger_eq := Ledger.ofMarks_fresh.symm
  origin := Or.inl rfl

theorem Sound.next (h : st.Sound) (hnext : st.Next st') : st'.Sound := by
  cases hnext with
  | @task task rest ht =>
    refine ⟨h.orderly.advance, ?_, Or.inr (Walk.advance_ne_waiting h.origin)⟩
    rw [Ledger.ofMarks_advance h.orderly ht, h.ledger_eq, sheet]
  | walk p ht =>
    refine ⟨Walk.orderly_start (h.orderly.idle ht) ?_, h.ledger_eq, Or.inl rfl⟩
    rw [sheet_handedOn]
    exact h.orderly.circular

theorem Sound.reaches (h : st.Sound) (hreach : st.Reaches st') : st'.Sound := by
  induction hreach with
  | refl => exact h
  | tail _ hnext ih => exact ih.next hnext

/-! ### What the ledger says -/

/-- The ledger is in order. -/
structure Kept (st : Stage shape) : Prop where
  /-- The marks say the same. -/
  ledger_eq : st.ledger = Ledger.ofMarks st.walk.marks
  /-- The cells that are being calculated are those whose evaluation is still to come, each once. -/
  mem_calculating : ∀ q, q ∈ st.ledger.calculating ↔ q ∈ Walk.pending st.walk.tasks
  nodup : (Walk.pending st.walk.tasks).Nodup
  /-- Of two that follow one another the lower one refers to the upper one. -/
  isChain : (Walk.pending st.walk.tasks).IsChain fun upper lower => st.sheet.Awaits lower upper
  disjoint : Disjoint st.ledger.calculating st.ledger.settled
  circular_subset : st.ledger.circular ⊆ st.ledger.settled
  /-- No cell is taken for part of a loop without one: every circular cell leads to a cell that
  waits for itself. -/
  looped : ∀ q ∈ st.ledger.circular, ∃ r ∈ st.ledger.circular,
    Relation.ReflTransGen st.sheet.Awaits q r ∧ Relation.TransGen st.sheet.Awaits r r
  /-- When the walk is over, cut short or not, nothing is being calculated. -/
  ended : st.walk.tasks = [] → st.ledger.calculating = ∅ ∧ st.origin ∈ st.ledger.settled

theorem Sound.kept (h : st.Sound) : st.Kept where
  ledger_eq := h.ledger_eq
  mem_calculating q := by
    rw [h.ledger_eq, Ledger.mem_calculating, h.orderly.active_iff]
  nodup := h.orderly.nodup
  isChain := h.orderly.linked.isChain
  disjoint := by
    rw [h.ledger_eq, Finset.disjoint_left]
    intro q hcal hset
    exact (Marks.done_iff.mp (Ledger.mem_settled.mp hset)).2 (Ledger.mem_calculating.mp hcal)
  circular_subset q hq := by
    rw [h.ledger_eq] at hq ⊢
    exact Ledger.mem_settled.mpr (Or.inr (Ledger.mem_circular.mp hq))
  looped q hq := by
    rw [h.ledger_eq, Ledger.mem_circular] at hq
    obtain ⟨r, hr, hqr, hrr⟩ := h.orderly.circular.looped hq
    exact ⟨r, h.ledger_eq ▸ Ledger.mem_circular.mpr hr, hqr, hrr⟩
  ended ht := by
    have hidle := h.orderly.idle ht
    have horigin := h.origin.resolve_left (by simp [ht])
    rw [h.ledger_eq]
    refine ⟨Finset.eq_empty_of_forall_notMem fun q hq => ?_, ?_⟩
    · exact hidle q (Ledger.mem_calculating.mp hq)
    · exact Ledger.mem_settled.mpr (Marks.done_iff.mpr ⟨horigin, hidle st.origin⟩)

/-- The cells that are settled at one stage are so at another, with the same value and the same
complaint. -/
def Keeps (st st' : Stage shape) : Prop :=
  ∀ q ∈ st.ledger.settled, q ∈ st'.ledger.settled ∧
    (st'.sheet.cell q).result = (st.sheet.cell q).result

theorem Sound.keeps_next (h : st.Sound) (hnext : st.Next st') : st.Keeps st' := by
  have hsound := h.next hnext
  intro q hq
  rw [h.ledger_eq, Ledger.mem_settled] at hq
  rw [hsound.ledger_eq, Ledger.mem_settled]
  cases hnext with
  | task ht => exact ⟨Walk.done_advance hq, h.orderly.result_advance hq⟩
  | walk p ht =>
    refine ⟨hq, ?_⟩
    show (st.handedOn.sheet.cell q).result = _
    rw [sheet_handedOn]

theorem Sound.keeps (h : st.Sound) (hreach : st.Reaches st') : st.Keeps st' := by
  induction hreach with
  | refl => exact fun q hq => ⟨hq, rfl⟩
  | tail hreach hnext ih =>
    intro q hq
    obtain ⟨hmid, hresult⟩ := ih q hq
    obtain ⟨hset, hresult'⟩ := (h.reaches hreach).keeps_next hnext q hmid
    exact ⟨hset, hresult'.trans hresult⟩

/-! ### The stages of an actual recalculation -/

/-- The walk at a stage goes on. -/
theorem exists_reaches_iterate (st : Stage shape) (n : Nat) :
    ∃ l, st.Reaches ⟨st.origin, Walk.advance^[n] st.walk, l⟩ := by
  induction n with
  | zero => exact ⟨st.ledger, .refl⟩
  | succ n ih =>
    obtain ⟨l, hreach⟩ := ih
    rw [Function.iterate_succ_apply']
    cases ht : (Walk.advance^[n] st.walk).tasks with
    | nil =>
      have hend : (Walk.advance^[n] st.walk).advance = Walk.advance^[n] st.walk := by
        rw [Walk.advance, ht]
      rw [hend]
      exact ⟨l, hreach⟩
    | cons task rest => exact ⟨_, hreach.tail (.task ht)⟩

/-- After a walk comes one for any cell, with what the recalculation has made of the sheet. -/
theorem exists_reaches_refresh (l : Ledger shape) (q : shape.Place) :
    ∃ l', Reaches ⟨p, Walk.start c.session c.marks p, l⟩
      ⟨q, Walk.start (c.refresh p).session (c.refresh p).marks q, l'⟩ := by
  obtain ⟨l', hreach⟩ := exists_reaches_iterate ⟨p, Walk.start c.session c.marks p, l⟩
    (Walk.start c.session c.marks p).agenda.length
  rw [Walk.iterate_advance_agenda] at hreach
  exact ⟨l', hreach.tail (.walk q (Walk.tasks_run _))⟩

theorem exists_reaches_foldl_refresh (l : Ledger shape) (ps : List shape.Place)
    (q : shape.Place) :
    ∃ l', Reaches ⟨p, Walk.start c.session c.marks p, l⟩
      ⟨q, Walk.start ((p :: ps).foldl Cascade.refresh c).session
        ((p :: ps).foldl Cascade.refresh c).marks q, l'⟩ := by
  induction ps generalizing c p l with
  | nil => exact exists_reaches_refresh l q
  | cons r ps ih =>
    obtain ⟨l', hfirst⟩ := exists_reaches_refresh (c := c) (p := p) l r
    obtain ⟨l'', hrest⟩ := ih l'
    exact ⟨l'', hfirst.trans hrest⟩

end Stage

namespace Session

variable {s : Session shape} {o q : shape.Place}

/-- What a recalculation passes through in the walk for one of the cells of its itinerary. -/
theorem exists_reaches_of_itinerary {earlier later : List shape.Place}
    (hsplit : s.itinerary o = earlier ++ q :: later) (n : Nat) :
    ∃ l, (Stage.first s o).Reaches
      ⟨q, Walk.advance^[n] (Walk.start (earlier.foldl Cascade.refresh (Cascade.start s o)).session
        (earlier.foldl Cascade.refresh (Cascade.start s o)).marks q), l⟩ := by
  cases earlier with
  | nil =>
    obtain ⟨rfl, -⟩ := List.cons.inj hsplit
    exact (Stage.first s o).exists_reaches_iterate n
  | cons p ps =>
    obtain ⟨rfl, -⟩ := List.cons.inj hsplit
    obtain ⟨l, hstart⟩ := Stage.exists_reaches_foldl_refresh (c := Cascade.start s o) (p := o)
      Ledger.empty ps q
    obtain ⟨l', hwalk⟩ := Stage.exists_reaches_iterate _ n
    exact ⟨l', hstart.trans hwalk⟩

/-- What a recalculation leaves is handed on by the last of its walks. -/
theorem exists_reaches_recalculate (s : Session shape) (o : shape.Place) :
    ∃ st, (Stage.first s o).Reaches st ∧ st.walk.tasks = [] ∧ st.handedOn = s.recalculate o := by
  obtain ⟨earlier, q, hlast⟩ : ∃ earlier q, s.itinerary o = earlier ++ [q] :=
    ⟨_, _, (List.dropLast_append_getLast (List.cons_ne_nil o _)).symm⟩
  obtain ⟨l, hreach⟩ := exists_reaches_of_itinerary hlast
    (Walk.start (earlier.foldl Cascade.refresh (Cascade.start s o)).session
      (earlier.foldl Cascade.refresh (Cascade.start s o)).marks q).agenda.length
  rw [Walk.iterate_advance_agenda] at hreach
  refine ⟨_, hreach, Walk.tasks_run _, ?_⟩
  rw [recalculate_eq, recalculated, hlast, List.foldl_append]
  rfl

/-- **The books of a recalculation are in order.** From the first stage on, between any two tasks of
any walk and whatever the sheet was like, the ledger is in order, and what has been settled stays as
it is. What comes after the first stage includes every stage of every walk that the recalculation
makes, and its end. -/
theorem stages_kept (s : Session shape) (o : shape.Place) :
    (∀ st, (Stage.first s o).Reaches st →
      st.Kept ∧ ∀ st', st.Reaches st' → st.Keeps st') ∧
    (∀ earlier q later, s.itinerary o = earlier ++ q :: later →
      let c := earlier.foldl Cascade.refresh (Cascade.start s o)
      ∀ n, ∃ l, (Stage.first s o).Reaches
        ⟨q, Walk.advance^[n] (Walk.start c.session c.marks q), l⟩) ∧
    ∃ st, (Stage.first s o).Reaches st ∧ st.walk.tasks = [] ∧ st.handedOn = s.recalculate o := by
  refine ⟨fun st hreach => ?_, fun earlier q later hsplit => ?_, exists_reaches_recalculate s o⟩
  · have hsound := (Stage.sound_first s o).reaches hreach
    exact ⟨hsound.kept, fun st' hreach' => hsound.keeps hreach'⟩
  · exact exists_reaches_of_itinerary hsplit

end Session

end Quadrille
