import Mathlib.Data.Fintype.Pigeonhole
import Mathlib.Data.List.Chain
import Quadrille.Proofs.Sheet.Agenda

/-!
# What waits for what during a walk

The theory of walks so far begins with a sheet whose formulas and links agree with its texts. What
is said here holds of every walk, whatever the sheet says when it begins: formulas may be remembered
that no text gives, and links may lead anywhere. That is enough to know which cells are active. They
are those whose evaluation is among the tasks, each of them once, and of two that follow one another
there the lower one refers to the upper one, in its formula and in the links.

The reason is that a cell which has been entered is not read differently afterwards. Its formula is
remembered and its links are set when it becomes active, and until it is evaluated nothing touches
them but an attempt to enter it again. That attempt finds the same formula and closes a loop. So the
cells that become circular then do wait for one another.

## Main definitions

* `Walk.pending` — the cells whose evaluation is among some tasks
* `Sheet.Awaits` — a cell has been found to refer to another
* `Walk.Orderly` — the active cells are the pending ones, and each waits for the next

## Main results

* `Walk.Orderly.advance` — each task keeps that
* `Walk.Orderly.result_advance` — no task changes what a cell shows that has been dealt with
* `Walk.Circular.looped` — circular cells lead to a loop
-/

namespace Quadrille

variable {shape : Shape}

/-! ### How a cell is read -/

namespace Sheet

variable {s s' : Sheet shape} {p q : shape.Place} {tree : Tree} {targets : List shape.Place}

/-- The formula of a cell can be computed from certain others, and these are its links. -/
def Reads (s : Sheet shape) (p : shape.Place) (tree : Tree) (targets : List shape.Place) : Prop :=
  s.outlook p = .computed tree targets ∧ s.links.references.get p = some targets

/-- One cell has been found to refer to another. -/
def Awaits (s : Sheet shape) (p q : shape.Place) : Prop :=
  ∃ tree targets, s.Reads p tree targets ∧ q ∈ targets

/-- Nothing about a cell has changed: neither the cell, nor its formula, nor its links. -/
structure Untouched (s s' : Sheet shape) (p : shape.Place) : Prop where
  cell_eq : s'.cell p = s.cell p
  formula_eq : s'.formulas.get p = s.formulas.get p
  references_eq : s'.links.references.get p = s.links.references.get p

/-- What a cell comes to is a matter of its text and of the formula that is remembered for it. -/
theorem outlook_congr (ht : s'.texts p = s.texts p)
    (hf : s'.formulas.get p = s.formulas.get p) : s'.outlook p = s.outlook p := by
  have htext : (s'.cell p).text = (s.cell p).text := ht
  rw [outlook, outlook, htext]
  refine Outlook.ofInput_congr fun body _ => ?_
  rw [formula, formula, hf]

theorem Awaits.congr (h : s.Awaits p q) (ht : s'.texts p = s.texts p)
    (hf : s'.formulas.get p = s.formulas.get p)
    (hl : s'.links.references.get p = s.links.references.get p) : s'.Awaits p q := by
  obtain ⟨tree, targets, ⟨ho, href⟩, hq⟩ := h
  exact ⟨tree, targets, ⟨(outlook_congr ht hf).trans ho, hl.trans href⟩, hq⟩

theorem Untouched.awaits (h : s.Untouched s' p) (hp : s.Awaits p q) : s'.Awaits p q :=
  hp.congr (congrArg Cell.text h.cell_eq) h.formula_eq h.references_eq

/-- Nothing changes for a cell that can be computed when its formula is remembered. -/
theorem outlook_remember (h : s.outlook p = .computed tree targets) :
    (s.remember p (.expression tree)).outlook p = .computed tree targets := by
  obtain ⟨body, hbody, -, htargets⟩ := Outlook.ofInput_eq_computed_iff.mp h
  refine Outlook.ofInput_eq_computed_iff.mpr ⟨body, hbody, ?_, htargets⟩
  rw [formula, remember, Table.get_put_self]

end Sheet

namespace Walk

variable {s s' : Sheet shape} {w : Walk shape} {p q r : shape.Place} {o : Outlook shape}
  {tree : Tree} {targets : List shape.Place} {tasks rest : List (Task shape)}

/-! ### Pending evaluations -/

/-- The cells whose evaluation is among some tasks, in the order of the tasks. -/
def pending (tasks : List (Task shape)) : List shape.Place :=
  tasks.filterMap Task.evaluated?

@[simp] theorem pending_nil : pending ([] : List (Task shape)) = [] := rfl

@[simp] theorem pending_enter : pending (.enter p :: rest) = pending rest := rfl

@[simp] theorem pending_evaluate : pending (.evaluate p tree :: rest) = p :: pending rest := rfl

theorem pending_push (ps : List shape.Place) :
    pending (ps.map .enter ++ tasks) = pending tasks := by
  induction ps with
  | nil => rfl
  | cons p ps ih => rw [List.map_cons, List.cons_append, pending_enter, ih]

/-- Every task is there on behalf of the evaluation that comes next below it: the cell that is
evaluated there has been found to refer to the cell of the task. -/
def Linked (s : Sheet shape) : List (Task shape) → Prop
  | [] => True
  | .enter p :: rest | .evaluate p _ :: rest =>
    (∀ q ∈ (pending rest).head?, s.Awaits q p) ∧ Linked s rest

theorem Linked.congr (h : Linked s tasks) (hs : ∀ q ∈ pending tasks, s.Untouched s' q) :
    Linked s' tasks := by
  induction tasks with
  | nil => trivial
  | cons task rest ih =>
    cases task with
    | enter p =>
      refine ⟨fun q hq => ?_, ih h.2 hs⟩
      exact (hs q (List.mem_of_mem_head? hq)).awaits (h.1 q hq)
    | evaluate p tree =>
      have hrest : ∀ q ∈ pending rest, s.Untouched s' q := fun q hq =>
        hs q (List.mem_cons_of_mem p hq)
      refine ⟨fun q hq => ?_, ih h.2 hrest⟩
      exact (hrest q (List.mem_of_mem_head? hq)).awaits (h.1 q hq)

/-- In a chain everything but the first is related to something in it. -/
theorem exists_mem_of_isChain_cons {α : Type} {R : α → α → Prop} {a : α} {as : List α}
    (h : (a :: as).IsChain R) : ∀ b ∈ as, ∃ c ∈ a :: as, R c b := by
  induction as generalizing a with
  | nil => simp
  | cons b as ih =>
    obtain ⟨hab, hrest⟩ := List.isChain_cons_cons.mp h
    intro c hc
    rcases List.mem_cons.mp hc with rfl | hc
    · exact ⟨a, List.mem_cons_self, hab⟩
    · obtain ⟨d, hd, hdc⟩ := ih hrest c hc
      exact ⟨d, List.mem_cons_of_mem a hd, hdc⟩

/-- Of two pending cells that follow one another the lower one waits for the upper one. -/
theorem Linked.isChain (h : Linked s tasks) :
    (pending tasks).IsChain fun upper lower => s.Awaits lower upper := by
  induction tasks with
  | nil => exact .nil
  | cons task rest ih =>
    cases task with
    | enter p => exact ih h.2
    | evaluate p tree => exact List.isChain_cons.mpr ⟨h.1, ih h.2⟩

/-- What is pending below a cell to be entered waits for that cell or for a pending one. -/
theorem Linked.exists_awaits (h : Linked s (.enter p :: rest)) (hq : q ∈ pending rest) :
    ∃ r, (r = p ∨ r ∈ pending rest) ∧ s.Awaits q r := by
  have hchain : (p :: pending rest).IsChain fun upper lower => s.Awaits lower upper :=
    List.isChain_cons.mpr ⟨h.1, h.2.isChain⟩
  obtain ⟨r, hr, hawaits⟩ := exists_mem_of_isChain_cons hchain q hq
  exact ⟨r, List.mem_cons.mp hr, hawaits⟩

/-- A cell is taken up on behalf of the next pending one. -/
theorem Linked.push (h : Linked s tasks) (hbelow : ∀ q ∈ (pending tasks).head?, s.Awaits q p)
    (hp : s.Reads p tree targets) :
    Linked s (targets.map .enter ++ .evaluate p tree :: tasks) := by
  have hpush : ∀ ps : List shape.Place, (∀ q ∈ ps, q ∈ targets) →
      Linked s (ps.map .enter ++ .evaluate p tree :: tasks) := by
    intro ps hps
    induction ps with
    | nil => exact ⟨hbelow, h⟩
    | cons r ps ih =>
      refine ⟨fun q hq => ?_, ih fun q hq => hps q (List.mem_cons_of_mem r hq)⟩
      have hhead : (pending (ps.map .enter ++ .evaluate p tree :: tasks)).head? = some p := by
        rw [pending_push, pending_evaluate, List.head?_cons]
      obtain rfl := Option.some.inj (hhead.symm.trans hq)
      exact ⟨tree, targets, hp, hps r List.mem_cons_self⟩
  exact hpush targets fun q hq => hq

/-! ### What a task leaves alone -/

/-- Settling a cell with nothing to wait for touches no other. -/
theorem untouched_respond (ho : o.references? = none) (hpq : p ≠ q) :
    w.session.sheet.Untouched (w.respond p o).session.sheet q where
  cell_eq := by
    obtain ⟨-, -, hcell⟩ := respond_of_references?_eq_none (w := w) (p := p) ho
      w.session.sheet.numberNamed
    rw [hcell, if_neg hpq]
  formula_eq := by rw [formulas_respond, if_neg hpq]
  references_eq := by
    rw [links_respond, ho, Option.elim_none, Links.references_unlink, if_neg hpq]

/-- Nor does taking up a cell. -/
theorem untouched_link (hpq : p ≠ q) :
    w.session.sheet.Untouched
      ((w.remember p (.expression tree)).link p targets).session.sheet q where
  cell_eq := rfl
  formula_eq := Table.get_put_of_ne _ hpq _
  references_eq := (Links.references_link _ p targets q).trans (if_neg hpq)

/-- A cell that is taken up is read as it was, and its links are set. -/
theorem reads_link (ho : w.session.sheet.outlook p = .computed tree targets) :
    ((w.remember p (.expression tree)).link p targets).session.sheet.Reads p tree targets :=
  ⟨Sheet.outlook_remember ho, (Links.references_link _ p targets p).trans (if_pos rfl)⟩

/-- What a cell waits for it still waits for when it is taken up again. -/
theorem awaits_link (ho : w.session.sheet.outlook p = .computed tree targets)
    (h : w.session.sheet.Awaits q r) :
    ((w.remember p (.expression tree)).link p targets).session.sheet.Awaits q r := by
  by_cases hpq : p = q
  · subst hpq
    obtain ⟨tree', targets', ⟨ho', -⟩, hr⟩ := h
    obtain ⟨rfl, rfl⟩ := Outlook.computed.inj (ho.symm.trans ho')
    exact ⟨tree, targets, reads_link ho, hr⟩
  · exact (untouched_link hpq).awaits h

/-- Nor does an evaluation touch another cell. -/
theorem untouched_evaluate (hpq : p ≠ q) :
    w.session.sheet.Untouched (w.evaluate p tree rest).session.sheet q where
  cell_eq := by rw [session_evaluate, Session.cell_writeResult, if_neg hpq]
  formula_eq := by rw [session_evaluate, Session.formulas_writeResult]
  references_eq := by rw [session_evaluate, Session.links_writeResult]

/-- What becomes circular when the walk is cut short at a cell, or is so already. -/
def Caught (w : Walk shape) (p q : shape.Place) : Prop :=
  q = p ∨ w.marks.get q = .active ∨ w.marks.get q = .circular

theorem get_marks_cutShort_eq_circular_iff :
    (w.cutShort p).marks.get q = .circular ↔ w.Caught p q := by
  rw [get_marks_cutShort, Caught]
  split
  · next hmember => exact iff_of_true rfl (hmember.elim (Or.inr ∘ Or.inl) Or.inl)
  · next hout =>
    obtain ⟨hact, hqp⟩ := not_or.mp hout
    rw [or_iff_right hqp, or_iff_right hact]

theorem awaits_cutShort (h : w.session.sheet.Awaits q r) :
    (w.cutShort p).session.sheet.Awaits q r :=
  h.congr (congrFun texts_cutShort q)
    (congrArg (Table.get · q) (Session.formulas_foldl_complain _ _))
    (congrArg (Table.get ·.references q) (Session.links_foldl_complain _ _))

/-! ### The invariant -/

/-- The circular cells show it, and each of them waits for one of them. -/
structure Circular (s : Sheet shape) (circular : shape.Place → Prop) : Prop where
  result : ∀ q, circular q → (s.cell q).result = loopResult
  awaits : ∀ q, circular q → ∃ r, circular r ∧ s.Awaits q r

/-- The active cells are the pending ones, each once, and each waits for the next. -/
structure Orderly (w : Walk shape) : Prop where
  active_iff : ∀ q, w.marks.get q = .active ↔ q ∈ pending w.tasks
  nodup : (pending w.tasks).Nodup
  linked : Linked w.session.sheet w.tasks
  circular : Circular w.session.sheet fun q => w.marks.get q = .circular

/-- The same but for one cell, whose task has been taken off. -/
structure OrderlyBut (p : shape.Place) (w : Walk shape) : Prop where
  fresh : w.marks.get p ≠ .circular
  active_iff : ∀ q, p ≠ q → (w.marks.get q = .active ↔ q ∈ pending w.tasks)
  nodup : (p :: pending w.tasks).Nodup
  linked : Linked w.session.sheet w.tasks
  circular : Circular w.session.sheet fun q => w.marks.get q = .circular

theorem Circular.congr {circular circular' : shape.Place → Prop} (h : Circular s circular)
    (hiff : ∀ q, circular' q ↔ circular q) (hs : ∀ q, circular q → s.Untouched s' q) :
    Circular s' circular' where
  result q hq := by
    have hold := (hiff q).mp hq
    rw [(hs q hold).cell_eq, h.result q hold]
  awaits q hq := by
    have hold := (hiff q).mp hq
    obtain ⟨r, hr, hawaits⟩ := h.awaits q hold
    exact ⟨r, (hiff r).mpr hr, (hs q hold).awaits hawaits⟩

/-- From cell to cell that is waited for there is no end among the circular ones, so they lead to
a loop. -/
theorem Circular.looped {circular : shape.Place → Prop} (h : Circular s circular)
    (hq : circular q) :
    ∃ r, circular r ∧ Relation.ReflTransGen s.Awaits q r ∧ Relation.TransGen s.Awaits r r := by
  choose next hnext hawaits using h.awaits
  let f : {q // circular q} → {q // circular q} := fun x => ⟨next x x.2, hnext x x.2⟩
  have hsteps : ∀ (n : Nat) x, Relation.ReflTransGen s.Awaits x.1 (f^[n] x).1 := by
    intro n
    induction n with
    | zero => exact fun x => .refl
    | succ n ih => exact fun x => (ih (f x)).head (hawaits x.1 x.2)
  obtain ⟨m, n, hne, heq⟩ := Finite.exists_ne_map_eq_of_infinite fun n : Nat => f^[n] ⟨q, hq⟩
  wlog hlt : m < n generalizing m n
  · exact this n m hne.symm heq.symm (by omega)
  obtain ⟨k, rfl⟩ := Nat.exists_eq_add_of_lt hlt
  have hback : f^[k] (f (f^[m] ⟨q, hq⟩)) = f^[m] ⟨q, hq⟩ := by
    rw [← Function.iterate_succ_apply' f m, ← Function.iterate_add_apply, heq]
    congr 1
    omega
  refine ⟨f^[m] ⟨q, hq⟩, (f^[m] ⟨q, hq⟩).2, hsteps m ⟨q, hq⟩, ?_⟩
  have hround := hsteps k (f (f^[m] ⟨q, hq⟩))
  rw [hback] at hround
  exact .head' (hawaits _ (f^[m] ⟨q, hq⟩).2) hround

/-- A cell that is entered is left for the rest of the tasks. -/
theorem Orderly.skip (h : w.Orderly) (ht : w.tasks = .enter p :: rest) :
    Orderly { w with tasks := rest } := by
  obtain ⟨hactive, hnodup, hlinked, hcircular⟩ := h
  rw [ht] at hactive hnodup hlinked
  exact ⟨hactive, hnodup, hlinked.2, hcircular⟩

theorem Orderly.but (h : w.Orderly) (hp : w.marks.get p = .waiting) : w.OrderlyBut p where
  fresh := by simp [hp]
  active_iff q _ := h.active_iff q
  nodup := by
    refine List.nodup_cons.mpr ⟨fun hmem => ?_, h.nodup⟩
    exact absurd (hp.symm.trans ((h.active_iff p).mpr hmem)) (by decide)
  linked := h.linked
  circular := h.circular

theorem Orderly.but_evaluate (h : w.Orderly) (ht : w.tasks = .evaluate p tree :: rest) :
    OrderlyBut p { w with tasks := rest } := by
  obtain ⟨hactive, hnodup, hlinked, hcircular⟩ := h
  rw [ht] at hactive hnodup hlinked
  have hp : w.marks.get p = .active := (hactive p).mpr List.mem_cons_self
  refine ⟨by simp [hp], fun q hpq => (hactive q).trans ?_, hnodup, hlinked.2, hcircular⟩
  rw [pending_evaluate, List.mem_cons, or_iff_right (Ne.symm hpq)]

theorem OrderlyBut.ne_of_mem (h : w.OrderlyBut p) (hq : q ∈ pending w.tasks) : p ≠ q := fun hpq =>
  (List.nodup_cons.mp h.nodup).1 (hpq ▸ hq)

/-- A change to the cell at hand leaves the circular ones as they are. -/
theorem OrderlyBut.circular_put {w' : Walk shape} {m : Mark} (h : w.OrderlyBut p)
    (hm : m ≠ .circular) (hs : ∀ q, p ≠ q → w.session.sheet.Untouched w'.session.sheet q) :
    Circular w'.session.sheet fun q => (w.marks.put p m).get q = .circular := by
  refine h.circular.congr (fun q => ?_) fun q hq => hs q ?_
  · rw [Table.get_put]
    split
    · next hpq => exact iff_of_false hm (hpq ▸ h.fresh)
    · rfl
  · rintro rfl
    exact h.fresh hq

/-- The cell is settled. -/
theorem OrderlyBut.settle {w' : Walk shape} (h : w.OrderlyBut p) (ht : w'.tasks = w.tasks)
    (hm : w'.marks = w.marks.put p .settled)
    (hs : ∀ q, p ≠ q → w.session.sheet.Untouched w'.session.sheet q) : w'.Orderly where
  active_iff q := by
    rw [hm, ht, Table.get_put]
    split
    · next hpq => exact iff_of_false (by decide) fun hq => h.ne_of_mem hq hpq
    · next hpq => exact h.active_iff q hpq
  nodup := ht ▸ (List.nodup_cons.mp h.nodup).2
  linked := ht ▸ h.linked.congr fun q hq => hs q (h.ne_of_mem hq)
  circular := hm ▸ h.circular_put (by decide) hs

/-- The cell is taken up. -/
theorem OrderlyBut.push {w' : Walk shape} (h : w.OrderlyBut p)
    (hbelow : ∀ q ∈ (pending w.tasks).head?, w.session.sheet.Awaits q p)
    (ht : w'.tasks = targets.map .enter ++ .evaluate p tree :: w.tasks)
    (hm : w'.marks = w.marks.put p .active)
    (hs : ∀ q, p ≠ q → w.session.sheet.Untouched w'.session.sheet q)
    (hp : w'.session.sheet.Reads p tree targets) : w'.Orderly := by
  have hpending : pending w'.tasks = p :: pending w.tasks := by
    rw [ht, pending_push, pending_evaluate]
  refine
    { active_iff := fun q => ?_
      nodup := hpending ▸ h.nodup
      linked := ht ▸ Linked.push ?_ (fun q hq => ?_) hp
      circular := hm ▸ h.circular_put (by decide) hs }
  · rw [hm, hpending, Table.get_put, List.mem_cons]
    split
    · next hpq => exact iff_of_true rfl (Or.inl hpq.symm)
    · next hpq => rw [h.active_iff q hpq, or_iff_right (Ne.symm hpq)]
  · exact h.linked.congr fun q hq => hs q (h.ne_of_mem hq)
  · exact (hs q (h.ne_of_mem (List.mem_of_mem_head? hq))).awaits (hbelow q hq)

/-- A walk that is cut short leaves nothing pending and no cell active. -/
theorem orderly_cutShort
    (hresult : ∀ q, w.marks.get q = .circular → (w.session.sheet.cell q).result = loopResult)
    (hawaits : ∀ q, w.Caught p q → ∃ r, w.Caught p r ∧ w.session.sheet.Awaits q r) :
    (w.cutShort p).Orderly where
  active_iff q := by
    rw [get_marks_cutShort]
    refine iff_of_false (fun hq => ?_) List.not_mem_nil
    split at hq
    · exact absurd hq (by decide)
    · next hout => exact hout (Or.inl hq)
  nodup := List.nodup_nil
  linked := trivial
  circular :=
    { result := fun q hq => by
        rw [get_marks_cutShort] at hq
        rw [cell_cutShort]
        split
        · rfl
        · next hout => exact hresult q (by rwa [if_neg hout] at hq)
      awaits := fun q hq => by
        obtain ⟨r, hr, hqr⟩ := hawaits q (get_marks_cutShort_eq_circular_iff.mp hq)
        exact ⟨r, get_marks_cutShort_eq_circular_iff.mpr hr, awaits_cutShort hqr⟩ }

/-- What the next task is about is waited for by the next pending cell. -/
theorem Orderly.awaits_enter (h : w.Orderly) (ht : w.tasks = .enter p :: rest) :
    ∀ q ∈ (pending rest).head?, w.session.sheet.Awaits q p := by
  have hlinked := h.linked
  rw [ht] at hlinked
  exact hlinked.1

/-- An active cell waits for the one that is entered or for an active one. -/
theorem Orderly.exists_awaits (h : w.Orderly) (ht : w.tasks = .enter p :: rest)
    (hq : w.marks.get q = .active) :
    ∃ r, (r = p ∨ w.marks.get r = .active) ∧ w.session.sheet.Awaits q r := by
  have hlinked := h.linked
  have hmem := (h.active_iff q).mp hq
  rw [ht] at hlinked hmem
  obtain ⟨r, hr, hawaits⟩ := hlinked.exists_awaits hmem
  refine ⟨r, hr.imp_right fun hr => (h.active_iff r).mpr ?_, hawaits⟩
  rw [ht]
  exact hr

/-- **A loop is closed rightly:** whatever becomes circular waits for something that does. -/
theorem Orderly.exists_awaits_of_caught (h : w.Orderly) (ht : w.tasks = .enter p :: rest)
    (hp : w.marks.get p = .active ∨ w.marks.get p = .circular) (hq : w.Caught p q) :
    ∃ r, w.Caught p r ∧ w.session.sheet.Awaits q r := by
  have hmark : w.marks.get q = .active ∨ w.marks.get q = .circular := by
    rcases hq with rfl | hq
    · exact hp
    · exact hq
  rcases hmark with hact | hcir
  · obtain ⟨r, hr, hawaits⟩ := h.exists_awaits ht hact
    exact ⟨r, hr.imp_right Or.inl, hawaits⟩
  · obtain ⟨r, hr, hawaits⟩ := h.circular.awaits q hcir
    exact ⟨r, Or.inr (Or.inr hr), hawaits⟩

/-- Entering a cell with nothing to wait for settles it, and it was not active. -/
theorem Orderly.enter_of_references?_eq_none (h : w.Orderly) (ht : w.tasks = .enter p :: rest)
    (ho : (w.session.sheet.outlook p).references? = none) :
    w.marks.get p ≠ .active ∧ (w.enter p rest).tasks = rest ∧
      (w.enter p rest).marks = w.marks.put p .settled := by
  obtain ⟨htasks, hmarks, -⟩ := respond_of_references?_eq_none
    (w := { w with tasks := rest }.remark (.recalculating p)) (p := p) ho
    w.session.sheet.numberNamed
  refine ⟨fun hact => ?_, htasks, hmarks⟩
  obtain ⟨r, -, tree, targets, ⟨hcomputed, -⟩, -⟩ := h.exists_awaits ht hact
  rw [hcomputed] at ho
  exact Option.some_ne_none targets ho

/-- Entering a cell that is waiting or active. -/
theorem Orderly.enter (h : w.Orderly) (ht : w.tasks = .enter p :: rest)
    (hp : w.marks.get p = .waiting ∨ w.marks.get p = .active) : (w.enter p rest).Orderly := by
  have hskip : Orderly ({ w with tasks := rest }.remark (.recalculating p)) := by
    obtain ⟨hactive, hnodup, hlinked, hcircular⟩ := h.skip ht
    exact ⟨hactive, hnodup, hlinked, hcircular⟩
  cases hrefs : (w.session.sheet.outlook p).references? with
  | none =>
    obtain ⟨hact, htasks, hmarks⟩ := h.enter_of_references?_eq_none ht hrefs
    have hbut := hskip.but (hp.resolve_right hact)
    exact hbut.settle htasks hmarks fun q => untouched_respond hrefs
  | some targets =>
    obtain ⟨tree, ho⟩ := Outlook.exists_eq_computed hrefs
    rw [Walk.enter, ho, respond, pursue]
    split
    · next hact =>
      refine orderly_cutShort h.circular.result fun q hq => ?_
      obtain ⟨r, hr, hawaits⟩ := h.exists_awaits_of_caught ht (Or.inl hact) hq
      exact ⟨r, hr, awaits_link ho hawaits⟩
    · next hact =>
      have hbut := hskip.but (hp.resolve_right hact)
      exact hbut.push (h.awaits_enter ht) rfl rfl (fun q => untouched_link) (reads_link ho)

/-- **Each task keeps the invariant.** -/
theorem Orderly.advance (h : w.Orderly) : w.advance.Orderly := by
  rw [Walk.advance]
  split
  · exact h
  · next p tree rest ht =>
    exact (h.but_evaluate ht).settle rfl rfl fun q => untouched_evaluate
  · next p rest ht =>
    split
    · exact h.skip ht
    · split
      · exact h.skip ht
      · exact orderly_cutShort h.circular.result fun q =>
          h.exists_awaits_of_caught ht (Or.inr ‹_›)
    · next hp => exact h.enter ht (Or.inl hp)
    · next hp => exact h.enter ht (Or.inr hp)

/-! ### What has been dealt with -/

/-- A circular cell may be written to again, and then it is given the complaint that it has. -/
theorem result_cutShort
    (h : ∀ q, w.marks.get q = .circular → (w.session.sheet.cell q).result = loopResult)
    (hp : w.marks.get p ≠ .settled) (hq : w.marks.Done q) :
    ((w.cutShort p).session.sheet.cell q).result = (w.session.sheet.cell q).result := by
  rw [cell_cutShort]
  split
  · next hmember =>
    rcases hmember with hact | rfl
    · exact absurd hact (Marks.done_iff.mp hq).2
    · rw [Cell.result_withResult, h q (hq.resolve_left hp)]
  · rfl

/-- **No task changes what a cell shows that has been dealt with.** -/
theorem Orderly.result_advance (h : w.Orderly) (hq : w.marks.Done q) :
    (w.advance.session.sheet.cell q).result = (w.session.sheet.cell q).result := by
  have hother : ∀ {p}, w.marks.get p = .waiting ∨ w.marks.get p = .active → p ≠ q := by
    rintro p hp rfl
    exact hp.elim (Marks.done_iff.mp hq).1 (Marks.done_iff.mp hq).2
  have henter : ∀ {p rest}, w.marks.get p = .waiting ∨ w.marks.get p = .active →
      ((w.enter p rest).session.sheet.cell q).result = (w.session.sheet.cell q).result := by
    intro p rest hp
    cases hrefs : (w.session.sheet.outlook p).references? with
    | none => exact congrArg Cell.result (untouched_respond hrefs (hother hp)).cell_eq
    | some targets =>
      obtain ⟨tree, ho⟩ := Outlook.exists_eq_computed hrefs
      rw [Walk.enter, ho, respond, pursue]
      split
      · refine result_cutShort h.circular.result (fun hsettled => ?_) hq
        rcases hp with hp | hp <;> exact absurd (hp.symm.trans hsettled) (by decide)
      · rfl
  rw [Walk.advance]
  split
  · rfl
  · next p tree rest ht =>
    have hp : w.marks.get p = .active := (h.active_iff p).mpr (by simp [ht])
    exact congrArg Cell.result (untouched_evaluate (hother (Or.inr hp))).cell_eq
  · next p rest ht =>
    split
    · rfl
    · next hp =>
      split
      · rfl
      · exact result_cutShort h.circular.result (by simp [hp]) hq
    · next hp => exact henter (Or.inl hp)
    · next hp => exact henter (Or.inr hp)

/-! ### Beginning and end -/

/-- A walk begins orderly when no cell is active. -/
theorem orderly_start {session : Session shape} {marks : Marks shape}
    (hidle : ∀ q, marks.get q ≠ .active)
    (hcircular : Circular session.sheet fun q => marks.get q = .circular) :
    (start session marks p).Orderly where
  active_iff q := iff_of_false (hidle q) List.not_mem_nil
  nodup := List.nodup_nil
  linked := ⟨by simp, trivial⟩
  circular := hcircular

/-- No cell is active when there is nothing left to do. -/
theorem Orderly.idle (h : w.Orderly) (ht : w.tasks = []) (q : shape.Place) :
    w.marks.get q ≠ .active := by
  intro hq
  have hmem := (h.active_iff q).mp hq
  rw [ht] at hmem
  exact List.not_mem_nil hmem

end Walk

end Quadrille
