import Mathlib.Data.List.Sort
import Mathlib.Order.Fin.Basic
import Quadrille.Sheet.Links

/-!
# Links that say what they should

A pair of link tables *represents* an assignment of target lists to places when the first table is
that assignment and the second is the same relation read backwards, with every list strictly
increasing and no list empty. `Links.link` and `Links.unlink` change what is represented at one
place and nowhere else, whatever was represented before.

## Implementation notes

The backward table is described by membership, not by a closed form, because that is what survives
the two folds in `link` and `unlink` one target at a time. Nothing is lost: an increasing list is
determined by its members, so two pairs of tables that represent the same assignment are equal
(`Represents.unique`).

## Main results

* `mem_increasing`, `pairwise_increasing` — the list of places behind a formula
* `Represents.link`, `Represents.unlink` — the effect of the two operations
* `Represents.unique` — the assignment determines the tables
-/

namespace Quadrille

namespace Links

variable {n : Nat}

/-! ### Increasing lists -/

theorem mem_insertPlace {p q : Fin n} {ps : List (Fin n)} :
    q ∈ insertPlace p ps ↔ q = p ∨ q ∈ ps := by
  induction ps with
  | nil => simp [insertPlace]
  | cons r ps ih =>
    rw [insertPlace]
    split
    · simp
    · split
      · next h =>
        subst h
        simp
      · rw [List.mem_cons, ih, List.mem_cons]
        tauto

theorem pairwise_insertPlace {p : Fin n} {ps : List (Fin n)} (h : ps.Pairwise (· < ·)) :
    (insertPlace p ps).Pairwise (· < ·) := by
  induction ps with
  | nil => simp [insertPlace]
  | cons r ps ih =>
    obtain ⟨hr, hps⟩ := List.pairwise_cons.mp h
    rw [insertPlace]
    split
    · next hlt =>
      refine List.pairwise_cons.mpr ⟨fun q hq => ?_, h⟩
      rcases List.mem_cons.mp hq with rfl | hq
      · exact hlt
      · exact Fin.lt_trans hlt (hr q hq)
    · split
      · exact h
      · refine List.pairwise_cons.mpr ⟨fun q hq => ?_, ih hps⟩
        rcases mem_insertPlace.mp hq with rfl | hq
        · omega
        · exact hr q hq

theorem mem_increasing {q : Fin n} {ps : List (Fin n)} : q ∈ increasing ps ↔ q ∈ ps := by
  induction ps with
  | nil => simp [increasing]
  | cons p ps ih =>
    rw [show increasing (p :: ps) = insertPlace p (increasing ps) from rfl, mem_insertPlace, ih,
      List.mem_cons]

theorem pairwise_increasing (ps : List (Fin n)) : (increasing ps).Pairwise (· < ·) := by
  induction ps with
  | nil => simp [increasing]
  | cons p ps ih => exact pairwise_insertPlace ih

/-- An increasing list is determined by its members. -/
theorem eq_of_mem_iff {ps qs : List (Fin n)} (hp : ps.Pairwise (· < ·)) (hq : qs.Pairwise (· < ·))
    (h : ∀ r, r ∈ ps ↔ r ∈ qs) : ps = qs :=
  hp.eq_of_mem_iff hq h

/-! ### Tidy tables -/

/-- The lists of dependents are increasing, and none is empty. -/
def Tidy (l : Links n) : Prop :=
  ∀ q, (l.dependentsOf q).Pairwise (· < ·) ∧ l.dependents.get q ≠ some []

theorem mem_dependentsOf_addDependent {l : Links n} {target p q r : Fin n} :
    r ∈ (l.addDependent target p).dependentsOf q ↔
      r ∈ l.dependentsOf q ∨ (q = target ∧ r = p) := by
  rw [dependentsOf, addDependent, Table.get_put]
  split
  · next h =>
    subst h
    rw [Option.getD_some, mem_insertPlace]
    tauto
  · next h =>
    rw [← dependentsOf]
    exact ⟨Or.inl, fun hr => hr.resolve_right fun hq => h hq.1.symm⟩

theorem Tidy.addDependent {l : Links n} (h : l.Tidy) (target p : Fin n) :
    (l.addDependent target p).Tidy := by
  intro q
  rw [dependentsOf, Links.addDependent, Table.get_put]
  split
  · refine ⟨pairwise_insertPlace (h target).1, fun hnil => ?_⟩
    have hp : p ∈ insertPlace p (l.dependentsOf target) := mem_insertPlace.mpr (Or.inl rfl)
    rw [Option.some.inj hnil] at hp
    simp at hp
  · exact h q

theorem mem_dependentsOf_removeDependent {l : Links n} {target p q r : Fin n} :
    r ∈ (l.removeDependent target p).dependentsOf q ↔
      r ∈ l.dependentsOf q ∧ ¬(q = target ∧ r = p) := by
  rw [removeDependent]
  split
  · next h =>
    refine ⟨fun hr => ⟨hr, fun ⟨hq, _⟩ => ?_⟩, And.left⟩
    rw [hq, dependentsOf, h] at hr
    simp at hr
  · next ps h =>
    rw [dependentsOf, Table.get_put]
    split
    · next hq =>
      subst hq
      have hget : (if (ps.filter (· != p)).isEmpty then Option.none
          else some (ps.filter (· != p))).getD [] = ps.filter (· != p) := by
        split
        · next hempty => rw [List.isEmpty_iff.mp hempty]; rfl
        · rfl
      rw [hget, List.mem_filter, dependentsOf, h]
      simp
    · next hq =>
      rw [← dependentsOf]
      exact ⟨fun hr => ⟨hr, fun hqr => hq hqr.1.symm⟩, And.left⟩

theorem Tidy.removeDependent {l : Links n} (h : l.Tidy) (target p : Fin n) :
    (l.removeDependent target p).Tidy := by
  intro q
  rw [Links.removeDependent]
  split
  · exact h q
  · next ps hps =>
    rw [dependentsOf, Table.get_put]
    split
    · have hsorted : ps.Pairwise (· < ·) := by
        have := (h target).1
        rwa [dependentsOf, hps] at this
      split
      · exact ⟨List.Pairwise.nil, by simp⟩
      · next hne =>
        refine ⟨hsorted.filter _, fun hnil => hne ?_⟩
        rw [Option.some.inj hnil, List.isEmpty_nil]
    · exact h q

/-! ### Several targets at once -/

theorem mem_dependentsOf_foldl_addDependent {targets : List (Fin n)} {l : Links n}
    {p q r : Fin n} :
    r ∈ (targets.foldl (fun l target => l.addDependent target p) l).dependentsOf q ↔
      r ∈ l.dependentsOf q ∨ (q ∈ targets ∧ r = p) := by
  induction targets generalizing l with
  | nil => simp
  | cons target targets ih =>
    rw [List.foldl_cons, ih, mem_dependentsOf_addDependent, List.mem_cons]
    tauto

theorem mem_dependentsOf_foldl_removeDependent {targets : List (Fin n)} {l : Links n}
    {p q r : Fin n} :
    r ∈ (targets.foldl (fun l target => l.removeDependent target p) l).dependentsOf q ↔
      r ∈ l.dependentsOf q ∧ ¬(q ∈ targets ∧ r = p) := by
  induction targets generalizing l with
  | nil => simp
  | cons target targets ih =>
    rw [List.foldl_cons, ih, mem_dependentsOf_removeDependent, List.mem_cons]
    tauto

theorem Tidy.foldl {f : Links n → Fin n → Links n} (hf : ∀ l target, l.Tidy → (f l target).Tidy)
    {targets : List (Fin n)} {l : Links n} (h : l.Tidy) : (targets.foldl f l).Tidy := by
  induction targets generalizing l with
  | nil => exact h
  | cons target targets ih => exact ih (hf l target h)

/-- Neither fold touches the forward table. -/
theorem references_foldl {f : Links n → Fin n → Links n}
    (hf : ∀ l target, (f l target).references = l.references) (targets : List (Fin n))
    (l : Links n) : (targets.foldl f l).references = l.references := by
  induction targets generalizing l with
  | nil => rfl
  | cons target targets ih => rw [List.foldl_cons, ih, hf]

theorem references_addDependent (l : Links n) (target p : Fin n) :
    (l.addDependent target p).references = l.references := rfl

theorem references_removeDependent (l : Links n) (target p : Fin n) :
    (l.removeDependent target p).references = l.references := by
  rw [removeDependent]
  split <;> rfl

/-- The forward table after the links from a place have been removed. -/
theorem references_unlink (l : Links n) (p q : Fin n) :
    (l.unlink p).references.get q = if p = q then Option.none else l.references.get q := by
  rw [unlink]
  split
  · next hp =>
    split
    · next hpq => rw [← hpq, hp]
    · rfl
  · rw [references_foldl (fun l target => references_removeDependent l target p), Table.get_put]

theorem mem_dependentsOf_unlink {l : Links n} {p q r : Fin n} :
    r ∈ (l.unlink p).dependentsOf q ↔
      r ∈ l.dependentsOf q ∧ ¬(q ∈ (l.references.get p).getD [] ∧ r = p) := by
  rw [unlink]
  cases l.references.get p with
  | none => simp
  | some targets => exact mem_dependentsOf_foldl_removeDependent

theorem Tidy.unlink {l : Links n} (h : l.Tidy) (p : Fin n) : (l.unlink p).Tidy := by
  rw [Links.unlink]
  split
  · exact h
  · exact Tidy.foldl (fun l target hl => hl.removeDependent target p) h

/-- The forward table after the links from a place have been replaced. -/
theorem references_link (l : Links n) (p : Fin n) (targets : List (Fin n)) (q : Fin n) :
    (l.link p targets).references.get q =
      if p = q then some targets else l.references.get q := by
  rw [link]
  split
  · next hp =>
    split
    · next hpq => rw [← hpq, hp]
    · rfl
  · show ((targets.foldl (fun l target => l.addDependent target p) (l.unlink p)).references.put p
      (some targets)).get q = _
    rw [references_foldl (fun l target => references_addDependent l target p), Table.get_put,
      references_unlink]
    split <;> rfl

/-! ### What is represented -/

/-- The tables hold exactly the links that `f` assigns: forwards as they are, backwards as
increasing lists of which none is empty. -/
structure Represents (l : Links n) (f : Fin n → Option (List (Fin n))) : Prop where
  references_get : ∀ p, l.references.get p = f p
  mem_dependentsOf : ∀ p q, p ∈ l.dependentsOf q ↔ ∃ targets, f p = some targets ∧ q ∈ targets
  tidy : l.Tidy

theorem represents_none : (none : Links n).Represents fun _ => .none where
  references_get p := by simp [none]
  mem_dependentsOf p q := by simp [none, dependentsOf]
  tidy q := by simp [none, dependentsOf]

theorem Represents.congr {l : Links n} {f g : Fin n → Option (List (Fin n))}
    (h : l.Represents f) (hfg : ∀ p, f p = g p) : l.Represents g := by
  rw [← funext hfg]
  exact h

/-- Links represent one assignment, and an assignment is represented by one pair of tables. -/
theorem Represents.unique {l₁ l₂ : Links n} {f : Fin n → Option (List (Fin n))}
    (h₁ : l₁.Represents f) (h₂ : l₂.Represents f) : l₁ = l₂ := by
  have hdep : ∀ q, l₁.dependentsOf q = l₂.dependentsOf q := fun q =>
    eq_of_mem_iff (h₁.tidy q).1 (h₂.tidy q).1 fun p => by
      rw [h₁.mem_dependentsOf, h₂.mem_dependentsOf]
  obtain ⟨r₁, d₁⟩ := l₁
  obtain ⟨r₂, d₂⟩ := l₂
  rw [mk.injEq]
  refine ⟨Table.ext fun p => ?_, Table.ext fun q => ?_⟩
  · exact (h₁.references_get p).trans (h₂.references_get p).symm
  · have hq := hdep q
    have hne₁ := (h₁.tidy q).2
    have hne₂ := (h₂.tidy q).2
    simp only [dependentsOf] at hq hne₁ hne₂
    cases hd₁ : d₁.get q <;> cases hd₂ : d₂.get q <;> simp_all

/-- Removing the links from a place. -/
theorem Represents.unlink {l : Links n} {f : Fin n → Option (List (Fin n))}
    (h : l.Represents f) (p : Fin n) :
    (l.unlink p).Represents (Function.update f p .none) where
  references_get q := by
    rw [references_unlink, h.references_get, Function.update_apply]
    exact if_congr eq_comm rfl rfl
  mem_dependentsOf q r := by
    rw [mem_dependentsOf_unlink, h.mem_dependentsOf, h.references_get]
    rcases eq_or_ne q p with rfl | hq
    · rw [Function.update_self]
      cases f q <;> simp
    · rw [Function.update_of_ne hq]
      simp [hq]
  tidy := h.tidy.unlink p

/-- Replacing the links from a place. -/
theorem Represents.link {l : Links n} {f : Fin n → Option (List (Fin n))} (h : l.Represents f)
    (p : Fin n) (targets : List (Fin n)) :
    (l.link p targets).Represents (Function.update f p (some targets)) := by
  have hreferences : ∀ q, (l.link p targets).references.get q =
      Function.update f p (some targets) q := by
    intro q
    rw [references_link, h.references_get, Function.update_apply]
    exact if_congr eq_comm rfl rfl
  by_cases hp : l.references.get p = some targets
  · have hsame : l.link p targets = l := if_pos hp
    rw [hsame] at hreferences ⊢
    exact h.congr fun q => (h.references_get q).symm.trans (hreferences q)
  · have hu := h.unlink p
    refine ⟨hreferences, fun q r => ?_, ?_⟩
    · rw [Links.link, if_neg hp]
      show q ∈ (targets.foldl (fun l target => l.addDependent target p)
        (l.unlink p)).dependentsOf r ↔ _
      rw [mem_dependentsOf_foldl_addDependent, hu.mem_dependentsOf]
      rcases eq_or_ne q p with rfl | hq
      · rw [Function.update_self, Function.update_self]
        simp
      · rw [Function.update_of_ne hq, Function.update_of_ne hq]
        simp [hq]
    · rw [Links.link, if_neg hp]
      exact Tidy.foldl (fun l target hl => hl.addDependent target p) hu.tidy

end Links

end Quadrille
