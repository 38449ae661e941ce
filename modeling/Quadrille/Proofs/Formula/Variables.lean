import Quadrille.Formula.Tree
import Quadrille.Proofs.FirstMention

/-!
# The variables of an expression

An expression is traversed once to collect its variables. The list of what has been seen goes
through the left operand first and then, with whatever that has added, through the right one. So
what a traversal adds depends on what came before it, and an induction on the expression has to be
about any beginning: after names that have been collected already, the traversal comes to what
leaving out the repetitions makes of those names and the leaves together
(`Tree.collectNames_eraseDups`).

An expression has no other way to a value than its leaves, and the variables list all of them.
Therefore its value is a matter of the values of these names alone.

## Main definitions

* `Tree.leafNames`, `Formula.leafNames` — the variables as often as they occur
* `Formula.Lists` — a list of exactly the variables, in the order of their first occurrence

## Main results

* `Formula.lists_iff` — the variables of a formula are the only such list
* `Tree.evaluate_congr`, `Formula.evaluate_congr` — the value depends on them alone
* `Formula.evaluate_table` — so a table for them is as good as any values for all names
-/

namespace Quadrille

/-! ### Collecting -/

namespace Tree

variable {t : Tree} {name : String}

/-- The variables at the leaves, from left to right, each as often as it occurs. -/
def leafNames : Tree → List String
  | .constant _ => []
  | .variable name => [name]
  | .binary _ left right => left.leafNames ++ right.leafNames

/-- **Collecting goes on from any names** as if they had been at leaves further to the left. -/
theorem collectNames_eraseDups (t : Tree) (before : List String) :
    t.collectNames before.eraseDups = (before ++ t.leafNames).eraseDups := by
  induction t generalizing before with
  | constant x => rw [collectNames, leafNames, List.append_nil]
  | «variable» name => rw [collectNames, leafNames, eraseDups_append_singleton]
  | binary op left right ihl ihr =>
    rw [collectNames, ihl, ihr, leafNames, List.append_assoc]

theorem variableNames_eq (t : Tree) : t.variableNames = t.leafNames.eraseDups :=
  t.collectNames_eraseDups []

theorem mem_variableNames : name ∈ t.variableNames ↔ name ∈ t.leafNames := by
  rw [variableNames_eq, List.mem_eraseDups]

/-- The value of an expression depends only on the values of its variables. -/
theorem evaluate_congr {v w : String → Float} (h : ∀ name ∈ t.leafNames, v name = w name) :
    t.evaluate v = t.evaluate w := by
  induction t with
  | constant x => rfl
  | «variable» name => exact h name (List.mem_singleton_self name)
  | binary op left right ihl ihr =>
    rw [evaluate, evaluate, ihl fun name hn => h name (List.mem_append_left _ hn),
      ihr fun name hn => h name (List.mem_append_right _ hn)]

end Tree

/-! ### Formulas -/

namespace Formula

variable {f : Formula} {name : String}

/-- The variables at the leaves of a formula, from left to right, each as often as it occurs. -/
def leafNames : Formula → List String
  | .blank => []
  | .expression tree => tree.leafNames

/-- A list of what is at the leaves of a formula: each variable that occurs there is in it, once,
and no other name is, and of two variables the one that occurs first comes first. -/
structure Lists (f : Formula) (names : List String) : Prop where
  mem_iff : ∀ name, name ∈ names ↔ name ∈ f.leafNames
  nodup : names.Nodup
  inOrder : names.Pairwise fun a b => f.leafNames.idxOf a < f.leafNames.idxOf b

theorem variableNames_eq (f : Formula) : f.variableNames = f.leafNames.eraseDups := by
  cases f with
  | blank => rfl
  | expression tree => exact tree.variableNames_eq

/-- **The variables of a formula** are listed, and there is one such list. -/
theorem lists_iff {names : List String} : f.Lists names ↔ names = f.variableNames := by
  rw [variableNames_eq]
  constructor
  · intro h
    exact eq_eraseDups_of_pairwise h.mem_iff h.inOrder
  · rintro rfl
    exact ⟨fun name => List.mem_eraseDups, nodup_eraseDups _, pairwise_eraseDups _⟩

theorem mem_variableNames : name ∈ f.variableNames ↔ name ∈ f.leafNames :=
  (lists_iff.mpr rfl).mem_iff name

/-- The value of a formula depends only on the values of its variables. -/
theorem evaluate_congr {v w : String → Float} (h : ∀ name ∈ f.variableNames, v name = w name) :
    f.evaluate v = f.evaluate w := by
  cases f with
  | blank => rfl
  | expression tree => exact Tree.evaluate_congr fun name hn => h name (mem_variableNames.mpr hn)

end Formula

/-! ### Tables -/

/-- A table made for some names has their values. -/
theorem Bindings.value_map {names : List String} {name : String} (value : String → Float)
    (h : name ∈ names) :
    Bindings.value (names.map fun name => (name, value name)) name = value name := by
  have found : (names.map fun name => (name, value name)).lookup name = some (value name) := by
    induction names with
    | nil => simp at h
    | cons other names ih =>
      rw [List.map_cons, List.lookup_cons]
      split
      · next heq => rw [beq_iff_eq.mp heq]
      · next hne =>
        exact ih ((List.mem_cons.mp h).resolve_left fun heq => by simp [heq] at hne)
  rw [Bindings.value, found, Option.getD_some]

/-- A table for the variables of a formula is all that it takes to evaluate it. -/
theorem Formula.evaluate_table (f : Formula) (value : String → Float) :
    f.evaluate (Bindings.value (f.variableNames.map fun name => (name, value name))) =
      f.evaluate value :=
  evaluate_congr fun _ hname => Bindings.value_map value hname

end Quadrille
