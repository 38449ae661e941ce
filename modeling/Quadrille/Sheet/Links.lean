import Quadrille.Sheet.Table

/-!
# Links between cells

Which cells the formula of a cell refers to, and, the other way round, which cells refer to a cell.
The two directions are kept side by side: the first to know what a cell needs, the second to know
what has to be computed again when it changes. `Links.link` and `Links.unlink` change both at once.

Places are the numbers below `n`. Lists of places are strictly increasing, and a place that nothing
refers to has no list rather than an empty one.
-/

namespace Quadrille

/-- The links among `n` cells. -/
structure Links (n : Nat) where
  /-- For a cell with a formula that can be computed, the cells that it refers to. -/
  references : Table (Option (List (Fin n))) n
  /-- For a cell that is referred to, the cells that refer to it. -/
  dependents : Table (Option (List (Fin n))) n
  deriving DecidableEq

namespace Links

variable {n : Nat}

/-- No links. -/
def none : Links n :=
  ⟨Table.fill .none, Table.fill .none⟩

/-- Puts a place into an increasing list, unless it is there already. -/
def insertPlace (p : Fin n) : List (Fin n) → List (Fin n)
  | [] => [p]
  | q :: qs => if p < q then p :: q :: qs else if p = q then q :: qs else q :: insertPlace p qs

/-- The increasing list of the places in a list. -/
def increasing (ps : List (Fin n)) : List (Fin n) :=
  ps.foldr insertPlace []

/-- The cells that refer to a cell. -/
def dependentsOf (l : Links n) (target : Fin n) : List (Fin n) :=
  (l.dependents.get target).getD []

/-- Records that a cell is referred to by another. -/
def addDependent (l : Links n) (target p : Fin n) : Links n :=
  { l with dependents := l.dependents.put target (some (insertPlace p (l.dependentsOf target))) }

/-- Forgets that a cell is referred to by another. -/
def removeDependent (l : Links n) (target p : Fin n) : Links n :=
  match l.dependents.get target with
  | .none => l
  | some ps =>
    let rest := ps.filter (· != p)
    { l with dependents := l.dependents.put target (if rest.isEmpty then .none else some rest) }

/-- Removes the links from a cell. -/
def unlink (l : Links n) (p : Fin n) : Links n :=
  match l.references.get p with
  | .none => l
  | some targets =>
    targets.foldl (fun l target => l.removeDependent target p)
      { l with references := l.references.put p .none }

/-- Replaces the links from a cell by links to the given places, which are increasing. -/
def link (l : Links n) (p : Fin n) (targets : List (Fin n)) : Links n :=
  if l.references.get p = some targets then l
  else
    let l := targets.foldl (fun l target => l.addDependent target p) (l.unlink p)
    { l with references := l.references.put p (some targets) }

end Links

end Quadrille
