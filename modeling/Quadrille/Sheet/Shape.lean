import Quadrille.Address

/-!
# Grids

A grid has a number of rows and a number of columns, and a place for every pair of them. Places are
numbered row by row, so that their order is the reading order of the grid and a place is nothing but
an index into the list of cells.

Everything that happens on a sheet is phrased in places. An address is checked against the grid
once, by `Shape.place?`, and there is no index out of range after that.
-/

namespace Quadrille

/-- The size of a grid. -/
structure Shape where
  rows : Nat
  columns : Nat
  deriving DecidableEq, Repr

namespace Shape

/-- The grid with the given numbers of rows and columns, of which it has at least one each. -/
def clamped (rows columns : Nat) : Shape :=
  ⟨max 1 rows, max 1 columns⟩

/-- The number of cells of a grid. -/
def size (shape : Shape) : Nat :=
  shape.rows * shape.columns

/-- A cell's place in a grid, counted in reading order. -/
abbrev Place (shape : Shape) := Fin shape.size

variable {shape : Shape}

/-- Whether a row and a column lie in the grid. -/
def Holds (shape : Shape) (a : Address) : Prop :=
  a.row < shape.rows ∧ a.column < shape.columns

instance (a : Address) : Decidable (shape.Holds a) :=
  inferInstanceAs (Decidable (_ ∧ _))

theorem index_lt {a : Address} (h : shape.Holds a) :
    a.row * shape.columns + a.column < shape.size :=
  calc a.row * shape.columns + a.column
      < a.row * shape.columns + shape.columns := Nat.add_lt_add_left h.2 _
    _ = (a.row + 1) * shape.columns := (Nat.succ_mul ..).symm
    _ ≤ shape.size := Nat.mul_le_mul_right _ h.1

/-- The place of an address, if it lies in the grid. -/
def place? (shape : Shape) (a : Address) : Option shape.Place :=
  if h : shape.Holds a then some ⟨a.row * shape.columns + a.column, index_lt h⟩ else none

/-- The address of a place. -/
def address (shape : Shape) (p : shape.Place) : Address :=
  ⟨p.val / shape.columns, p.val % shape.columns⟩

theorem columns_pos (p : shape.Place) : 0 < shape.columns := by
  refine Nat.pos_of_ne_zero fun h => ?_
  have := p.isLt
  simp [size, h] at this

theorem holds_address (p : shape.Place) : shape.Holds (shape.address p) :=
  ⟨Nat.div_lt_of_lt_mul (Nat.mul_comm .. ▸ p.isLt), Nat.mod_lt _ (columns_pos p)⟩

/-- Places and the addresses in the grid determine each other. -/
theorem place?_eq_some_iff {a : Address} {p : shape.Place} :
    shape.place? a = some p ↔ shape.address p = a := by
  unfold place?
  constructor
  · intro h
    split at h
    · next hr =>
      obtain rfl := Option.some.inj h
      have hcol : a.column < shape.columns := hr.2
      have hpos : 0 < shape.columns := Nat.lt_of_le_of_lt (Nat.zero_le _) hcol
      simp [address, Nat.add_comm, Nat.add_mul_div_right _ _ hpos, Nat.div_eq_of_lt hcol,
        Nat.mod_eq_of_lt hcol]
    · simp at h
  · rintro rfl
    rw [dif_pos (holds_address p)]
    simp [address, Nat.div_add_mod']

@[simp]
theorem place?_address (p : shape.Place) : shape.place? (shape.address p) = some p :=
  place?_eq_some_iff.2 rfl

/-- The place of a cell given by name, if the name is well formed and lies in the grid. -/
def named? (shape : Shape) (name : String) : Option shape.Place :=
  (Address.ofName? name).bind shape.place?

/-- The name of the cell at a place. -/
def nameOf (shape : Shape) (p : shape.Place) : String :=
  (shape.address p).name

end Shape

end Quadrille
