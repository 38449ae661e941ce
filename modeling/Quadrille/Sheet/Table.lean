/-!
# Tables

One entry for every place of a grid. A place is a number below the size of the table, so there is no
place out of range to be asked for, and a table is nothing but the function `Table.get`: two tables
with the same entries are equal (`Table.ext`), and a write changes the entry at its place and no
other (`Table.get_put`).

The searches on a sheet end because every step of theirs changes an entry that no later step changes
back. `Table.count` is what such a step makes smaller (`Table.count_put_lt`).
-/

namespace Quadrille

/-- One entry for each of the numbers below `n`. -/
structure Table (α : Type) (n : Nat) where
  entries : Vector α n
  deriving DecidableEq

namespace Table

variable {α : Type} {n : Nat}

/-- The table with the same entry everywhere. -/
def fill (x : α) : Table α n :=
  ⟨Vector.replicate n x⟩

/-- The entry at a place. -/
@[inline]
def get (t : Table α n) (i : Fin n) : α :=
  t.entries[i]

/-- The table with another entry at one place. -/
@[inline]
def put (t : Table α n) (i : Fin n) (x : α) : Table α n :=
  ⟨t.entries.set i x⟩

/-- How often an entry occurs. -/
def count [BEq α] (t : Table α n) (x : α) : Nat :=
  t.entries.count x

@[ext]
theorem ext {t u : Table α n} (h : ∀ i, t.get i = u.get i) : t = u := by
  cases t
  cases u
  congr 1
  exact Vector.ext fun i hi => h ⟨i, hi⟩

@[simp]
theorem get_fill (x : α) (i : Fin n) : (fill x).get i = x := by
  simp [fill, get]

theorem get_put (t : Table α n) (i j : Fin n) (x : α) :
    (t.put i x).get j = if i = j then x else t.get j := by
  simp only [put, get, Fin.getElem_fin, Vector.getElem_set, Fin.ext_iff]

@[simp]
theorem get_put_self (t : Table α n) (i : Fin n) (x : α) : (t.put i x).get i = x := by
  rw [get_put, if_pos rfl]

theorem get_put_of_ne (t : Table α n) {i j : Fin n} (h : i ≠ j) (x : α) :
    (t.put i x).get j = t.get j := by
  rw [get_put, if_neg h]

/-- A write takes one occurrence away where the entry was, and adds one of the new entry. -/
theorem count_put [BEq α] (t : Table α n) (i : Fin n) (x y : α) :
    (t.put i x).count y =
      t.count y - (if t.get i == y then 1 else 0) + (if x == y then 1 else 0) :=
  Vector.count_set i.isLt

theorem count_put_le [BEq α] [LawfulBEq α] (t : Table α n) (i : Fin n) {x y : α} (h : x ≠ y) :
    (t.put i x).count y ≤ t.count y := by
  simp [count_put, h]

theorem count_put_lt [BEq α] [LawfulBEq α] {t : Table α n} {i : Fin n} {x y : α} (h : x ≠ y)
    (hi : t.get i = y) : (t.put i x).count y < t.count y := by
  have hpos : 0 < t.count y := by
    refine Vector.count_pos_iff.2 ?_
    rw [← hi]
    simp [get]
  rw [count_put, hi]
  simpa [h] using Nat.sub_lt hpos Nat.one_pos

end Table

end Quadrille
