import Mathlib.Data.List.Induction
import Mathlib.Data.List.Sort

/-!
# The order of first mention

Cells to be colored and variables of a formula are listed without repetitions, in the order in which
they are first mentioned. Leaving out repetitions gives such a list, whether it is done at once or
entry by entry, and there is no other: what is mentioned determines it, together with the order.
-/

namespace Quadrille

variable {α β : Type} [DecidableEq α] [DecidableEq β]

/-- Leaving out repetitions entry by entry: an entry is added unless it has been mentioned. -/
theorem eraseDups_append_singleton (xs : List α) (z : α) :
    (xs ++ [z]).eraseDups =
      if xs.eraseDups.contains z then xs.eraseDups else xs.eraseDups ++ [z] := by
  rw [List.eraseDups_append]
  by_cases hz : z ∈ xs
  · simp [List.removeAll, hz]
  · simp [List.removeAll, hz, List.eraseDups_cons]

/-- Leaving out repetitions keeps the order of first mention. -/
theorem pairwise_eraseDups (xs : List α) :
    xs.eraseDups.Pairwise fun x y => xs.idxOf x < xs.idxOf y := by
  induction xs using List.reverseRecOn with
  | nil => exact .nil
  | append_singleton xs z ih =>
    have kept : ∀ {x}, x ∈ xs.eraseDups → (xs ++ [z]).idxOf x = xs.idxOf x := fun hx =>
      List.idxOf_append_of_mem (List.mem_eraseDups.mp hx)
    have front : xs.eraseDups.Pairwise fun x y => (xs ++ [z]).idxOf x < (xs ++ [z]).idxOf y :=
      ih.imp_of_mem fun hx hy hlt => by rwa [kept hx, kept hy]
    rw [eraseDups_append_singleton]
    split
    · exact front
    · next hz =>
      have last : (xs ++ [z]).idxOf z = xs.length := by
        have hz : z ∉ xs := by simpa using hz
        simp [List.idxOf_append, hz]
      rw [List.pairwise_append]
      refine ⟨front, List.pairwise_singleton _ _, fun x hx y hy => ?_⟩
      obtain rfl := List.mem_singleton.mp hy
      rw [kept hx, last]
      exact List.idxOf_lt_length_of_mem (List.mem_eraseDups.mp hx)

theorem nodup_eraseDups (xs : List α) : xs.eraseDups.Nodup :=
  (pairwise_eraseDups xs).imp fun hlt => ne_of_apply_ne xs.idxOf (Nat.ne_of_lt hlt)

/-- No other list has the same entries in the order of first mention. -/
theorem eq_eraseDups_of_pairwise {xs ys : List α} (hmem : ∀ x, x ∈ ys ↔ x ∈ xs)
    (hys : ys.Pairwise fun x y => xs.idxOf x < xs.idxOf y) : ys = xs.eraseDups := by
  have irrefl : Std.Irrefl fun x y => xs.idxOf x < xs.idxOf y := ⟨fun _ => Nat.lt_irrefl _⟩
  have antisymm : Std.Antisymm fun x y => xs.idxOf x < xs.idxOf y :=
    ⟨fun _ _ hlt hgt => absurd hgt (Nat.lt_asymm hlt)⟩
  exact hys.eq_of_mem_iff (pairwise_eraseDups xs) fun x => (hmem x).trans List.mem_eraseDups.symm

theorem idxOf_map_of_injective {f : α → β} (hf : Function.Injective f) (xs : List α) (x : α) :
    (xs.map f).idxOf (f x) = xs.idxOf x := by
  induction xs with
  | nil => rfl
  | cons y xs ih =>
    have same : (f y == f x) = (y == x) := by
      rw [Bool.eq_iff_iff, beq_iff_eq, beq_iff_eq, hf.eq_iff]
    rw [List.map_cons, List.idxOf_cons, List.idxOf_cons, same, ih]

end Quadrille
