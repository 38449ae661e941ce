import Mathlib.Data.List.Forall2

/-!
# Checking a list entry by entry

Names, addresses and stored cells are all checked in the same way: the entries of a list are mapped
through a partial function and the first failure ends it. A success relates the two lists entry by
entry; a failure comes from the first entry that fails.
-/

namespace Quadrille

variable {α β ε : Type} {f : α → Except ε β}

theorem mapM_cons_of_ok {x : α} {y : β} (hx : f x = .ok y) (xs : List α) :
    (x :: xs).mapM f = (xs.mapM f).map (y :: ·) := by
  rw [List.mapM_cons, hx]
  cases xs.mapM f <;> rfl

theorem mapM_cons_of_error {x : α} {e : ε} (hx : f x = .error e) (xs : List α) :
    (x :: xs).mapM f = .error e := by
  rw [List.mapM_cons, hx]
  rfl

theorem map_eq_ok_iff {r : Except ε α} {g : α → β} {y : β} :
    r.map g = .ok y ↔ ∃ x, r = .ok x ∧ g x = y := by
  cases r <;> simp [Except.map]

theorem ok_bind (x : α) (g : α → Except ε β) : Except.ok x >>= g = g x := rfl

theorem toOption_eq_some_iff {r : Except ε α} {x : α} : r.toOption = some x ↔ r = .ok x := by
  cases r <;> simp [Except.toOption]

theorem bind_eq_ok_iff {r : Except ε α} {g : α → Except ε β} {y : β} :
    r >>= g = .ok y ↔ ∃ x, r = .ok x ∧ g x = .ok y := by
  cases r <;> simp [bind, Except.bind]

theorem bind_eq_error_iff {r : Except ε α} {g : α → Except ε β} {e : ε} :
    r >>= g = .error e ↔ r = .error e ∨ ∃ x, r = .ok x ∧ g x = .error e := by
  cases r <;> simp [bind, Except.bind]

theorem mapError_eq_error_iff {r : Except ε α} {ε' : Type} {g : ε → ε'} {e : ε'} :
    r.mapError g = .error e ↔ ∃ e', r = .error e' ∧ g e' = e := by
  cases r <;> simp [Except.mapError]

theorem mapError_eq_ok_iff {r : Except ε α} {ε' : Type} {g : ε → ε'} {x : α} :
    r.mapError g = .ok x ↔ r = .ok x := by
  cases r <;> simp [Except.mapError]

theorem map_eq_error_iff {r : Except ε α} {g : α → β} {e : ε} :
    r.map g = .error e ↔ r = .error e := by
  cases r <;> simp [Except.map]

/-- A success has one result for each entry. -/
theorem mapM_eq_ok_iff {xs : List α} {ys : List β} :
    xs.mapM f = .ok ys ↔ List.Forall₂ (fun x y => f x = .ok y) xs ys := by
  induction xs generalizing ys with
  | nil => simp [pure, Except.pure, eq_comm]
  | cons x xs ih =>
    rw [List.forall₂_cons_left_iff]
    cases hx : f x with
    | error e => simp [mapM_cons_of_error hx]
    | ok y =>
      rw [mapM_cons_of_ok hx, map_eq_ok_iff]
      constructor
      · rintro ⟨zs, hzs, rfl⟩
        exact ⟨y, zs, rfl, ih.mp hzs, rfl⟩
      · rintro ⟨z, zs, hz, hzs, rfl⟩
        exact ⟨zs, ih.mpr hzs, by rw [Except.ok.inj hz]⟩

/-- A failure is that of the first entry to fail. -/
theorem mapM_eq_error_iff {xs : List α} {e : ε} :
    xs.mapM f = .error e ↔
      ∃ before x after, xs = before ++ x :: after ∧ (∀ z ∈ before, ∃ y, f z = .ok y) ∧
        f x = .error e := by
  induction xs with
  | nil => simp [pure, Except.pure]
  | cons x xs ih =>
    cases hx : f x with
    | error e' =>
      rw [mapM_cons_of_error hx]
      constructor
      · intro h
        exact ⟨[], x, xs, rfl, by simp, hx.trans (congrArg _ (Except.error.inj h))⟩
      · rintro ⟨before, z, after, heq, hok, hz⟩
        cases before with
        | nil =>
          obtain ⟨rfl, rfl⟩ := List.cons.inj heq
          exact congrArg _ (Except.error.inj (hx.symm.trans hz))
        | cons w before =>
          obtain ⟨rfl, -⟩ := List.cons.inj heq
          obtain ⟨y, hy⟩ := hok x List.mem_cons_self
          exact absurd (hx.symm.trans hy) (by simp)
    | ok y =>
      rw [mapM_cons_of_ok hx, map_eq_error_iff, ih]
      constructor
      · rintro ⟨before, z, after, rfl, hok, hz⟩
        refine ⟨x :: before, z, after, rfl, fun w hw => ?_, hz⟩
        rcases List.mem_cons.mp hw with rfl | hw
        · exact ⟨y, hx⟩
        · exact hok w hw
      · rintro ⟨before, z, after, heq, hok, hz⟩
        cases before with
        | nil =>
          obtain ⟨rfl, -⟩ := List.cons.inj heq
          exact absurd (hx.symm.trans hz) (by simp)
        | cons w before =>
          obtain ⟨-, rfl⟩ := List.cons.inj heq
          exact ⟨before, z, after, rfl, fun v hv => hok v (List.mem_cons_of_mem _ hv), hz⟩

/-- A fold fails at the first entry that cannot be taken in. -/
theorem foldlM_eq_error_iff {σ : Type} {g : σ → α → Except ε σ} {s : σ} {xs : List α} {e : ε} :
    xs.foldlM g s = .error e ↔
      ∃ before x after s', xs = before ++ x :: after ∧ before.foldlM g s = .ok s' ∧
        g s' x = .error e := by
  induction xs generalizing s with
  | nil => simp [pure, Except.pure]
  | cons x xs ih =>
    rw [List.foldlM_cons, bind_eq_error_iff]
    constructor
    · rintro (hx | ⟨s', hx, h⟩)
      · exact ⟨[], x, xs, s, rfl, rfl, hx⟩
      · obtain ⟨before, y, after, s'', rfl, hbefore, hy⟩ := ih.mp h
        exact ⟨x :: before, y, after, s'', rfl, by rw [List.foldlM_cons, hx]; exact hbefore, hy⟩
    · rintro ⟨before, y, after, s', heq, hbefore, hy⟩
      cases before with
      | nil =>
        obtain ⟨rfl, rfl⟩ := List.cons.inj heq
        obtain rfl := Except.ok.inj hbefore
        exact .inl hy
      | cons z before =>
        obtain ⟨rfl, rfl⟩ := List.cons.inj heq
        rw [List.foldlM_cons] at hbefore
        obtain ⟨t, ht, hbefore⟩ := bind_eq_ok_iff.mp hbefore
        exact .inr ⟨t, ht, ih.mpr ⟨before, y, after, s', rfl, hbefore, hy⟩⟩

theorem exists_of_forall₂_left {r : α → β → Prop} {xs : List α} {ys : List β}
    (h : List.Forall₂ r xs ys) : ∀ x ∈ xs, ∃ y ∈ ys, r x y := by
  induction h with
  | nil => simp
  | cons hxy _ ih =>
    intro x hx
    rcases List.mem_cons.mp hx with rfl | hx
    · exact ⟨_, List.mem_cons_self, hxy⟩
    · obtain ⟨y, hy, hr⟩ := ih x hx
      exact ⟨y, List.mem_cons_of_mem _ hy, hr⟩

theorem exists_of_forall₂_right {r : α → β → Prop} {xs : List α} {ys : List β}
    (h : List.Forall₂ r xs ys) : ∀ y ∈ ys, ∃ x ∈ xs, r x y := by
  have hflip : List.Forall₂ (fun y x => r x y) ys xs := h.flip
  exact exists_of_forall₂_left hflip

end Quadrille
