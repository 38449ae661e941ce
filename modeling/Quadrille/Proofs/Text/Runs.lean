import Mathlib.Data.List.TakeWhile
import Quadrille.Text.Blank

/-!
# Runs of characters

Everything that is read here is read from left to right, and between the places where something
happens there are runs of characters that are only collected, or only skipped. This module holds
what the readers of names, numbers and markup have in common about such runs.

## Main results

* `foldl_collect`, `foldl_skip` — a machine that collects every character of a run, in reverse, or
  none
* `takeWhile_append_eq`, `dropWhile_append_eq` — where a run that is collected or skipped ends
* `Text.trim_eq_iff` — what is trimmed
-/

namespace Quadrille

/-- If a machine collects each character of a run where it stands, it collects the run. -/
theorem foldl_collect_of_split {σ : Type} {step : σ → Char → σ} (collecting : List Char → σ)
    {cs before : List Char}
    (h : ∀ done c rest, cs = done ++ c :: rest →
      step (collecting (done.reverse ++ before)) c = collecting (c :: (done.reverse ++ before))) :
    cs.foldl step (collecting before) = collecting (cs.reverse ++ before) := by
  induction cs generalizing before with
  | nil => rfl
  | cons c cs ih =>
    have first : step (collecting before) c = collecting (c :: before) := h [] c cs rfl
    rw [List.foldl_cons, first, ih fun done d rest heq => ?_, List.reverse_cons, List.append_assoc,
      List.singleton_append]
    have later := h (c :: done) d rest (by rw [heq, List.cons_append])
    rwa [List.reverse_cons, List.append_assoc, List.singleton_append] at later

/-- If a machine collects each character of a run, it collects the run. -/
theorem foldl_collect {σ : Type} {step : σ → Char → σ} (collecting : List Char → σ)
    {cs : List Char} (h : ∀ c ∈ cs, ∀ before, step (collecting before) c = collecting (c :: before))
    (before : List Char) :
    cs.foldl step (collecting before) = collecting (cs.reverse ++ before) :=
  foldl_collect_of_split collecting fun done c rest heq => h c (by simp [heq]) _

/-- If a machine does not mind any character of a run, it does not mind the run. -/
theorem foldl_skip {σ : Type} {step : σ → Char → σ} {s : σ} {cs : List Char}
    (h : ∀ c ∈ cs, step s c = s) : cs.foldl step s = s := by
  induction cs with
  | nil => rfl
  | cons c cs ih =>
    obtain ⟨hc, hcs⟩ := List.forall_mem_cons.mp h
    rw [List.foldl_cons, hc, ih hcs]

theorem dropWhile_eq_self {p : Char → Bool} {cs : List Char} (h : ∀ c ∈ cs.head?, p c = false) :
    cs.dropWhile p = cs := by
  cases cs with
  | nil => rfl
  | cons c cs => simp [h c rfl]

/-- A run is taken up to the first character that does not belong to it. -/
theorem takeWhile_append_eq {p : Char → Bool} {cs rest : List Char} (hcs : ∀ c ∈ cs, p c = true)
    (hrest : ∀ c ∈ rest.head?, p c = false) : (cs ++ rest).takeWhile p = cs := by
  rw [List.takeWhile_append_of_pos hcs]
  cases rest with
  | nil => simp
  | cons c rest => simp [hrest c rfl]

theorem dropWhile_append_eq {p : Char → Bool} {cs rest : List Char} (hcs : ∀ c ∈ cs, p c = true)
    (hrest : ∀ c ∈ rest.head?, p c = false) : (cs ++ rest).dropWhile p = rest := by
  rw [List.dropWhile_append_of_pos hcs, dropWhile_eq_self hrest]

namespace Text

/-- A text is another one with blanks around it. -/
def Padded (middle cs : List Char) : Prop :=
  ∃ before after, (∀ c ∈ before, isBlank c = true) ∧ (∀ c ∈ after, isBlank c = true) ∧
    cs = before ++ (middle ++ after)

/-- A text is another one without the blanks at either end: what has been taken away is blank, and
what is left neither begins nor ends with a blank. -/
structure IsTrimOf (middle cs : List Char) : Prop where
  padded : Padded middle cs
  head : ∀ c ∈ middle.head?, isBlank c = false
  last : ∀ c ∈ middle.getLast?, isBlank c = false

/-- **Blanks around a text** are trimmed, and nothing else. -/
theorem trim_eq_iff {middle cs : List Char} : trim cs = middle ↔ IsTrimOf middle cs := by
  constructor
  · rintro rfl
    have taken : ∀ ds : List Char, ∀ c ∈ ds.takeWhile isBlank, isBlank c = true :=
      fun ds c hc => List.mem_takeWhile_imp hc
    have stops : ∀ ds : List Char, ∀ c ∈ (ds.dropWhile isBlank).head?, isBlank c = false := by
      intro ds c hc
      have := List.head?_dropWhile_not isBlank ds
      rw [Option.mem_def.mp hc] at this
      simpa using this
    have hpadded : cs = cs.takeWhile isBlank ++
        (trim cs ++ ((cs.dropWhile isBlank).reverse.takeWhile isBlank).reverse) := by
      rw [trim, ← List.reverse_append, List.takeWhile_append_dropWhile, List.reverse_reverse,
        List.takeWhile_append_dropWhile]
    constructor
    case padded => exact ⟨_, _, taken cs, by simpa using taken _, hpadded⟩
    case head =>
      intro c hc
      refine stops cs c ?_
      have front : cs.dropWhile isBlank =
          trim cs ++ ((cs.dropWhile isBlank).reverse.takeWhile isBlank).reverse := by
        rw [trim, ← List.reverse_append, List.takeWhile_append_dropWhile, List.reverse_reverse]
      rw [front, List.head?_append, Option.mem_def.mp hc]
      rfl
    case last =>
      intro c hc
      rw [trim, List.getLast?_reverse] at hc
      exact stops _ c hc
  · rintro ⟨⟨before, after, hbefore, hafter, rfl⟩, hhead, hlast⟩
    rw [trim, List.dropWhile_append_of_pos hbefore]
    have skipped : ∀ c ∈ after.reverse, isBlank c = true := by simpa using hafter
    by_cases hne : middle = []
    · have hnil : after.dropWhile isBlank = [] := by simpa using hafter
      rw [hne, List.nil_append, hnil]
      rfl
    · have front : (middle ++ after).dropWhile isBlank = middle ++ after := by
        obtain ⟨d, ds, rfl⟩ := List.exists_cons_of_ne_nil hne
        exact dropWhile_eq_self fun c hc => hhead c hc
      have back : middle.reverse.dropWhile isBlank = middle.reverse :=
        dropWhile_eq_self fun c hc => hlast c (by rwa [List.head?_reverse] at hc)
      rw [front, List.reverse_append, List.dropWhile_append_of_pos skipped, back,
        List.reverse_reverse]

/-- Without blanks inside, a text with blanks around it is trimmed to the text. -/
theorem trim_eq_iff_padded {middle cs : List Char} (h : ∀ c ∈ middle, isBlank c = false) :
    trim cs = middle ↔ Padded middle cs := by
  rw [trim_eq_iff]
  refine ⟨fun htrim => htrim.padded, fun hpadded => ⟨hpadded, ?_, ?_⟩⟩
  · exact fun c hc => h c (List.mem_of_mem_head? hc)
  · exact fun c hc => h c (List.mem_of_mem_getLast? hc)

theorem trim_eq_self {cs : List Char} (h : ∀ c ∈ cs, isBlank c = false) : trim cs = cs :=
  (trim_eq_iff_padded h).mpr ⟨[], [], by simp, by simp, by simp⟩

end Text

end Quadrille
