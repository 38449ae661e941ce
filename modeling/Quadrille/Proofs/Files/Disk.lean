import Quadrille.Files.Disk
import Quadrille.Proofs.Traversal

/-!
# Reading what has been written

A file that has been written is read back under the same path. That needs an argument because a
path is followed step by step on the disk as it is: what is written must not change the way to it.
It does not, since all steps of the way are taken from directories and a file is never put in the
place of a directory.

A program that works with files gives a result on a disk and leaves a disk behind. For each way of
using a file there is an equation that says which.

## Main definitions

* `Disk.run` — what a program gives on a disk, and the disk afterwards

## Main results

* `Disk.node?_put` — what is where, after something has been put somewhere
* `Disk.read_of_write`
-/

namespace Quadrille

namespace Disk

variable {d d' : Disk} {location location' : Location} {node : DiskNode} {path name : String}
  {names : List String} {contents : ByteArray}

/-- Replacing the entry at a location changes what is found there, and nothing else. -/
theorem lookup_map_replace (entries : List (Location × DiskNode)) (location location' : Location)
    (node : DiskNode) :
    (entries.map fun (l, old) => (l, if l == location then node else old)).lookup location' =
      if location = location' then (entries.lookup location').map fun _ => node
      else entries.lookup location' := by
  induction entries with
  | nil => simp
  | cons entry entries ih =>
    obtain ⟨l, old⟩ := entry
    rw [List.map_cons, List.lookup_cons, List.lookup_cons, ih]
    by_cases hl : location' = l
    · subst hl
      by_cases hlocation : location = location'
      · simp [hlocation]
      · simp [hlocation, Ne.symm hlocation]
    · have hne : (location' == l) = false := beq_false_of_ne hl
      rw [hne]

theorem node?_put (d : Disk) (hlocation : location ≠ []) (node : DiskNode)
    (location' : Location) :
    (d.put location node).node? location' =
      if location = location' then some node else d.node? location' := by
  cases location' with
  | nil => rw [if_neg hlocation]; rfl
  | cons name rest =>
    show (d.put location node).entries.lookup (name :: rest) =
      if location = name :: rest then some node else d.entries.lookup (name :: rest)
    rw [put]
    dsimp only
    split
    · next hsome =>
      rw [lookup_map_replace]
      split
      · next heq =>
        obtain ⟨old, hold⟩ := Option.isSome_iff_exists.mp hsome
        rw [← heq, hold]
        rfl
      · rfl
    · next hnone =>
      rw [List.lookup_append]
      rw [Option.not_isSome_iff_eq_none] at hnone
      split
      · next heq => rw [← heq, hnone]; simp
      · next hne =>
        have hother : [(location, node)].lookup (name :: rest) = none := by
          simp [List.lookup_cons, beq_false_of_ne (Ne.symm hne)]
        rw [hother, Option.or_none]

/-! ### Following a path -/

theorem enter_eq_ok_iff :
    d.enter location name = .ok location' ↔ d.node? location = some .directory ∧
      ¬longestName < name.utf8ByteSize ∧ step location name = location' := by
  rw [enter]
  split
  · next h => simp [h]
  · next h => simp [h]
  · split <;> simp [*]

/-- A step from a directory can be taken on another disk, if the directory is there too. -/
theorem enter_congr (h : d.enter location name = .ok location')
    (hnode : d.node? location = some .directory → d'.node? location = some .directory) :
    d'.enter location name = .ok location' := by
  obtain ⟨hdirectory, hrest⟩ := enter_eq_ok_iff.mp h
  exact enter_eq_ok_iff.mpr ⟨hnode hdirectory, hrest⟩

theorem foldlM_enter_congr (h : names.foldlM d.enter location = .ok location')
    (hnode : ∀ l, d.node? l = some .directory → d'.node? l = some .directory) :
    names.foldlM d'.enter location = .ok location' := by
  induction names generalizing location with
  | nil => exact h
  | cons name names ih =>
    rw [List.foldlM_cons] at h ⊢
    obtain ⟨l, hl, hrest⟩ := bind_eq_ok_iff.mp h
    rw [enter_congr hl (hnode location)]
    exact ih hrest

/-- A file is written into the last of the directories on the way, under the last of the names. -/
theorem exists_of_target_eq_ok (h : d.target path = .ok location) :
    checkPath path = .ok () ∧ endsWithSlash path = false ∧
      ∃ before last directory, Disk.names path = before ++ [last] ∧
        before.foldlM d.enter (d.start path) = .ok directory ∧
        d.enter directory last = .ok location ∧ location = last :: directory := by
  rw [target] at h
  obtain ⟨⟨⟩, hcheck, h⟩ := bind_eq_ok_iff.mp h
  refine ⟨hcheck, ?_⟩
  split at h
  · simp [throw, throwThe, MonadExceptOf.throw] at h
  · next last hlast =>
    obtain ⟨directory, hway, h⟩ := bind_eq_ok_iff.mp h
    split at h
    · simp [throw, throwThe, MonadExceptOf.throw] at h
    · next hnot =>
      rw [not_or, not_or, Bool.not_eq_true] at hnot
      obtain ⟨hdot, hdots, hslash⟩ := hnot
      -- the step `.` leads nowhere, but asks for a directory
      rw [List.foldlM_append] at hway
      obtain ⟨l, hbefore, hdirectory⟩ := bind_eq_ok_iff.mp hway
      simp only [List.foldlM_cons, List.foldlM_nil, bind_pure] at hdirectory
      obtain ⟨-, -, rfl⟩ := enter_eq_ok_iff.mp hdirectory
      rw [step, if_pos rfl] at h
      obtain ⟨-, -, hstep⟩ := enter_eq_ok_iff.mp h
      rw [step, if_neg hdot, if_neg hdots] at hstep
      refine ⟨hslash, (Disk.names path).dropLast, last, l, ?_, hbefore, h, hstep.symm⟩
      exact (List.dropLast_append_getLast? last hlast).symm

/-- **What is written is read again.** -/
theorem read_of_write (h : d.write path contents = .ok d') : d'.read path = .ok contents := by
  rw [write] at h
  obtain ⟨location, htarget, h⟩ := bind_eq_ok_iff.mp h
  obtain ⟨hcheck, hslash, before, last, directory, hnames, hway, hlast, rfl⟩ :=
    exists_of_target_eq_ok htarget
  split at h
  · simp [throw, throwThe, MonadExceptOf.throw] at h
  · next hfree =>
    obtain rfl := Except.ok.inj h
    have hne : last :: directory ≠ [] := List.cons_ne_nil _ _
    have hkept : ∀ l, d.node? l = some .directory →
        (d.put (last :: directory) (.file contents)).node? l = some .directory := by
      intro l hl
      rw [node?_put d hne, if_neg]
      · exact hl
      · rintro rfl
        exact hfree hl
    have hfind : (d.put (last :: directory) (.file contents)).find path =
        .ok (.file contents) := by
      have hstart : (d.put (last :: directory) (.file contents)).start path = d.start path := rfl
      rw [find, hcheck, hnames, hstart, List.foldlM_append, foldlM_enter_congr hway hkept]
      simp only [ok_bind, List.foldlM_cons, List.foldlM_nil, bind_pure]
      rw [enter_congr hlast (hkept directory), ok_bind, node?_put d hne, if_pos rfl]
      simp [hslash, pure, Except.pure]
    rw [read, hfind]
    rfl

/-! ### Programs on a disk -/

/-- What a program gives on a disk, and the disk afterwards. -/
def run {α : Type} (disk : Disk) (program : StateM Disk α) : α × Disk :=
  StateT.run program disk

variable {α β : Type} {disk disk' : Disk}

@[simp]
theorem run_pure (x : α) : disk.run (pure x) = (x, disk) := rfl

theorem run_bind (program : StateM Disk α) (next : α → StateM Disk β) :
    disk.run (program >>= next) =
      (disk.run program).2.run (next (disk.run program).1) := rfl

/-- One program after another, taken apart. -/
theorem exists_of_run_bind {program : StateM Disk α} {next : α → StateM Disk β} {y : β}
    (h : disk.run (program >>= next) = (y, disk')) :
    ∃ x disk₁, disk.run program = (x, disk₁) ∧ disk₁.run (next x) = (y, disk') :=
  ⟨_, _, rfl, h⟩

@[simp]
theorem run_size (path : String) :
    disk.run (FileStore.size path) = (disk.size path, disk) := rfl

@[simp]
theorem run_readText (path : String) :
    disk.run (FileStore.readText path) = ((disk.read path).bind FileStore.decode, disk) := rfl

/-- The disk is another one afterwards exactly if it could be written. -/
theorem run_writeText (path text : String) :
    disk.run (FileStore.writeText path text) =
      match disk.write path text.toUTF8 with
      | .ok disk' => (.ok (), disk')
      | .error e => (.error e, disk) := by
  have hget : disk.run get = (disk, disk) := rfl
  simp only [FileStore.writeText, FileStore.writeBytes, run_bind, hget]
  cases disk.write path text.toUTF8 <;> rfl

end Disk

end Quadrille
