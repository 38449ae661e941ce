import Quadrille.Proofs.CommandLine.Run

/-!
# Failures do no damage

A run can fail in many places: at any of its arguments, at the settings, when a document is loaded,
at any edit after others that were good, and at any color after all of them. In all of these it ends
with nothing printed and nothing written. What it did before was done to a document of its own.

This needs no list of the places. A run has a point up to which it only reads (`Prepares`), and what
it leaves behind is determined by whether it gets there. If it does not, it leaves nothing. If it
does, it prints the document and saves it, and the only thing that can still fail is the writing of
one file. The complaint about that comes after the document has been printed, so it is the one
failure with output.

## Main definitions

* `CommandLine.Prepares`, `CommandLine.FallsShort` — whether a run comes to the point of printing
* `CommandLine.SaveFails` — the document that is printed cannot be saved

## Main results

* `CommandLine.ending_of_prepares`, `CommandLine.run_of_fallsShort` — what is left behind
* `CommandLine.exitCode_eq_one_iff` — which runs fail
* `CommandLine.failure_harmless`
-/

namespace Quadrille

namespace CommandLine

open Document

variable {disk : Disk} {userConfig : Option String} {arguments : List String} {o : Options}
  {s : Settings} {d : Document s.shape}

/-- A run comes to the point where it prints a document: the arguments can be read, there are
settings to make a document with, one is loaded if that is asked for, and all that is to be done
with it can be done. The disk is as it was. -/
structure Prepares (arguments : List String) (userConfig : Option String) (disk : Disk)
    (o : Options) (s : Settings) (d : Document s.shape) : Prop where
  read : Options.ofArguments arguments = .run o
  made : disk.run (settings o userConfig) = (.ok s, disk)
  worked : ∃ loaded, disk.run (loadInput o (blank s.shape s.historyLimit)) = (.ok loaded, disk) ∧
    work o loaded = .ok d

/-- A run fails when everything but saving is done: the document that is printed cannot be written
to the file where it is to be saved. -/
def SaveFails (arguments : List String) (userConfig : Option String) (disk : Disk) : Prop :=
  ∃ (o : Options) (s : Settings) (d : Document s.shape) (path : String) (e : FileError),
    Prepares arguments userConfig disk o s d ∧ o.output = some path ∧
      disk.write path d.archived.toUTF8 = .error e

/-- A run does not come to the point of printing. -/
def FallsShort (arguments : List String) (userConfig : Option String) (disk : Disk) : Prop :=
  ∀ (o : Options) (s : Settings) (d : Document s.shape), ¬Prepares arguments userConfig disk o s d

theorem exists_prepares_of_not_fallsShort (h : ¬FallsShort arguments userConfig disk) :
    ∃ o s d, Prepares arguments userConfig disk o s d := by
  simpa [FallsShort] using h

/-! ### Up to the point of printing -/

theorem exists_run_settings (o : Options) (userConfig : Option String) (disk : Disk) :
    ∃ made, disk.run (settings o userConfig) = (made, disk) := by
  have hrun : disk.run (settings o userConfig) = (_, _) := rfl
  exact ⟨_, Prod.ext rfl (exists_of_run_settings hrun).1⟩

theorem exists_run_loadInput (o : Options) (d : Document s.shape) (disk : Disk) :
    ∃ loaded, disk.run (loadInput o d) = (loaded, disk) := by
  have hrun : disk.run (loadInput o d) = (_, _) := rfl
  exact ⟨_, Prod.ext rfl (leads_of_run_loadInput hrun).1⟩

/-- A run that comes to the point of printing goes on from there. -/
theorem run_of_prepares (h : Prepares arguments userConfig disk o s d) :
    disk.run (run arguments userConfig) = disk.run (conclude o d) := by
  obtain ⟨loaded, hloaded, hwork⟩ := h.worked
  rw [run, h.read]
  dsimp only
  rw [runOptions, Disk.run_bind, h.made]
  dsimp only
  rw [Disk.run_bind, hloaded]
  dsimp only
  rw [hwork]

/-- **A run that does not come to the point of printing** leaves nothing but a message. -/
theorem run_of_fallsShort (h : FallsShort arguments userConfig disk) :
    ∃ stderr, disk.run (run arguments userConfig) =
      ({ exitCode := if Options.ofArguments arguments = .help then 0 else 1, stderr }, disk) := by
  rw [run]
  -- Each of the stages ends the run with a message, or leaves the disk alone and leads to the next.
  cases hread : Options.ofArguments arguments with
  | help => exact ⟨_, rfl⟩
  | refused e => exact ⟨_, rfl⟩
  | run o =>
    dsimp only
    rw [runOptions, Disk.run_bind]
    obtain ⟨made, hmade⟩ := exists_run_settings o userConfig disk
    rw [hmade]
    cases made with
    | error e => exact ⟨_, rfl⟩
    | ok s =>
      dsimp only
      rw [Disk.run_bind]
      obtain ⟨loaded, hloaded⟩ := exists_run_loadInput o (blank s.shape s.historyLimit) disk
      rw [hloaded]
      cases loaded with
      | error e => exact ⟨_, rfl⟩
      | ok loaded =>
        dsimp only
        cases hwork : work o loaded with
        | error e => exact ⟨_, rfl⟩
        | ok d => exact absurd ⟨hread, hmade, loaded, hloaded, hwork⟩ (h o s d)

/-! ### What is left behind -/

/-- **A run that comes to the point of printing** prints the document, and goes well unless the
document cannot be saved. The file that it is saved to holds the document that was printed. -/
theorem ending_of_prepares (h : Prepares arguments userConfig disk o s d) {report : Report}
    {disk' : Disk} (hrun : disk.run (run arguments userConfig) = (report, disk')) :
    report.stdout = printed d ∧
      (report.exitCode = 0 ∧
          (∀ path, o.output = some path → disk'.read path = .ok d.archived.toUTF8) ∨
        report.exitCode = 1 ∧ SaveFails arguments userConfig disk) := by
  rw [run_of_prepares h, run_conclude] at hrun
  cases hpath : o.output with
  | none =>
    rw [hpath] at hrun
    obtain ⟨rfl, rfl⟩ := Prod.mk.inj hrun
    exact ⟨rfl, .inl ⟨rfl, by simp⟩⟩
  | some path =>
    rw [hpath] at hrun
    dsimp only at hrun
    cases hwrite : disk.write path d.archived.toUTF8 with
    | error e =>
      rw [hwrite] at hrun
      obtain ⟨rfl, rfl⟩ := Prod.mk.inj hrun
      exact ⟨rfl, .inr ⟨rfl, o, s, d, path, e, h, hpath, hwrite⟩⟩
    | ok written =>
      rw [hwrite] at hrun
      obtain ⟨rfl, rfl⟩ := Prod.mk.inj hrun
      refine ⟨rfl, .inl ⟨rfl, ?_⟩⟩
      rintro path' ⟨⟩
      exact Disk.read_of_write hwrite

/-- A run of which saving fails ends with a failure. -/
theorem exitCode_of_saveFails (h : SaveFails arguments userConfig disk) :
    (disk.run (run arguments userConfig)).1.exitCode = 1 := by
  obtain ⟨o, s, d, path, e, hprepares, hpath, hwrite⟩ := h
  rw [run_of_prepares hprepares, run_conclude, hpath]
  dsimp only
  rw [hwrite]
  rfl

/-- **A run fails if saving fails,** or if it does not come to the point of printing and is not a
call for help. -/
theorem exitCode_eq_one_iff : (disk.run (run arguments userConfig)).1.exitCode = 1 ↔
    SaveFails arguments userConfig disk ∨
      Options.ofArguments arguments ≠ .help ∧ FallsShort arguments userConfig disk := by
  constructor
  · intro hone
    by_cases hshort : FallsShort arguments userConfig disk
    · obtain ⟨stderr, hrun⟩ := run_of_fallsShort hshort
      refine .inr ⟨fun hhelp => ?_, hshort⟩
      rw [hrun, if_pos hhelp] at hone
      cases hone
    · obtain ⟨o, s, d, hprepares⟩ := exists_prepares_of_not_fallsShort hshort
      obtain ⟨-, ⟨hzero, -⟩ | ⟨-, hfails⟩⟩ := ending_of_prepares hprepares rfl
      · exact absurd (hzero.symm.trans hone) (by decide)
      · exact .inl hfails
  · rintro (hfails | ⟨hhelp, hshort⟩)
    · exact exitCode_of_saveFails hfails
    · obtain ⟨stderr, hrun⟩ := run_of_fallsShort hshort
      rw [hrun, if_neg hhelp]

/-- **Failures do no damage.** A run fails if it does not come to the point of printing, and is not
a call for help, or if saving fails at the end. In the first case it has printed nothing and left
the disk as it was. Every other run ends well; and if it is not a call for help, it has printed a
document, and if that was to be saved to a file, then this file holds the same document. -/
theorem failure_harmless (arguments : List String) (userConfig : Option String) (disk : Disk) :
    let report := (disk.run (run arguments userConfig)).1
    let disk' := (disk.run (run arguments userConfig)).2
    (report.exitCode = 0 ∨ report.exitCode = 1) ∧
    (report.exitCode = 1 ↔ SaveFails arguments userConfig disk ∨
      Options.ofArguments arguments ≠ .help ∧ FallsShort arguments userConfig disk) ∧
    (report.exitCode = 1 → ¬SaveFails arguments userConfig disk →
      report.stdout = "" ∧ disk' = disk) ∧
    (report.exitCode = 0 → Options.ofArguments arguments ≠ .help →
      ∃ (o : Options) (s : Settings) (d : Document s.shape),
        Prepares arguments userConfig disk o s d ∧ report.stdout = printed d ∧
          ∀ path, o.output = some path → disk'.read path = .ok d.archived.toUTF8) := by
  intro report disk'
  -- Whether the run comes to the point of printing decides everything else.
  by_cases hshort : FallsShort arguments userConfig disk
  · obtain ⟨stderr, hrun⟩ := run_of_fallsShort hshort
    obtain ⟨hreport, hdisk⟩ : report = _ ∧ disk' = disk := Prod.ext_iff.mp hrun
    refine ⟨?_, exitCode_eq_one_iff, fun _ _ => ⟨by rw [hreport], hdisk⟩, fun hzero hhelp => ?_⟩
    · rw [hreport]
      exact ite_eq_or_eq ..
    · rw [hreport, if_neg hhelp] at hzero
      cases hzero
  · obtain ⟨o, s, d, hprepares⟩ := exists_prepares_of_not_fallsShort hshort
    obtain ⟨hstdout, ⟨hzero, hsaved⟩ | ⟨hone, hfails⟩⟩ := ending_of_prepares hprepares rfl
    · refine ⟨.inl hzero, exitCode_eq_one_iff, fun hone _ => ?_, fun _ _ => ?_⟩
      · exact absurd (hzero.symm.trans hone) (by decide)
      · exact ⟨o, s, d, hprepares, hstdout, hsaved⟩
    · refine ⟨.inr hone, exitCode_eq_one_iff, fun _ hnot => ?_, fun hzero _ => ?_⟩
      · exact absurd hfails hnot
      · exact absurd (hzero.symm.trans hone) (by decide)

end CommandLine

end Quadrille
