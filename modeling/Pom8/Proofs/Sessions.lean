import Pom8.CommandLine.Session
import Pom8.Proofs.Assembling
import Pom8.Proofs.Files

/-!
# What sessions leave behind

A session writes its file only after the whole source has been read and assembled,
and it writes no other.  So its exit status tells whether everything was done, and the
source may be replaced by its machine code.  The file is changed without success only
when it has been created and then does not take all that is written to it.
-/

namespace Pom8.CommandLine

open FileSystem

section Sessions

variable {Disk : Type} [FileSystem Disk]

theorem invoke_eq_session
    {arguments : List String} {options : Options}
    (h : Options.ofArguments arguments = .ok options) (disk : Disk) :
    invoke arguments disk =
      ⟨(options.session disk).1.status, (options.session disk).1.stdout,
        (options.session disk).1.logLines options.level,
          (options.session disk).2⟩ := by
  rw [invoke, h]

/-- Carrying out a plan changes it only when its file is not written. -/
theorem Plan.settle_cases (plan : Plan) (disk : Disk) :
    (plan.settle disk).1 = plan ∨
      ∃ path fault, (plan.settle disk).1 = plan.withoutOutput path fault := by
  unfold settle
  rcases plan.output with _ | ⟨path, lines⟩
  · exact Or.inl rfl
  · dsimp only
    rcases writeLines disk path lines with ⟨_ | fault, written⟩
    · exact Or.inl rfl
    · exact Or.inr ⟨path, fault, rfl⟩

/-! ## Disks and standard output -/

namespace Options

variable {options : Options} {disk : Disk} {source : String} {assembly : Assembly}

/-- Without an assembly, a session does nothing but fail. -/
theorem session_of_no_assembly
    (h : ∀ source assembly, Holds disk options.input source →
      assemble source ≠ .ok assembly) :
    (options.session disk).1.status = 1 ∧ (options.session disk).1.stdout = "" ∧
      (options.session disk).2 = disk := by
  unfold session
  rcases hread : readText disk options.input with fault | source
  · exact ⟨rfl, rfl, rfl⟩
  · rcases houtcome : assemble source with fault | assembly
    · have hreport : (Report.ofSource source).outcome = .error fault := houtcome
      simp [plan, hreport, Plan.settle]
    · exact absurd houtcome (h source assembly (readText_eq_ok_iff.mp hread))

/-- The plan for a source that can be assembled. -/
theorem plan_of_assembly (h : assemble source = .ok assembly) :
    (options.plan (.ok source)).status = 0 ∧
      (options.plan (.ok source)).stdout = options.listingText assembly ++
        (if options.output.isNone then assembly.machineCode else "") ∧
      (options.plan (.ok source)).output =
        options.output.map fun path => (path, assembly.words.map Word.text) := by
  have houtcome : (Report.ofSource source).outcome = .ok assembly := h
  simp only [plan, houtcome]
  rcases houtput : options.output with _ | path
  · exact ⟨rfl, rfl, rfl⟩
  · refine ⟨rfl, ?_, rfl⟩
    simp

variable (hholds : Holds disk options.input source)
  (hassembly : assemble source = .ok assembly)

include hholds hassembly

theorem session_of_no_output (houtput : options.output = none) :
    (options.session disk).1.status = 0 ∧
      (options.session disk).1.stdout =
        options.listingText assembly ++ assembly.machineCode ∧
      (options.session disk).2 = disk := by
  obtain ⟨hstatus, hstdout, hplan⟩ := @plan_of_assembly options _ _ hassembly
  rw [houtput] at hstdout hplan
  simp [session, readText_eq_ok_iff.mpr hholds, Plan.settle, hplan, hstatus, hstdout]

/-- A session with an output file fails exactly if a fault stops the writing. -/
theorem session_of_output {path : String} (houtput : options.output = some path) :
    let written := writeLines disk path (assembly.words.map Word.text)
    (options.session disk).1.status = (if written.1 = none then 0 else 1) ∧
      (options.session disk).1.stdout = options.listingText assembly ∧
      (options.session disk).2 = written.2 := by
  intro written
  obtain ⟨hstatus, hstdout, hplan⟩ := @plan_of_assembly options _ _ hassembly
  rw [houtput] at hstdout hplan
  rcases hwritten : written with ⟨_ | fault, after⟩
  · simp [session, readText_eq_ok_iff.mpr hholds, Plan.settle, hplan,
      show writeLines disk path _ = _ from hwritten, hstatus, hstdout]
  · simp [session, readText_eq_ok_iff.mpr hholds, Plan.settle, hplan,
      show writeLines disk path _ = _ from hwritten, hstdout, Plan.withoutOutput]

end Options
end Sessions

end Pom8.CommandLine
