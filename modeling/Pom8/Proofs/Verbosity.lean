import Pom8.Proofs.Sessions

/-!
# Sessions that ask for more or less detail

How much detail is asked for decides which records of a session are shown, and is
named in one of them.  It shows nowhere else.
-/

namespace Pom8

/-- The levels that are shown for a number of requests for detail. -/
def Level.shown : Nat → List Level
  | 0 => [error]
  | 1 => [error, warn]
  | 2 => [error, warn, info]
  | 3 => [error, warn, info, debug]
  | _ => [error, warn, info, debug, trace]

namespace CommandLine

open FileSystem

/-- A plan with a record before all others. -/
def Plan.openedBy (record : Record) (plan : Plan) : Plan :=
  { plan with records := record :: plan.records }

@[simp] theorem Plan.status_openedBy (plan : Plan) (record : Record) :
    (plan.openedBy record).status = plan.status :=
  rfl

@[simp] theorem Plan.stdout_openedBy (plan : Plan) (record : Record) :
    (plan.openedBy record).stdout = plan.stdout :=
  rfl

@[simp] theorem Plan.output_openedBy (plan : Plan) (record : Record) :
    (plan.openedBy record).output = plan.output :=
  rfl

/-! ## What detail shows in -/

section Detail

variable {Disk : Type} [FileSystem Disk]

namespace Options

/-- The records that a session shows. -/
def log (options : Options) (disk : Disk) : List Record :=
  (options.session disk).1.log options.level

/-- The options with more or less detail asked for. -/
def withVerbosity (options : Options) (count : Nat) : Options :=
  { options with verbosity := count }

/-- What the record of the options says after it has named the level. -/
def recordRest (options : Options) : String :=
  "\n\tPrint Debug: " ++ (if options.listing then "true" else "false") ++
    "\n\tOutfile: " ++ options.output.getD "None" ++ "\n\tInfile: " ++ options.input

theorem record_eq (options : Options) :
    options.record =
      report .debug
        ("Arguments:\n\tVerbosity: " ++ options.level.name ++ options.recordRest) := by
  unfold record recordRest
  simp only [String.append_assoc]

theorem recordRest_withVerbosity (options : Options) (count : Nat) :
    (options.withVerbosity count).recordRest = options.recordRest := by
  dsimp only [recordRest, withVerbosity]

end Options

theorem stderr_eq_log
    {arguments : List String} {options : Options}
    (h : Options.ofArguments arguments = .ok options) (disk : Disk) :
    (invoke arguments disk).stderr = (options.log disk).flatMap Record.lines := by
  rw [invoke_eq_session h]
  rfl

theorem Plan.settle_openedBy (plan : Plan) (record : Record) (disk : Disk) :
    (plan.openedBy record).settle disk =
      ((plan.settle disk).1.openedBy record, (plan.settle disk).2) := by
  unfold settle
  rw [output_openedBy]
  rcases plan.output with _ | ⟨path, lines⟩
  · rfl
  · dsimp only
    rcases writeLines disk path lines with ⟨_ | fault, written⟩
    · rfl
    · rfl

/-- A plan that is settled reports nothing new but an error. -/
theorem Plan.mem_records_settle
    {plan : Plan} {disk : Disk} {record : Record}
    (h : record ∈ (plan.settle disk).1.records) :
    record ∈ plan.records ∨ ∃ message, record = report .error message := by
  rcases plan.settle_cases disk with hsettle | ⟨path, fault, hsettle⟩
  · rw [hsettle] at h
    exact Or.inl h
  · rw [hsettle] at h
    rcases List.mem_append.mp h with hold | hnew
    · exact Or.inl hold
    · exact Or.inr ⟨_, List.mem_singleton.mp hnew⟩

/-- A record like that of the options: of the program as a whole, and at the level of
details. -/
def IsDetailOfProgram (record : Record) : Prop :=
  record.origin = .program ∧ record.level = .debug

theorem not_isDetailOfProgram_of_event (event : Event) :
    ¬IsDetailOfProgram event.record := by
  rintro ⟨horigin, -⟩
  cases event <;> cases horigin

theorem not_isDetailOfProgram_of_error (message : String) :
    ¬IsDetailOfProgram (report .error message) := by
  rintro ⟨-, ⟨⟩⟩

namespace Options

theorem isDetailOfProgram_record (options : Options) :
    IsDetailOfProgram options.record :=
  ⟨rfl, rfl⟩

theorem not_isDetailOfProgram_of_mem_summary
    {options : Options} {assembly : Assembly} {record : Record}
    (h : record ∈ options.summary assembly) : ¬IsDetailOfProgram record := by
  rintro ⟨-, hlevel⟩
  rw [summary, List.mem_append] at h
  rcases h with h | h
  · split at h
    · rw [List.mem_singleton.mp h] at hlevel
      cases hlevel
    · exact List.not_mem_nil h
  · split at h
    · exact List.not_mem_nil h
    · rw [List.mem_cons, List.mem_map] at h
      rcases h with rfl | ⟨symbol, -, rfl⟩
      · cases hlevel
      · cases hlevel

/-- The log of an assembly stands between the record of the options and those that
tell how it went. -/
theorem exists_closing_records (options : Options) (source : String) :
    ∃ closing,
      (options.plan (.ok source)).records =
        options.record ::
          ((Report.ofSource source).events.toList.map Event.record ++ closing) ∧
      ∀ record ∈ closing, ¬IsDetailOfProgram record := by
  simp only [plan]
  rcases (Report.ofSource source).outcome with fault | assembly
  · refine ⟨_, rfl, ?_⟩
    rw [List.forall_mem_cons, List.forall_mem_singleton]
    exact ⟨not_isDetailOfProgram_of_error _, not_isDetailOfProgram_of_error _⟩
  · refine ⟨options.summary assembly, ?_, ?_⟩
    · rcases options.output with _ | path
      · rfl
      · rfl
    · intro record hrecord
      exact not_isDetailOfProgram_of_mem_summary hrecord

/-- Detail shows in the record of the options alone. -/
theorem exists_plan_openedBy
    (options : Options) (content : Except FileFault String) :
    ∃ plan : Plan,
      (∀ count, (options.withVerbosity count).plan content =
        plan.openedBy (options.withVerbosity count).record) ∧
      ∀ record ∈ plan.records, ¬IsDetailOfProgram record := by
  -- The plan is that of the options themselves, without its first record.
  refine ⟨{ options.plan content with records := (options.plan content).records.tail },
    ?_, ?_⟩
  · intro count
    dsimp only [plan, Plan.openedBy, summary, listingText, withVerbosity]
    rcases content with fault | source
    · dsimp only [List.tail_cons]
    · dsimp only
      rcases (Report.ofSource source).outcome with fault | assembly
      · dsimp only [List.cons_append, List.tail_cons]
      · rcases options.output with _ | path
        · dsimp only [List.cons_append, List.tail_cons]
        · dsimp only [List.cons_append, List.tail_cons]
  · intro record hrecord
    rcases content with fault | source
    · simp only [plan, List.tail_cons, List.mem_singleton] at hrecord
      rw [hrecord]
      exact not_isDetailOfProgram_of_error _
    · obtain ⟨closing, hrecords, hclosing⟩ := options.exists_closing_records source
      rw [hrecords, List.tail_cons, List.mem_append, List.mem_map] at hrecord
      rcases hrecord with ⟨event, -, rfl⟩ | hrecord
      · exact not_isDetailOfProgram_of_event event
      · exact hclosing record hrecord

/-- The same for what a session comes to. -/
theorem exists_session_openedBy (options : Options) (disk : Disk) :
    ∃ (plan : Plan) (after : Disk),
      (∀ count, (options.withVerbosity count).session disk =
        (plan.openedBy (options.withVerbosity count).record, after)) ∧
      ∀ record ∈ plan.records, ¬IsDetailOfProgram record := by
  obtain ⟨plan, hplan, hrecords⟩ :=
    options.exists_plan_openedBy (readText disk options.input)
  refine ⟨(plan.settle disk).1, (plan.settle disk).2, fun count => ?_, ?_⟩
  · have hinput : (options.withVerbosity count).input = options.input := rfl
    rw [session, hinput, hplan, Plan.settle_openedBy]
  · intro record hrecord
    rcases Plan.mem_records_settle hrecord with hplanned | ⟨message, rfl⟩
    · exact hrecords record hplanned
    · exact not_isDetailOfProgram_of_error message

end Options

/-! ## Logs up to a level -/

theorem mem_shown_iff {level : Level} {count : Nat} :
    level ∈ Level.shown count ↔ level.rank ≤ count := by
  rcases count with _ | _ | _ | _ | count
  · cases level <;> decide
  · cases level <;> decide
  · cases level <;> decide
  · cases level <;> decide
  · have hrank : level.rank ≤ count + 4 := by
      cases level <;> simp [Level.rank]
    exact iff_of_true (by cases level <;> simp [Level.shown]) hrank

theorem rank_ofVerbosity (count : Nat) : (Level.ofVerbosity count).rank = min count 4 := by
  rcases count with _ | _ | _ | _ | count
  · rfl
  · rfl
  · rfl
  · rfl
  · have hmin : min (count + 4) 4 = 4 := Nat.min_eq_right (by omega)
    rw [hmin]
    rfl

theorem isKept_ofVerbosity_iff {record : Record} {count : Nat} :
    record.isKept (some (Level.ofVerbosity count)) = true ↔
      record.level ∈ Level.shown count := by
  have hrank : record.level.rank ≤ 4 := by
    cases record.level <;> decide
  rw [Record.isKept, decide_eq_true_iff, rank_ofVerbosity, mem_shown_iff]
  omega

/-- The level that a record of the options names is the last one that is shown. -/
theorem getLast?_shown (count : Nat) :
    (Level.shown count).getLast? = some (Level.ofVerbosity count) := by
  rcases count with _ | _ | _ | _ | count
  · rfl
  · rfl
  · rfl
  · rfl
  · rfl

theorem log_of_session
    {options : Options} {disk after : Disk} {plan : Plan} {first : Record}
    (h : options.session disk = (plan.openedBy first, after)) :
    options.log disk =
      (first :: plan.records).filter (·.level ∈ Level.shown options.verbosity) := by
  rw [Options.log, h]
  apply List.filter_congr
  intro record _
  rw [Bool.eq_iff_iff, decide_eq_true_iff]
  exact isKept_ofVerbosity_iff

end Detail

/-- Asking for more detail takes no record away. -/
theorem filter_shown_of_le
    {count count' : Nat} (h : count ≤ count') (records : List Record) :
    (records.filter (·.level ∈ Level.shown count')).filter
        (·.level ∈ Level.shown count) =
      records.filter (·.level ∈ Level.shown count) := by
  rw [List.filter_filter]
  apply List.filter_congr
  intro record _
  rw [← Bool.decide_and, decide_eq_decide, mem_shown_iff, mem_shown_iff]
  omega

/-- Records that are filtered after another one has taken the place of the first. -/
theorem filter_cons_eq_map
    {first first' : Record} {records : List Record} (count : Nat)
    (hfirst : IsDetailOfProgram first) (hfirst' : IsDetailOfProgram first')
    (hrecords : ∀ record ∈ records, ¬IsDetailOfProgram record) :
    (first :: records).filter (·.level ∈ Level.shown count) =
      ((first' :: records).filter (·.level ∈ Level.shown count)).map
        fun record => if record = first' then first else record := by
  have hrest : (records.filter (·.level ∈ Level.shown count)).map
      (fun record => if record = first' then first else record) =
        records.filter (·.level ∈ Level.shown count) := by
    rw [List.map_congr_left (g := id), List.map_id]
    -- No other record is taken for the one that is replaced.
    intro record hrecord
    apply if_neg
    rintro rfl
    exact hrecords record (List.mem_filter.mp hrecord).1 hfirst'
  have hlevel : first.level = first'.level := hfirst.2.trans hfirst'.2.symm
  rw [List.filter_cons, List.filter_cons, hlevel]
  split
  · rw [List.map_cons, if_pos rfl, hrest]
  · rw [hrest]

/-- Verbosity shows in the log alone.  Two sessions that differ in it have the same
exit status, standard output and disk, and the same records after that of their options.
The log of each consists of the records at the levels that are shown for its verbosity,
so the log of the one that asks for less is the log of the other without those above
its level, but for the level that the record of the options names. -/
theorem verbosity_only_filters_log
    {Disk : Type} [FileSystem Disk]
    {arguments arguments' : List String} {options options' : Options}
    (hoptions : Options.ofArguments arguments = .ok options)
    (hoptions' : Options.ofArguments arguments' = .ok options')
    (hinput : options'.input = options.input)
    (houtput : options'.output = options.output)
    (hlisting : options'.listing = options.listing) (disk : Disk) :
    let outcome := invoke arguments disk
    let outcome' := invoke arguments' disk
    (outcome.status = outcome'.status ∧ outcome.stdout = outcome'.stdout ∧
      outcome.disk = outcome'.disk) ∧
    (outcome.stderr = (options.log disk).flatMap Record.lines ∧
      outcome'.stderr = (options'.log disk).flatMap Record.lines) ∧
    (∃ rest records, ∀ asked ∈ [options, options'],
      (asked.session disk).1.records = asked.record :: records ∧
        asked.record =
          report .debug ("Arguments:\n\tVerbosity: " ++ asked.level.name ++ rest) ∧
        (Level.shown asked.verbosity).getLast? = some asked.level ∧
        asked.log disk =
          (asked.record :: records).filter
            (·.level ∈ Level.shown asked.verbosity)) ∧
    (options.verbosity ≤ options'.verbosity →
      options.log disk =
        ((options'.log disk).filter (·.level ∈ Level.shown options.verbosity)).map
          fun record => if record = options'.record then options.record else record) := by
  obtain ⟨count, rfl⟩ : ∃ count, options' = options.withVerbosity count := by
    refine ⟨options'.verbosity, ?_⟩
    rw [Options.withVerbosity, ← hinput, ← houtput, ← hlisting]
  obtain ⟨plan, after, hsession, hrecords⟩ := options.exists_session_openedBy disk
  have hself : options.withVerbosity options.verbosity = options := rfl
  have hquiet := hsession options.verbosity
  rw [hself] at hquiet
  refine ⟨?_, ⟨stderr_eq_log hoptions disk, stderr_eq_log hoptions' disk⟩, ?_, ?_⟩
  · rw [invoke_eq_session hoptions, invoke_eq_session hoptions', hquiet, hsession count]
    simp
  · refine ⟨options.recordRest, plan.records, ?_⟩
    rw [List.forall_mem_cons, List.forall_mem_singleton]
    refine ⟨⟨?_, options.record_eq, getLast?_shown _, log_of_session hquiet⟩,
      ?_, ?_, getLast?_shown _, log_of_session (hsession count)⟩
    · rw [hquiet]
      rfl
    · rw [hsession count]
      rfl
    · rw [Options.record_eq, Options.recordRest_withVerbosity]
  · intro hle
    rw [log_of_session hquiet, log_of_session (hsession count), filter_shown_of_le hle]
    exact filter_cons_eq_map options.verbosity options.isDetailOfProgram_record
      (options.withVerbosity count).isDetailOfProgram_record hrecords

/-- The log at the level of details, told by the log of all that happens. -/
theorem verbosity_only_filters_log_details :
    let disk : Files := { entries := [⟨⟨.root, "a"⟩, "x: hlt\n".toUTF8⟩] }
    let options : Options := ⟨"a", none, true, 3⟩
    let options' : Options := ⟨"a", none, true, 4⟩
    (invoke ["-vvvd", "a"] disk).stdout = (invoke ["-v", "a", "-dvvv"] disk).stdout ∧
      (invoke ["-vvvd", "a"] disk).stderr = (options.log disk).flatMap Record.lines ∧
        options.log disk =
          ((options'.log disk).filter
              (·.level ∈ [Level.error, .warn, .info, .debug])).map
            fun record => if record = options'.record then options.record else record := by
  intro disk options options'
  have hoptions : Options.ofArguments ["-vvvd", "a"] = .ok options := by decide
  have hoptions' : Options.ofArguments ["-v", "a", "-dvvv"] = .ok options' := by decide
  obtain ⟨⟨-, hstdout, -⟩, ⟨hstderr, -⟩, -, hlog⟩ :=
    verbosity_only_filters_log hoptions hoptions' rfl rfl rfl disk
  exact ⟨hstdout, hstderr, hlog (by decide)⟩

end CommandLine
end Pom8
