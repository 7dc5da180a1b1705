import FlatScript.CommandLine
import FlatScript.Proofs.Eval.Completion

/-!
# Modes and diagnostics of the command

The command works in stages: it cuts the source into tokens, builds the tree, and runs it.  A mode
stops behind one of them.  Nothing of the program is written before the last stage, and a stage that
fails ends the command with a report.  So a mode that goes further fails wherever one that stops
earlier does, and in the same way.

Diagnostics are written in between.  All they do is to stand in front of what is reported anyway.
-/

namespace FlatScript.CommandLine

/-- The other exit is the same but for what is written in front of the report. -/
structure Exit.Quieter (exit other : Exit) : Prop where
  status : exit.status = other.status
  stdout : exit.stdout = other.stdout
  stderr : ∃ log, other.stderr = log ++ exit.stderr

namespace Job

/-- The job without diagnostics. -/
def quiet (job : Job) : Job :=
  { job with diagnostics := ⟨false, false⟩ }

/-- A quiet job notes nothing. -/
@[simp] theorem quiet_note (job : Job) (level : Level) (message : String) :
    job.quiet.note level message = "" := rfl

/-! ### Diagnostics -/

/-- A job that fails differs from the quiet one in the lines in front of the report. -/
theorem abort_quieter (job : Job) (log stdout : String) (error : Error) :
    (job.quiet.abort "" stdout error).Quieter (job.abort log stdout error) where
  status := rfl
  stdout := rfl
  stderr := by
    refine ⟨log ++ job.note .error "run aborted", ?_⟩
    simp only [abort, quiet_note, String.empty_append, String.append_assoc]
    rfl

/-- A run differs from the quiet one in the lines that it notes. -/
theorem runTree_quieter (job : Job) (fuel : Nat) (log : String) (program : Node) :
    Option.Rel Exit.Quieter (job.quiet.runTree fuel "" program) (job.runTree fuel log program) := by
  have hstdin : job.quiet.stdin = job.stdin := rfl
  simp only [runTree, hstdin, quiet_note, String.append_empty]
  split
  · exact .some ⟨rfl, rfl, _, String.append_empty.symm⟩
  · exact .some (job.abort_quieter _ _ _)
  · exact .none

/-- So does what is done from the tokens on. -/
theorem buildTree_quieter (job : Job) (fuel : Nat) (log : String) (tokens : List Token) :
    Option.Rel Exit.Quieter (job.quiet.buildTree fuel "" tokens)
      (job.buildTree fuel log tokens) := by
  have hmode : job.quiet.mode = job.mode := rfl
  simp only [buildTree, hmode, quiet_note, String.append_empty]
  split
  · exact .some (job.abort_quieter _ _ _)
  · split
    · exact .some ⟨rfl, rfl, _, String.append_empty.symm⟩
    · exact job.runTree_quieter fuel _ _

/-- **Diagnostics only add to the report.**  With the same fuel, a job without them ends if and only
if it ends with them, with the same status and the same output. -/
theorem perform_quieter (job : Job) (fuel : Nat) :
    Option.Rel Exit.Quieter (job.quiet.perform fuel) (job.perform fuel) := by
  have hsource : job.quiet.source = job.source := rfl
  have hmode : job.quiet.mode = job.mode := rfl
  simp only [perform, hsource, hmode, quiet_note, String.append_empty]
  split
  · exact .some (job.abort_quieter _ _ _)
  · split
    · exact .some ⟨rfl, rfl, _, String.append_empty.symm⟩
    · exact job.buildTree_quieter fuel _ _

end Job

/-! ### Stages -/

/-- What is wrong with a text as far as a mode reads it: all modes cut it into tokens, and all but
the listing of tokens build the tree. -/
def Mode.fault? (mode : Mode) (text : String) : Option Error :=
  match Script.tokens text with
  | .error error => some error
  | .ok found =>
    if mode = .tokens then none
    else
      match Script.build found with
      | .error error => some error
      | .ok _ => none

/-- What is wrong with the tokens is wrong in every mode. -/
theorem Mode.fault?_of_tokens {text : String} {error : Error}
    (hfault : Mode.tokens.fault? text = some error) (mode : Mode) :
    mode.fault? text = some error := by
  unfold Mode.fault? at hfault ⊢
  cases htokens : Script.tokens text with
  | error found =>
      rw [htokens] at hfault
      exact hfault
  | ok found =>
      rw [htokens] at hfault
      cases hfault

/-- **What a job can come to.**  It ends with the report of a fault in its source; or there is none,
and it ends well behind reading the source; or there is none, and it runs the tree of the source. -/
theorem Job.perform_cases (job : Job) :
    (∃ error, job.mode.fault? job.source.content = some error ∧
      ∀ fuel, job.quiet.perform fuel = some (job.quiet.abort "" "" error)) ∨
    (job.mode.fault? job.source.content = none ∧ job.mode ≠ .run ∧
      ∃ stdout, ∀ fuel, job.quiet.perform fuel = some { status := 0, stdout := stdout }) ∨
    (job.mode.fault? job.source.content = none ∧ job.mode = .run ∧
      ∃ program, ∀ fuel, job.quiet.perform fuel = job.quiet.runTree fuel "" program) := by
  have hsource : job.quiet.source = job.source := rfl
  have hmode : job.quiet.mode = job.mode := rfl
  simp only [perform, buildTree, Mode.fault?, hsource, hmode, quiet_note, String.append_empty]
  cases Script.tokens job.source.content with
  | error error => exact Or.inl ⟨error, rfl, fun _ => rfl⟩
  | ok tokens =>
      dsimp only
      cases Script.build tokens with
      | error error =>
          cases job.mode with
          | tokens => exact Or.inr (Or.inl ⟨rfl, by decide, _, fun _ => rfl⟩)
          | tree | run => exact Or.inl ⟨error, rfl, fun _ => rfl⟩
      | ok program =>
          cases job.mode with
          | tokens | tree => exact Or.inr (Or.inl ⟨rfl, by decide, _, fun _ => rfl⟩)
          | run => exact Or.inr (Or.inr ⟨rfl, rfl, program, fun _ => rfl⟩)

/-! ### The command as a whole -/

/-- The run of a tree that ends does so with more fuel as well. -/
theorem Job.runTree_mono {job : Job} {fuel fuel' : Nat} {log : String} {program : Node}
    {exit : Exit} (hends : job.runTree fuel log program = some exit) (hfuel : fuel ≤ fuel') :
    job.runTree fuel' log program = some exit := by
  have hended : ∃ outcome after,
      program.eval Builtins.standard fuel ⟨{}, { input := job.stdin : Console }⟩ =
        EvalM.ended outcome after := by
    simp only [runTree, Script.runTree, Node.runFresh] at hends
    cases heval : program.eval Builtins.standard fuel ⟨{}, { input := job.stdin : Console }⟩ with
    | ok value after => exact ⟨.ok value, after, rfl⟩
    | error halt after =>
        cases halt with
        | failed error => exact ⟨.error error, after, rfl⟩
        | outOfFuel =>
            rw [heval] at hends
            cases hends
  obtain ⟨outcome, after, heval⟩ := hended
  have hagain := (Node.eval_alike Builtins.standard hfuel program).ended_again heval
  rw [← hends]
  simp only [runTree, Script.runTree, Node.runFresh, heval, hagain]

/-- More fuel changes nothing about a job that ends. -/
theorem Job.perform_mono {job : Job} {fuel fuel' : Nat} {exit : Exit}
    (hends : job.perform fuel = some exit) (hfuel : fuel ≤ fuel') :
    job.perform fuel' = some exit := by
  simp only [perform, buildTree] at hends ⊢
  split at hends
  · exact hends
  · split at hends
    · simpa [*] using hends
    · split at hends
      · simpa [*] using hends
      · split at hends
        · simpa [*] using hends
        · simpa [*] using runTree_mono hends hfuel

/-- With enough fuel, the command ends in the given way: in a mode, with or without diagnostics, on
a file with some content or on one that cannot be read.  Nothing is coloured. -/
def Ends (file : String) (mode : Mode) (debug : Bool) (content : Except FileFault String)
    (stdin : List UInt8) (exit : Exit) : Prop :=
  ∃ fuel, Options.execute ⟨file, mode, debug⟩ fuel false content stdin = some exit

/-- There is one way at most in which the command ends. -/
theorem Ends.unique {file : String} {mode : Mode} {debug : Bool}
    {content : Except FileFault String} {stdin : List UInt8} {exit exit' : Exit}
    (hends : Ends file mode debug content stdin exit)
    (hends' : Ends file mode debug content stdin exit') : exit = exit' := by
  obtain ⟨fuel, hfuel⟩ := hends
  obtain ⟨fuel', hfuel'⟩ := hends'
  cases content with
  | error fault => exact Option.some.inj (hfuel.symm.trans hfuel')
  | ok text =>
      have hmax := Job.perform_mono hfuel (Nat.le_max_left fuel fuel')
      have hmax' := Job.perform_mono hfuel' (Nat.le_max_right fuel fuel')
      exact Option.some.inj (hmax.symm.trans hmax')

/-- With the same fuel, the command ends without diagnostics just if it ends with them, and they
only add to the report. -/
theorem execute_quieter (file : String) (mode : Mode) (content : Except FileFault String)
    (stdin : List UInt8) (fuel : Nat) :
    (∀ exit, Options.execute ⟨file, mode, false⟩ fuel false content stdin = some exit →
      ∃ other, Options.execute ⟨file, mode, true⟩ fuel false content stdin = some other ∧
        exit.Quieter other) ∧
    ∀ other, Options.execute ⟨file, mode, true⟩ fuel false content stdin = some other →
      ∃ exit, Options.execute ⟨file, mode, false⟩ fuel false content stdin = some exit ∧
        exit.Quieter other := by
  have hrel : Option.Rel Exit.Quieter
      (Options.execute ⟨file, mode, false⟩ fuel false content stdin)
      (Options.execute ⟨file, mode, true⟩ fuel false content stdin) := by
    cases content with
    | error fault => exact .some ⟨rfl, rfl, "", String.empty_append.symm⟩
    | ok text => exact Job.perform_quieter ⟨⟨text, file⟩, mode, ⟨true, false⟩, stdin⟩ fuel
  generalize Options.execute ⟨file, mode, false⟩ fuel false content stdin = quiet at hrel ⊢
  generalize Options.execute ⟨file, mode, true⟩ fuel false content stdin = noisy at hrel ⊢
  cases hrel with
  | some hquieter =>
      constructor
      · rintro _ ⟨⟩
        exact ⟨_, rfl, hquieter⟩
      · rintro _ ⟨⟩
        exact ⟨_, rfl, hquieter⟩
  | none => exact ⟨by rintro _ ⟨⟩, by rintro _ ⟨⟩⟩

variable {file : String} {mode : Mode} {content : Except FileFault String} {stdin : List UInt8}
  {exit : Exit}

/-- What ends without diagnostics ends with them, and has more lines at most. -/
theorem Ends.exists_with_diagnostics (hends : Ends file mode false content stdin exit) :
    ∃ other, Ends file mode true content stdin other ∧ exit.Quieter other := by
  obtain ⟨fuel, hfuel⟩ := hends
  obtain ⟨other, hother, hquieter⟩ := (execute_quieter file mode content stdin fuel).1 exit hfuel
  exact ⟨other, ⟨fuel, hother⟩, hquieter⟩

/-- What ends with diagnostics ends without them, and has fewer lines at most. -/
theorem Ends.exists_without_diagnostics (hends : Ends file mode true content stdin exit) :
    ∃ other, Ends file mode false content stdin other ∧ other.Quieter exit := by
  obtain ⟨fuel, hfuel⟩ := hends
  obtain ⟨other, hother, hquieter⟩ := (execute_quieter file mode content stdin fuel).2 exit hfuel
  exact ⟨other, ⟨fuel, hother⟩, hquieter⟩

/-- What is reported of a file that cannot be used in a mode: it cannot be read, or its text has a
fault as far as the mode reads it. -/
def Mode.report? (mode : Mode) (file : String) : Except FileFault String → Option String
  | .error fault => some ("error: could not read " ++ file ++ ": " ++ fault.message ++ "\n")
  | .ok text => (mode.fault? text).map fun error => error.report ⟨text, file⟩ ++ "\n"

/-- The tree is built for a run as it is for being shown. -/
theorem Mode.report?_run (file : String) (content : Except FileFault String) :
    Mode.run.report? file content = Mode.tree.report? file content := by
  cases content with
  | error fault => rfl
  | ok text => rfl

/-- What is reported when tokens are listed is reported in every mode. -/
theorem Mode.report?_of_tokens {report : String}
    (hreport : Mode.tokens.report? file content = some report) (mode : Mode) :
    mode.report? file content = some report := by
  cases content with
  | error fault => exact hreport
  | ok text =>
      simp only [Mode.report?, Option.map_eq_some_iff] at hreport ⊢
      obtain ⟨error, hfault, htext⟩ := hreport
      exact ⟨error, Mode.fault?_of_tokens hfault mode, htext⟩

/-- A file that can be run can be used in every mode. -/
theorem Mode.report?_eq_none_of_run (hrun : Mode.run.report? file content = none) (mode : Mode) :
    mode.report? file content = none := by
  cases mode with
  | tokens =>
      cases hreport : Mode.tokens.report? file content with
      | none => rfl
      | some report => cases hrun.symm.trans (Mode.report?_of_tokens hreport .run)
  | tree => exact (Mode.report?_run file content).symm.trans hrun
  | run => exact hrun

theorem append_newline_ne_empty (text : String) : text ++ "\n" ≠ "" := by
  intro hempty
  simp [String.append_eq_empty_iff] at hempty

/-- A report is not empty. -/
theorem Mode.report?_ne_empty {report : String}
    (hreport : mode.report? file content = some report) : report ≠ "" := by
  cases content with
  | error fault =>
      cases hreport
      exact append_newline_ne_empty _
  | ok text =>
      obtain ⟨error, -, rfl⟩ := Option.map_eq_some_iff.mp hreport
      exact append_newline_ne_empty _

/-- **What the command can come to** without diagnostics.  It ends with a report, if the file cannot
be used; it ends well, if the mode does not run the file; or it runs the tree of the file. -/
theorem execute_cases (file : String) (mode : Mode) (content : Except FileFault String)
    (stdin : List UInt8) :
    (∃ exit, mode.report? file content = some exit.stderr ∧ exit.status = 1 ∧ exit.stdout = "" ∧
      ∀ fuel, Options.execute ⟨file, mode, false⟩ fuel false content stdin = some exit) ∨
    (mode.report? file content = none ∧ mode ≠ .run ∧ ∃ stdout, ∀ fuel,
      Options.execute ⟨file, mode, false⟩ fuel false content stdin =
        some { status := 0, stdout := stdout }) ∨
    (mode.report? file content = none ∧ mode = .run ∧ ∃ job : Job, ∃ program, ∀ fuel,
      Options.execute ⟨file, mode, false⟩ fuel false content stdin =
        job.quiet.runTree fuel "" program) := by
  cases content with
  | error fault => exact Or.inl ⟨_, rfl, rfl, rfl, fun _ => rfl⟩
  | ok text =>
      let job : Job := ⟨⟨text, file⟩, mode, ⟨false, false⟩, stdin⟩
      rcases job.perform_cases with
        ⟨error, hfault, hends⟩ | ⟨hnone, hmode, hends⟩ | ⟨hnone, hmode, program, hends⟩
      · refine Or.inl ⟨_, ?_, rfl, rfl, hends⟩
        simp only [Job.abort, Job.quiet_note, String.empty_append]
        exact Option.map_eq_some_iff.mpr ⟨error, hfault, rfl⟩
      · exact Or.inr (Or.inl ⟨Option.map_eq_none_iff.mpr hnone, hmode, hends⟩)
      · exact Or.inr (Or.inr ⟨Option.map_eq_none_iff.mpr hnone, hmode, job, program, hends⟩)

/-- A file that cannot be used ends the command with the report, and nothing is written before. -/
theorem ends_of_report {report : String}
    (hreport : mode.report? file content = some report) (stdin : List UInt8) :
    ∃ exit, Ends file mode false content stdin exit ∧
      exit.status ≠ 0 ∧ exit.stderr = report ∧ exit.stdout = "" := by
  rcases execute_cases file mode content stdin with
    ⟨exit, hfound, hstatus, hstdout, hends⟩ | ⟨hnone, -⟩ | ⟨hnone, -⟩
  · refine ⟨exit, ⟨0, hends 0⟩, ?_, Option.some.inj (hfound.symm.trans hreport), hstdout⟩
    rw [hstatus]
    exact Nat.one_ne_zero
  · cases hreport.symm.trans hnone
  · cases hreport.symm.trans hnone

/-- A file that can be used ends the command well in a mode that does not run it. -/
theorem ends_of_no_report
    (hreport : mode.report? file content = none) (hmode : mode ≠ .run) (stdin : List UInt8) :
    ∃ exit, Ends file mode false content stdin exit ∧ exit.status = 0 := by
  rcases execute_cases file mode content stdin with
    ⟨exit, hfound, -⟩ | ⟨-, -, stdout, hends⟩ | ⟨-, hrun, -⟩
  · cases hreport.symm.trans hfound
  · exact ⟨_, ⟨0, hends 0⟩, rfl⟩
  · exact absurd hrun hmode

/-- Only the run of a file may go on for ever. -/
theorem exists_ends (file : String) (content : Except FileFault String) (stdin : List UInt8)
    (debug : Bool) (hmode : mode ≠ .run) : ∃ exit, Ends file mode debug content stdin exit := by
  have hquiet : ∃ exit, Ends file mode false content stdin exit := by
    cases hreport : mode.report? file content with
    | none =>
        obtain ⟨exit, hends, -⟩ := ends_of_no_report hreport hmode stdin
        exact ⟨exit, hends⟩
    | some report =>
        obtain ⟨exit, hends, -⟩ := ends_of_report hreport stdin
        exact ⟨exit, hends⟩
  cases debug with
  | false => exact hquiet
  | true =>
      obtain ⟨exit, hends⟩ := hquiet
      obtain ⟨other, hother, -⟩ := hends.exists_with_diagnostics
      exact ⟨other, hother⟩

/-- A mode that does not run the file fails with the report of it. -/
theorem Ends.report (hends : Ends file mode false content stdin exit) (hmode : mode ≠ .run)
    (hfailed : exit.status ≠ 0) : mode.report? file content = some exit.stderr := by
  cases hreport : mode.report? file content with
  | none =>
      obtain ⟨other, hother, hstatus⟩ := ends_of_no_report hreport hmode stdin
      rw [hends.unique hother] at hfailed
      exact absurd hstatus hfailed
  | some report =>
      obtain ⟨other, hother, -, hstderr, -⟩ := ends_of_report hreport stdin
      rw [hends.unique hother, hstderr]

/-- Whatever succeeds had a file that could be used. -/
theorem Ends.report_eq_none (hends : Ends file mode false content stdin exit)
    (hdone : exit.status = 0) : mode.report? file content = none := by
  cases hreport : mode.report? file content with
  | none => rfl
  | some report =>
      obtain ⟨other, hother, hstatus, -⟩ := ends_of_report hreport stdin
      rw [hends.unique hother] at hdone
      exact absurd hdone hstatus

/-- Without diagnostics, a run of a tree reports something just if it fails. -/
theorem Job.runTree_stderr {job : Job} {fuel : Nat} {program : Node}
    (hends : job.quiet.runTree fuel "" program = some exit) :
    exit.stderr = "" ↔ exit.status = 0 := by
  simp only [runTree, quiet_note, String.append_empty] at hends
  split at hends
  · cases hends
    exact ⟨fun _ => rfl, fun _ => rfl⟩
  · cases hends
    exact iff_of_false (append_newline_ne_empty _) Nat.one_ne_zero
  · cases hends

/-- Without diagnostics, something is reported just if the command fails. -/
theorem Ends.stderr_eq_empty_iff (hends : Ends file mode false content stdin exit) :
    exit.stderr = "" ↔ exit.status = 0 := by
  obtain ⟨fuel, hfuel⟩ := hends
  rcases execute_cases file mode content stdin with
    ⟨found, hreport, hstatus, -, hends⟩ | ⟨-, -, stdout, hends⟩ | ⟨-, -, job, program, hends⟩
  · cases (hends fuel).symm.trans hfuel
    refine iff_of_false (Mode.report?_ne_empty hreport) ?_
    rw [hstatus]
    exact Nat.one_ne_zero
  · cases (hends fuel).symm.trans hfuel
    exact ⟨fun _ => rfl, fun _ => rfl⟩
  · exact Job.runTree_stderr ((hends fuel).symm.trans hfuel)

/-- **The modes agree, and diagnostics have no effect but their own lines.**  On every file, with
some content or none that can be read, and on every input, the command ends in one way at most, and
it does end unless it runs the file.

With and without diagnostics it ends alike, but for lines in front of what is reported.  Without
them, a file whose tokens cannot be listed fails in every mode with the same report and no output;
one whose tokens can be listed but whose tree cannot be shown fails to run with that report and no
output, on any input; one that runs well can be listed and shown; and something is reported just if
the command fails. -/
theorem modes_agree (file : String) (content : Except FileFault String) (stdin : List UInt8) :
    (∀ mode debug exit exit', Ends file mode debug content stdin exit →
      Ends file mode debug content stdin exit' → exit = exit') ∧
    (∀ mode debug, mode ≠ .run → ∃ exit, Ends file mode debug content stdin exit) ∧
    (∀ mode,
      (∀ exit, Ends file mode false content stdin exit →
        ∃ other, Ends file mode true content stdin other ∧ exit.Quieter other) ∧
      ∀ other, Ends file mode true content stdin other →
        ∃ exit, Ends file mode false content stdin exit ∧ exit.Quieter other) ∧
    (∀ listed, Ends file .tokens false content stdin listed → listed.status ≠ 0 →
      ∀ mode stdin', ∃ exit, Ends file mode false content stdin' exit ∧
        exit.status ≠ 0 ∧ exit.stderr = listed.stderr ∧ exit.stdout = "") ∧
    (∀ listed shown, Ends file .tokens false content stdin listed → listed.status = 0 →
      Ends file .tree false content stdin shown → shown.status ≠ 0 →
      ∀ stdin', ∃ exit, Ends file .run false content stdin' exit ∧
        exit.status ≠ 0 ∧ exit.stderr = shown.stderr ∧ exit.stdout = "") ∧
    (∀ ran, Ends file .run false content stdin ran → ran.status = 0 →
      ∀ mode, ∃ exit, Ends file mode false content stdin exit ∧ exit.status = 0) ∧
    ∀ mode exit, Ends file mode false content stdin exit →
      (exit.stderr = "" ↔ exit.status = 0) := by
  refine ⟨fun _ _ _ _ => Ends.unique, fun _ debug => exists_ends file content stdin debug,
    fun _ => ⟨fun _ => Ends.exists_with_diagnostics, fun _ => Ends.exists_without_diagnostics⟩,
    ?_, ?_, ?_, fun _ _ => Ends.stderr_eq_empty_iff⟩
  · intro listed hlisted hfailed mode stdin'
    have hreport := hlisted.report (by decide) hfailed
    exact ends_of_report (Mode.report?_of_tokens hreport mode) stdin'
  · intro listed shown _ _ hshown hfailed stdin'
    have hreport := hshown.report (by decide) hfailed
    exact ends_of_report ((Mode.report?_run file content).trans hreport) stdin'
  · intro ran hran hdone mode
    by_cases hmode : mode = .run
    · exact ⟨ran, hmode ▸ hran, hdone⟩
    · exact ends_of_no_report (Mode.report?_eq_none_of_run (hran.report_eq_none hdone) mode) hmode
        stdin

/-- A program that would write a line first, were its second statement one, does not get to write
it.  One whose second statement fails when it runs has written the line by then; diagnostics change
nothing about that line and about the end.  One that only writes the line runs well, and so it can
be listed and shown. -/
theorem modes_agree_halfway :
    (∃ shown, Ends "f" .tree false (.ok "print(1) 2") [] shown ∧ shown.status ≠ 0 ∧
      ∀ stdin, ∃ exit, Ends "f" .run false (.ok "print(1) 2") stdin exit ∧
        exit.status ≠ 0 ∧ exit.stderr = shown.stderr ∧ exit.stdout = "") ∧
    (∃ ran other, Ends "f" .run false (.ok "print(1) print(x)") [] ran ∧ ran.status = 1 ∧
      ran.stdout = "1\n" ∧ ran.stderr ≠ "" ∧
      Ends "f" .run true (.ok "print(1) print(x)") [] other ∧ ran.Quieter other) ∧
    ∃ ran, Ends "f" .run false (.ok "print(1)") [] ran ∧ ran.stdout = "1\n" ∧ ran.stderr = "" ∧
      ∀ mode, ∃ exit, Ends "f" mode false (.ok "print(1)") [] exit ∧ exit.status = 0 := by
  refine ⟨?_, ?_, ?_⟩
  · have hlisted : (Options.execute ⟨"f", .tokens, false⟩ 0 false (.ok "print(1) 2") []).map
        Exit.status = some 0 := by decide +kernel
    have hshown : (Options.execute ⟨"f", .tree, false⟩ 0 false (.ok "print(1) 2") []).map
        Exit.status = some 1 := by decide +kernel
    obtain ⟨listed, hlisted, hdone⟩ := Option.map_eq_some_iff.mp hlisted
    obtain ⟨shown, hshown, hfailed⟩ := Option.map_eq_some_iff.mp hshown
    have hstatus : shown.status ≠ 0 := by
      rw [hfailed]
      exact Nat.one_ne_zero
    obtain ⟨-, -, -, -, hrun, -⟩ := modes_agree "f" (.ok "print(1) 2") []
    exact ⟨shown, ⟨0, hshown⟩, hstatus, hrun listed shown ⟨0, hlisted⟩ hdone ⟨0, hshown⟩ hstatus⟩
  · have hran : (Options.execute ⟨"f", .run, false⟩ 4 false (.ok "print(1) print(x)") []).map
        (fun exit => (exit.status, exit.stdout)) = some (1, "1\n") := by decide +kernel
    obtain ⟨ran, hran, hexit⟩ := Option.map_eq_some_iff.mp hran
    obtain ⟨hstatus, hstdout⟩ := Prod.mk.inj hexit
    have hends : Ends "f" .run false (.ok "print(1) print(x)") [] ran := ⟨4, hran⟩
    obtain ⟨-, -, hquieter, -, -, -, hreported⟩ := modes_agree "f" (.ok "print(1) print(x)") []
    obtain ⟨other, hother, hquieter⟩ := (hquieter .run).1 ran hends
    refine ⟨ran, other, hends, hstatus, hstdout, ?_, hother, hquieter⟩
    rw [Ne, hreported .run ran hends, hstatus]
    exact Nat.one_ne_zero
  · have hran : (Options.execute ⟨"f", .run, false⟩ 4 false (.ok "print(1)") []).map
        (fun exit => (exit.status, exit.stdout)) = some (0, "1\n") := by decide +kernel
    obtain ⟨ran, hran, hexit⟩ := Option.map_eq_some_iff.mp hran
    obtain ⟨hstatus, hstdout⟩ := Prod.mk.inj hexit
    have hends : Ends "f" .run false (.ok "print(1)") [] ran := ⟨4, hran⟩
    obtain ⟨-, -, -, -, -, hwell, hreported⟩ := modes_agree "f" (.ok "print(1)") []
    exact ⟨ran, hends, hstdout, (hreported .run ran hends).mpr hstatus, hwell ran hends hstatus⟩

end FlatScript.CommandLine
