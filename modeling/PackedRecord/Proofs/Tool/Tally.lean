import PackedRecord.Proofs.Stages
import PackedRecord.Tool.Lint

/-! # Tallies — many tables, linted one after another

    The linter goes through its tables with one tally in hand: what was printed
    so far, how many errors and warnings there were, whether a table failed.
    A table that fails is passed over at once.  The heart is `take_eq`, what one
    table adds, which does not depend on the tables before it; so a whole run
    adds up what each table adds by itself (`foldl_take`).  The linter makes
    all reports first and puts them together afterwards, which comes to the
    same (`run_eq_tally`). -/

namespace PackedRecord.Tool.Lint

open Layout (Finding)

/-! ## Switches among files -/

def switches : List String :=
  ["--human", "-H", "--verbose", "-v"]

/-- Arguments with the switches and the files that they consist of. -/
inductive Sorts : List String → List String → List String → Prop
  | done : Sorts [] [] []
  | switch {a : String} {arguments flags files : List String} :
      a ∈ switches → Sorts arguments flags files → Sorts (a :: arguments) (a :: flags) files
  | file {a : String} {arguments flags files : List String} :
      a ∉ switches → Sorts arguments flags files → Sorts (a :: arguments) flags (a :: files)

/-- Every argument is a switch or a file. -/
theorem exists_sorts (arguments : List String) : ∃ flags files, Sorts arguments flags files := by
  induction arguments with
  | nil => exact ⟨[], [], Sorts.done⟩
  | cons a rest ih =>
      obtain ⟨flags, files, h⟩ := ih
      by_cases ha : a ∈ switches
      · exact ⟨a :: flags, files, Sorts.switch ha h⟩
      · exact ⟨flags, a :: files, Sorts.file ha h⟩

/-- Whether findings are printed for people. -/
def ForPeople (flags : List String) : Prop :=
  "--human" ∈ flags ∨ "-H" ∈ flags

/-- Whether the log is complete. -/
def Verbose (flags : List String) : Prop :=
  "--verbose" ∈ flags ∨ "-v" ∈ flags

instance (flags : List String) : Decidable (ForPeople flags) :=
  inferInstanceAs (Decidable (_ ∨ _))

instance (flags : List String) : Decidable (Verbose flags) :=
  inferInstanceAs (Decidable (_ ∨ _))

/-- The choice that switches and files make. -/
def Choice.of (flags files : List String) : Choice where
  human := ForPeople flags
  verbose := Verbose flags
  paths := files

theorem any_eq_or (arguments : List String) (a b : String) :
    (arguments.any fun x => x = a || x = b) = true ↔ a ∈ arguments ∨ b ∈ arguments := by
  simp only [List.any_eq_true, Bool.or_eq_true, decide_eq_true_iff]
  constructor
  · rintro ⟨x, hx, rfl | rfl⟩
    · exact Or.inl hx
    · exact Or.inr hx
  · rintro (ha | hb)
    · exact ⟨a, ha, Or.inl rfl⟩
    · exact ⟨b, hb, Or.inr rfl⟩

namespace Sorts

variable {arguments flags files : List String}

/-- The paths that the linter goes through are the files, in their order. -/
theorem paths_eq (h : Sorts arguments flags files) :
    (Choice.ofArguments arguments).paths = files := by
  show arguments.filter (fun a => !switches.contains a) = files
  induction h with
  | done => rfl
  | switch ha _ ih => rw [List.filter_cons_of_neg (by simpa using ha), ih]
  | file ha _ ih => rw [List.filter_cons_of_pos (by simpa using ha), ih]

/-- A switch is among the arguments exactly if it is among the flags. -/
theorem mem_iff (h : Sorts arguments flags files) {a : String} (ha : a ∈ switches) :
    a ∈ arguments ↔ a ∈ flags := by
  induction h with
  | done => exact Iff.rfl
  | switch _ _ ih => rw [List.mem_cons, List.mem_cons, ih]
  | @file b _ _ _ hb _ ih =>
      have hne : a ≠ b := fun h => hb (h ▸ ha)
      rw [List.mem_cons, or_iff_right hne, ih]

/-- The linter's choice is made by the switches and the files alone. -/
theorem ofArguments_eq (h : Sorts arguments flags files) :
    Choice.ofArguments arguments = .of flags files := by
  have hhuman : (arguments.any fun a => a = "--human" || a = "-H") = decide (ForPeople flags) := by
    rw [Bool.eq_iff_iff, any_eq_or, decide_eq_true_iff, ForPeople, h.mem_iff (by decide),
      h.mem_iff (by decide)]
  have hverbose : (arguments.any fun a => a = "--verbose" || a = "-v") = decide (Verbose flags) := by
    rw [Bool.eq_iff_iff, any_eq_or, decide_eq_true_iff, Verbose, h.mem_iff (by decide),
      h.mem_iff (by decide)]
  show Choice.mk _ _ (Choice.ofArguments arguments).paths = _
  rw [hhuman, hverbose, h.paths_eq]
  rfl

/-- Without files every argument is a switch. -/
theorem mem_switches (h : Sorts arguments flags []) : ∀ a ∈ arguments, a ∈ switches := by
  generalize hfiles : ([] : List String) = files at h
  induction h with
  | done => exact fun a ha => nomatch ha
  | switch ha _ ih => exact List.forall_mem_cons.mpr ⟨ha, ih hfiles⟩
  | file => exact nomatch hfiles

end Sorts

/-! ## One table -/

/-- A table under the name by which it is reported, with its text if that can
    be had. -/
structure Input where
  name : String
  text : Except FileError String

/-- What the linter is given: its files, or standard input if there are none. -/
def inputs (d : Directory) (stdin : ByteArray) : List String → List Input
  | [] => [⟨"<stdin>", decodeText stdin⟩]
  | file :: files => (file :: files).map fun path => ⟨path, d.readText path⟩

namespace Input

/-- The findings about a table by itself, or why there are none. -/
def findings (i : Input) : Except String (List Finding) :=
  i.text.mapError FileError.message >>= fun source => (lint source).mapError CompileError.message

def Failed (i : Input) : Prop :=
  i.findings.isOk = false

instance (i : Input) : Decidable i.Failed :=
  inferInstanceAs (Decidable (_ = _))

/-- What there is to print; nothing if the table failed. -/
def found (i : Input) : List Finding :=
  match i.findings with
  | .ok findings => findings
  | .error _ => []

/-- What is printed about a table. -/
def block (human : Bool) (i : Input) : String :=
  String.join (i.found.map (findingText human i.name))

/-- What is said about a table on the error stream. -/
def notes (verbose : Bool) (i : Input) : String :=
  (match i.text with
    | .ok source => log verbose (lintTraced source).events
    | .error _ => "")
  ++ (match i.findings with
    | .ok _ => ""
    | .error message => i.name ++ ": " ++ message ++ "\n")

end Input

def isError (f : Finding) : Bool :=
  f.cause.severity = .error

def isWarning (f : Finding) : Bool :=
  f.cause.severity = .warning

/-- The findings about all tables, in order. -/
def foundIn (tables : List Input) : List Finding :=
  tables.flatMap Input.found

/-! ## Going through the tables -/

/-- What a run has printed and counted so far. -/
structure Tally where
  stdout : String := ""
  stderr : String := ""
  errors : Nat := 0
  warnings : Nat := 0
  failed : Bool := false

namespace Tally

def note (t : Tally) (text : String) : Tally :=
  { t with stderr := t.stderr ++ text }

/-- A table that failed. -/
def fail (name message : String) (t : Tally) : Tally :=
  { t.note (name ++ ": " ++ message ++ "\n") with failed := true }

def count (t : Tally) : Layout.Severity → Tally
  | .error => { t with errors := t.errors + 1 }
  | .warning => { t with warnings := t.warnings + 1 }

/-- Counts a finding and prints it. -/
def print (human : Bool) (name : String) (t : Tally) (f : Finding) : Tally :=
  let t := t.count f.cause.severity
  { t with stdout := t.stdout ++ findingText human name f }

/-- Takes a table up into the tally. -/
def take (choice : Choice) (t : Tally) (i : Input) : Tally :=
  match i.text with
  | .error e => t.fail i.name e.message
  | .ok source =>
      let t := t.note (log choice.verbose (lintTraced source).events)
      match lint source with
      | .error e => t.fail i.name e.message
      | .ok findings => findings.foldl (print choice.human i.name) t

/-- How a run ends. -/
def outcome (t : Tally) (d : Directory) : Outcome where
  status := if t.failed || 0 < t.errors then 1 else 0
  stdout := t.stdout
  stderr := t.stderr ++ summary t.errors t.warnings
  directory := d

/-- The tally with the given things added to it. -/
def plus (t : Tally) (stdout stderr : String) (findings : List Finding) (failed : Bool) : Tally where
  stdout := t.stdout ++ stdout
  stderr := t.stderr ++ stderr
  errors := t.errors + findings.countP isError
  warnings := t.warnings + findings.countP isWarning
  failed := t.failed || failed

/-- To add twice is to add everything at once. -/
theorem plus_plus (t : Tally) (stdout stdout' stderr stderr' : String)
    (findings findings' : List Finding) (failed failed' : Bool) :
    (t.plus stdout stderr findings failed).plus stdout' stderr' findings' failed'
      = t.plus (stdout ++ stdout') (stderr ++ stderr') (findings ++ findings')
          (failed || failed') := by
  simp only [plus, List.countP_append, String.append_assoc, Nat.add_assoc, Bool.or_assoc]

theorem plus_nothing (t : Tally) : t.plus "" "" [] false = t := by
  simp [plus]

/-- To print a finding adds its text and counts it. -/
theorem print_eq (human : Bool) (name : String) (t : Tally) (f : Finding) :
    t.print human name f = t.plus (findingText human name f) "" [f] false := by
  cases h : f.cause.severity <;> simp [print, count, plus, isError, isWarning, h]

/-- To print findings adds them all, in their order. -/
theorem foldl_print (human : Bool) (name : String) (findings : List Finding) :
    ∀ t : Tally, findings.foldl (print human name) t
      = t.plus (String.join (findings.map (findingText human name))) "" findings false := by
  induction findings with
  | nil => exact fun t => t.plus_nothing.symm
  | cons f rest ih =>
      intro t
      rw [List.foldl_cons, ih, print_eq, plus_plus, List.map_cons, String.join_cons]
      rfl

theorem note_eq (t : Tally) (text : String) : t.note text = t.plus "" text [] false := by
  simp [note, plus]

/-- A table that failed adds its message and counts as failed. -/
theorem fail_eq (t : Tally) (name message : String) :
    t.fail name message = t.plus "" (name ++ ": " ++ message ++ "\n") [] true := by
  simp [fail, note, plus]

/-- What a table adds does not depend on the tally. -/
theorem take_eq (choice : Choice) (t : Tally) (i : Input) :
    t.take choice i = t.plus (i.block choice.human) (i.notes choice.verbose) i.found i.Failed := by
  obtain ⟨name, text⟩ := i
  cases text with
  | error e => exact t.fail_eq name e.message
  | ok source =>
      have hfindings : (Input.mk name (.ok source)).findings
          = (lint source).mapError CompileError.message := rfl
      simp only [take, Input.block, Input.notes, Input.found, Input.Failed, hfindings]
      cases lint source with
      | error e =>
          simp only [Except.mapError, note_eq, fail_eq, plus_plus]
          rfl
      | ok findings =>
          simp only [Except.mapError, note_eq, foldl_print, plus_plus]
          simp [Except.isOk, Except.toBool]

/-- **A RUN ADDS UP ITS TABLES**: what each of them adds by itself, in their
    order. -/
theorem foldl_take (choice : Choice) (tables : List Input) :
    ∀ t : Tally, tables.foldl (take choice) t
      = t.plus (String.join (tables.map (Input.block choice.human)))
          (String.join (tables.map (Input.notes choice.verbose))) (foundIn tables)
          (∃ i ∈ tables, i.Failed) := by
  induction tables with
  | nil => exact fun t => t.plus_nothing.symm
  | cons i rest ih =>
      intro t
      rw [List.foldl_cons, ih, take_eq, plus_plus, List.map_cons, List.map_cons, String.join_cons,
        String.join_cons]
      congr 1
      simp

end Tally

/-! ## Reports -/

namespace Input

/-- The report that a run makes of a table. -/
def report (i : Input) : TableReport :=
  match i.text with
  | .ok source => .ofText i.name source
  | .error e => ⟨i.name, [], .error e.message⟩

theorem report_name (i : Input) : i.report.path = i.name := by
  obtain ⟨name, text⟩ := i
  cases text <;> rfl

theorem report_findings (i : Input) : i.report.findings = i.findings := by
  obtain ⟨name, text⟩ := i
  cases text <;> rfl

theorem report_list (i : Input) : i.report.list = i.found := by
  rw [TableReport.list, report_findings]
  rfl

/-- What a report prints is the block of its table. -/
theorem report_stdout (i : Input) (human : Bool) : i.report.stdout human = i.block human := by
  rw [TableReport.stdout, report_list, report_name]
  rfl

/-- What a report says on the error stream are the notes about its table. -/
theorem report_stderr (i : Input) (verbose : Bool) : i.report.stderr verbose = i.notes verbose := by
  rw [TableReport.stderr, report_findings, report_name]
  obtain ⟨name, text⟩ := i
  cases text <;> rfl

/-- A report has failed exactly if its table did. -/
theorem report_failed (i : Input) : i.report.failed = decide i.Failed := by
  rw [Bool.eq_iff_iff, decide_eq_true_iff, TableReport.failed, report_findings]
  show _ ↔ i.findings.isOk = false
  cases i.findings <;> simp [Except.isOk, Except.toBool]

/-- What a report counts are the findings of that severity. -/
theorem report_count (i : Input) (severity : Layout.Severity) :
    i.report.count severity = i.found.countP (·.cause.severity = severity) := by
  rw [TableReport.count, report_list, List.countP_eq_length_filter]

end Input

theorem foldl_count (severity : Layout.Severity) (tables : List Input) :
    ∀ n : Nat, (tables.map Input.report).foldl (fun n report => n + report.count severity) n
      = n + (foundIn tables).countP (·.cause.severity = severity) := by
  induction tables with
  | nil => exact fun _ => rfl
  | cons i rest ih =>
      intro n
      rw [List.map_cons, List.foldl_cons, ih, Input.report_count, Nat.add_assoc,
        ← List.countP_append]
      rfl

/-- Reports that are made first and added up afterwards come to the tally. -/
theorem conclude_eq (choice : Choice) (d : Directory) (tables : List Input) :
    conclude choice d (tables.map Input.report)
      = (tables.foldl (Tally.take choice) {}).outcome d := by
  have hstdout : (tables.map Input.report).map (·.stdout choice.human)
      = tables.map (Input.block choice.human) := by
    rw [List.map_map]
    exact List.map_congr_left fun i _ => i.report_stdout choice.human
  have hstderr : (tables.map Input.report).map (·.stderr choice.verbose)
      = tables.map (Input.notes choice.verbose) := by
    rw [List.map_map]
    exact List.map_congr_left fun i _ => i.report_stderr choice.verbose
  have hfailed : (tables.map Input.report).any (·.failed) = decide (∃ i ∈ tables, i.Failed) := by
    rw [Bool.eq_iff_iff]
    simp [Input.report_failed]
  rw [Tally.foldl_take, conclude, hstdout, hstderr, hfailed, foldl_count, foldl_count]
  simp only [Tally.outcome, Tally.plus, String.empty_append, Bool.false_or]
  rfl

/-- **THE LINTER RUNS LIKE A TALLY**, once its arguments are sorted and standard
    input is text where it is read. -/
theorem run_eq_tally {arguments flags files : List String} (h : Sorts arguments flags files)
    (d : Directory) {stdin : ByteArray}
    (hstdin : files = [] → ∃ source, decodeText stdin = .ok source) :
    run arguments d stdin
      = ((inputs d stdin files).foldl (Tally.take (.of flags files)) {}).outcome d := by
  have hreport : ∀ path : String,
      Input.report ⟨path, d.readText path⟩ = TableReport.ofFile d path := by
    intro path
    unfold TableReport.ofFile Input.report
    cases d.readText path <;> rfl
  rw [← conclude_eq, run, h.ofArguments_eq]
  cases files with
  | nil =>
      obtain ⟨source, hsource⟩ := hstdin rfl
      simp only [Choice.of, hsource, inputs]
      rfl
  | cons file files =>
      simp only [Choice.of, inputs, List.map_map, Function.comp_def, hreport]

end PackedRecord.Tool.Lint
