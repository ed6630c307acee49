import PackedRecord.Tool.Outcome

/-! # The linter — findings about many tables

    The tool reports what is odd about the declared offsets of every table it
    is given, one table after another.  A table that cannot be read or has no
    layout is reported on the error stream and does not stop the others. -/

namespace PackedRecord.Tool.Lint

/-- What the linter was asked to do. -/
structure Choice where
  /-- Findings for people instead of programs. -/
  human : Bool
  verbose : Bool
  paths : List String
  deriving DecidableEq, Repr

namespace Choice

/-- Switches count wherever they stand and however often; everything else is
    a path. -/
def ofArguments (arguments : List String) : Choice where
  human := arguments.any fun a => a = "--human" || a = "-H"
  verbose := arguments.any fun a => a = "--verbose" || a = "-v"
  paths := arguments.filter fun a => !(["--human", "-H", "--verbose", "-v"].contains a)

end Choice

/-- One finding in a report. -/
def findingText (human : Bool) (path : String) (f : Layout.Finding) : String :=
  if human then
    "  " ++ path ++ " line " ++ toString f.line ++ ": " ++ f.cause.message ++ "\n"
      ++ "    rule: " ++ f.cause.rule ++ " (" ++ f.cause.severity.text ++ ")\n"
  else
    path ++ ":" ++ toString f.line ++ ": " ++ f.cause.severity.text ++ ": " ++ f.cause.message
      ++ " [" ++ f.cause.rule ++ "]\n"

/-- What the linter found out about one table: its findings, or that there
    are none because it failed. -/
structure TableReport where
  path : String
  events : List Event
  findings : Except String (List Layout.Finding)

namespace TableReport

def ofText (path source : String) : TableReport :=
  let findings := lintTraced source
  ⟨path, findings.events, findings.result.mapError CompileError.message⟩

def ofFile (d : Directory) (path : String) : TableReport :=
  match d.readText path with
  | .ok source => ofText path source
  | .error e => ⟨path, [], .error e.message⟩

/-- The findings; a table that failed has none. -/
def list (r : TableReport) : List Layout.Finding :=
  match r.findings with
  | .ok findings => findings
  | .error _ => []

def failed (r : TableReport) : Bool :=
  match r.findings with
  | .ok _ => false
  | .error _ => true

def count (r : TableReport) (severity : Layout.Severity) : Nat :=
  (r.list.filter (·.cause.severity = severity)).length

def stdout (r : TableReport) (human : Bool) : String :=
  String.join (r.list.map (findingText human r.path))

/-- The log, and why the table failed if it did. -/
def stderr (r : TableReport) (verbose : Bool) : String :=
  log verbose r.events
    ++ (match r.findings with
        | .ok _ => ""
        | .error message => r.path ++ ": " ++ message ++ "\n")

end TableReport

/-- The totals, if there is anything to count. -/
def summary (errors warnings : Nat) : String :=
  if 0 < errors ∨ 0 < warnings then
    "lint: " ++ toString errors ++ " error(s), " ++ toString warnings ++ " warning(s)\n"
  else ""

def conclude (choice : Choice) (d : Directory) (reports : List TableReport) : Outcome :=
  let errors := reports.foldl (fun n report => n + report.count .error) 0
  let warnings := reports.foldl (fun n report => n + report.count .warning) 0
  { status := if reports.any (·.failed) || 0 < errors then 1 else 0
    stdout := String.join (reports.map (·.stdout choice.human))
    stderr :=
      String.join (reports.map (·.stderr choice.verbose)) ++ summary errors warnings
    directory := d }

/-- A run of the linter; without paths it reads standard input. -/
def run (arguments : List String) (d : Directory) (stdin : ByteArray) : Outcome :=
  let choice := Choice.ofArguments arguments
  match choice.paths with
  | [] =>
      match decodeText stdin with
      | .ok source => conclude choice d [.ofText "<stdin>" source]
      | .error e =>
          { status := 1, stdout := "", stderr := (⟨e.message, []⟩ : Failure).text, directory := d }
  | paths => conclude choice d (paths.map (.ofFile d))

end PackedRecord.Tool.Lint
