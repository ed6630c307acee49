import PackedRecord.Compile
import PackedRecord.Tool.CommandLine
import PackedRecord.Tool.Directory

/-! # Outcomes — what a tool leaves behind -/

namespace PackedRecord.Tool

/-- The end of a run: exit status, both streams, and the directory. -/
structure Outcome where
  status : Nat
  stdout : String
  stderr : String
  directory : Directory

/-! ## Reports -/

/-- An event as a line of the log; levels are padded to five letters. -/
def logLine (e : Event) : String :=
  (match e.level with
    | .debug => "[DEBUG] "
    | .warning => "[WARN ] ") ++ e.message ++ "\n"

/-- The log: warnings, and everything else if the run is verbose. -/
def log (verbose : Bool) (events : List Event) : String :=
  String.join ((events.filter fun e => verbose || e.level = .warning).map logLine)

/-- Why a run fails: what was being done, and the causes below it. -/
structure Failure where
  doing : String
  causes : List String := []
  deriving DecidableEq, Repr

namespace Failure

/-- A cause with its mark in front; further lines of it are indented by as
    many spaces. -/
def causeText (mark : String) (cause : String) : String :=
  "\n" ++ mark
    ++ ("\n" ++ Text.spaces mark.length).intercalate
        ((Text.splitAt '\n' cause.toList).map String.ofList)

/-- The causes; several are numbered. -/
def causesText : List String → String
  | [] => ""
  | [cause] => "\n\nCaused by:" ++ causeText "    " cause
  | causes =>
      "\n\nCaused by:"
        ++ String.join (causes.zipIdx.map fun (cause, k) =>
            causeText ("    " ++ toString k ++ ": ") cause)

/-- The failure as the last thing that a run says. -/
def text (f : Failure) : String :=
  "Error: " ++ f.doing ++ causesText f.causes ++ "\n"

def ofFile (doing : String) (e : FileError) : Failure :=
  { doing, causes := [e.message] }

def ofCompile (path : String) (e : CompileError) : Failure :=
  { doing := "compiling " ++ path, causes := [e.message, e.cause] }

end Failure

/-- What a run says about a command line that it cannot use: the first line of
    the error. -/
def usageText (e : UsageError) : String :=
  String.ofList ((Text.lines ("error: " ++ e.message).toList).headD [])

/-- The outcome of a command line that names no work to do. -/
def stopped (c : Command) (d : Directory) : Stop → Outcome
  | .usage e => { status := 2, stdout := "", stderr := usageText e, directory := d }
  | .version =>
      { status := 0, stdout := c.name ++ " " ++ c.version ++ "\n", stderr := "", directory := d }
  | .help =>
      { status := 0,
        stdout := "Usage: " ++ c.name ++ " [OPTIONS]"
          ++ String.join (c.positionals.map fun p => " " ++ p.label) ++ "\n",
        stderr := "", directory := d }

/-! ## Parameters that several tools have -/

def textParam (label : String) : Param :=
  ⟨label, fun _ => none⟩

/-- A parameter that takes a path, which cannot be empty. -/
def pathParam (label : String) : Param :=
  ⟨label, fun value => if value = "" then some .empty else none⟩

def verboseOption : CommandOption :=
  { long := "verbose", short := some 'v', role := .switch "--verbose" }

def helpOption : CommandOption :=
  { long := "help", short := some 'h', role := .help "--help" }

def versionOption : CommandOption :=
  { long := "version", short := some 'V', role := .version "--version" }

end PackedRecord.Tool
