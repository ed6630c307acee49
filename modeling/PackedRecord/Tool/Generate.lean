import PackedRecord.Tool.Outcome

/-! # The generator — a table in, a program out

    The tool compiles one table, from a file or from standard input, and
    writes the program to standard output or to a file.  Nothing is written
    unless the whole table compiles. -/

namespace PackedRecord.Tool.Generate

/-- Reads the number of spaces for a level of indentation. -/
def readIndent (text : String) : Except Text.NumeralError Nat :=
  Text.readNat 10 Text.bound64 text.toList

/-- The number of spaces for a level of indentation. -/
def indentParam : Param where
  label := "--indent <INDENT>"
  refusal? text :=
    match readIndent text with
    | .ok _ => none
    | .error e => some (.invalid e.message)

/-- The command line of the generator. -/
def command : Command where
  name := "gen_layout"
  version := "0.1.0"
  options :=
    [{ long := "output", short := some 'o', role := .value (pathParam "--output <PATH>") },
      { long := "strict-offsets", role := .switch "--strict-offsets" },
      { long := "no-offset-check", role := .switch "--no-offset-check" },
      { long := "pub", role := .switch "--pub" },
      { long := "indent", role := .value indentParam },
      { long := "header", role := .value (textParam "--header <TEXT>") },
      verboseOption, helpOption, versionOption]
  positionals := [textParam "<NAME>", pathParam "<FILE>"]
  exclusive := [("--strict-offsets", "--no-offset-check")]

/-- What the command line chooses. -/
structure Choice where
  /-- The name of the structure, taken as it is. -/
  name : String
  /-- The table; a single dash stands for standard input. -/
  path : String
  output : Option String
  policy : OffsetPolicy
  options : Code.Options
  verbose : Bool
  deriving DecidableEq, Repr

namespace Choice

/-- The choice that settings make. -/
def ofGiven (g : Given) : Choice where
  name := (g.value? "<NAME>").getD ""
  path := (g.value? "<FILE>").getD ""
  output := g.value? "--output <PATH>"
  policy :=
    if g.has "--strict-offsets" then .strict
    else if g.has "--no-offset-check" then .ignore
    else .warn
  options :=
    { visibility := if g.has "--pub" then .exported else .crateWide
      indent :=
        match (g.value? "--indent <INDENT>").map readIndent with
        | some (.ok n) => n
        | _ => 2
      header := g.value? "--header <TEXT>" }
  verbose := g.has "--verbose"

end Choice

/-- The text of the table. -/
def readTable (d : Directory) (stdin : ByteArray) (path : String) : Except Failure String :=
  if path = "-" then
    (decodeText stdin).mapError (.ofFile "reading table from stdin")
  else (d.readText path).mapError (.ofFile ("reading " ++ path))

/-- Hands the program over: to standard output, or to a file. -/
def deliver (d : Directory) (output : Option String) (code : String) :
    Except Failure (String × Directory) :=
  match output with
  | none => .ok (code, d)
  | some path =>
      match d.writeText path code with
      | .ok after => .ok ("", after)
      | .error e => .error (.ofFile ("writing " ++ path) e)

/-- Compiles the table and hands the program over; the events of compiling
    come with it. -/
def compileTable (choice : Choice) (d : Directory) (stdin : ByteArray) :
    Traced (Except Failure (String × Directory)) :=
  match readTable d stdin choice.path with
  | .error failure => ⟨[], .error failure⟩
  | .ok source =>
      let code := compileTraced choice.name source choice.policy choice.options
      ⟨code.events,
        (code.result.mapError (.ofCompile choice.path)).bind (deliver d choice.output)⟩

/-- A run for a choice. -/
def runChoice (choice : Choice) (d : Directory) (stdin : ByteArray) : Outcome :=
  let result := compileTable choice d stdin
  match result.result with
  | .ok (stdout, after) =>
      { status := 0, stdout, stderr := log choice.verbose result.events, directory := after }
  | .error failure =>
      { status := 1, stdout := "", stderr := log choice.verbose result.events ++ failure.text,
        directory := d }

/-- A run of the generator. -/
def run (arguments : List String) (d : Directory) (stdin : ByteArray) : Outcome :=
  match command.read arguments with
  | .error stop => stopped command d stop
  | .ok given => runChoice (.ofGiven given) d stdin

end PackedRecord.Tool.Generate
