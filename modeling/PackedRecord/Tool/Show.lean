import PackedRecord.Record.Dump
import PackedRecord.Tool.Outcome

/-! # The dumper — one record of a binary file

    The tool decodes the record that starts at a given byte of a file, by the
    layout of a table, and prints its fields. -/

namespace PackedRecord.Tool.Show

/-- Reads the start of the record: decimal, or hexadecimal after `0x`. -/
def readStart (text : String) : Except Text.NumeralError Nat :=
  match text.toList with
  | '0' :: 'x' :: digits => Text.readNat 16 Text.bound64 digits
  | '0' :: 'X' :: digits => Text.readNat 16 Text.bound64 digits
  | digits => Text.readNat 10 Text.bound64 digits

def startParam : Param where
  label := "--offset <OFFSET>"
  refusal? text :=
    match readStart text with
    | .ok _ => none
    | .error e =>
        some (.invalid ("invalid offset " ++ Text.Quoted.quote text ++ ": " ++ e.message))

def command : Command where
  name := "dump_record"
  version := "0.1.0"
  options :=
    [{ long := "offset", role := .value startParam },
      { long := "big-endian", role := .switch "--big-endian" },
      verboseOption, helpOption, versionOption]
  positionals := [pathParam "<TABLE>", pathParam "<BINARY>"]

/-- What the command line chooses. -/
structure Choice where
  table : String
  binary : String
  start : Nat
  order : ByteOrder
  verbose : Bool
  deriving DecidableEq, Repr

namespace Choice

def ofGiven (g : Given) : Choice where
  table := (g.value? "<TABLE>").getD ""
  binary := (g.value? "<BINARY>").getD ""
  start :=
    match (g.value? "--offset <OFFSET>").map readStart with
    | some (.ok n) => n
    | _ => 0
  order := if g.has "--big-endian" then .big else .little
  verbose := g.has "--verbose"

end Choice

/-- The text of the record that starts at the chosen byte of the file. -/
def dumpRecord (choice : Choice) (layout : Layout) (d : Directory) : Except Failure String := do
  let bytes ← (d.read choice.binary).mapError (.ofFile ("reading " ++ choice.binary))
  if bytes.size < choice.start then
    .error { doing := "offset " ++ toString choice.start ++ " is past the end of " ++ choice.binary
              ++ " (" ++ toString bytes.size ++ " bytes)" }
  else
    let record := bytes.data.extract choice.start bytes.size
    match (Codec.mk layout choice.order).decode record with
    | .ok fields => .ok (Dump.text fields ++ "\n")
    | .error e => .error { doing := e.message }

/-- The text of the record, with the events of building the layout. -/
def showRecord (choice : Choice) (d : Directory) : Traced (Except Failure String) :=
  match (d.readText choice.table).mapError (Failure.ofFile ("reading " ++ choice.table)) with
  | .error failure => ⟨[], .error failure⟩
  | .ok source =>
      let layout := loadTraced source .warn
      ⟨layout.events,
        (layout.result.mapError (.ofCompile choice.table)).bind (dumpRecord choice · d)⟩

def runChoice (choice : Choice) (d : Directory) : Outcome :=
  let result := showRecord choice d
  match result.result with
  | .ok stdout =>
      { status := 0, stdout, stderr := log choice.verbose result.events, directory := d }
  | .error failure =>
      { status := 1, stdout := "", stderr := log choice.verbose result.events ++ failure.text,
        directory := d }

def run (arguments : List String) (d : Directory) : Outcome :=
  match command.read arguments with
  | .error stop => stopped command d stop
  | .ok given => runChoice (.ofGiven given) d

end PackedRecord.Tool.Show
