import PackedRecord.Code.Program
import PackedRecord.Event
import PackedRecord.FileError
import PackedRecord.Layout.Packing
import PackedRecord.Table.Reader

/-! # Compiling tables — from text to layout, findings and code

    The stages one after another: a table is read, its rows are placed, the
    layout becomes a program.  The first stage that fails ends the run, and
    nothing of a later stage is returned or reported. -/

namespace PackedRecord

inductive CompileError
  | table (e : Table.ReadError)
  | layout (e : LayoutError)
  | file (e : FileError)
  deriving DecidableEq, Repr

namespace CompileError

/-- What the stage that failed has to say. -/
def cause : CompileError → String
  | table e => e.message
  | layout e => e.message
  | file e => e.message

/-- The error as one line of text, with the stage in front. -/
def message : CompileError → String
  | table e => "Parse: " ++ e.message
  | layout e => "Layout: " ++ e.message
  | file e => "IO: " ++ e.message

end CompileError

/-- The rows of a table, and the event of having read them. -/
def Table.readTraced (source : String) : Traced (Except Table.ReadError (List Table.Row)) :=
  match Table.read source with
  | .error e => ⟨[], .error e⟩
  | .ok rows =>
      ⟨[.tableRead rows.length (rows.filterMap Table.Row.field?).length
          (rows.filterMap Table.Row.comment?).length], .ok rows⟩

/-- What a layout that was built gives reason to report. -/
def Layout.events (layout : Layout) (policy : OffsetPolicy) : List Event :=
  (if policy = .warn then layout.findings.map .finding else [])
    ++ [.laidOut layout.entries.length layout.comments.length layout.width]

/-- The layout of rows, and the events of having built it. -/
def Layout.ofRowsTraced (rows : List Table.Row) (policy : OffsetPolicy) :
    Traced (Except LayoutError Layout) :=
  match Layout.ofRows rows policy with
  | .error e => ⟨[], .error e⟩
  | .ok layout => ⟨layout.events policy, .ok layout⟩

/-- The layout of a table, with the events of both stages. -/
def loadTraced (source : String) (policy : OffsetPolicy) : Traced (Except CompileError Layout) :=
  let table := Table.readTraced source
  match table.result with
  | .error e => ⟨table.events, .error (.table e)⟩
  | .ok rows =>
      let layout := Layout.ofRowsTraced rows policy
      ⟨table.events ++ layout.events, layout.result.mapError .layout⟩

def load (source : String) (policy : OffsetPolicy) : Except CompileError Layout :=
  (loadTraced source policy).result

/-- The findings about a table, whose offsets are not enforced, with the
    events. -/
def lintTraced (source : String) : Traced (Except CompileError (List Layout.Finding)) :=
  let layout := loadTraced source .ignore
  ⟨layout.events, layout.result.map Layout.findings⟩

def lint (source : String) : Except CompileError (List Layout.Finding) :=
  (lintTraced source).result

/-- The program text of a table, with the events. -/
def compileTraced (name source : String) (policy : OffsetPolicy) (options : Code.Options) :
    Traced (Except CompileError String) :=
  let layout := loadTraced source policy
  ⟨layout.events, layout.result.map fun l => (Code.Program.ofLayout name l).text options⟩

/-- The program text of a table. -/
def compile (name source : String) (policy : OffsetPolicy) (options : Code.Options) :
    Except CompileError String :=
  (compileTraced name source policy options).result

/-- The program text of a table in a file, given what reading the file gave. -/
def compileFile (name : String) (content : Except FileError ByteArray) (policy : OffsetPolicy)
    (options : Code.Options) : Except CompileError String := do
  let source ← (content.bind decodeText).mapError .file
  compile name source policy options

end PackedRecord
