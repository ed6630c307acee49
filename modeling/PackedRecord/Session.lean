import PackedRecord.Compile
import PackedRecord.Record.Dump

/-! # Sessions — working on records of one table

    A session holds a codec once a table was loaded, named values to encode,
    and the fields that were decoded last.  A command that fails leaves all
    three as they were. -/

namespace PackedRecord

/-- Where a layout comes from. -/
inductive LayoutSource
  | table (text : String)
  | rows (rows : List Table.Row)

/-- Why a command fails. -/
inductive SessionError
  | noCodec
  | compile (e : CompileError)
  | layout (e : LayoutError)
  | codec (e : CodecError)

namespace SessionError

def message : SessionError → String
  | noCodec => "no table loaded"
  | compile e => e.message
  | layout e => e.message
  | codec e => e.message

end SessionError

/-- The layout of a source, with the events. -/
def LayoutSource.loadTraced (source : LayoutSource) (policy : OffsetPolicy) :
    Traced (Except SessionError Layout) :=
  match source with
  | .table text =>
      let layout := PackedRecord.loadTraced text policy
      ⟨layout.events, layout.result.mapError .compile⟩
  | .rows given =>
      let layout := Layout.ofRowsTraced given policy
      ⟨layout.events, layout.result.mapError .layout⟩

def LayoutSource.load (source : LayoutSource) (policy : OffsetPolicy) : Except SessionError Layout :=
  (source.loadTraced policy).result

structure Session where
  codec : Option Codec := none
  values : Values := .empty
  /-- The fields that were decoded last. -/
  decoded : List RecordField := []

namespace Session

/-- What can be asked of a session. -/
inductive Command
  /-- Take the layout of a table; no byte order keeps the present one. -/
  | load (source : LayoutSource) (policy : OffsetPolicy) (order : Option ByteOrder)
  | setOrder (order : ByteOrder)
  | decode (bytes : Array UInt8)
  | set (name : String) (value : Value)
  | remove (name : String)
  | clear
  | encode
  | get (name : String)
  | emit (name : String) (options : Code.Options)
  | dump

inductive Reply
  | loaded (width : Nat)
  | order (order : ByteOrder)
  | fields (fields : List RecordField)
  | count (n : Nat)
  | removed (found : Bool)
  | record (bytes : Array UInt8)
  | entry (e : Option Layout.Entry)
  | code (text : String)
  | text (text : String)

/-- The codec, which a table has to be loaded for. -/
def requireCodec (s : Session) : Except SessionError Codec :=
  match s.codec with
  | some codec => .ok codec
  | none => .error .noCodec

/-- The session after a command that succeeds, and the answer. -/
def attempt (s : Session) : Command → Except SessionError (Session × Reply)
  | .load source policy order => do
      let layout ← source.load policy
      let present := (s.codec.map (·.order)).getD .little
      return ({ s with codec := some ⟨layout, order.getD present⟩ }, .loaded layout.width)
  | .setOrder order => do
      let codec ← s.requireCodec
      return ({ s with codec := some { codec with order } }, .order order)
  | .decode bytes => do
      let codec ← s.requireCodec
      let fields ← (codec.decode bytes).mapError .codec
      return ({ s with values := s.values.insertFields fields, decoded := fields }, .fields fields)
  | .set name value =>
      let values := s.values.insert name value
      .ok ({ s with values }, .count values.size)
  | .remove name =>
      .ok ({ s with values := s.values.erase name }, .removed (s.values.get? name).isSome)
  | .clear => .ok ({ s with values := .empty }, .count 0)
  | .encode => do
      let codec ← s.requireCodec
      let bytes ← (codec.encode s.values).mapError .codec
      return (s, .record bytes)
  | .get name => do
      let codec ← s.requireCodec
      return (s, .entry (codec.layout.get? name))
  | .emit name options => do
      let codec ← s.requireCodec
      return (s, .code ((Code.Program.ofLayout name codec.layout).text options))
  | .dump => .ok (s, .text (Dump.text s.decoded))

/-- The session after a command, and the answer or the reason for none. -/
def step (s : Session) (command : Command) : Session × Except SessionError Reply :=
  match s.attempt command with
  | .ok (next, reply) => (next, .ok reply)
  | .error e => (s, .error e)

/-- The answers to commands, one after another. -/
def run (s : Session) : List Command → List (Except SessionError Reply)
  | [] => []
  | command :: rest =>
      let (next, answer) := s.step command
      answer :: next.run rest

end Session

end PackedRecord
