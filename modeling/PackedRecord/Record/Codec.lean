import PackedRecord.Layout.Basic
import PackedRecord.Record.Values

/-! # Codecs — records to values and back

    A codec is a layout with a byte order.  Decoding reads every entry at its
    packed position, array elements in index order; encoding writes every
    entry to its packed position.  Bytes are read and written only inside the
    record: reaching past its end is an error of its own. -/

namespace PackedRecord

/-- A layout, and the order of its multi-byte numbers. -/
structure Codec where
  layout : Layout
  order : ByteOrder
  deriving DecidableEq, Repr

/-- Why bytes are not decoded, or values not encoded. -/
inductive CodecError
  | tooShort (need available : Nat)
  | missingField (name : String)
  /-- A field has a value of another shape. -/
  | typeMismatch (name : String) (expected : Scalar.Shape) (found : Value)
  | unexpectedEnd
  deriving Repr

namespace CodecError

def message : CodecError → String
  | tooShort need available =>
      "Record needs " ++ toString need ++ " byte(s), buffer has " ++ toString available
  | missingField name => "Missing field: " ++ name
  | typeMismatch name expected found =>
      "Field `" ++ name ++ "` expects " ++ expected.text ++ ", got " ++ found.spelledOut
  | unexpectedEnd => "IO: failed to fill whole buffer"

end CodecError

/-- One decoded field, and the bytes that it came from: those from `start` to
    before `stop`. -/
structure RecordField where
  name : String
  value : Value
  start : Nat
  stop : Nat
  deriving Repr

namespace Codec

/-! ## Decoding -/

/-- The scalar stored from byte `start` on. -/
def readScalar (order : ByteOrder) (kind : Scalar.Kind) (record : Array UInt8) (start : Nat) :
    Except CodecError Scalar :=
  match (List.range' start kind.byteWidth).mapM (record[·]?) with
  | some bytes => .ok (.ofBytes order kind bytes)
  | none => .error .unexpectedEnd

def readEntry (order : ByteOrder) (record : Array UInt8) (e : Layout.Entry) :
    Except CodecError Value :=
  match e.shape with
  | .single kind => (readScalar order kind record e.start).map .scalar
  | .array kind count =>
      ((List.range count).mapM fun i =>
        (readScalar order kind record (e.start + i * kind.byteWidth)).map .scalar).map .array

/-- The fields of the record at the start of the bytes; bytes behind it do
    not matter. -/
def decode (codec : Codec) (bytes : Array UInt8) : Except CodecError (List RecordField) :=
  if bytes.size < codec.layout.width then .error (.tooShort codec.layout.width bytes.size)
  else
    let record := bytes.extract 0 codec.layout.width
    codec.layout.entries.mapM fun e => do
      let value ← readEntry codec.order record e
      return { name := e.name, value, start := e.start, stop := e.stop }

/-! ## Encoding -/

/-- The bytes of a scalar of the entry's kind. -/
def scalarBytes (order : ByteOrder) (e : Layout.Entry) (value : Value) :
    Except CodecError (List UInt8) :=
  match value with
  | .scalar s =>
      if s.kind = e.kind then .ok (s.toBytes order)
      else .error (.typeMismatch e.name e.shape value)
  | .array _ => .error (.typeMismatch e.name e.shape value)

/-- The bytes of a value of the entry's shape. -/
def entryBytes (order : ByteOrder) (e : Layout.Entry) (value : Value) :
    Except CodecError (List UInt8) :=
  match e.shape with
  | .single _ => scalarBytes order e value
  | .array _ count =>
      match value.asArray? with
      | some items =>
          if items.length = count then (items.mapM (scalarBytes order e)).map List.flatten
          else .error (.typeMismatch e.name e.shape value)
      | none => .error (.typeMismatch e.name e.shape value)

/-- The array with the bytes written over it from `start` on. -/
def overlay (record : Array UInt8) (start : Nat) : List UInt8 → Array UInt8
  | [] => record
  | b :: rest => overlay (record.setIfInBounds start b) (start + 1) rest

/-- Writes the bytes from `start` on, if they end inside the record. -/
def writeBytes (record : Array UInt8) (start : Nat) (bytes : List UInt8) :
    Except CodecError (Array UInt8) :=
  if start + bytes.length ≤ record.size then .ok (overlay record start bytes)
  else .error .unexpectedEnd

def writeEntry (order : ByteOrder) (values : Values) (record : Array UInt8) (e : Layout.Entry) :
    Except CodecError (Array UInt8) :=
  match values.get? e.name with
  | none => .error (.missingField e.name)
  | some value => do writeBytes record e.start (← entryBytes order e value)

/-- The record with the given values.  Every field needs one; bytes that no
    field covers are zero. -/
def encode (codec : Codec) (values : Values) : Except CodecError (Array UInt8) :=
  codec.layout.entries.foldlM (writeEntry codec.order values)
    (Array.replicate codec.layout.width 0)

end Codec

/-- With every decoded value under its field's name. -/
def Values.insertFields (values : Values) (fields : List RecordField) : Values :=
  fields.foldl (fun vs f => vs.insert f.name f.value) values

end PackedRecord
