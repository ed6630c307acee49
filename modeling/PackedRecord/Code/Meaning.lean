import PackedRecord.Code.Program
import PackedRecord.Record.Value

/-! # What generated programs compute

    A program is run on a host of either byte order.  Reading a block gives
    the structure as a list of identifiers and values, in the order of the
    fields.  An index outside the block, or a conversion of something that is
    no number of its kind, has no result. -/

namespace PackedRecord.Code

/-- What the names inside a reading expression stand for. -/
structure Scope where
  element : Option Nat := none
  start : Option Nat := none
  deriving DecidableEq, Repr

def Index.eval? (scope : Scope) : Index → Option Nat
  | literal n => some n
  | element => scope.element
  | start => scope.start
  | add a b => do return (← a.eval? scope) + (← b.eval? scope)
  | mul a b => do return (← a.eval? scope) * (← b.eval? scope)

/-- The byte of the block that an index denotes. -/
def Index.byte? (scope : Scope) (block : Array UInt8) (index : Index) : Option UInt8 := do
  block[← index.eval? scope]?

/-- The value of a reading expression for a field of `count` elements. -/
def Reading.eval? (host : ByteOrder) (block : Array UInt8) (count : Nat) :
    Scope → Reading → Option Value
  | scope, byte index => do
      let b ← index.byte? scope block
      return .scalar (.ofNat .u8 b.toNat)
  | scope, word kind indices => do
      let bytes ← indices.mapM (Index.byte? scope block)
      if bytes.length = kind.byteWidth then some (.scalar (.ofBytes host kind bytes)) else none
  | scope, startingAt index body => do
      let k ← index.eval? scope
      body.eval? host block count { scope with start := some k }
  | scope, forEach body => do
      let items ← (List.range count).mapM fun i =>
        body.eval? host block count { scope with element := some i }
      return .array items

/-- A structure under construction: every field by its identifier. -/
abbrev Fields := List (String × Value)

/-- The fields with one of them replaced; it has to be there. -/
def Fields.replace? (fields : Fields) (ident : String) (value : Value) : Option Fields :=
  if (fields.lookup ident).isSome then
    some (fields.map fun (n, v) => (n, if n = ident then value else v))
  else none

def Place.scalar? (fields : Fields) (place : Place) : Option Scalar := do
  let value ← match place with
    | field ident => fields.lookup ident
    | element ident index => do (← (← fields.lookup ident).asArray?)[index]?
  match value with
  | .scalar s => some s
  | .array _ => none

/-- A little-endian number as the host means it: the identity on a
    little-endian host, the bytes swapped on a big-endian one. -/
def ofLittleEndian (host : ByteOrder) (s : Scalar) : Scalar :=
  match host with
  | .little => s
  | .big => s.swapBytes

def Conversion.eval? (host : ByteOrder) (fields : Fields) (c : Conversion) : Option Value := do
  let s ← c.place.scalar? fields
  if s.kind = c.kind then some (.scalar (ofLittleEndian host s)) else none

def Assignment.run? (host : ByteOrder) (fields : Fields) : Assignment → Option Fields
  | single ident c => do fields.replace? ident (← c.eval? host fields)
  | array ident items => do
      fields.replace? ident (.array (← items.mapM (Conversion.eval? host fields)))

def elementCount : Scalar.Shape → Nat
  | .single _ => 1
  | .array _ count => count

namespace Program

/-- The constructor in host order. -/
def fromNative? (p : Program) (host : ByteOrder) (block : Array UInt8) : Option Fields :=
  p.declarations.mapM fun d => do
    let value ← d.reading.eval? host block (elementCount d.shape) {}
    return (d.ident, value)

def fromBlock? (p : Program) (host : ByteOrder) (block : Array UInt8) : Option Fields := do
  let fields ← p.fromNative? host block
  match host with
  | .little => some fields
  | .big => p.assignments.foldlM (Assignment.run? host) fields

end Program

end PackedRecord.Code
