import PackedRecord.Scalar.Kind

/-! # Layout entries — fields with a place in the record

    An entry is a field whose type is known and whose place is settled.  It
    knows two ranges of bytes: the declared one, which its table line states,
    and the packed one, where the record really keeps it. -/

namespace PackedRecord.Layout

/-- One field of a layout. -/
structure Entry where
  /-- The table line that declares it. -/
  line : Nat
  /-- Where the table says that it starts. -/
  offset : Nat
  /-- Where it starts in the record: the bytes of all entries before it. -/
  start : Nat
  kind : Scalar.Kind
  name : String
  /-- How many scalars it holds. -/
  count : Nat
  description : String
  deriving DecidableEq, Repr

namespace Entry

/-- How many bytes it takes. -/
def size (e : Entry) : Nat :=
  e.kind.byteWidth * e.count

/-- One past the last byte of the declared range. -/
def declaredEnd (e : Entry) : Nat :=
  e.offset + e.size

/-- One past the last byte that it takes in the record. -/
def stop (e : Entry) : Nat :=
  e.start + e.size

/-- Entries of one element are scalars, not arrays. -/
def isArray (e : Entry) : Bool :=
  1 < e.count

/-- Single bytes read the same in either byte order. -/
def hasByteOrder (e : Entry) : Bool :=
  1 < e.kind.byteWidth

/-- What the field holds. -/
def shape (e : Entry) : Scalar.Shape :=
  if e.isArray then .array e.kind e.count else .single e.kind

end Entry

end PackedRecord.Layout
