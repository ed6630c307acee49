import PackedRecord.Text.Blank

/-! # Scalar kinds — the four unsigned widths

    A field holds unsigned integers of one, two, four or eight bytes.  Tables
    spell these kinds in several ways; `Kind.spellingTable` lists them, and
    `Kind.ofSpelling?` reads one after its inner blanks are collapsed. -/

namespace PackedRecord.Scalar

/-- Unsigned integers by width. -/
inductive Kind
  | u8
  | u16
  | u32
  | u64
  deriving DecidableEq, Repr

namespace Kind

/-- Bytes of one value. -/
def byteWidth : Kind → Nat
  | u8 => 1
  | u16 => 2
  | u32 => 4
  | u64 => 8

/-- Bits of one value. -/
def bits (k : Kind) : Nat :=
  8 * k.byteWidth

/-- One more than the largest value. -/
def bound : Kind → Nat
  | u8 => UInt8.size
  | u16 => UInt16.size
  | u32 => UInt32.size
  | u64 => UInt64.size

/-- The canonical name, as generated code and messages write it. -/
def name : Kind → String
  | u8 => "u8"
  | u16 => "u16"
  | u32 => "u32"
  | u64 => "u64"

/-- No scalar is empty. -/
theorem byteWidth_pos (k : Kind) : 0 < k.byteWidth := by
  cases k <;> decide

theorem bound_pos (k : Kind) : 0 < k.bound := by
  cases k <;> decide

/-- Every spelling that a table may use.  Kernel headers write little-endian
    fields with `le` and host-order fields without; `char` arrays hold raw
    bytes. -/
def spellingTable : List (String × Kind) :=
  [("u8", u8), ("__u8", u8), ("__le8", u8), ("uint8_t", u8), ("char", u8), ("unsigned char", u8),
    ("uchar", u8), ("byte", u8),
    ("u16", u16), ("__u16", u16), ("__le16", u16), ("le16", u16), ("uint16_t", u16),
    ("u32", u32), ("__u32", u32), ("__le32", u32), ("le32", u32), ("uint32_t", u32),
    ("u64", u64), ("__u64", u64), ("__le64", u64), ("le64", u64), ("uint64_t", u64)]

/-- The kind that a spelling names; runs of blanks inside it count as one
    space, blanks around it do not count. -/
def ofSpelling? (spelling : String) : Option Kind :=
  spellingTable.lookup (String.ofList (Text.collapse spelling.toList))

/-- The spellings of a kind, in table order. -/
def spellings (k : Kind) : List String :=
  (spellingTable.filter (·.2 = k)).map (·.1)

end Kind

/-- What a field holds: one scalar, or an array of scalars of one kind. -/
inductive Shape
  | single (kind : Kind)
  | array (kind : Kind) (count : Nat)
  deriving DecidableEq, Repr

namespace Shape

/-- The shape as a type: `u32`, or `[u32; 4]`. -/
def text : Shape → String
  | single kind => kind.name
  | array kind count => "[" ++ kind.name ++ "; " ++ toString count ++ "]"

end Shape

end PackedRecord.Scalar
