import PackedRecord.Record.Codec

/-! # Dumps — decoded records as text

    One line for each field: its name, its value, its bytes.  Names are
    padded so that the values stand below each other. -/

namespace PackedRecord.Dump

/-- The column at which names end: the bytes of the longest one. -/
def nameWidth (fields : List RecordField) : Nat :=
  (fields.map (·.name.utf8ByteSize)).foldl max 0

/-- The name with spaces behind it, up to `width` characters. -/
def padded (width : Nat) (name : String) : String :=
  name ++ Text.spaces (width - name.length)

/-- One field: `name = value  [start..stop)`. -/
def line (width : Nat) (f : RecordField) : String :=
  padded width f.name ++ " = " ++ f.value.text
    ++ "  [" ++ toString f.start ++ ".." ++ toString f.stop ++ ")"

/-- The fields, a line each; no line feed ends the last one. -/
def text (fields : List RecordField) : String :=
  "\n".intercalate (fields.map (line (nameWidth fields)))

end PackedRecord.Dump
