import PackedRecord.Table.Row
import PackedRecord.Text.Numeral
import PackedRecord.Text.Quoted

/-! # Reading tables — lines, cells, rows

    A table is text.  Its lines end in line feeds, and tabs separate the
    cells of a line: offset, type, name with an optional count in brackets,
    description.  No line is refused for its shape; only an offset or a count
    that is no number is an error, and the first one in the table is
    reported. -/

namespace PackedRecord.Table

open Text

inductive ReadError
  | offset (line : Nat) (text : String)
  | count (line : Nat) (text : String)
  deriving DecidableEq, Repr

namespace ReadError

def message : ReadError → String
  | offset line text =>
      "line " ++ toString line ++ ": offset " ++ Quoted.quote text
        ++ " is not a hexadecimal number"
  | count line text =>
      "line " ++ toString line ++ ": array length " ++ Quoted.quote text
        ++ " is not a decimal number"

end ReadError

/-! ## Literals inside cells -/

/-- Hexadecimal digits without the `0x` or `0X` that may stand before them. -/
def stripRadix : List Char → List Char
  | '0' :: 'x' :: digits => digits
  | '0' :: 'X' :: digits => digits
  | digits => digits

/-- The offset cell: a hexadecimal number of 64 bits. -/
def readOffset (line : Nat) (cell : List Char) : Except ReadError Nat :=
  match readNat 16 bound64 (stripRadix cell) with
  | .ok offset => .ok offset
  | .error _ => .error (.offset line (String.ofList cell))

/-- The inside of a bracket at the start of the text, if the first closing
    bracket after it is the text's last character. -/
def bracketed? : List Char → Option (List Char)
  | '[' :: rest =>
      if rest.dropWhile (· ≠ ']') = [']'] then some (rest.takeWhile (· ≠ ']')) else none
  | _ => none

/-- Cuts `name[count]` at the first bracket that the end of the text closes:
    what stands before it, and what stands inside. -/
def splitCount : List Char → List Char × Option (List Char)
  | [] => ([], none)
  | c :: rest =>
      match bracketed? (c :: rest) with
      | some inside => ([], some inside)
      | none => ((splitCount rest).map (c :: ·) id)

/-- The name cell: the name, and how many elements the field has. -/
def readName (line : Nat) (cell : List Char) : Except ReadError (String × Int) :=
  match splitCount cell with
  | (name, none) => .ok (String.ofList (trim name), 1)
  | (name, some inside) =>
      match readInt (1 <<< 63) (trim inside) with
      | .ok count => .ok (String.ofList (trim name), count)
      | .error _ => .error (.count line (String.ofList inside))

/-! ## Rows -/

/-- The cells of a line, trimmed.  There is always a first one. -/
def cells (line : List Char) : List (List Char) :=
  (splitAt '\t' line).map trim

/-- The description: stray tabs cut it into several cells, which are joined
    again. -/
def description (columns : List (List Char)) : String :=
  String.ofList (spaced (columns.drop 3))

/-- The field of a line that has a name cell.  The offset is read before the
    name. -/
def readField (line : Nat) (offset type name : List Char) (columns : List (List Char)) :
    Except ReadError Field := do
  let offset ← readOffset line offset
  let (name, count) ← readName line name
  return { line, offset, type := .ofSpelling (String.ofList type), name, count,
           description := description columns }

/-- What a comment line says: text after the name column is a section
    comment; a line cut short before that column, such as free text between
    two rows, comments with its first cell. -/
def remark (columns : List (List Char)) : String :=
  if columns.length < 4 then String.ofList (columns.headD []) else description columns

/-- A row that comments, or a blank one if there is nothing to say. -/
def commentRow (line : Nat) (text : String) : Row :=
  if text = "" then .blank else .comment line text

/-- The row of a line with the given cells.  A name makes it a field. -/
def readRow (line : Nat) (columns : List (List Char)) : Except ReadError Row :=
  match columns with
  | offset :: type :: name :: _ =>
      if name = [] then .ok (commentRow line (remark columns))
      else (readField line offset type name columns).map .field
  | _ => .ok (commentRow line (remark columns))

/-- The rows of a table, one for each line, blank ones too. -/
def read (source : String) : Except ReadError (List Row) :=
  ((splitAt '\n' source.toList).zipIdx 1).mapM fun (text, line) => readRow line (cells text)

end PackedRecord.Table
