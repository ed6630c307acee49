import PackedRecord.Scalar.Kind

/-! # Table rows — what one line of a field table says

    A line describes a field, comments on a section, or says nothing.  Rows
    keep what the line says even where no record could follow it: a type
    that nobody knows, a count below one. -/

namespace PackedRecord.Table

/-- A type as a table names it. -/
inductive TypeRef
  | known (kind : Scalar.Kind)
  | unknown (spelling : String)
  deriving DecidableEq, Repr

namespace TypeRef

/-- Looks a spelling up; one that names no kind is kept. -/
def ofSpelling (spelling : String) : TypeRef :=
  match Scalar.Kind.ofSpelling? spelling with
  | some kind => known kind
  | none => unknown spelling

end TypeRef

/-- One field as its line declares it. -/
structure Field where
  /-- The line it stands on, counted from one. -/
  line : Nat
  /-- Where the table says that it starts. -/
  offset : Nat
  type : TypeRef
  name : String
  /-- How many elements it has, as written; one if nothing is written. -/
  count : Int
  description : String
  deriving DecidableEq, Repr

/-- One line of a table. -/
inductive Row
  | blank
  | comment (line : Nat) (text : String)
  | field (f : Field)
  deriving DecidableEq, Repr

namespace Row

/-- The field of a row that describes one. -/
def field? : Row → Option Field
  | field f => some f
  | _ => none

/-- The text of a row that comments. -/
def comment? : Row → Option String
  | comment _ text => some text
  | _ => none

end Row

end PackedRecord.Table
