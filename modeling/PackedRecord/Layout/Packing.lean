import PackedRecord.Layout.Basic
import PackedRecord.Table.Row
import PackedRecord.Text.Quoted

/-! # Packing — rows become a layout

    Rows are placed one after another: every field starts at the byte where
    the fields before it end.  A field is refused if its type is unknown, its
    name cannot stand in generated code or stands there already, it has no
    elements, or the record would grow too large; the first refusal ends the
    build.  Declared offsets play no part in this.  An `OffsetPolicy` says what
    happens when they disagree with the packed positions. -/

namespace PackedRecord

inductive LayoutError
  | unknownType (line : Nat) (name : String) (spelling : String)
  | invalidName (line : Nat) (name : String)
  | nonPositiveCount (line : Nat) (name : String) (count : Int)
  | tooWide (line : Nat) (name : String)
  | duplicateName (line : Nat) (name : String)
  | offsets (findings : List Layout.Finding)
  deriving DecidableEq, Repr

/-- What becomes of findings about declared offsets. -/
inductive OffsetPolicy
  /-- Nothing; nobody looks for them. -/
  | ignore
  | warn
  /-- Gaps and overlaps are refused, so that every declared offset is the
      packed position. -/
  | strict
  deriving DecidableEq, Repr

namespace Layout

/-- The bytes of the largest record.  Generated code spells out every element
    of an array, so that a bound on records is a bound on code. -/
def widthLimit : Nat := 1 <<< 20

/-- Words that are identifiers nowhere, not even escaped. -/
def reservedNames : List String :=
  ["_", "self", "Self", "super", "crate"]

/-- Letters of ASCII and the underscore. -/
def isNameStart (c : Char) : Bool :=
  c.isAlpha || c == '_'

/-- Letters and digits of ASCII and the underscore. -/
def isNameChar (c : Char) : Bool :=
  c.isAlphanum || c == '_'

/-- Names that can be fields of generated code. -/
def isIdentifier (name : String) : Bool :=
  match name.toList with
  | [] => false
  | c :: rest => isNameStart c && rest.all isNameChar && !reservedNames.contains name

/-- The field as an entry that starts at the given byte, unless the field
    itself is at fault. -/
def entryAt (start : Nat) (f : Table.Field) : Except LayoutError Entry :=
  match f.type with
  | .unknown spelling => .error (.unknownType f.line f.name spelling)
  | .known kind =>
      if !isIdentifier f.name then .error (.invalidName f.line f.name)
      else if f.count < 1 then .error (.nonPositiveCount f.line f.name f.count)
      else
        let e : Entry :=
          { line := f.line, offset := f.offset, start, kind, name := f.name,
            count := f.count.toNat, description := f.description }
        if widthLimit < e.size ∨ UInt64.size ≤ e.declaredEnd then .error (.tooWide f.line f.name)
        else .ok e

/-- The field as the next entry of a record that already has `start` bytes
    under the names `taken`. -/
def nextEntry (start : Nat) (taken : List String) (f : Table.Field) :
    Except LayoutError Entry := do
  let e ← entryAt start f
  if e.name ∈ taken then .error (.duplicateName e.line e.name)
  else if widthLimit < e.stop then .error (.tooWide e.line e.name)
  else .ok e

/-- The items of the rows, of which the first field starts at the byte
    `start`; blank rows leave nothing behind. -/
def itemsFrom (start : Nat) (taken : List String) : List Table.Row → Except LayoutError (List Item)
  | [] => .ok []
  | .blank :: rows => itemsFrom start taken rows
  | .comment line text :: rows => do
      let items ← itemsFrom start taken rows
      return .comment line text :: items
  | .field f :: rows => do
      let e ← nextEntry start taken f
      let items ← itemsFrom e.stop (e.name :: taken) rows
      return .entry e :: items

def ofRows (rows : List Table.Row) (policy : OffsetPolicy) : Except LayoutError Layout := do
  let layout : Layout := ⟨← itemsFrom 0 [] rows⟩
  let disagreements := layout.findings.filter (·.disagrees)
  if policy = .strict ∧ disagreements ≠ [] then .error (.offsets disagreements)
  else .ok layout

end Layout

namespace LayoutError

def message : LayoutError → String
  | unknownType line name spelling =>
      "line " ++ toString line ++ ": field `" ++ name ++ "` has unknown type "
        ++ Text.Quoted.quote spelling
  | invalidName line name =>
      "line " ++ toString line ++ ": `" ++ name ++ "` is not a valid field name"
  | nonPositiveCount line name count =>
      "line " ++ toString line ++ ": field `" ++ name ++ "` has array length " ++ toString count
        ++ ", expected at least 1"
  | tooWide line name =>
      "line " ++ toString line ++ ": field `" ++ name ++ "` makes the record larger than "
        ++ toString Layout.widthLimit ++ " bytes"
  | duplicateName line name =>
      "line " ++ toString line ++ ": duplicate field name `" ++ name ++ "`"
  | offsets findings =>
      "offsets do not match field widths: " ++ "; ".intercalate (findings.map (·.message))

end LayoutError

end PackedRecord
