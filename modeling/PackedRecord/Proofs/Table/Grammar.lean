import PackedRecord.Proofs.Faults
import PackedRecord.Proofs.Table.Peg
import PackedRecord.Table.Reader

/-! # The grammar of tables — reading by parsing expressions

    A table is rows between line ends, a row is cells between tabs.  A line
    end is a line feed, with or without a carriage return before it; any other
    carriage return belongs to a cell.  A name cell is a name, perhaps with a
    bracketed count that the end of the cell follows.

    `Grammar.read` reads a table by matching it against these rules and going
    through the tree that they leave.  A text that does not match, or a cell
    that is looked for in vain, would be a fault. -/

namespace PackedRecord.Table.Grammar

open Peg (Expr Node)
open Text (trim readInt)

inductive Rule
  | table
  | lineEnd
  | row
  | cell
  | fieldName
  | baseName
  | arraySuffix
  | arrayLen
  | endOfInput
  deriving DecidableEq

/-! ## The rules -/

def endOfInput : Expr Rule :=
  .rule .endOfInput .leaf .finish

def lineEnd : Expr Rule :=
  .rule .lineEnd .silent (.choice (.text ['\r', '\n']) (.text ['\n']))

/-- What a cell stops at. -/
def cellEnd : Expr Rule :=
  .choice (.text ['\t']) (.choice (.text ['\r', '\n']) (.text ['\n']))

def cell : Expr Rule :=
  .rule .cell .leaf (.star cellEnd.guarded)

def row : Expr Rule :=
  .rule .row .full (.seq cell (.star (.seq (.text ['\t']) cell)))

def table : Expr Rule :=
  .rule .table .full
    (.seq .start (.seq row (.seq (.star (.seq lineEnd row)) endOfInput)))

def arrayLen : Expr Rule :=
  .rule .arrayLen .leaf (.star (Expr.text [']']).guarded)

def arraySuffix : Expr Rule :=
  .rule .arraySuffix .full
    (.seq (.text ['[']) (.seq arrayLen (.seq (.text [']']) (.ahead endOfInput))))

def baseName : Expr Rule :=
  .rule .baseName .leaf (.star arraySuffix.guarded)

/-- A name cell, perhaps with a count. -/
def fieldName : Expr Rule :=
  .rule .fieldName .full
    (.seq .start (.seq baseName (.seq (.optional arraySuffix) endOfInput)))

/-! ## Reading -/

/-- The tree of a text. -/
def parse {ε : Type} (e : Expr Rule) (text : List Char) : Except (Stop ε) (Node Rule) :=
  match (e.run 0 text).bind (·.nodes.head?) with
  | some node => .ok node
  | none => .error (.fault .mismatch)

/-- The trimmed cells of every row of a table. -/
def rowsOf (table : Node Rule) : List (List (List Char)) :=
  (table.inner.filter (·.rule = .row)).map fun row => row.inner.map fun cell => trim cell.text

/-- Takes up what a part of a name cell says about the name and the count. -/
def nameStep (line : Nat) (found : String × Int) (part : Node Rule) :
    Except (Stop ReadError) (String × Int) :=
  match part.rule with
  | .baseName => .ok (String.ofList (trim part.text), found.2)
  | .arraySuffix =>
      let count := (part.inner.head?.map (·.text)).getD []
      match readInt (1 <<< 63) (trim count) with
      | .ok n => .ok (found.1, n)
      | .error _ => .error (.refusal (.count line (String.ofList count)))
  | _ => .ok found

def readName (line : Nat) (raw : List Char) : Except (Stop ReadError) (String × Int) := do
  let tree ← parse fieldName raw
  tree.inner.foldlM (nameStep line) (String.ofList raw, 1)

def readField (line : Nat) (cells : List (List Char)) : Except (Stop ReadError) Field := do
  let offset ← (readOffset line (← itemAt cells 0)).mapError .refusal
  let type := TypeRef.ofSpelling (String.ofList (cells[1]?.getD []))
  let (name, count) ← readName line (← itemAt cells 2)
  return { line, offset, type, name, count, description := description cells }

def readRow (line : Nat) (cells : List (List Char)) : Except (Stop ReadError) Row :=
  if cells.all (· = []) then .ok .blank
  else if cells[2]?.any (· ≠ []) then (readField line cells).map .field
  else
    match cells[3]? with
    | none => do
        let first ← itemAt cells 0
        return if first ≠ [] then .comment line (String.ofList first) else .blank
    | some _ =>
        let text := description cells
        return if text = "" then .blank else .comment line text

/-- The rows of a table, by its grammar. -/
def read (source : String) : Except (Stop ReadError) (List Row) := do
  let tree ← parse table source.toList
  ((rowsOf tree).zipIdx 1).mapM fun (cells, line) => readRow line cells

end PackedRecord.Table.Grammar
