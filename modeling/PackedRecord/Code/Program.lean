import PackedRecord.Code.Expr
import PackedRecord.Code.Line
import PackedRecord.Layout.Basic
import PackedRecord.Text.Split

/-! # Generated programs — a structure and its constructors

    A program declares a structure with one field for every entry, between
    section comments, and states the width of the record.  `from_native`
    reads every field in the byte order of the host.  The conversion from a
    block is `from_native` on a little-endian host; on a big-endian host it
    also converts every field whose bytes have an order. -/

namespace PackedRecord.Code

/-- One field of the structure, with everything that is generated for it. -/
structure Declaration where
  ident : String
  shape : Scalar.Shape
  doc : String
  /-- The declared range, from `offset` to before `declaredEnd`. -/
  offset : Nat
  declaredEnd : Nat
  reading : Reading
  assignment? : Option Assignment
  deriving Repr

inductive Member
  | comment (text : String)
  | field (d : Declaration)
  deriving Repr

/-- A structure of the given name that holds one record. -/
structure Program where
  name : String
  width : Nat
  members : List Member
  deriving Repr

/-- What is generated for an entry. -/
def Declaration.ofEntry (e : Layout.Entry) : Declaration where
  ident := identOf e.name
  shape := e.shape
  doc := e.description
  offset := e.offset
  declaredEnd := e.declaredEnd
  reading := .ofEntry e
  assignment? := Assignment.ofEntry? e

def Member.ofItem : Layout.Item → Member
  | .entry e => field (.ofEntry e)
  | .comment _ text => comment text

def Member.declaration? : Member → Option Declaration
  | comment _ => none
  | field d => some d

namespace Program

def ofLayout (name : String) (layout : Layout) : Program where
  name := name
  width := layout.width
  members := layout.items.map .ofItem

def declarations (p : Program) : List Declaration :=
  p.members.filterMap Member.declaration?

/-- The conversions, in the order of the fields. -/
def assignments (p : Program) : List Assignment :=
  p.declarations.filterMap (·.assignment?)

end Program

/-! ## As text -/

/-- Who may use the structure, its fields and its width. -/
inductive Visibility
  | hidden
  | crateWide
  | exported
  deriving DecidableEq, Repr

namespace Visibility

def text : Visibility → String
  | hidden => ""
  | crateWide => "pub(crate) "
  | exported => "pub "

end Visibility

/-- What can be chosen about the text of a program. -/
structure Options where
  visibility : Visibility := .crateWide
  /-- Spaces for every level of indentation. -/
  indent : Nat := 2
  /-- Lines of comment above everything else. -/
  header : Option String := none
  deriving DecidableEq, Repr

/-- The header as comments, and a blank line below them. -/
def headerLines : Option String → List Line
  | none => []
  | some header =>
      (Text.lines header.toList).map (fun line => .note 0 (String.ofList line)) ++ [.blank]

/-- A section comment has a blank line on either side. -/
def separation : Option Member → Member → List Line
  | none, _ => []
  | some (.field _), .field _ => []
  | some _, _ => [.blank]

/-- A member: its documentation, if there is any, then the field. -/
def Member.lines (visibility : Visibility) : Member → List Line
  | comment text => [.note 1 text]
  | field d =>
      (if d.doc = "" then [] else [.doc 1 d.doc])
        ++ [.noted 1 (visibility.text ++ d.ident ++ ": " ++ d.shape.text ++ ",")
              (toString d.offset ++ " - " ++ toString d.declaredEnd)]

/-- What a declaration says to the compiler. -/
def Declaration.statement (visibility : Visibility) (d : Declaration) : String :=
  visibility.text ++ d.ident ++ ": " ++ d.shape.text ++ ","

/-- The declared range, as it is printed. -/
def Declaration.rangeText (d : Declaration) : String :=
  toString d.offset ++ " - " ++ toString d.declaredEnd

/-- The lines of a field, by what each of them is for. -/
theorem Member.lines_field (visibility : Visibility) (d : Declaration) :
    (field d).lines visibility
      = (if d.doc = "" then [] else [.doc 1 d.doc])
        ++ [.noted 1 (d.statement visibility) d.rangeText] := rfl

/-- Members, after the one before them. -/
def membersLines (visibility : Visibility) (previous : Option Member) : List Member → List Line
  | [] => []
  | m :: rest =>
      separation previous m ++ m.lines visibility ++ membersLines visibility (some m) rest

/-- An assignment; arrays take a line for every element. -/
def Assignment.lines : Assignment → List Line
  | single ident value => [.code 2 ("raw." ++ ident ++ " = " ++ value.text ++ ";")]
  | array ident items =>
      [.code 2 ("raw." ++ ident ++ " = [")] ++ items.map (fun c => .code 3 (c.text ++ ","))
        ++ [.code 2 "];"]

namespace Program

def structLines (p : Program) (visibility : Visibility) : List Line :=
  [.code 0 "#[derive(Debug, Clone, Copy, PartialEq, Eq)]",
    .code 0 (visibility.text ++ "struct " ++ p.name ++ " \x7b")]
    ++ membersLines visibility none p.members
    ++ [.code 0 "\x7d"]

def nativeLines (p : Program) : List Line :=
  match p.declarations with
  | [] => [.code 2 "let _ = block;", .code 2 "Self \x7b\x7d"]
  | ds =>
      [.code 2 "Self \x7b"]
        ++ ds.map (fun d => .code 3 (d.ident ++ ": " ++ d.reading.text ++ ","))
        ++ [.code 2 "\x7d"]

/-- The width, and the constructor in host order. -/
def implLines (p : Program) (visibility : Visibility) : List Line :=
  [.code 0 ("impl " ++ p.name ++ " \x7b"),
    .code 1 (visibility.text ++ "const WIDTH: usize = " ++ toString p.width ++ ";"),
    .blank,
    .doc 1 "Reads every field at its packed position in native byte order.",
    .code 1 "fn from_native(block: &[u8; Self::WIDTH]) -> Self \x7b"]
    ++ p.nativeLines
    ++ [.code 1 "\x7d", .code 0 "\x7d"]

/-- The body of the conversion on a big-endian host. -/
def convertLines (p : Program) : List Line :=
  match p.assignments with
  | [] => [.code 2 "Self::from_native(block)"]
  | as =>
      [.code 2 "let mut raw = Self::from_native(block);"] ++ as.flatMap Assignment.lines
        ++ [.code 2 "raw"]

/-- The conversion from a block, for either host. -/
def fromLines (p : Program) : List Line :=
  [.code 0 ("impl From<&[u8; " ++ p.name ++ "::WIDTH]> for " ++ p.name ++ " \x7b"),
    .code 1 "#[cfg(target_endian = \"little\")]",
    .code 1 "fn from(block: &[u8; Self::WIDTH]) -> Self \x7b",
    .code 2 "Self::from_native(block)",
    .code 1 "\x7d",
    .blank,
    .code 1 "#[cfg(target_endian = \"big\")]",
    .code 1 "fn from(block: &[u8; Self::WIDTH]) -> Self \x7b"]
    ++ p.convertLines
    ++ [.code 1 "\x7d", .code 0 "\x7d"]

def lines (p : Program) (options : Options) : List Line :=
  headerLines options.header ++ p.structLines options.visibility ++ [.blank]
    ++ p.implLines options.visibility ++ [.blank] ++ p.fromLines

/-- The text line by line. -/
def pieces (p : Program) (options : Options) : List String :=
  (p.lines options).map (·.text options.indent)

def text (p : Program) (options : Options) : String :=
  String.join (p.pieces options)

end Program

end PackedRecord.Code
