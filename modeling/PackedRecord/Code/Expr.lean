import PackedRecord.Layout.Entry

/-! # Expressions of generated code — reading a block, converting a field

    Generated code reads a record out of a block of bytes.  An expression
    that reads indexes the block, puts bytes together in the order of the
    host, and does so once for every element of an array.  A conversion takes
    a field, or an element of one, from little-endian order to the order of
    the host. -/

namespace PackedRecord.Code

/-- Arithmetic on block indices. -/
inductive Index
  | literal (n : Nat)
  /-- The number of the array element that is being read. -/
  | element
  /-- The index at which that element starts. -/
  | start
  | add (a b : Index)
  | mul (a b : Index)
  deriving DecidableEq, Repr

/-- An expression that reads a field out of the block. -/
inductive Reading
  | byte (index : Index)
  /-- A number from its bytes, in host order. -/
  | word (kind : Scalar.Kind) (indices : List Index)
  /-- Names the index at which an element starts. -/
  | startingAt (index : Index) (body : Reading)
  /-- An array, from an expression for its elements. -/
  | forEach (body : Reading)
  deriving Repr

/-- What a conversion is applied to. -/
inductive Place
  | field (ident : String)
  | element (ident : String) (index : Nat)
  deriving DecidableEq, Repr

/-- A little-endian number as a number of the host. -/
structure Conversion where
  kind : Scalar.Kind
  place : Place
  deriving DecidableEq, Repr

/-- Replaces a field of the structure by its converted content. -/
inductive Assignment
  | single (ident : String) (value : Conversion)
  | array (ident : String) (items : List Conversion)
  deriving DecidableEq, Repr

/-! ## From entries -/

/-- Words that have to be escaped where they name a field. -/
def keywords : List String :=
  ["abstract", "as", "async", "await", "become", "box", "break", "const", "continue", "do", "dyn",
    "else", "enum", "extern", "false", "final", "fn", "for", "gen", "if", "impl", "in", "let",
    "loop", "macro", "match", "mod", "move", "mut", "override", "priv", "pub", "ref", "return",
    "static", "struct", "trait", "true", "try", "type", "typeof", "unsafe", "unsized", "use",
    "virtual", "where", "while", "yield"]

/-- A field name as an identifier of generated code. -/
def identOf (name : String) : String :=
  if keywords.contains name then "r#" ++ name else name

namespace Index

/-- Where the elements start of an array that begins at the byte `base`. -/
def ofElement (base width : Nat) : Index :=
  let stride := if width = 1 then element else mul element (literal width)
  if base = 0 then stride else add (literal base) stride

/-- The byte `k` of the element that is being read. -/
def ofByte (k : Nat) : Index :=
  if k = 0 then start else add start (literal k)

end Index

/-- The expression that reads an entry from its packed position. -/
def Reading.ofEntry (e : Layout.Entry) : Reading :=
  let width := e.kind.byteWidth
  match e.shape with
  | .array kind _ =>
      let first := Index.ofElement e.start width
      if width = 1 then forEach (byte first)
      else forEach (startingAt first (word kind ((List.range width).map .ofByte)))
  | .single kind =>
      if width = 1 then byte (.literal e.start)
      else word kind ((List.range' e.start width).map .literal)

/-- The assignment that converts an entry, if its bytes have an order; array
    elements in index order. -/
def Assignment.ofEntry? (e : Layout.Entry) : Option Assignment :=
  if e.hasByteOrder then
    match e.shape with
    | .array kind count =>
        some (array (identOf e.name)
          ((List.range count).map fun i => ⟨kind, .element (identOf e.name) i⟩))
    | .single kind => some (single (identOf e.name) ⟨kind, .field (identOf e.name)⟩)
  else none

/-! ## As text -/

/-- Sums and products; a product stands for itself inside a sum. -/
def Index.text : Index → String
  | literal n => toString n
  | element => "i"
  | start => "at"
  | add a b => a.text ++ " + " ++ b.text
  | mul a b => a.text ++ " * " ++ b.text

def Index.blockText (index : Index) : String :=
  "block[" ++ index.text ++ "]"

def Reading.text : Reading → String
  | byte index => index.blockText
  | word kind indices =>
      kind.name ++ "::from_ne_bytes([" ++ ", ".intercalate (indices.map Index.blockText) ++ "])"
  | startingAt index body => "\x7b let at = " ++ index.text ++ "; " ++ body.text ++ " \x7d"
  | forEach body => "core::array::from_fn(|i| " ++ body.text ++ ")"

/-- The field or element, inside the structure under construction. -/
def Place.text : Place → String
  | field ident => "raw." ++ ident
  | element ident index => "raw." ++ ident ++ "[" ++ toString index ++ "]"

def Conversion.text (c : Conversion) : String :=
  c.kind.name ++ "::from_le(" ++ c.place.text ++ ")"

end PackedRecord.Code
