import Mathlib
import PackedRecord.Code.Meaning
import PackedRecord.Proofs.Code.Tokens

/-! # Reading generated code — from tokens to expressions

    Nothing here knows how code is printed: expressions, assignments and
    bodies of functions are read off their tokens by the rules of the
    language.  A product binds stronger than a sum and both associate to the
    left; a structure lists its fields between commas; statements end in
    semicolons; `from_native` is the only function that is called by name.  A
    word of the language names no field unless it is marked as a name. -/

namespace PackedRecord.Code

/-! ## Pieces -/

/-- What stands between an opening and a closing text. -/
def between? (opening closing : String) (ts : List Token) : Option (List Token) := do
  let rest ← ts.dropPrefix? (tokens opening)
  rest.dropSuffix? (tokens closing)

/-- The pieces of tokens in which every piece ends in the separator. -/
def terminated? (separator : Char) (ts : List Token) : Option (List (List Token)) :=
  let pieces := split separator 0 ts
  if pieces.getLast? = some [] then some pieces.dropLast else none

/-- The number that a word of decimal digits denotes. -/
def numeral? (w : List Char) : Option Nat :=
  if w ≠ [] ∧ w.all Char.isDigit then some (Nat.ofDigitChars 10 w 0) else none

/-- The kind that a word names. -/
def kindNamed? (w : List Char) : Option Scalar.Kind :=
  [.u8, .u16, .u32, .u64].find? fun kind => kind.name.toList = w

/-! ## Identifiers -/

/-- Words that the language uses, or keeps for later. -/
def reservedWords : List String :=
  ["as", "break", "const", "continue", "crate", "else", "enum", "extern", "false", "fn", "for",
    "if", "impl", "in", "let", "loop", "match", "mod", "move", "mut", "pub", "ref", "return",
    "self", "Self", "static", "struct", "super", "trait", "true", "type", "unsafe", "use", "where",
    "while", "async", "await", "dyn", "abstract", "become", "box", "do", "final", "gen", "macro",
    "override", "priv", "try", "typeof", "unsized", "virtual", "yield", "_"]

/-- Reserved words that no mark makes a name of. -/
def pathWords : List String :=
  ["_", "self", "Self", "super", "crate"]

/-- Letters, digits and `_`, with no digit in front. -/
def isPlainName : List Char → Bool
  | [] => false
  | c :: w => (c.isAlpha || c == '_') && w.all fun d => d.isAlphanum || d == '_'

/-- A name that is not reserved, or one behind the mark `r#`. -/
def isIdent : List Char → Bool
  | 'r' :: '#' :: w => isPlainName w && !pathWords.contains (String.ofList w)
  | w => isPlainName w && !reservedWords.contains (String.ofList w)

/-- The identifier that a word is, its mark included. -/
def ident? (w : List Char) : Option String :=
  if isIdent w then some (String.ofList w) else none

/-! ## Expressions -/

namespace Index

/-- One operand: a name, or a number. -/
def readOperand? : List Token → Option Index
  | [.word w] =>
      if w = "i".toList then some element
      else if w = "at".toList then some start
      else (numeral? w).map literal
  | _ => none

/-- Operands of one operator, from left to right. -/
def chain? (op : Index → Index → Index) : List Index → Option Index
  | [] => none
  | first :: rest => some (rest.foldl op first)

def readProduct? (ts : List Token) : Option Index := do
  chain? mul (← (split '*' 0 ts).mapM readOperand?)

def read? (ts : List Token) : Option Index := do
  chain? add (← (split '+' 0 ts).mapM readProduct?)

def readBlock? (ts : List Token) : Option Index := do
  read? (← between? "block[" "]" ts)

end Index

namespace Reading

/-- `kind::from_ne_bytes([block[index], …])`. -/
def readWord? : List Token → Option Reading
  | .word w :: ts => do
      let kind ← kindNamed? w
      let bytes ← between? "::from_ne_bytes([" "])" ts
      return word kind (← (split ',' 0 bytes).mapM Index.readBlock?)
  | _ => none

/-- A byte of the block, or a number from several. -/
def readPlain? (ts : List Token) : Option Reading :=
  match Index.readBlock? ts with
  | some index => some (byte index)
  | none => readWord? ts

/-- The same, perhaps behind `let at = index;`. -/
def readElement? (ts : List Token) : Option Reading :=
  match between? "\x7b let at = " " \x7d" ts with
  | some inner =>
      match split ';' 0 inner with
      | [index, body] => do return startingAt (← Index.read? index) (← readPlain? body)
      | _ => none
  | none => readPlain? ts

/-- The same, perhaps for every element of an array. -/
def read? (ts : List Token) : Option Reading :=
  match between? "core::array::from_fn(|i| " ")" ts with
  | some body => (readElement? body).map forEach
  | none => readElement? ts

end Reading

/-- `raw.ident`, or `raw.ident[index]`. -/
def Place.read? : List Token → Option Place
  | [.word raw, .sign '.', .word ident] =>
      if raw = "raw".toList then (ident? ident).map field else none
  | [.word raw, .sign '.', .word ident, .sign '[', .word w, .sign ']'] =>
      if raw = "raw".toList then do return element (← ident? ident) (← numeral? w) else none
  | _ => none

def Conversion.read? : List Token → Option Conversion
  | .word w :: ts => do
      let kind ← kindNamed? w
      return ⟨kind, ← Place.read? (← between? "::from_le(" ")" ts)⟩
  | _ => none

/-! ## Statements and functions -/

def readInitialiser? : List Token → Option (String × Reading)
  | .word ident :: .sign ':' :: ts => do return (← ident? ident, ← Reading.read? ts)
  | _ => none

/-- The fields of the structure that a body builds.  A body that reads
    nothing says that it does not need the block. -/
def readStructure? (ts : List Token) : Option (List (String × Reading)) := do
  let body := (ts.dropPrefix? (tokens "let _ = block;")).getD ts
  let fields ← terminated? ',' (← between? "Self \x7b" "\x7d" body)
  fields.mapM readInitialiser?

/-- `raw.ident = conversion`, or `raw.ident = [conversion, …,]`. -/
def Assignment.read? : List Token → Option Assignment
  | .word raw :: .sign '.' :: .word ident :: .sign '=' :: ts =>
      if raw = "raw".toList then
        match between? "[" "]" ts with
        | some inner => do
            let items ← terminated? ',' inner
            return array (← ident? ident) (← items.mapM Conversion.read?)
        | none => do return single (← ident? ident) (← Conversion.read? ts)
      else none
  | _ => none

/-- What a body does to the structure that `from_native` gives, before it
    returns it. -/
def readAssignments? (ts : List Token) : Option (List Assignment) :=
  if ts = tokens "Self::from_native(block)" then some []
  else do
    let inner ← between? "let mut raw = Self::from_native(block);" "raw" ts
    (← terminated? ';' inner).mapM Assignment.read?

/-- The constructor in host order: its fields, each with its expression. -/
def readConstructor? (text : String) : Option (List (String × Reading)) := do
  readStructure?
    (← between? "fn from_native(block: &[u8; Self::WIDTH]) -> Self \x7b" "\x7d" (tokens text))

/-- A byte order by the name that a condition gives it. -/
def orderName : ByteOrder → String
  | .little => "little"
  | .big => "big"

/-- The conversion from a block on hosts of one byte order. -/
def readConversion? (host : ByteOrder) (text : String) : Option (List Assignment) := do
  readAssignments?
    (← between? ("#[cfg(target_endian = \"" ++ orderName host ++ "\")]"
        ++ "fn from(block: &[u8; Self::WIDTH]) -> Self \x7b") "\x7d" (tokens text))

end PackedRecord.Code
