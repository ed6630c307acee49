import PackedRecord.Scalar.Basic
import PackedRecord.Text.Quoted

/-! # Values — what a field of a record holds

    A value is a scalar or an array of values.  Arrays that come out of a
    record hold scalars of one kind, but a value that somebody hands in may
    be mixed, nested or empty. -/

namespace PackedRecord

/-- The content of a field. -/
inductive Value
  | scalar (s : Scalar)
  | array (items : List Value)
  deriving Repr

namespace Value

/-- The number of a scalar. -/
def asNat? : Value → Option Nat
  | scalar s => some s.value
  | array _ => none

/-- The elements of an array. -/
def asArray? : Value → Option (List Value)
  | scalar _ => none
  | array items => some items

/-- The byte of a single-byte scalar. -/
def asByte? : Value → Option UInt8
  | scalar s => if s.kind = .u8 then some (UInt8.ofNat s.value) else none
  | array _ => none

/-- The bytes of an array of single bytes. -/
def asBytes? : Value → Option (List UInt8)
  | scalar _ => none
  | array items => items.mapM asByte?

/-- The value spelled out with the kind of every scalar, as messages show
    it: `U16(1)`, `Array([U8(1), U8(2)])`. -/
def spelledOut : Value → String
  | scalar s => s.kind.name.toUpper ++ "(" ++ toString s.value ++ ")"
  | array items => "Array([" ++ ", ".intercalate (items.map spelledOut) ++ "])"

/-! ## Values in a dump -/

/-- A number in hexadecimal with its decimal value; one digit stands alone. -/
def numberText (n : Nat) : String :=
  if n < 10 then toString n
  else "0x" ++ Text.hex n ++ " (" ++ toString n ++ ")"

/-- Every byte as two digits. -/
def hexText (bytes : List UInt8) : String :=
  "hex(" ++ " ".intercalate (bytes.map Text.hexByte) ++ ")"

/-- The characters before the first zero byte, if there are any, all are
    printable ASCII and only zeros follow. -/
def printableText? (bytes : List UInt8) : Option String :=
  let text := (bytes.takeWhile (· ≠ 0)).map fun b => Char.ofNat b.toNat
  if text ≠ [] ∧ text.all Text.isPrintableAscii ∧ (bytes.dropWhile (· ≠ 0)).all (· = 0) then
    some (String.ofList text)
  else none

/-- Bytes as text with their digits, or as digits only. -/
def bytesText (bytes : List UInt8) : String :=
  match printableText? bytes with
  | some text => Text.Quoted.quote text ++ " (" ++ hexText bytes ++ ")"
  | none => hexText bytes

/-- The value on one line. -/
def text : Value → String
  | scalar s => numberText s.value
  | array items =>
      match asBytes? (array items) with
      | some bytes => bytesText bytes
      | none => "[" ++ ", ".intercalate (items.map text) ++ "]"

end Value

end PackedRecord
