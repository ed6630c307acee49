/-! # Numerals — reading bounded numbers, writing hexadecimal ones

    A numeral is read from the left.  The first fault decides what is
    reported: a character that is no digit of the base, or the digit at which
    the value reaches the bound.  Values are unbounded, so the bound is a
    plain comparison. -/

namespace PackedRecord.Text

inductive NumeralError
  | empty
  | invalidDigit
  | outOfRange
  deriving DecidableEq, Repr

namespace NumeralError

def message : NumeralError → String
  | empty => "cannot parse integer from empty string"
  | invalidDigit => "invalid digit found in string"
  | outOfRange => "number too large to fit in target type"

end NumeralError

/-- The value of a digit in the given base; letters count from ten in either
    case. -/
def digitValue? (base : Nat) (c : Char) : Option Nat :=
  let value :=
    if '0' ≤ c ∧ c ≤ '9' then c.toNat - '0'.toNat
    else if 'a' ≤ c ∧ c ≤ 'z' then c.toNat - 'a'.toNat + 10
    else if 'A' ≤ c ∧ c ≤ 'Z' then c.toNat - 'A'.toNat + 10
    else base
  if value < base then some value else none

/-- Appends digits to a value that has been read so far; the value stays
    below `bound`. -/
def readDigits (base bound : Nat) : Nat → List Char → Except NumeralError Nat
  | value, [] => .ok value
  | value, c :: rest =>
      match digitValue? base c with
      | none => .error .invalidDigit
      | some d =>
          if value * base + d < bound then readDigits base bound (value * base + d) rest
          else .error .outOfRange

/-- A number below `bound`: digits, after an optional plus sign. -/
def readNat (base bound : Nat) : List Char → Except NumeralError Nat
  | [] => .error .empty
  | ['+'] => .error .invalidDigit
  | '+' :: digits => readDigits base bound 0 digits
  | digits => readDigits base bound 0 digits

/-- A decimal integer of at least `-bound` and below `bound`: digits, after an
    optional sign. -/
def readInt (bound : Nat) : List Char → Except NumeralError Int
  | ['-'] => .error .invalidDigit
  | '-' :: digits => (readDigits 10 (bound + 1) 0 digits).map fun n => -(n : Int)
  | text => (readNat 10 bound text).map Int.ofNat

/-- One more than the largest number of 64 bits. -/
def bound64 : Nat := UInt64.size

/-- Lower-case hexadecimal digits without leading zeros. -/
def hex (n : Nat) : String :=
  String.ofList (Nat.toDigits 16 n)

/-- A byte as two lower-case hexadecimal digits. -/
def hexByte (b : UInt8) : String :=
  String.ofList [Nat.digitChar (b.toNat / 16), Nat.digitChar (b.toNat % 16)]

end PackedRecord.Text
