import PackedRecord.Text.Numeral
import PackedRecord.Text.Printable

/-! # Quoted text — double quotes and escapes

    A quoted text stands between double quotes on one line.  Tab, line feed,
    carriage return, NUL, the double quote and the backslash have short
    escapes; other characters that are not printable are written by code
    point. -/

namespace PackedRecord.Text.Quoted

/-- The letter after the backslash in a short escape. -/
def shortEscape? (c : Char) : Option Char :=
  match c with
  | '\t' => some 't'
  | '\n' => some 'n'
  | '\r' => some 'r'
  | '\x00' => some '0'
  | '"' => some '"'
  | '\\' => some '\\'
  | _ => none

/-- A character as it stands between the quotes. -/
def encodeChar (c : Char) : List Char :=
  match shortEscape? c with
  | some letter => ['\\', letter]
  | none =>
      if isPrintable c then [c]
      else ['\\', 'u', '\x7b'] ++ Nat.toDigits 16 c.toNat ++ ['\x7d']

/-- A text as it stands between the quotes. -/
def encode (text : List Char) : List Char :=
  text.flatMap encodeChar

@[simp] theorem encode_nil : encode [] = [] := rfl

@[simp] theorem encode_cons (c : Char) (text : List Char) :
    encode (c :: text) = encodeChar c ++ encode text := by
  simp [encode]

def quote (text : String) : String :=
  String.ofList (['"'] ++ encode text.toList ++ ['"'])

end PackedRecord.Text.Quoted
