/-! # Byte orders — numbers as bytes

    A number of `w` bytes is written to base 256.  `bytesOf` lists its digits
    least significant first and `valueOf` reads such a list; a byte order
    says whether the list is stored as it is or reversed. -/

namespace PackedRecord

/-- Which byte of a number comes first. -/
inductive ByteOrder
  | little
  | big
  deriving DecidableEq, Repr

/-- The `w` digits of `n` to base 256, the least significant first. -/
def Scalar.bytesOf : Nat → Nat → List UInt8
  | 0, _ => []
  | w + 1, n => UInt8.ofNat (n % 256) :: bytesOf w (n / 256)

/-- The number with the given digits to base 256, the least significant
    first. -/
def Scalar.valueOf : List UInt8 → Nat
  | [] => 0
  | b :: rest => b.toNat + 256 * valueOf rest

namespace Scalar

/-- However large the number is, it is written in `w` bytes. -/
theorem length_bytesOf (w n : Nat) : (bytesOf w n).length = w := by
  induction w generalizing n with
  | zero => rfl
  | succ w ih => simp [bytesOf, ih]

end Scalar

namespace ByteOrder

/-- Stored bytes with the least significant one first, and back. -/
def arrange : ByteOrder → List UInt8 → List UInt8
  | little, bytes => bytes
  | big, bytes => bytes.reverse

def read (order : ByteOrder) (bytes : List UInt8) : Nat :=
  Scalar.valueOf (order.arrange bytes)

def write (order : ByteOrder) (w n : Nat) : List UInt8 :=
  order.arrange (Scalar.bytesOf w n)

end ByteOrder

end PackedRecord
