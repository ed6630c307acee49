import PackedRecord.Scalar.ByteOrder
import PackedRecord.Scalar.Kind

/-! # Scalars — a kind and a number that it can hold -/

namespace PackedRecord

/-- An unsigned integer of a fixed width. -/
structure Scalar where
  kind : Scalar.Kind
  value : Nat
  value_lt : value < kind.bound
  deriving DecidableEq, Repr

namespace Scalar

/-- The number as a scalar, less what the kind cannot hold. -/
def ofNat (kind : Kind) (n : Nat) : Scalar where
  kind := kind
  value := n % kind.bound
  value_lt := Nat.mod_lt _ kind.bound_pos

/-- The number as a scalar, if the kind can hold it. -/
def ofNat? (kind : Kind) (n : Nat) : Option Scalar :=
  if h : n < kind.bound then some ⟨kind, n, h⟩ else none

def ofBytes (order : ByteOrder) (kind : Kind) (bytes : List UInt8) : Scalar :=
  ofNat kind (order.read bytes)

def toBytes (order : ByteOrder) (s : Scalar) : List UInt8 :=
  order.write s.kind.byteWidth s.value

/-- The scalar with its bytes the other way round. -/
def swapBytes (s : Scalar) : Scalar :=
  ofBytes .big s.kind (s.toBytes .little)

end Scalar

end PackedRecord
