import PackedRecord.Proofs.Outcomes
import PackedRecord.Scalar.Basic

/-! # Scalars and their bytes — two ways of writing one number

    A number below `256 ^ w` and a list of `w` bytes determine each other, in
    either byte order.  So reading bytes back after writing a scalar gives the
    scalar, and writing a scalar that was read gives the bytes. -/

namespace PackedRecord

namespace Scalar

/-! ## Digits to base 256 -/

/-- Bytes denote a number below the bound of their number. -/
theorem valueOf_lt (bytes : List UInt8) : valueOf bytes < 256 ^ bytes.length := by
  induction bytes with
  | nil => exact Nat.zero_lt_one
  | cons b rest ih =>
      have hb : b.toNat < 256 := b.toNat_lt
      show b.toNat + 256 * valueOf rest < 256 ^ (rest.length + 1)
      rw [Nat.pow_succ]
      omega

/-- The digits of the number that a list of bytes denotes are those bytes. -/
theorem bytesOf_valueOf (bytes : List UInt8) :
    bytesOf bytes.length (valueOf bytes) = bytes := by
  induction bytes with
  | nil => rfl
  | cons b rest ih =>
      have hb : b.toNat < 256 := b.toNat_lt
      show UInt8.ofNat ((b.toNat + 256 * valueOf rest) % 256)
        :: bytesOf rest.length ((b.toNat + 256 * valueOf rest) / 256) = b :: rest
      have hmod : (b.toNat + 256 * valueOf rest) % 256 = b.toNat := by omega
      have hdiv : (b.toNat + 256 * valueOf rest) / 256 = valueOf rest := by omega
      rw [hmod, hdiv, ih, UInt8.ofNat_toNat]

/-- The digits of a number denote it, if there are enough of them. -/
theorem valueOf_bytesOf {w : Nat} : ∀ {n : Nat}, n < 256 ^ w → valueOf (bytesOf w n) = n := by
  induction w with
  | zero =>
      intro n h
      rw [Nat.pow_zero] at h
      exact (Nat.lt_one_iff.mp h).symm
  | succ w ih =>
      intro n h
      have hdigit : (UInt8.ofNat (n % 256)).toNat = n % 256 := by
        rw [UInt8.toNat_ofNat']
        exact Nat.mod_eq_of_lt (by omega)
      -- what is left of `n` has one digit less
      have hrest : n / 256 < 256 ^ w := by
        rw [Nat.pow_succ] at h
        omega
      show (UInt8.ofNat (n % 256)).toNat + 256 * valueOf (bytesOf w (n / 256)) = n
      rw [hdigit, ih hrest]
      omega

/-- A byte counts for the power of 256 of its index. -/
theorem valueOf_eq_sum (bytes : List UInt8) :
    valueOf bytes = ∑ t ∈ Finset.range bytes.length, (bytes.getD t 0).toNat * 256 ^ t := by
  induction bytes with
  | nil => rfl
  | cons b rest ih =>
      show b.toNat + 256 * valueOf rest = _
      rw [ih, List.length_cons, Finset.sum_range_succ', Finset.mul_sum, Nat.add_comm]
      simp only [List.getD_cons_zero, List.getD_cons_succ, Nat.pow_zero, Nat.mul_one]
      refine congrArg (· + b.toNat) (Finset.sum_congr rfl fun t _ => ?_)
      rw [Nat.pow_succ]
      ring

end Scalar

namespace ByteOrder

/-- The power of 256 that byte `t` of a number of `w` bytes counts for. -/
def weight : ByteOrder → Nat → Nat → Nat
  | little, _, t => t
  | big, w, t => w - 1 - t

/-- A number is the sum of its bytes, each times its power of 256. -/
theorem read_eq_sum (order : ByteOrder) (bytes : List UInt8) :
    order.read bytes
      = ∑ t ∈ Finset.range bytes.length,
          (bytes.getD t 0).toNat * 256 ^ order.weight bytes.length t := by
  cases order with
  | little => exact Scalar.valueOf_eq_sum bytes
  | big =>
      show Scalar.valueOf bytes.reverse = _
      rw [Scalar.valueOf_eq_sum, List.length_reverse, ← Finset.sum_range_reflect]
      refine Finset.sum_congr rfl fun t ht => ?_
      rw [Finset.mem_range] at ht
      -- byte `t` from the front is the byte that stands there in reverse
      have hbyte : bytes.reverse.getD (bytes.length - 1 - t) 0 = bytes.getD t 0 := by
        rw [List.getD_eq_getElem?_getD, List.getD_eq_getElem?_getD,
          List.getElem?_reverse (by omega),
          show bytes.length - 1 - (bytes.length - 1 - t) = t by omega]
      rw [hbyte]
      rfl

theorem length_arrange (order : ByteOrder) (bytes : List UInt8) :
    (order.arrange bytes).length = bytes.length := by
  cases order with
  | little => rfl
  | big => exact List.length_reverse

/-- To arrange bytes twice is to leave them as they are. -/
theorem arrange_arrange (order : ByteOrder) (bytes : List UInt8) :
    order.arrange (order.arrange bytes) = bytes := by
  cases order with
  | little => rfl
  | big => exact List.reverse_reverse bytes

theorem length_write (order : ByteOrder) (w n : Nat) : (order.write w n).length = w := by
  rw [write, length_arrange, Scalar.length_bytesOf]

theorem read_lt (order : ByteOrder) (bytes : List UInt8) :
    order.read bytes < 256 ^ bytes.length := by
  have := Scalar.valueOf_lt (order.arrange bytes)
  rwa [length_arrange] at this

/-- A number that was written is read back. -/
theorem read_write (order : ByteOrder) {w n : Nat} (h : n < 256 ^ w) :
    order.read (order.write w n) = n := by
  rw [read, write, arrange_arrange, Scalar.valueOf_bytesOf h]

/-- Bytes that were read are written back. -/
theorem write_read (order : ByteOrder) (bytes : List UInt8) :
    order.write bytes.length (order.read bytes) = bytes := by
  rw [write, read, ← length_arrange order bytes, Scalar.bytesOf_valueOf, arrange_arrange]

/-- Bytes of one length are told apart by the number that they are read as. -/
theorem read_inj (order : ByteOrder) {bytes bytes' : List UInt8}
    (hlength : bytes.length = bytes'.length) (h : order.read bytes = order.read bytes') :
    bytes = bytes' := by
  rw [← order.write_read bytes, h, hlength, order.write_read]

/-- Chunks of one width are known by the numbers that they denote. -/
theorem map_read_inj (order : ByteOrder) {w : Nat} {chunks chunks' : List (List UInt8)}
    (hwidth : ∀ chunk ∈ chunks, chunk.length = w) (hwidth' : ∀ chunk ∈ chunks', chunk.length = w)
    (h : chunks.map order.read = chunks'.map order.read) : chunks = chunks' :=
  Outcome.eq_of_map_eq (fun chunk hchunk chunk' hchunk' =>
    order.read_inj ((hwidth chunk hchunk).trans (hwidth' chunk' hchunk').symm)) h

/-- A single byte reads the same in either order. -/
theorem read_singleton (order order' : ByteOrder) (b : UInt8) :
    order.read [b] = order'.read [b] := by
  cases order <;> cases order' <;> rfl

end ByteOrder

namespace Scalar

/-! ## Scalars in a byte order -/

/-- The bytes of a kind hold exactly its values. -/
theorem Kind.bound_eq (kind : Kind) : kind.bound = 256 ^ kind.byteWidth := by
  cases kind <;> rfl

/-- A scalar is its kind and its value. -/
theorem ext_of_value {s t : Scalar} (hkind : s.kind = t.kind) (hvalue : s.value = t.value) :
    s = t := by
  obtain ⟨kind, value, hlt⟩ := s
  obtain ⟨kind', value', hlt'⟩ := t
  obtain rfl : kind = kind' := hkind
  obtain rfl : value = value' := hvalue
  rfl

theorem length_toBytes (order : ByteOrder) (s : Scalar) :
    (s.toBytes order).length = s.kind.byteWidth :=
  order.length_write s.kind.byteWidth s.value

/-- A scalar of as many bytes as its kind has holds their number. -/
theorem value_ofBytes {order : ByteOrder} {kind : Kind} {bytes : List UInt8}
    (h : bytes.length = kind.byteWidth) :
    (ofBytes order kind bytes).value = order.read bytes := by
  have hlt := order.read_lt bytes
  rw [h, ← kind.bound_eq] at hlt
  exact Nat.mod_eq_of_lt hlt

/-- A scalar is read back from its bytes. -/
theorem ofBytes_toBytes (order : ByteOrder) (s : Scalar) :
    ofBytes order s.kind (s.toBytes order) = s := by
  refine ext_of_value rfl ?_
  have hlt := s.value_lt
  rw [s.kind.bound_eq] at hlt
  rw [value_ofBytes (length_toBytes order s)]
  exact order.read_write hlt

/-- Bytes are written back from their scalar. -/
theorem toBytes_ofBytes {order : ByteOrder} {kind : Kind} {bytes : List UInt8}
    (h : bytes.length = kind.byteWidth) : (ofBytes order kind bytes).toBytes order = bytes := by
  show order.write kind.byteWidth (ofBytes order kind bytes).value = bytes
  rw [value_ofBytes h, ← h]
  exact order.write_read bytes

/-- Bytes that were read with the most significant one first are, once
    swapped, read with the least significant one first. -/
theorem swapBytes_ofBytes_big {kind : Kind} {bytes : List UInt8}
    (h : bytes.length = kind.byteWidth) :
    (ofBytes .big kind bytes).swapBytes = ofBytes .little kind bytes := by
  -- the digits of the number read are the bytes in reverse
  have hlittle : (ofBytes .big kind bytes).toBytes .little = bytes.reverse := by
    show bytesOf kind.byteWidth (ofBytes .big kind bytes).value = bytes.reverse
    rw [value_ofBytes h, ← h, ← @List.length_reverse _ bytes]
    exact bytesOf_valueOf bytes.reverse
  show ofBytes .big kind ((ofBytes .big kind bytes).toBytes .little) = _
  rw [hlittle]
  show ofNat kind (valueOf bytes.reverse.reverse) = ofNat kind (valueOf bytes)
  rw [List.reverse_reverse]

/-- A kind of one byte knows no order. -/
theorem ofBytes_of_byteWidth_one {kind : Kind} {bytes : List UInt8}
    (hkind : kind.byteWidth = 1) (h : bytes.length = kind.byteWidth) (order order' : ByteOrder) :
    ofBytes order kind bytes = ofBytes order' kind bytes := by
  rw [hkind] at h
  obtain ⟨b, rfl⟩ := List.length_eq_one_iff.mp h
  show ofNat kind (order.read [b]) = ofNat kind (order'.read [b])
  rw [ByteOrder.read_singleton order order']

end Scalar

end PackedRecord
