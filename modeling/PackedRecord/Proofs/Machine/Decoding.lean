import PackedRecord.Proofs.Machine.Emitting
import PackedRecord.Proofs.Record.RoundTrip

/-! # Decoding on a machine — slices, and what a cursor has ahead of it

    The decoder cuts the record out of a buffer and every field out of the
    record, which faults if the bytes are not there.  Scalars are then read
    one after another by a cursor, which knows nothing of positions: it has
    bytes ahead of it and refuses to read more than these.  The slices of a
    packed layout are there, and each holds exactly the scalars that are read
    from it. -/

namespace PackedRecord.Machine

open Layout (Packed)
open Layout.Words (Progress Slot)

/-! ## Slices and cursors -/

/-- The bytes from one index to before another, which have to be there. -/
def cut {ε : Type} (bytes : Array UInt8) (start stop : Nat) : Except (Stop ε) (Array UInt8) :=
  if start ≤ stop ∧ stop ≤ bytes.size then .ok (bytes.extract start stop)
  else .error (.fault .index)

/-- The next `w` bytes, and those ahead of the cursor behind them. -/
def takeBytes (w : Nat) (ahead : List UInt8) :
    Except (Stop CodecError) (List UInt8 × List UInt8) :=
  if w ≤ ahead.length then .ok (ahead.take w, ahead.drop w)
  else .error (.refusal .unexpectedEnd)

def takeScalar (order : ByteOrder) (kind : Scalar.Kind) (ahead : List UInt8) :
    Except (Stop CodecError) (Value × List UInt8) := do
  let next ← takeBytes kind.byteWidth ahead
  return (.scalar (.ofBytes order kind next.1), next.2)

/-- So many scalars, one behind the other. -/
def takeScalars (order : ByteOrder) (kind : Scalar.Kind) :
    Nat → List UInt8 → Except (Stop CodecError) (List Value)
  | 0, _ => return []
  | n + 1, ahead => do
      let next ← takeScalar order kind ahead
      let items ← takeScalars order kind n next.2
      return next.1 :: items

/-! ## The decoder -/

def valueAt (order : ByteOrder) (record : Array UInt8) (s : Slot) :
    Except (Stop CodecError) Value := do
  let stop ← packedEnd s
  let chunk ← cut record s.position.toNat stop.toNat
  if s.entry.isArray then do
    let items ← takeScalars order s.kind s.arrayLength.toNat chunk.toList
    return .array items
  else do
    let next ← takeScalar order s.kind chunk.toList
    return next.1

def fieldAt (order : ByteOrder) (record : Array UInt8) (s : Slot) :
    Except (Stop CodecError) RecordField := do
  let value ← valueAt order record s
  let stop ← packedEnd s
  return { name := s.name, value, start := s.position.toNat, stop := stop.toNat }

def decode (p : Progress) (order : ByteOrder) (bytes : Array UInt8) :
    Except (Stop CodecError) (List RecordField) :=
  if bytes.size < p.width.toNat then
    .error (.refusal (.tooShort p.width.toNat bytes.size))
  else do
    let record ← cut bytes 0 p.width.toNat
    (slotsOf p).mapM (fieldAt order record)

/-! ## Without faults -/

theorem cut_eq (ε : Type) {bytes : Array UInt8} {start stop : Nat} (hle : start ≤ stop)
    (hinside : stop ≤ bytes.size) :
    (cut bytes start stop : Except (Stop ε) _) = .ok (bytes.extract start stop) :=
  if_pos ⟨hle, hinside⟩

/-- A scalar that lies ahead is read, and the cursor moves behind it. -/
theorem takeScalar_eq (order : ByteOrder) {kind : Scalar.Kind} {ahead : List UInt8}
    (h : kind.byteWidth ≤ ahead.length) :
    takeScalar order kind ahead
      = .ok (.scalar (.ofBytes order kind (ahead.take kind.byteWidth)),
          ahead.drop kind.byteWidth) := by
  rw [takeScalar, takeBytes, if_pos h]
  rfl

/-- The cursor cuts what is ahead of it into elements. -/
theorem takeScalars_eq (order : ByteOrder) {kind : Scalar.Kind} {n : Nat} :
    ∀ {ahead : List UInt8}, kind.byteWidth * n ≤ ahead.length →
      takeScalars order kind n ahead
        = .ok ((elements kind.byteWidth n ahead).map fun bytes =>
            .scalar (.ofBytes order kind bytes)) := by
  induction n with
  | zero => exact fun _ => rfl
  | succ n ih =>
      intro ahead h
      rw [Nat.mul_succ] at h
      have hrest : kind.byteWidth * n ≤ (ahead.drop kind.byteWidth).length := by
        rw [List.length_drop]
        omega
      rw [takeScalars, takeScalar_eq order (by omega)]
      show takeScalars order kind n (ahead.drop kind.byteWidth) >>= _ = _
      rw [ih hrest]
      rfl

/-- A slot inside the record has the value of its slice. -/
theorem valueAt_eq (order : ByteOrder) {record : Array UInt8} {s : Slot} (hexact : s.Exact)
    (hcount : 1 ≤ s.entry.count) (hinside : s.entry.stop ≤ record.size) :
    valueAt order record s
      = .ok (s.entry.valueOf order (slice record.toList s.entry.start s.entry.size)) := by
  obtain ⟨stop, hend, hstop⟩ := exists_packedEnd CodecError hexact
  have hsize : s.entry.stop = s.entry.start + s.entry.size := rfl
  have hchunk : (record.extract s.entry.start s.entry.stop).toList
      = slice record.toList s.entry.start s.entry.size := by
    rw [toList_extract_eq_slice, hsize, Nat.add_sub_cancel_left]
  have hlength : (slice record.toList s.entry.start s.entry.size).length = s.entry.size :=
    length_slice hinside
  have hcut : (cut record s.position.toNat stop.toNat : Except (Stop CodecError) _)
      = .ok (record.extract s.entry.start s.entry.stop) := by
    rw [hstop]
    exact cut_eq CodecError (by rw [hsize]; exact Nat.le_add_right _ _) hinside
  rw [valueAt, hend]
  show cut record s.position.toNat stop.toNat >>= _ = _
  rw [hcut]
  show (if s.entry.isArray then _ else _) = _
  rw [hchunk]
  by_cases harray : 1 < s.entry.count
  · have hseveral : s.entry.isArray = true := decide_eq_true harray
    have hitems : takeScalars order s.kind s.arrayLength.toNat
        (slice record.toList s.entry.start s.entry.size) = .ok _ :=
      takeScalars_eq order hlength.symm.le
    rw [if_pos hseveral, Layout.Entry.valueOf_of_isArray harray, hitems]
    rfl
  · -- a single scalar is all of its slice
    have hwidth := s.entry.size_of_not_isArray hcount harray
    have htake : (slice record.toList s.entry.start s.entry.size).take s.kind.byteWidth
        = slice record.toList s.entry.start s.entry.size :=
      List.take_of_length_le (by rw [hlength, hwidth]; rfl)
    have hsingle : ¬ s.entry.isArray = true := fun h => harray (of_decide_eq_true h)
    rw [if_neg hsingle, Layout.Entry.valueOf_of_not_isArray harray,
      takeScalar_eq order (by rw [hlength, hwidth]; exact Nat.le_refl _), htake]
    rfl

/-- The field of an exact slot is read without a fault, as the codec reads it. -/
theorem fieldAt_eq (order : ByteOrder) {record : Array UInt8} {s : Slot} (hexact : s.Exact)
    (hcount : 1 ≤ s.entry.count) (hinside : s.entry.stop ≤ record.size) :
    fieldAt order record s = .ok (Codec.fieldIn order record.toList s.entry) := by
  obtain ⟨stop, hend, hstop⟩ := exists_packedEnd CodecError hexact
  rw [fieldAt, valueAt_eq order hexact hcount hinside, hend]
  show Except.ok (RecordField.mk s.name _ s.position.toNat stop.toNat) = _
  rw [hstop]
  rfl

/-- What every slot of a machine brings along. -/
theorem slot_of_packed {p : Progress} (hexact : p.Exact) (hpacked : Packed p.layout) {s : Slot}
    (hs : s ∈ slotsOf p) :
    s.Exact ∧ 1 ≤ s.entry.count ∧ s.entry.stop ≤ p.layout.width := by
  have hentry : s.entry ∈ p.layout.entries := by
    rw [entries_layout]
    exact List.mem_map_of_mem hs
  exact ⟨exact_of_mem_slotsOf hexact s hs, (hpacked.sound _ hentry).count_pos,
    hpacked.stop_le hentry⟩

/-- **DECODING NEVER FAULTS**: no slice is out of bounds and no cursor reaches
    its end, whatever the buffer. -/
theorem decode_eq {p : Progress} (hexact : p.Exact) (hpacked : Packed p.layout)
    (order : ByteOrder) (bytes : Array UInt8) :
    decode p order bytes = (Codec.decode ⟨p.layout, order⟩ bytes).mapError .refusal := by
  rw [decode, hexact.width]
  by_cases hshort : bytes.size < p.layout.width
  · rw [if_pos hshort, Codec.decode, if_pos hshort]
    rfl
  have henough : p.layout.width ≤ bytes.size := Nat.not_lt.mp hshort
  have hlist : (bytes.extract 0 p.layout.width).toList = bytes.toList.take p.layout.width :=
    toList_extract_eq_slice bytes 0 _
  have hfields : ∀ s ∈ slotsOf p, fieldAt order (bytes.extract 0 p.layout.width) s
      = pure (Codec.fieldIn order bytes.toList s.entry) := by
    intro s hs
    obtain ⟨hslot, hcount, hstop⟩ := slot_of_packed hexact hpacked hs
    have hinside : s.entry.stop ≤ (bytes.extract 0 p.layout.width).size := by
      rw [Array.size_extract]
      omega
    rw [fieldAt_eq order hslot hcount hinside, hlist]
    -- the slot sees the same bytes in the record as in the buffer
    show Except.ok (RecordField.mk _ (s.entry.valueOf order (slice _ _ _)) _ _) = _
    rw [slice_take hstop]
    rfl
  rw [if_neg hshort, cut_eq CodecError (Nat.zero_le _) henough]
  show (slotsOf p).mapM _ = _
  rw [Outcome.mapM_eq_pure hfields, Codec.decode_eq hpacked order henough, entries_layout,
    List.map_map]
  rfl

end PackedRecord.Machine
