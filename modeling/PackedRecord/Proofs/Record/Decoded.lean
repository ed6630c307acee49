import PackedRecord.Proofs.Machine.Decoding

/-! # Decoded records — what the bytes of a record say

    A buffer is decoded if it holds a whole record, and only then.  What comes
    out is stated without the decoder: the ranges of the fields cut the record
    into pieces, and a scalar is the sum of its own bytes, each times the power
    of 256 that the byte order gives it.  Element `j` of an array has the bytes
    from `j` element widths behind the start of its field. -/

namespace PackedRecord

open Layout (BackToBack Entry Packed bytesOfEntries)

/-! ## Numbers and values in a buffer -/

/-- The number of the `w` bytes from byte `start` on. -/
def ByteOrder.numberAt (order : ByteOrder) (bytes : Array UInt8) (start w : Nat) : Nat :=
  ∑ t ∈ Finset.range w, (bytes.getD (start + t) 0).toNat * 256 ^ order.weight w t

example : ByteOrder.big.numberAt #[9, 1, 2] 1 2 = 258 := by decide

namespace Layout.Entry

/-- The value has the shape of the entry, and its scalars are the numbers in
    the entry's bytes. -/
inductive ReadsAs (order : ByteOrder) (bytes : Array UInt8) (e : Entry) : Value → Prop
  | single {s : Scalar} : e.count = 1 → s.kind = e.kind →
      s.value = order.numberAt bytes e.start e.kind.byteWidth →
      ReadsAs order bytes e (.scalar s)
  | array {scalars : List Scalar} : 1 < e.count → scalars.length = e.count →
      (∀ j s, scalars[j]? = some s → s.kind = e.kind ∧
        s.value = order.numberAt bytes (e.start + j * e.kind.byteWidth) e.kind.byteWidth) →
      ReadsAs order bytes e (.array (scalars.map .scalar))

/-- The field of the entry: its name, its value and its packed range. -/
structure DecodesTo (order : ByteOrder) (bytes : Array UInt8) (e : Entry) (f : RecordField) :
    Prop where
  name : f.name = e.name
  value : e.ReadsAs order bytes f.value
  start : f.start = e.start
  stop : f.stop = e.stop

end Layout.Entry

/-- The byte is one of those that the field came from. -/
def RecordField.Covers (f : RecordField) (k : Nat) : Prop :=
  f.start ≤ k ∧ k < f.stop

/-- The ranges of the fields, none of them empty, are consecutive from one byte
    to before another. -/
inductive Partition : Nat → Nat → List RecordField → Prop
  | nil (stop : Nat) : Partition stop stop []
  | cons {start stop : Nat} {f : RecordField} {rest : List RecordField} :
      f.start = start → f.start < f.stop → Partition f.stop stop rest →
      Partition start stop (f :: rest)

namespace Codec

/-! ## Values -/

/-- A scalar that is read from its bytes is the number of these. -/
theorem value_ofBytes_slice (order : ByteOrder) (kind : Scalar.Kind) {bytes : Array UInt8}
    {start : Nat} (h : start + kind.byteWidth ≤ bytes.size) :
    (Scalar.ofBytes order kind (slice bytes.toList start kind.byteWidth)).value
      = order.numberAt bytes start kind.byteWidth := by
  have hlength : (slice bytes.toList start kind.byteWidth).length = kind.byteWidth :=
    length_slice h
  rw [Scalar.value_ofBytes hlength, order.read_eq_sum, hlength, ByteOrder.numberAt]
  refine Finset.sum_congr rfl fun t ht => ?_
  rw [List.getD_eq_getElem?_getD, getElem?_slice (Finset.mem_range.mp ht), Array.getElem?_toList,
    Array.getD_eq_getD_getElem?]

/-- The value of an entry's slice is read from the entry's bytes. -/
theorem readsAs_valueOf (order : ByteOrder) {bytes : Array UInt8} {e : Entry}
    (hcount : 1 ≤ e.count) (hinside : e.stop ≤ bytes.size) :
    e.ReadsAs order bytes (e.valueOf order (slice bytes.toList e.start e.size)) := by
  have hstop : e.stop = e.start + e.size := rfl
  by_cases harray : 1 < e.count
  · have hscalars : e.valueOf order (slice bytes.toList e.start e.size)
        = .array (((List.range e.count).map fun j => Scalar.ofBytes order e.kind
            (slice (slice bytes.toList e.start e.size) (j * e.kind.byteWidth)
              e.kind.byteWidth)).map .scalar) := by
      rw [Layout.Entry.valueOf_eq_map_slice harray, List.map_map]
      rfl
    rw [hscalars]
    refine Entry.ReadsAs.array harray (by rw [List.length_map, List.length_range]) ?_
    intro j s hs
    obtain ⟨i, hi, rfl⟩ := Option.map_eq_some_iff.mp ((List.getElem?_map ..).symm.trans hs)
    obtain ⟨hj, rfl⟩ := List.getElem?_eq_some_iff.mp hi
    rw [List.length_range] at hj
    rw [List.getElem_range]
    -- element `j` ends inside the entry
    have helement := e.element_le hj
    refine ⟨rfl, ?_⟩
    rw [slice_slice helement]
    exact value_ofBytes_slice order e.kind (by omega)
  · have hwidth := e.size_of_not_isArray hcount harray
    rw [Layout.Entry.valueOf_of_not_isArray harray, hwidth]
    exact Entry.ReadsAs.single (by omega) rfl (value_ofBytes_slice order e.kind (by omega))

/-! ## Ranges -/

/-- The ranges of fields that are packed follow each other from the first byte
    to the last. -/
theorem partition_fieldsIn (order : ByteOrder) (bytes : List UInt8) {entries : List Entry} :
    ∀ {start : Nat}, BackToBack start entries → (∀ e ∈ entries, e.Sound) →
      Partition start (start + bytesOfEntries entries) (entries.map (fieldIn order bytes)) := by
  induction entries with
  | nil => exact fun _ _ => Partition.nil _
  | cons e rest ih =>
      intro start h hsound
      obtain ⟨hstart, hrest⟩ := (Layout.backToBack_cons start e rest).mp h
      obtain ⟨he, hsound⟩ := List.forall_mem_cons.mp hsound
      have hstop : e.stop = e.start + e.size := rfl
      have hsize := he.size_pos
      have hend : e.stop + bytesOfEntries rest = start + bytesOfEntries (e :: rest) := by
        rw [Layout.bytesOfEntries_cons]
        omega
      refine Partition.cons hstart (show e.start < e.stop by omega) ?_
      rw [← hend]
      exact ih hrest hsound

/-! ## The record -/

section Record

variable {layout : Layout} (h : Packed layout) (order : ByteOrder) {bytes : Array UInt8}

include h

/-- Decoding succeeds or finds the buffer too short, and never anything else. -/
theorem decode_cases (bytes : Array UInt8) :
    (layout.width ≤ bytes.size
        ∧ decode ⟨layout, order⟩ bytes = .ok (layout.entries.map (fieldIn order bytes.toList)))
      ∨ (bytes.size < layout.width
        ∧ decode ⟨layout, order⟩ bytes = .error (.tooShort layout.width bytes.size)) := by
  by_cases hsize : layout.width ≤ bytes.size
  · exact Or.inl ⟨hsize, decode_eq h order hsize⟩
  · have hshort : bytes.size < layout.width := Nat.not_le.mp hsize
    exact Or.inr ⟨hshort, if_pos hshort⟩

/-- Every entry is decoded from its own bytes. -/
theorem forall₂_decodesTo (hsize : layout.width ≤ bytes.size) :
    List.Forall₂ (Entry.DecodesTo order bytes) layout.entries
      (layout.entries.map (fieldIn order bytes.toList)) := by
  rw [List.forall₂_map_right_iff, List.forall₂_same]
  intro e he
  have hinside : e.stop ≤ bytes.size := (h.stop_le he).trans hsize
  exact ⟨rfl, readsAs_valueOf order (h.sound e he).count_pos hinside, rfl, rfl⟩

/-- Every byte of the record came into exactly one field. -/
theorem existsUnique_covers (bytes : List UInt8) {k : Nat} (hk : k < layout.width) :
    ∃! f, f ∈ layout.entries.map (fieldIn order bytes) ∧ f.Covers k := by
  obtain ⟨e, ⟨he, hek⟩, hunique⟩ := h.tiling hk
  refine ⟨fieldIn order bytes e, ⟨List.mem_map_of_mem he, hek⟩, ?_⟩
  rintro f ⟨hf, hfk⟩
  obtain ⟨d, hd, rfl⟩ := List.mem_map.mp hf
  rw [hunique d ⟨hd, hfk⟩]

/-- What is behind the record does not matter, nor whether anything is. -/
theorem decode_of_agree {bytes' : Array UInt8} (hsize : layout.width ≤ bytes.size)
    (hagree : ∀ k < layout.width, bytes'[k]? = bytes[k]?) :
    decode ⟨layout, order⟩ bytes' = decode ⟨layout, order⟩ bytes := by
  have hsize' : layout.width ≤ bytes'.size := by
    by_contra hshort
    -- the first byte that is missing is there in the other buffer
    have hmissing := hagree bytes'.size (Nat.not_le.mp hshort)
    rw [Array.getElem?_eq_none (Nat.le_refl _), Array.getElem?_eq_getElem (by omega)] at hmissing
    exact nomatch hmissing
  rw [decode_eq h order hsize, decode_eq h order hsize']
  refine congrArg Except.ok (List.map_congr_left fun e he => ?_)
  have hinside : e.start + e.size ≤ layout.width := h.stop_le he
  have hslice : slice bytes'.toList e.start e.size = slice bytes.toList e.start e.size := by
    refine slice_eq_slice_iff.mpr fun i hi => ?_
    rw [Array.getElem?_toList, Array.getElem?_toList]
    exact hagree (e.start + i) (by omega)
  rw [fieldIn, hslice]
  rfl

end Record

/-- **THE DECODING LAW**, for every layout that is built, either byte order and
    any buffer.  A buffer is decoded exactly if it holds a whole record, and is
    too short otherwise; on a machine no slice is out of bounds and no cursor
    reaches its end.  Every entry becomes one field, in their order, with the
    numbers that its bytes stand for; the ranges of the fields are consecutive
    and make up the record, and bytes behind it do not matter. -/
theorem decode_law {rows : List Table.Row} {policy : OffsetPolicy} {layout : Layout}
    (h : Layout.ofRows rows policy = .ok layout) (order : ByteOrder) (bytes : Array UInt8) :
    ((∃ fields, decode ⟨layout, order⟩ bytes = .ok fields) ↔ layout.width ≤ bytes.size)
      ∧ (∀ err, decode ⟨layout, order⟩ bytes = .error err
          ↔ bytes.size < layout.width ∧ err = .tooShort layout.width bytes.size)
      ∧ (∀ fields, decode ⟨layout, order⟩ bytes = .ok fields →
          List.Forall₂ (Entry.DecodesTo order bytes) layout.entries fields
            ∧ Partition 0 layout.width fields
            ∧ (∀ k < layout.width, ∃! f, f ∈ fields ∧ f.Covers k)
            ∧ ∀ bytes' : Array UInt8, (∀ k < layout.width, bytes'[k]? = bytes[k]?) →
                decode ⟨layout, order⟩ bytes' = .ok fields)
      ∧ ((∀ row ∈ rows, row.Fits) →
          ∃ p, Machine.build rows policy = .ok p ∧ p.layout = layout
            ∧ Machine.decode p order bytes
              = (decode ⟨layout, order⟩ bytes).mapError .refusal) := by
  have hpacked := Layout.packed_of_ofRows h
  have hmachine : (∀ row ∈ rows, row.Fits) →
      ∃ p, Machine.build rows policy = .ok p ∧ p.layout = layout
        ∧ Machine.decode p order bytes = (decode ⟨layout, order⟩ bytes).mapError .refusal := by
    intro hfits
    obtain ⟨p, hbuild, rfl, hexact⟩ := Machine.exists_build_of_ofRows h hfits
    exact ⟨p, hbuild, rfl, Machine.decode_eq hexact hpacked order bytes⟩
  rcases decode_cases hpacked order bytes with ⟨hsize, hdecode⟩ | ⟨hshort, hdecode⟩
  · refine ⟨⟨fun _ => hsize, fun _ => ⟨_, hdecode⟩⟩, fun err => ⟨?_, ?_⟩, ?_, hmachine⟩
    · exact fun herr => absurd (hdecode.symm.trans herr) Outcome.ok_ne_error
    · exact fun ⟨hshort, _⟩ => absurd hsize (Nat.not_le.mpr hshort)
    · intro fields hfields
      obtain rfl := Except.ok.inj (hdecode.symm.trans hfields)
      have hpartition := partition_fieldsIn order bytes.toList hpacked.contiguous hpacked.sound
      rw [Nat.zero_add] at hpartition
      refine ⟨forall₂_decodesTo hpacked order hsize, hpartition,
        fun k hk => existsUnique_covers hpacked order bytes.toList hk, fun bytes' hagree => ?_⟩
      rw [decode_of_agree hpacked order hsize hagree]
      exact hdecode
  · refine ⟨⟨?_, ?_⟩, fun err => ⟨?_, ?_⟩, ?_, hmachine⟩
    · exact fun ⟨fields, hfields⟩ => absurd (hdecode.symm.trans hfields) Outcome.error_ne_ok
    · exact fun hsize => absurd hshort (Nat.not_lt.mpr hsize)
    · exact fun herr => ⟨hshort, Except.error.inj (herr.symm.trans hdecode)⟩
    · rintro ⟨-, rfl⟩
      exact hdecode
    · exact fun fields hfields => absurd (hdecode.symm.trans hfields) Outcome.error_ne_ok

/-- A byte too few, and a byte to spare, for an array in front of a scalar. -/
theorem decode_law_short :
    Layout.ofRows
        [.field ⟨1, 0, .known .u16, "pair", 2, ""⟩, .comment 2 "body",
          .field ⟨3, 4, .known .u32, "crc", 1, ""⟩] .strict
      = .ok ⟨[.entry ⟨1, 0, 0, .u16, "pair", 2, ""⟩, .comment 2 "body",
          .entry ⟨3, 4, 4, .u32, "crc", 1, ""⟩]⟩
      ∧ decode ⟨⟨[.entry ⟨1, 0, 0, .u16, "pair", 2, ""⟩, .comment 2 "body",
            .entry ⟨3, 4, 4, .u32, "crc", 1, ""⟩]⟩, .big⟩ #[1, 2, 3, 4, 5, 6, 7]
        = .error (.tooShort 8 7)
      ∧ ∃ fields,
          decode ⟨⟨[.entry ⟨1, 0, 0, .u16, "pair", 2, ""⟩, .comment 2 "body",
              .entry ⟨3, 4, 4, .u32, "crc", 1, ""⟩]⟩, .big⟩ #[1, 2, 3, 4, 5, 6, 7, 8, 9] = .ok fields
            ∧ Partition 0 8 fields
            ∧ decode ⟨⟨[.entry ⟨1, 0, 0, .u16, "pair", 2, ""⟩, .comment 2 "body",
              .entry ⟨3, 4, 4, .u32, "crc", 1, ""⟩]⟩, .big⟩ #[1, 2, 3, 4, 5, 6, 7, 8] = .ok fields := by
  have h : Layout.ofRows
      [.field ⟨1, 0, .known .u16, "pair", 2, ""⟩, .comment 2 "body",
        .field ⟨3, 4, .known .u32, "crc", 1, ""⟩] .strict
      = .ok ⟨[.entry ⟨1, 0, 0, .u16, "pair", 2, ""⟩, .comment 2 "body",
          .entry ⟨3, 4, 4, .u32, "crc", 1, ""⟩]⟩ := by decide
  refine ⟨h, ((decode_law h .big _).2.1 _).mpr ⟨by decide, rfl⟩, ?_⟩
  have hlaw := decode_law h .big #[1, 2, 3, 4, 5, 6, 7, 8, 9]
  obtain ⟨fields, hfields⟩ := hlaw.1.mpr (by decide)
  obtain ⟨-, hpartition, -, hframe⟩ := hlaw.2.2.1 fields hfields
  exact ⟨fields, hfields, hpartition, hframe #[1, 2, 3, 4, 5, 6, 7, 8] (by decide)⟩

end Codec

end PackedRecord
