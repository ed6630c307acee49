import PackedRecord.Proofs.Record.Decoded

/-! # Isolation — fields keep out of each other's bytes

    A change of one byte of a record changes one field, the one that the byte
    belongs to; a change of one value changes bytes of its own field and no
    others.  Both come from `valueOf_slice_eq_iff`: an entry has the same value
    in two buffers exactly if these agree on every byte of its range.  Since
    the ranges tile the record, that settles each byte for one entry and for
    no other. -/

namespace PackedRecord

open Layout (Entry Packed)

/-- The byte is one of those that the entry takes in the record. -/
def Layout.Entry.Covers (e : Entry) (k : Nat) : Prop :=
  e.start ≤ k ∧ k < e.stop

/-- The lists differ in the value of one field, the one that the byte came
    into, and in nothing else. -/
def ChangedAt (k : Nat) (fields fields' : List RecordField) : Prop :=
  ∃ before f value after, fields = before ++ f :: after
    ∧ fields' = before ++ { f with value } :: after
    ∧ value ≠ f.value ∧ f.Covers k ∧ ∀ g ∈ before ++ after, ¬ g.Covers k

namespace Codec

/-! ## One entry -/

/-- Bytes of an entry's length are told apart by the value that they stand
    for. -/
theorem valueOf_inj (order : ByteOrder) {e : Entry} (hcount : 1 ≤ e.count)
    {chunk chunk' : List UInt8} (hlength : chunk.length = e.size)
    (hlength' : chunk'.length = e.size) (h : e.valueOf order chunk = e.valueOf order chunk') :
    chunk = chunk' := by
  have hchunk : entryBytes order e (e.valueOf order chunk) = .ok chunk :=
    (entryBytes_eq_ok_iff hcount).mpr ⟨hlength, rfl⟩
  have hchunk' : entryBytes order e (e.valueOf order chunk) = .ok chunk' :=
    (entryBytes_eq_ok_iff hcount).mpr ⟨hlength', h.symm⟩
  exact Except.ok.inj (hchunk.symm.trans hchunk')

/-- **A VALUE IS ITS BYTES**: two buffers give an entry the same value exactly
    if they agree on the bytes that it takes. -/
theorem valueOf_slice_eq_iff (order : ByteOrder) {bytes bytes' : Array UInt8} {e : Entry}
    (hcount : 1 ≤ e.count) (hinside : e.stop ≤ bytes.size) (hinside' : e.stop ≤ bytes'.size) :
    e.valueOf order (slice bytes.toList e.start e.size)
        = e.valueOf order (slice bytes'.toList e.start e.size)
      ↔ ∀ k, e.Covers k → bytes[k]? = bytes'[k]? := by
  have hstop : e.stop = e.start + e.size := rfl
  have hslice : slice bytes.toList e.start e.size = slice bytes'.toList e.start e.size
      ↔ ∀ k, e.Covers k → bytes[k]? = bytes'[k]? := by
    rw [slice_eq_slice_iff]
    simp only [Array.getElem?_toList]
    constructor
    · rintro h k ⟨hlow, hhigh⟩
      have := h (k - e.start) (by omega)
      rwa [Nat.add_sub_cancel' hlow] at this
    · exact fun h i hi => h (e.start + i) ⟨Nat.le_add_right _ _, by omega⟩
  rw [← hslice]
  exact ⟨valueOf_inj order hcount (length_slice hinside) (length_slice hinside'),
    congrArg (e.valueOf order)⟩

/-! ## One byte changed -/

section Record

variable {layout : Layout} (h : Packed layout) (order : ByteOrder)

include h

/-- The entry of a byte, between those that do not cover it. -/
theorem exists_covering {k : Nat} (hk : k < layout.width) :
    ∃ before e after, layout.entries = before ++ e :: after ∧ e.Covers k
      ∧ ∀ d ∈ before ++ after, ¬ d.Covers k := by
  obtain ⟨e, ⟨he, hek⟩, hunique⟩ := h.tiling hk
  obtain ⟨before, after, hsplit⟩ := List.append_of_mem he
  refine ⟨before, e, after, hsplit, hek, fun d hd hdk => ?_⟩
  -- no entry stands twice in the layout
  have hnodup : layout.entries.Nodup := List.Nodup.of_map _ h.distinct
  rw [hsplit, List.nodup_middle, List.nodup_cons] at hnodup
  have hmem : d ∈ layout.entries := by
    rw [hsplit]
    exact ((List.sublist_cons_self e after).append_left before).subset hd
  obtain rfl : d = e := hunique d ⟨hmem, hdk⟩
  exact hnodup.1 hd

/-- An entry has the same field in buffers that agree on its bytes, and
    otherwise another value. -/
theorem value_fieldIn_eq_iff {bytes bytes' : Array UInt8} (hsize : layout.width ≤ bytes.size)
    (hsize' : layout.width ≤ bytes'.size) {e : Entry} (he : e ∈ layout.entries) :
    (fieldIn order bytes.toList e).value = (fieldIn order bytes'.toList e).value
      ↔ ∀ k, e.Covers k → bytes[k]? = bytes'[k]? :=
  valueOf_slice_eq_iff order (h.sound e he).count_pos ((h.stop_le he).trans hsize)
    ((h.stop_le he).trans hsize')

/-- Buffers that differ in one byte of the record have fields that differ in
    the field of that byte. -/
theorem changedAt_fieldsIn {bytes bytes' : Array UInt8} {k : Nat}
    (hsize : layout.width ≤ bytes.size) (hsize' : layout.width ≤ bytes'.size)
    (hdiffer : ∀ j, bytes[j]? ≠ bytes'[j]? ↔ j = k) (hk : k < layout.width) :
    ChangedAt k (layout.entries.map (fieldIn order bytes.toList))
      (layout.entries.map (fieldIn order bytes'.toList)) := by
  obtain ⟨before, e, after, hsplit, hek, hothers⟩ := exists_covering h hk
  have hvalue := fun d (hd : d ∈ layout.entries) =>
    value_fieldIn_eq_iff h order hsize hsize' hd
  rw [hsplit] at hvalue ⊢
  -- an entry that the byte is not in sees no difference
  have hsame : ∀ d ∈ before ++ after,
      fieldIn order bytes'.toList d = fieldIn order bytes.toList d := by
    intro d hd
    have hmem : d ∈ before ++ e :: after :=
      ((List.sublist_cons_self e after).append_left before).subset hd
    have hdvalue := (hvalue d hmem).mpr fun j hj => by
      by_contra hne
      rw [(hdiffer j).mp hne] at hj
      exact hothers d hd hj
    rw [RecordField.mk.injEq]
    exact ⟨rfl, hdvalue.symm, rfl, rfl⟩
  have hchanged : (fieldIn order bytes'.toList e).value ≠ (fieldIn order bytes.toList e).value := by
    intro heq
    exact (hdiffer k).mpr rfl
      ((hvalue e (List.mem_append_right before List.mem_cons_self)).mp heq.symm k hek)
  refine ⟨before.map (fieldIn order bytes.toList), fieldIn order bytes.toList e,
    (fieldIn order bytes'.toList e).value, after.map (fieldIn order bytes.toList),
    by rw [List.map_append, List.map_cons], ?_, hchanged, hek, ?_⟩
  · rw [List.map_append, List.map_cons,
      List.map_congr_left fun d hd => hsame d (List.mem_append_left after hd),
      List.map_congr_left fun d hd => hsame d (List.mem_append_right before hd)]
    rfl
  · rw [← List.map_append]
    intro g hg
    obtain ⟨d, hd, rfl⟩ := List.mem_map.mp hg
    exact hothers d hd

/-! ## One value changed -/

/-- Values that are encoded are the same exactly where their bytes are. -/
theorem get?_eq_iff_of_encode {values values' : Values} {out out' : Array UInt8}
    (hout : encode ⟨layout, order⟩ values = .ok out)
    (hout' : encode ⟨layout, order⟩ values' = .ok out') {e : Entry} (he : e ∈ layout.entries) :
    values.get? e.name = values'.get? e.name ↔ ∀ k, e.Covers k → out[k]? = out'[k]? := by
  obtain ⟨hsize, -, hvalues⟩ := decode_of_encode h hout
  obtain ⟨hsize', -, hvalues'⟩ := decode_of_encode h hout'
  rw [hvalues e he, hvalues' e he, Option.some.injEq]
  exact value_fieldIn_eq_iff h order (Nat.le_of_eq hsize.symm) (Nat.le_of_eq hsize'.symm) he

/-- A byte that belongs to another entry, or to none, is written as before. -/
theorem encode_frame {values values' : Values} {out out' : Array UInt8} {e : Entry}
    (he : e ∈ layout.entries)
    (hagree : ∀ d ∈ layout.entries, d.name ≠ e.name →
      values.get? d.name = values'.get? d.name)
    (hout : encode ⟨layout, order⟩ values = .ok out)
    (hout' : encode ⟨layout, order⟩ values' = .ok out') {k : Nat} (hk : ¬ e.Covers k) :
    out[k]? = out'[k]? := by
  by_cases hinside : k < layout.width
  · obtain ⟨d, ⟨hd, hdk⟩, -⟩ := h.tiling hinside
    -- the entry of the byte is another one, and so has another name
    have hname : d.name ≠ e.name := by
      intro hname
      obtain rfl := List.inj_on_of_nodup_map h.distinct hd he hname
      exact hk hdk
    exact (get?_eq_iff_of_encode h order hout hout' hd).mp (hagree d hd hname) k hdk
  · obtain ⟨hsize, -⟩ := decode_of_encode h hout
    obtain ⟨hsize', -⟩ := decode_of_encode h hout'
    rw [Array.getElem?_eq_none (by omega), Array.getElem?_eq_none (by omega)]

end Record

/-- **FIELDS ARE ISOLATED**, in every layout that is built and in either byte
    order.  Two buffers that differ in one byte are decoded to the same fields
    if that byte lies behind the record, and otherwise to fields of which just
    the one that has the byte differs in its value.  Two encoded records whose
    values agree but for one field agree outside that field, and inside it
    exactly if its values agree. -/
theorem fields_isolated {rows : List Table.Row} {policy : OffsetPolicy} {layout : Layout}
    (h : Layout.ofRows rows policy = .ok layout) (order : ByteOrder) :
    (∀ (bytes bytes' : Array UInt8) (k : Nat),
        layout.width ≤ bytes.size → layout.width ≤ bytes'.size →
        (∀ j, bytes[j]? ≠ bytes'[j]? ↔ j = k) →
        ∃ fields fields', decode ⟨layout, order⟩ bytes = .ok fields
          ∧ decode ⟨layout, order⟩ bytes' = .ok fields'
          ∧ (layout.width ≤ k → fields' = fields)
          ∧ (k < layout.width → ChangedAt k fields fields'))
      ∧ ∀ (values values' : Values) (out out' : Array UInt8), ∀ e ∈ layout.entries,
          encode ⟨layout, order⟩ values = .ok out → encode ⟨layout, order⟩ values' = .ok out' →
          (∀ d ∈ layout.entries, d.name ≠ e.name → values.get? d.name = values'.get? d.name) →
          (∀ k, ¬ e.Covers k → out[k]? = out'[k]?)
            ∧ ((∃ k, e.Covers k ∧ out[k]? ≠ out'[k]?)
              ↔ values.get? e.name ≠ values'.get? e.name) := by
  have hpacked := Layout.packed_of_ofRows h
  constructor
  · intro bytes bytes' k hsize hsize' hdiffer
    refine ⟨_, _, decode_eq hpacked order hsize, decode_eq hpacked order hsize', ?_,
      changedAt_fieldsIn hpacked order hsize hsize' hdiffer⟩
    intro hk
    have hagree : ∀ j < layout.width, bytes'[j]? = bytes[j]? := by
      intro j hj
      by_contra hne
      have := (hdiffer j).mp (Ne.symm hne)
      omega
    have hdecode := decode_of_agree hpacked order hsize hagree
    rw [decode_eq hpacked order hsize, decode_eq hpacked order hsize'] at hdecode
    exact Except.ok.inj hdecode
  · intro values values' out out' e he hout hout' hagree
    refine ⟨fun k hk => encode_frame hpacked order he hagree hout hout' hk, ?_⟩
    rw [Ne, get?_eq_iff_of_encode hpacked order hout hout' he, not_forall]
    exact exists_congr fun k => Classical.not_imp.symm

/-- The last byte of a number behind a tag is changed, and then the number
    itself. -/
theorem fields_isolated_tagged :
    Layout.ofRows
        [.field ⟨1, 0, .known .u8, "tag", 1, ""⟩, .field ⟨2, 1, .known .u16, "crc", 1, ""⟩] .strict
      = .ok ⟨[.entry ⟨1, 0, 0, .u8, "tag", 1, ""⟩, .entry ⟨2, 1, 1, .u16, "crc", 1, ""⟩]⟩
      ∧ (∃ fields fields',
          decode ⟨⟨[.entry ⟨1, 0, 0, .u8, "tag", 1, ""⟩,
              .entry ⟨2, 1, 1, .u16, "crc", 1, ""⟩]⟩, .big⟩ #[7, 1, 2] = .ok fields
            ∧ decode ⟨⟨[.entry ⟨1, 0, 0, .u8, "tag", 1, ""⟩,
              .entry ⟨2, 1, 1, .u16, "crc", 1, ""⟩]⟩, .big⟩ #[7, 1, 3] = .ok fields'
            ∧ ChangedAt 2 fields fields')
      ∧ ∃ k, (Entry.mk 2 1 1 .u16 "crc" 1 "").Covers k
          ∧ (#[7, 1, 2] : Array UInt8)[k]? ≠ (#[7, 1, 3] : Array UInt8)[k]? := by
  have h : Layout.ofRows
      [.field ⟨1, 0, .known .u8, "tag", 1, ""⟩, .field ⟨2, 1, .known .u16, "crc", 1, ""⟩] .strict
      = .ok ⟨[.entry ⟨1, 0, 0, .u8, "tag", 1, ""⟩, .entry ⟨2, 1, 1, .u16, "crc", 1, ""⟩]⟩ := by
    decide
  obtain ⟨hbytes, hvalues⟩ := fields_isolated h .big
  have hdiffer : ∀ j, (#[7, 1, 2] : Array UInt8)[j]? ≠ (#[7, 1, 3] : Array UInt8)[j]? ↔ j = 2 := by
    intro j
    by_cases hj : j < 3
    · revert j
      decide
    · rw [Array.getElem?_eq_none (Nat.not_lt.mp hj), Array.getElem?_eq_none (Nat.not_lt.mp hj)]
      exact ⟨fun hne => absurd rfl hne, fun heq => absurd heq (by omega)⟩
  refine ⟨h, ?_, ?_⟩
  · obtain ⟨fields, fields', hfields, hfields', -, hchanged⟩ :=
      hbytes #[7, 1, 2] #[7, 1, 3] 2 (by decide) (by decide) hdiffer
    exact ⟨fields, fields', hfields, hfields', hchanged (by decide)⟩
  · have hagree : ∀ d ∈ ([⟨1, 0, 0, .u8, "tag", 1, ""⟩, ⟨2, 1, 1, .u16, "crc", 1, ""⟩] : List Entry),
        d.name ≠ "crc" →
        (Values.mk [("tag", .scalar ⟨.u8, 7, by decide⟩),
            ("crc", .scalar ⟨.u16, 258, by decide⟩)]).get? d.name
          = (Values.mk [("tag", .scalar ⟨.u8, 7, by decide⟩),
            ("crc", .scalar ⟨.u16, 259, by decide⟩)]).get? d.name := by
      intro d hd hname
      rcases List.mem_pair.mp hd with rfl | rfl
      · rfl
      · exact absurd rfl hname
    refine (hvalues _ _ #[7, 1, 2] #[7, 1, 3] ⟨2, 1, 1, .u16, "crc", 1, ""⟩ (by decide) rfl rfl
      hagree).2.mpr fun heq => ?_
    have hvalue : (258 : Nat) = 259 :=
      congrArg Scalar.value (Value.scalar.inj (Option.some.inj heq))
    exact absurd hvalue (by decide)

end Codec

end PackedRecord
