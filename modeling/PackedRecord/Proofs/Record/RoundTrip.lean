import PackedRecord.Proofs.Layout.Packed
import PackedRecord.Proofs.Record.Fields

/-! # Round trips — records to values and back

    Both directions of the codec are brought into a form without positions.
    Decoding gives every entry the value of its own slice (`decode_eq`);
    encoding puts the bytes of the entries one after another (`encode_eq`),
    because entries stand back to back and fill the record.  The record that
    is written to starts as zeros; the invariant of the writing loop is that
    what is behind the entries written so far is still zeros, exactly as many
    as the entries to come need. -/

namespace PackedRecord

open Layout (Entry BackToBack Packed bytesOfEntries)

/-! ## Named values -/

namespace Values

theorem get?_insert (values : Values) (name other : String) (value : Value) :
    (values.insert name value).get? other
      = if other = name then some value else values.get? other := by
  show List.lookup other ((name, value) :: values.pairs.filter (·.1 ≠ name)) = _
  rw [List.lookup_cons]
  by_cases h : other = name
  · rw [if_pos h, h, beq_self_eq_true]
  · rw [if_neg h, beq_eq_false_iff_ne.mpr h]
    -- the pairs that are dropped are of another name
    show List.lookup other (values.pairs.filter (·.1 ≠ name)) = List.lookup other values.pairs
    induction values.pairs with
    | nil => rfl
    | cons pair rest ih =>
        obtain ⟨n, v⟩ := pair
        by_cases hn : n = name
        · have hother : (other == n) = false := beq_eq_false_iff_ne.mpr (fun he => h (he.trans hn))
          rw [List.filter_cons_of_neg (by simp [hn]), ih, List.lookup_cons, hother]
        · rw [List.filter_cons_of_pos (by simp [hn]), List.lookup_cons, List.lookup_cons, ih]

/-- Fields of other names leave a value alone. -/
theorem get?_insertFields_of_not_mem {fields : List RecordField} {name : String} :
    ∀ {values : Values}, name ∉ fields.map (·.name) →
      (values.insertFields fields).get? name = values.get? name := by
  induction fields with
  | nil => exact fun _ => rfl
  | cons f rest ih =>
      intro values h
      rw [List.map_cons, List.mem_cons, not_or] at h
      show ((values.insert f.name f.value).insertFields rest).get? name = _
      rw [ih h.2, get?_insert, if_neg h.1]

/-- Fields of distinct names are all found again, whatever was there before. -/
theorem get?_insertFields_of_mem {fields : List RecordField} :
    ∀ {values : Values}, (fields.map (·.name)).Nodup → ∀ f ∈ fields,
      (values.insertFields fields).get? f.name = some f.value := by
  induction fields with
  | nil => exact fun _ f hf => nomatch hf
  | cons g rest ih =>
      intro values hnodup f hf
      rw [List.map_cons, List.nodup_cons] at hnodup
      show ((values.insert g.name g.value).insertFields rest).get? f.name = _
      rcases List.mem_cons.mp hf with rfl | hf
      · rw [get?_insertFields_of_not_mem hnodup.1, get?_insert, if_pos rfl]
      · exact ih hnodup.2 f hf

end Values

namespace Codec

/-! ## Decoding without positions -/

/-- Bytes inside a record are read as its slice. -/
theorem mapM_getElem?_range' {record : Array UInt8} {start w : Nat}
    (h : start + w ≤ record.size) :
    (List.range' start w).mapM (fun i => record[i]?) = some (slice record.toList start w) := by
  induction w generalizing start with
  | zero => rfl
  | succ w ih =>
      have hlt : start < record.size := by omega
      have hcons : slice record.toList start (w + 1)
          = record[start] :: slice record.toList (start + 1) w := by
        rw [slice, List.drop_eq_getElem_cons (by simpa using hlt)]
        rfl
      rw [List.range'_succ, List.mapM_cons, Array.getElem?_eq_getElem hlt, ih (by omega), hcons]
      rfl

theorem readScalar_eq {order : ByteOrder} {kind : Scalar.Kind} {record : Array UInt8}
    {start : Nat} (h : start + kind.byteWidth ≤ record.size) :
    readScalar order kind record start
      = .ok (.ofBytes order kind (slice record.toList start kind.byteWidth)) := by
  rw [readScalar, mapM_getElem?_range' h]

/-- An entry inside a record has the value of its slice. -/
theorem readEntry_eq {order : ByteOrder} {record : Array UInt8} {e : Entry}
    (hcount : 1 ≤ e.count) (h : e.stop ≤ record.size) :
    readEntry order record e = .ok (e.valueOf order (slice record.toList e.start e.size)) := by
  have hstop : e.stop = e.start + e.size := rfl
  by_cases harray : 1 < e.count
  · rw [Layout.Entry.valueOf_eq_map_slice harray]
    simp only [readEntry, Layout.Entry.shape_of_isArray harray]
    -- element `i` ends before element `count` would start
    have helement : ∀ i ∈ List.range e.count,
        (readScalar order e.kind record (e.start + i * e.kind.byteWidth)).map Value.scalar
          = pure (Value.scalar (.ofBytes order e.kind
              (slice (slice record.toList e.start e.size) (i * e.kind.byteWidth)
                e.kind.byteWidth))) := by
      intro i hi
      have hinside := e.element_le (List.mem_range.mp hi)
      rw [readScalar_eq (by omega), slice_slice hinside]
      rfl
    rw [Outcome.mapM_eq_pure helement]
    rfl
  · have hwidth := e.size_of_not_isArray hcount harray
    rw [Layout.Entry.valueOf_of_not_isArray harray, hwidth]
    simp only [readEntry, Layout.Entry.shape_of_not_isArray harray]
    rw [readScalar_eq (by rw [← hwidth]; exact h)]
    rfl

/-- The field that an entry has in the given bytes. -/
def fieldIn (order : ByteOrder) (bytes : List UInt8) (e : Entry) : RecordField where
  name := e.name
  value := e.valueOf order (slice bytes e.start e.size)
  start := e.start
  stop := e.stop

/-- Enough bytes are decoded entry by entry. -/
theorem decode_eq {layout : Layout} (h : Packed layout) (order : ByteOrder)
    {bytes : Array UInt8} (hsize : layout.width ≤ bytes.size) :
    decode ⟨layout, order⟩ bytes = .ok (layout.entries.map (fieldIn order bytes.toList)) := by
  have hentry : ∀ e ∈ layout.entries,
      (do
        let value ← readEntry order (bytes.extract 0 layout.width) e
        return { name := e.name, value, start := e.start, stop := e.stop })
        = (pure (fieldIn order bytes.toList e) : Except CodecError RecordField) := by
    intro e he
    have hstop := h.stop_le he
    -- the decoder first cuts off what lies behind the record
    have hrecord : (bytes.extract 0 layout.width).size = layout.width := by
      rw [Array.size_extract]
      omega
    have hlist : (bytes.extract 0 layout.width).toList = bytes.toList.take layout.width :=
      toList_extract_eq_slice bytes 0 _
    rw [readEntry_eq (h.sound e he).count_pos (by rw [hrecord]; exact hstop), hlist,
      slice_take hstop]
    rfl
  show (if bytes.size < layout.width then _ else _) = _
  rw [if_neg (by omega)]
  exact Outcome.mapM_eq_pure hentry

/-! ## Encoding without positions -/

/-- The bytes of an entry, given all values. -/
def entryChunk (order : ByteOrder) (values : Values) (e : Entry) :
    Except CodecError (List UInt8) :=
  match values.get? e.name with
  | none => .error (.missingField e.name)
  | some value => entryBytes order e value

/-- An entry is encoded as the bytes that its value is read from. -/
theorem entryChunk_eq_ok_iff {order : ByteOrder} {values : Values} {e : Entry}
    (hcount : 1 ≤ e.count) {chunk : List UInt8} :
    entryChunk order values e = .ok chunk
      ↔ chunk.length = e.size ∧ values.get? e.name = some (e.valueOf order chunk) := by
  unfold entryChunk
  cases hget : values.get? e.name with
  | none => exact ⟨fun h => (nomatch h), fun h => (nomatch h.2)⟩
  | some value =>
      show entryBytes order e value = .ok chunk ↔ _
      rw [entryBytes_eq_ok_iff hcount, Option.some.injEq]
      exact ⟨fun ⟨h1, h2⟩ => ⟨h1, h2.symm⟩, fun ⟨h1, h2⟩ => ⟨h1, h2.symm⟩⟩

/-- Bytes written over a gap of their length. -/
theorem toList_overlay {chunk after : List UInt8} :
    ∀ {record : Array UInt8} {before gap : List UInt8},
      record.toList = before ++ gap ++ after → gap.length = chunk.length →
      (overlay record before.length chunk).toList = before ++ chunk ++ after := by
  induction chunk with
  | nil =>
      intro record before gap hrecord hgap
      obtain rfl := List.length_eq_zero_iff.mp hgap
      exact hrecord
  | cons b chunk ih =>
      intro record before gap hrecord hgap
      cases gap with
      | nil => exact nomatch hgap
      | cons g gap =>
          -- one byte of the gap is written, and belongs to what stands before the rest
          have hset : (record.setIfInBounds before.length b).toList
              = (before ++ [b]) ++ gap ++ after := by
            rw [Array.toList_setIfInBounds, hrecord]
            simp
          have hlength : (before ++ [b]).length = before.length + 1 := by simp
          show (overlay (record.setIfInBounds before.length b) (before.length + 1) chunk).toList = _
          rw [← hlength, ih hset (Nat.succ.inj hgap)]
          simp

/-- Writing the bytes of an entry into the zeros kept for it. -/
theorem writeBytes_eq {record : Array UInt8} {before chunk after : List UInt8}
    (hrecord : record.toList = before ++ List.replicate chunk.length 0 ++ after) :
    writeBytes record before.length chunk = .ok (before ++ chunk ++ after).toArray := by
  have hsize : record.size = before.length + chunk.length + after.length := by
    rw [← Array.length_toList, hrecord, List.length_append, List.length_append,
      List.length_replicate]
  rw [writeBytes, if_pos (by omega)]
  refine congrArg Except.ok (Array.toList_inj.mp ?_)
  rw [toList_overlay hrecord List.length_replicate]

/-- To write an entry is to write its chunk at its start. -/
theorem writeEntry_eq (order : ByteOrder) (values : Values) (record : Array UInt8) (e : Entry) :
    writeEntry order values record e = entryChunk order values e >>= writeBytes record e.start := by
  unfold writeEntry entryChunk
  cases values.get? e.name <;> rfl

/-- The writing loop behind the bytes of the entries written so far: what it
    adds are the bytes of the entries to come. -/
theorem foldlM_writeEntry {order : ByteOrder} {values : Values} {entries : List Entry} :
    ∀ (record : Array UInt8) (before : List UInt8), (∀ e ∈ entries, 1 ≤ e.count) →
      BackToBack before.length entries →
      record.toList = before ++ List.replicate (bytesOfEntries entries) 0 →
      entries.foldlM (writeEntry order values) record
        = (entries.mapM (entryChunk order values)).map
            fun chunks => (before ++ chunks.flatten).toArray := by
  induction entries with
  | nil =>
      intro record before _ _ hrecord
      show Except.ok record = Except.ok (before ++ []).toArray
      refine congrArg Except.ok (Array.toList_inj.mp ?_)
      exact hrecord
  | cons e rest ih =>
      intro record before hcounts hpacked hrecord
      obtain ⟨hstart, hrest⟩ := (Layout.backToBack_cons before.length e rest).mp hpacked
      rw [List.foldlM_cons, List.mapM_cons, writeEntry_eq]
      cases hchunk : entryChunk order values e with
      | error err => rfl
      | ok chunk =>
          have hlength : chunk.length = e.size :=
            ((entryChunk_eq_ok_iff (hcounts e List.mem_cons_self)).mp hchunk).1
          -- the zeros ahead are those of `e`, and then those of the entries behind it
          have hzeros : record.toList = before ++ List.replicate chunk.length 0
              ++ List.replicate (bytesOfEntries rest) 0 := by
            rw [hrecord, Layout.bytesOfEntries_cons, hlength, List.append_assoc,
              List.replicate_append_replicate]
          have hnext : BackToBack (before ++ chunk).length rest := by
            have hstop : e.stop = e.start + e.size := rfl
            rw [List.length_append, hlength, ← hstart, ← hstop]
            exact hrest
          show (writeBytes record e.start chunk >>= fun next =>
            rest.foldlM (writeEntry order values) next) = _
          rw [hstart, writeBytes_eq hzeros]
          show rest.foldlM (writeEntry order values) _ = _
          rw [ih _ _ (fun d hd => hcounts d (List.mem_cons_of_mem e hd)) hnext rfl]
          cases rest.mapM (entryChunk order values) with
          | error err => rfl
          | ok chunks =>
              exact congrArg (fun bytes => Except.ok bytes.toArray)
                (List.append_assoc before chunk chunks.flatten)

/-- Encoding puts the bytes of the entries one after another. -/
theorem encode_eq {layout : Layout} (h : Packed layout) (order : ByteOrder) (values : Values) :
    encode ⟨layout, order⟩ values
      = (layout.entries.mapM (entryChunk order values)).map fun chunks => chunks.flatten.toArray := by
  have hcounts : ∀ e ∈ layout.entries, 1 ≤ e.count := fun e he => (h.sound e he).count_pos
  exact foldlM_writeEntry _ [] hcounts h.contiguous Array.toList_replicate

/-! ## The two round trips -/

/-- The slices of entries that stand back to back, one after another, are the
    bytes between their ends. -/
theorem flatten_slices {entries : List Entry} {bytes : List UInt8} :
    ∀ {start : Nat}, BackToBack start entries → start + bytesOfEntries entries ≤ bytes.length →
      (entries.map fun e => slice bytes e.start e.size).flatten
        = slice bytes start (bytesOfEntries entries) := by
  induction entries with
  | nil => exact fun _ _ => rfl
  | cons e rest ih =>
      intro start h hlength
      obtain ⟨hstart, hrest⟩ := (Layout.backToBack_cons start e rest).mp h
      have hstop : e.stop = start + e.size := by
        rw [← hstart]
        rfl
      rw [Layout.bytesOfEntries_cons] at hlength ⊢
      rw [hstop] at hrest
      rw [List.map_cons, List.flatten_cons, ih hrest (by omega), hstart, slice, slice, slice,
        List.take_add, List.drop_drop]

/-- The slices of all entries, one after another, are the record at the start
    of the bytes. -/
theorem flatten_slices_entries {layout : Layout} (h : Packed layout) {bytes : Array UInt8}
    (hsize : layout.width ≤ bytes.size) :
    (layout.entries.map fun e => slice bytes.toList e.start e.size).flatten
      = (bytes.extract 0 layout.width).toList := by
  have hwidth : 0 + bytesOfEntries layout.entries ≤ bytes.toList.length := by
    rw [Nat.zero_add]
    exact hsize
  rw [flatten_slices h.contiguous hwidth, toList_extract_eq_slice]
  rfl

/-- The bytes of the entries are found at the entries' positions. -/
theorem entryChunk_eq_slice {order : ByteOrder} {values : Values} {entries : List Entry}
    {chunks : List (List UInt8)} :
    ∀ before : List UInt8, (∀ e ∈ entries, 1 ≤ e.count) → BackToBack before.length entries →
      List.Forall₂ (fun e chunk => entryChunk order values e = .ok chunk) entries chunks →
      ∀ e ∈ entries,
        entryChunk order values e = .ok (slice (before ++ chunks.flatten) e.start e.size) := by
  induction chunks generalizing entries with
  | nil =>
      intro before _ _ h e he
      rw [List.forall₂_nil_right_iff.mp h] at he
      exact nomatch he
  | cons chunk chunks ih =>
      intro before hcounts hpacked h
      cases h with
      | @cons e _ rest _ hchunk hchunks =>
          obtain ⟨hstart, hrest⟩ := (Layout.backToBack_cons before.length e rest).mp hpacked
          have hlength : chunk.length = e.size :=
            ((entryChunk_eq_ok_iff (hcounts e List.mem_cons_self)).mp hchunk).1
          have hnext : BackToBack (before ++ chunk).length rest := by
            have hstop : e.stop = e.start + e.size := rfl
            rw [List.length_append, hlength, ← hstart, ← hstop]
            exact hrest
          -- `e` has its slice here; for those behind it, `chunk` belongs to what stands before
          rw [List.flatten_cons, ← List.append_assoc]
          intro d hd
          rcases List.mem_cons.mp hd with rfl | hd
          · rw [slice_append hstart.symm hlength]
            exact hchunk
          · exact ih _ (fun d hd => hcounts d (List.mem_cons_of_mem e hd)) hnext hchunks d hd

theorem length_flatten_chunks {order : ByteOrder} {values : Values} {entries : List Entry}
    {chunks : List (List UInt8)} (hcounts : ∀ e ∈ entries, 1 ≤ e.count)
    (h : List.Forall₂ (fun e chunk => entryChunk order values e = .ok chunk) entries chunks) :
    chunks.flatten.length = bytesOfEntries entries := by
  induction h with
  | nil => rfl
  | @cons e chunk rest chunks hchunk _ ih =>
      have hlength : chunk.length = e.size :=
        ((entryChunk_eq_ok_iff (hcounts e List.mem_cons_self)).mp hchunk).1
      rw [List.flatten_cons, List.length_append, hlength, Layout.bytesOfEntries_cons,
        ih (fun d hd => hcounts d (List.mem_cons_of_mem e hd))]

/-- Values that were decoded are encoded to the bytes that they came from,
    whatever other values are around. -/
theorem encode_insertFields {layout : Layout} (h : Packed layout) (order : ByteOrder)
    {bytes : Array UInt8} (hsize : layout.width ≤ bytes.size) (values : Values) :
    encode ⟨layout, order⟩
        (values.insertFields (layout.entries.map (fieldIn order bytes.toList)))
      = .ok (bytes.extract 0 layout.width) := by
  have hnames : ((layout.entries.map (fieldIn order bytes.toList)).map (·.name)).Nodup := by
    rw [List.map_map]
    exact h.distinct
  have hlength : layout.width ≤ bytes.toList.length := hsize
  -- names are distinct, so that every entry finds the value that was decoded for it
  have hchunk : ∀ e ∈ layout.entries,
      entryChunk order (values.insertFields (layout.entries.map (fieldIn order bytes.toList))) e
        = pure (slice bytes.toList e.start e.size) := by
    intro e he
    have hinside : e.start + e.size ≤ layout.width := h.stop_le he
    refine (entryChunk_eq_ok_iff (h.sound e he).count_pos).mpr ⟨length_slice (by omega), ?_⟩
    exact Values.get?_insertFields_of_mem hnames (fieldIn order bytes.toList e)
      (List.mem_map_of_mem he)
  rw [encode_eq h, Outcome.mapM_eq_pure hchunk]
  refine congrArg Except.ok (Array.toList_inj.mp ?_)
  exact flatten_slices_entries h hsize

/-- Bytes that were encoded are decoded to the values that they came from. -/
theorem decode_of_encode {layout : Layout} (h : Packed layout) {order : ByteOrder}
    {values : Values} {out : Array UInt8} (hout : encode ⟨layout, order⟩ values = .ok out) :
    out.size = layout.width
      ∧ decode ⟨layout, order⟩ out = .ok (layout.entries.map (fieldIn order out.toList))
      ∧ ∀ e ∈ layout.entries, values.get? e.name = some (fieldIn order out.toList e).value := by
  have hcounts : ∀ e ∈ layout.entries, 1 ≤ e.count := fun e he => (h.sound e he).count_pos
  rw [encode_eq h] at hout
  cases hchunks : layout.entries.mapM (entryChunk order values) with
  | error err =>
      rw [hchunks] at hout
      exact nomatch hout
  | ok chunks =>
      rw [hchunks] at hout
      obtain rfl := Except.ok.inj hout
      have hall := Outcome.mapM_eq_ok_iff.mp hchunks
      have hsize : chunks.flatten.toArray.size = layout.width :=
        length_flatten_chunks hcounts hall
      refine ⟨hsize, decode_eq h order (Nat.le_of_eq hsize.symm), ?_⟩
      intro e he
      have hchunk := entryChunk_eq_slice [] hcounts h.contiguous hall e he
      exact ((entryChunk_eq_ok_iff (hcounts e he)).mp hchunk).2

/-- Encoding looks at the values of its entries and at nothing else. -/
theorem encode_congr {layout : Layout} (h : Packed layout) (order : ByteOrder)
    {values values' : Values}
    (hagree : ∀ e ∈ layout.entries, values.get? e.name = values'.get? e.name) :
    encode ⟨layout, order⟩ values = encode ⟨layout, order⟩ values' := by
  have hchunk : ∀ e ∈ layout.entries, entryChunk order values e = entryChunk order values' e := by
    intro e he
    unfold entryChunk
    rw [hagree e he]
  rw [encode_eq h, encode_eq h, Outcome.mapM_congr hchunk]

/-- **THE CODEC ROUND TRIP**, for every layout that is built and either byte
    order.  Decoded values encode to the bytes of the record, whatever other
    values are around; encoded values decode to themselves, entry by entry,
    each with its range; and values under other names never matter. -/
theorem round_trip {rows : List Table.Row} {policy : OffsetPolicy} {layout : Layout}
    (h : Layout.ofRows rows policy = .ok layout) (order : ByteOrder) :
    (∀ (bytes : Array UInt8) (values : Values), layout.width ≤ bytes.size →
        ∃ fields, decode ⟨layout, order⟩ bytes = .ok fields
          ∧ encode ⟨layout, order⟩ (values.insertFields fields)
            = .ok (bytes.extract 0 layout.width))
      ∧ (∀ (values : Values) (out : Array UInt8), encode ⟨layout, order⟩ values = .ok out →
          ∃ fields, decode ⟨layout, order⟩ out = .ok fields
            ∧ List.Forall₂ (fun (e : Entry) (f : RecordField) =>
                f.name = e.name ∧ values.get? e.name = some f.value
                  ∧ f.start = e.start ∧ f.stop = e.stop) layout.entries fields)
      ∧ ∀ values values' : Values,
          (∀ e ∈ layout.entries, values.get? e.name = values'.get? e.name) →
          encode ⟨layout, order⟩ values = encode ⟨layout, order⟩ values' := by
  have hpacked := Layout.packed_of_ofRows h
  refine ⟨?_, ?_, ?_⟩
  · intro bytes values hsize
    exact ⟨_, decode_eq hpacked order hsize, encode_insertFields hpacked order hsize values⟩
  · intro values out hout
    obtain ⟨-, hdecode, hvalues⟩ := decode_of_encode hpacked hout
    refine ⟨_, hdecode, ?_⟩
    rw [List.forall₂_map_right_iff, List.forall₂_same]
    exact fun e he => ⟨rfl, hvalues e he, rfl, rfl⟩
  · exact fun values values' hagree => encode_congr hpacked order hagree

/-- A comment, a gap and an array between two scalars, with a byte to spare. -/
theorem round_trip_mixed :
    Layout.ofRows
        [.field ⟨1, 0, .known .u16, "magic", 1, ""⟩, .comment 2 "body",
          .field ⟨3, 8, .known .u32, "pair", 2, ""⟩, .blank,
          .field ⟨5, 16, .known .u8, "tag", 1, ""⟩] .warn
      = .ok ⟨[.entry ⟨1, 0, 0, .u16, "magic", 1, ""⟩, .comment 2 "body",
          .entry ⟨3, 8, 2, .u32, "pair", 2, ""⟩, .entry ⟨5, 16, 10, .u8, "tag", 1, ""⟩]⟩
      ∧ ∃ fields,
          decode ⟨⟨[.entry ⟨1, 0, 0, .u16, "magic", 1, ""⟩, .comment 2 "body",
              .entry ⟨3, 8, 2, .u32, "pair", 2, ""⟩, .entry ⟨5, 16, 10, .u8, "tag", 1, ""⟩]⟩, .big⟩
            #[0x53, 0xEF, 1, 2, 3, 4, 5, 6, 7, 8, 255, 9] = .ok fields
          ∧ encode ⟨⟨[.entry ⟨1, 0, 0, .u16, "magic", 1, ""⟩, .comment 2 "body",
              .entry ⟨3, 8, 2, .u32, "pair", 2, ""⟩, .entry ⟨5, 16, 10, .u8, "tag", 1, ""⟩]⟩, .big⟩
            (Values.empty.insertFields fields) = .ok #[0x53, 0xEF, 1, 2, 3, 4, 5, 6, 7, 8, 255] :=
  have h := by decide
  ⟨h, (round_trip h .big).1 #[0x53, 0xEF, 1, 2, 3, 4, 5, 6, 7, 8, 255, 9] .empty (by decide)⟩

end Codec

end PackedRecord
