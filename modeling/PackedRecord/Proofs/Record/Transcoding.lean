import PackedRecord.Proofs.Record.RoundTrip

/-! # Transcoding — records from one layout to another

    Decoding with one codec and encoding with another moves the bytes of each
    entry to where the other layout has them, and turns each element round if
    the byte orders differ.  The elements of an array keep their order.

    The heart is `valueOf_reordered`: an entry's bytes, reordered element by
    element, stand in the other byte order for the value that they stood for.
    With `entryBytes_eq_ok_iff` this fixes what is encoded; where it is put
    comes from the round trip. -/

namespace PackedRecord

open Layout (Entry Packed)

/-! ## Reordering bytes -/

namespace ByteOrder

/-- Bytes of a number in one order as its bytes in another. -/
def reorder (order order' : ByteOrder) (bytes : List UInt8) : List UInt8 :=
  order'.arrange (order.arrange bytes)

/-- Where a byte of a number of `w` bytes stands in the first order, if it
    stands at `t` in the second. -/
def origin (order order' : ByteOrder) (w t : Nat) : Nat :=
  if order = order' then t else w - 1 - t

/-- Bytes are turned round exactly if the orders differ. -/
theorem reorder_eq (order order' : ByteOrder) (bytes : List UInt8) :
    order.reorder order' bytes = if order = order' then bytes else bytes.reverse := by
  cases order with
  | little =>
      cases order' with
      | little => rfl
      | big => rfl
  | big =>
      cases order' with
      | little => rfl
      | big => exact List.reverse_reverse bytes

theorem length_reorder (order order' : ByteOrder) (bytes : List UInt8) :
    (order.reorder order' bytes).length = bytes.length := by
  rw [reorder, length_arrange, length_arrange]

theorem origin_lt (order order' : ByteOrder) {w t : Nat} (h : t < w) :
    order.origin order' w t < w := by
  rw [origin]
  split
  · exact h
  · omega

theorem getElem?_reorder (order order' : ByteOrder) {bytes : List UInt8} {t : Nat}
    (h : t < bytes.length) :
    (order.reorder order' bytes)[t]? = bytes[order.origin order' bytes.length t]? := by
  rw [reorder_eq, origin]
  by_cases horder : order = order'
  · rw [if_pos horder, if_pos horder]
  · rw [if_neg horder, if_neg horder, List.getElem?_reverse h]

/-- Two steps that both switch the order, or neither of which does, give the
    bytes back. -/
theorem reorder_reorder {order order' back back' : ByteOrder}
    (h : back = back' ↔ order = order') (bytes : List UInt8) :
    back.reorder back' (order.reorder order' bytes) = bytes := by
  rw [reorder_eq, reorder_eq]
  by_cases horder : order = order'
  · rw [if_pos horder, if_pos (h.mpr horder)]
  · rw [if_neg horder, if_neg (fun hback => horder (h.mp hback)), List.reverse_reverse]

end ByteOrder

/-- Reordered bytes stand for the same scalar. -/
theorem Scalar.ofBytes_reorder (order order' : ByteOrder) (kind : Kind) (bytes : List UInt8) :
    ofBytes order' kind (order.reorder order' bytes) = ofBytes order kind bytes := by
  show ofNat kind (valueOf (order'.arrange (order'.arrange (order.arrange bytes)))) = _
  rw [ByteOrder.arrange_arrange]
  rfl

/-- The first `n` runs of `w` bytes, each of them reordered. -/
def reordered (order order' : ByteOrder) (w n : Nat) (bytes : List UInt8) : List UInt8 :=
  ((elements w n bytes).map (order.reorder order')).flatten

section Reordered

variable {w n : Nat} {bytes : List UInt8} (order order' : ByteOrder)

/-- No run changes its length. -/
theorem length_of_mem_map_reorder (h : bytes.length = w * n) :
    ∀ chunk ∈ (elements w n bytes).map (order.reorder order'), chunk.length = w := by
  intro chunk hchunk
  obtain ⟨element, helement, rfl⟩ := List.mem_map.mp hchunk
  rw [ByteOrder.length_reorder]
  exact length_of_mem_elements h element helement

/-- Every run stays where it is. -/
theorem elements_reordered (h : bytes.length = w * n) :
    elements w n (reordered order order' w n bytes)
      = (elements w n bytes).map (order.reorder order') := by
  have hcut := elements_flatten (length_of_mem_map_reorder order order' h)
  rw [List.length_map, length_elements] at hcut
  exact hcut

theorem length_reordered (h : bytes.length = w * n) :
    (reordered order order' w n bytes).length = w * n := by
  rw [reordered, length_flatten_of_forall (length_of_mem_map_reorder order order' h),
    List.length_map, length_elements]

/-- Byte `t` of element `j` comes from the same element. -/
theorem getElem?_reordered (h : bytes.length = w * n) {j t : Nat} (hj : j < n) (ht : t < w) :
    (reordered order order' w n bytes)[j * w + t]?
      = bytes[j * w + order.origin order' w t]? := by
  have hinside : j * w + w ≤ bytes.length := by
    rw [h, ← Nat.succ_mul, Nat.mul_comm w n]
    exact Nat.mul_le_mul_right w hj
  have helement : slice (reordered order order' w n bytes) (j * w) w
      = order.reorder order' (slice bytes (j * w) w) := by
    have hget := getElem?_elements hj (w := w) (reordered order order' w n bytes)
    rw [elements_reordered order order' h, List.getElem?_map, getElem?_elements hj] at hget
    exact (Option.some.inj hget).symm
  have hlength : (slice bytes (j * w) w).length = w := length_slice hinside
  rw [← getElem?_slice ht, helement,
    ByteOrder.getElem?_reorder order order' (by rw [hlength]; exact ht), hlength,
    getElem?_slice (order.origin_lt order' ht)]

/-- To reorder there and back is to leave the bytes as they were. -/
theorem reordered_reordered {back back' : ByteOrder} (hback : back = back' ↔ order = order')
    (h : bytes.length = w * n) :
    reordered back back' w n (reordered order order' w n bytes) = bytes := by
  rw [reordered, elements_reordered order order' h, List.map_map]
  have hself : (elements w n bytes).map (back.reorder back' ∘ order.reorder order')
      = elements w n bytes :=
    List.map_id'' (ByteOrder.reorder_reorder hback) _
  rw [hself, flatten_elements h]

end Reordered

/-- **REORDERED BYTES STAND FOR THE SAME VALUE**: an entry's bytes, reordered
    element by element, are read in the other order as they were read before. -/
theorem Layout.Entry.valueOf_reordered (order order' : ByteOrder) {e : Entry}
    (hcount : 1 ≤ e.count) {bytes : List UInt8} (h : bytes.length = e.size) :
    e.valueOf order' (reordered order order' e.kind.byteWidth e.count bytes)
      = e.valueOf order bytes := by
  by_cases harray : 1 < e.count
  · rw [valueOf_of_isArray harray, valueOf_of_isArray harray, elements_reordered order order' h,
      List.map_map]
    refine congrArg Value.array (List.map_congr_left fun element _ => ?_)
    exact congrArg Value.scalar (Scalar.ofBytes_reorder order order' e.kind element)
  · -- there is one element, and it is all of the bytes
    have hone : e.count = 1 := by omega
    have htake : bytes.take e.kind.byteWidth = bytes := by
      refine List.take_of_length_le ?_
      rw [h, e.size_of_not_isArray hcount harray]
    have hall : reordered order order' e.kind.byteWidth e.count bytes
        = order.reorder order' bytes := by
      rw [hone]
      show order.reorder order' (bytes.take e.kind.byteWidth) ++ [] = _
      rw [List.append_nil, htake]
    rw [valueOf_of_not_isArray harray, valueOf_of_not_isArray harray, hall, Scalar.ofBytes_reorder]

/-! ## From layout to layout -/

/-- Every entry of the second layout has one of the same name and shape in the
    first. -/
def Layout.Covers (layout layout' : Layout) : Prop :=
  ∀ e ∈ layout'.entries, ∃ d ∈ layout.entries,
    d.name = e.name ∧ d.kind = e.kind ∧ d.count = e.count

/-- In a layout that covers another, what has an entry's name has its shape. -/
theorem Layout.Covers.same_shape {layout layout' : Layout} (h : Packed layout)
    (hcovers : layout.Covers layout') {d e : Entry} (hd : d ∈ layout.entries)
    (he : e ∈ layout'.entries) (hname : d.name = e.name) :
    d.kind = e.kind ∧ d.count = e.count := by
  obtain ⟨d', hd', hname', hshape⟩ := hcovers e he
  have hsame : d' = d := List.inj_on_of_nodup_map h.distinct hd' hd (hname'.trans hname.symm)
  rw [← hsame]
  exact hshape

namespace Codec

/-- Bytes that one codec decodes, encoded by another. -/
def transcode (source target : Codec) (bytes : Array UInt8) :
    Except CodecError (Array UInt8) := do
  let fields ← source.decode bytes
  target.encode (Values.empty.insertFields fields)

/-- Entries of the same shape have the same values. -/
theorem valueOf_congr (order : ByteOrder) {d e : Entry} (hkind : d.kind = e.kind)
    (hcount : d.count = e.count) (chunk : List UInt8) :
    d.valueOf order chunk = e.valueOf order chunk := by
  unfold Entry.valueOf Entry.shape Entry.isArray
  rw [hkind, hcount]

section Transcode

variable {layout layout' : Layout} (h : Packed layout) (h' : Packed layout')
  (hcovers : layout.Covers layout') (order order' : ByteOrder) {bytes : Array UInt8}

include h h' hcovers in
/-- What an entry is encoded as, if its value was decoded elsewhere. -/
theorem entryChunk_insertFields (hsize : layout.width ≤ bytes.size) {d e : Entry}
    (hd : d ∈ layout.entries) (he : e ∈ layout'.entries) (hname : d.name = e.name) :
    entryChunk order' (Values.empty.insertFields
        (layout.entries.map (fieldIn order bytes.toList))) e
      = .ok (reordered order order' e.kind.byteWidth e.count
          (slice bytes.toList d.start d.size)) := by
  obtain ⟨hkind, hcount⟩ := hcovers.same_shape h hd he hname
  have hnames : ((layout.entries.map (fieldIn order bytes.toList)).map (·.name)).Nodup := by
    rw [List.map_map]
    exact h.distinct
  have hfound : (Values.empty.insertFields
      (layout.entries.map (fieldIn order bytes.toList))).get? d.name
        = some (fieldIn order bytes.toList d).value :=
    Values.get?_insertFields_of_mem hnames _ (List.mem_map_of_mem hd)
  have hsame : d.size = e.size := by
    rw [Entry.size, Entry.size, hkind, hcount]
  have hinside : d.start + d.size ≤ layout.width := h.stop_le hd
  have hlength : (slice bytes.toList d.start d.size).length = e.size := by
    rw [← hsame]
    refine length_slice ?_
    rw [Array.length_toList]
    omega
  refine (entryChunk_eq_ok_iff (h'.sound e he).count_pos).mpr
    ⟨length_reordered order order' hlength, ?_⟩
  rw [Entry.valueOf_reordered order order' (h'.sound e he).count_pos hlength, ← hname,
    ← valueOf_congr order hkind hcount]
  exact hfound

include h h' hcovers in
/-- **TRANSCODING MOVES SLICES**: it succeeds, and the slice of an entry is that
    of the entry of its name, reordered element by element. -/
theorem exists_transcode (hsize : layout.width ≤ bytes.size) :
    ∃ out, transcode ⟨layout, order⟩ ⟨layout', order'⟩ bytes = .ok out
      ∧ out.size = layout'.width
      ∧ ∀ e ∈ layout'.entries, ∀ d ∈ layout.entries, d.name = e.name →
          slice out.toList e.start e.size
            = reordered order order' e.kind.byteWidth e.count
                (slice bytes.toList d.start d.size) := by
  have hchunk : ∀ e ∈ layout'.entries, ∃ chunk, entryChunk order' (Values.empty.insertFields
      (layout.entries.map (fieldIn order bytes.toList))) e = .ok chunk := by
    intro e he
    obtain ⟨d, hd, hname, -⟩ := hcovers e he
    exact ⟨_, entryChunk_insertFields h h' hcovers order order' hsize hd he hname⟩
  obtain ⟨chunks, hchunks⟩ := Outcome.exists_mapM_eq_ok hchunk
  have hout := encode_eq h' order' (Values.empty.insertFields
    (layout.entries.map (fieldIn order bytes.toList)))
  rw [hchunks] at hout
  obtain ⟨hwidth, -, hvalues⟩ := decode_of_encode h' hout
  refine ⟨chunks.flatten.toArray, ?_, hwidth, ?_⟩
  · rw [transcode, decode_eq h order hsize]
    exact hout
  · intro e he d hd hname
    -- the slice that was written is the one that reads back as the value
    have hinside : e.start + e.size ≤ layout'.width := h'.stop_le he
    have hlength : (slice chunks.flatten.toArray.toList e.start e.size).length = e.size := by
      refine length_slice ?_
      rw [Array.length_toList, hwidth]
      exact hinside
    have hslice := (entryChunk_eq_ok_iff (h'.sound e he).count_pos).mpr ⟨hlength, hvalues e he⟩
    rw [entryChunk_insertFields h h' hcovers order order' hsize hd he hname] at hslice
    exact (Except.ok.inj hslice).symm

/-- Slices that agree up to the order of their elements' bytes, byte by byte. -/
theorem getElem?_of_slice_eq {out : Array UInt8} {d e : Entry} (hsize : d.size = e.size)
    (hinside : d.stop ≤ bytes.size)
    (hslice : slice out.toList e.start e.size
      = reordered order order' e.kind.byteWidth e.count (slice bytes.toList d.start d.size))
    {j t : Nat} (hj : j < e.count) (ht : t < e.kind.byteWidth) :
    out[e.start + j * e.kind.byteWidth + t]?
      = bytes[d.start + j * e.kind.byteWidth + order.origin order' e.kind.byteWidth t]? := by
  have hstop : d.start + d.size ≤ bytes.toList.length := hinside
  have hlength : (slice bytes.toList d.start d.size).length = e.kind.byteWidth * e.count := by
    rw [length_slice hstop, hsize]
    rfl
  have helement := e.element_le hj
  have horigin := order.origin_lt order' ht
  have hget := getElem?_reordered order order' hlength hj ht
  rw [← hslice, getElem?_slice (by omega), getElem?_slice (by omega), Array.getElem?_toList,
    Array.getElem?_toList, ← Nat.add_assoc, ← Nat.add_assoc] at hget
  exact hget

include h h' hcovers in
/-- There and back again, both steps switching the order or neither of them. -/
theorem transcode_transcode (hback : layout'.Covers layout) {back back' : ByteOrder}
    (hswitch : back = back' ↔ order = order') (hsize : layout.width ≤ bytes.size) :
    (transcode ⟨layout, order⟩ ⟨layout', order'⟩ bytes >>=
        transcode ⟨layout', back⟩ ⟨layout, back'⟩)
      = .ok (bytes.extract 0 layout.width) := by
  obtain ⟨out, hout, hwidth, hslices⟩ := exists_transcode h h' hcovers order order' hsize
  obtain ⟨again, hagain, hwidth', hslices'⟩ :=
    exists_transcode h' h hback back back' (Nat.le_of_eq hwidth.symm)
  rw [hout]
  refine hagain.trans (congrArg Except.ok (Array.toList_inj.mp ?_))
  -- each entry has its slice again, and the slices are all of the record
  have hslice : ∀ d ∈ layout.entries,
      slice again.toList d.start d.size = slice bytes.toList d.start d.size := by
    intro d hd
    obtain ⟨e, he, hname, hkind, hcount⟩ := hback d hd
    have hinside : d.start + d.size ≤ layout.width := h.stop_le hd
    have hlength : (slice bytes.toList d.start d.size).length = d.size := by
      refine length_slice ?_
      rw [Array.length_toList]
      omega
    rw [hslices' d hd e he hname, hslices e he d hd hname.symm, hkind, hcount]
    exact reordered_reordered order order' hswitch hlength
  have hrecord : (layout.entries.map fun d => slice again.toList d.start d.size)
      = layout.entries.map fun d => slice bytes.toList d.start d.size :=
    List.map_congr_left hslice
  rw [← flatten_slices_entries h hsize, ← hrecord,
    flatten_slices_entries h (Nat.le_of_eq hwidth'.symm), ← hwidth', Array.extract_size]

end Transcode

/-- **TRANSCODING MOVES BYTES**: from any layout that is built to any other
    that it covers, in any byte orders, the bytes at the start of a buffer are
    encoded again.  Every byte of every element comes from the element of the
    same number in the entry of the same name, from its own place in it or,
    between different orders, from the mirrored one; single bytes are copied.
    Where the layouts cover each other, two steps that both switch the order,
    or neither of which does, give the record back. -/
theorem transcodes_of_ofRows {rows rows' : List Table.Row} {policy policy' : OffsetPolicy}
    {layout layout' : Layout} (h : Layout.ofRows rows policy = .ok layout)
    (h' : Layout.ofRows rows' policy' = .ok layout') (hcovers : layout.Covers layout')
    (order order' : ByteOrder) {bytes : Array UInt8} (hsize : layout.width ≤ bytes.size) :
    (∃ out, transcode ⟨layout, order⟩ ⟨layout', order'⟩ bytes = .ok out
        ∧ out.size = layout'.width
        ∧ ∀ e ∈ layout'.entries, ∀ d ∈ layout.entries, d.name = e.name →
            (∀ j < e.count, ∀ t < e.kind.byteWidth, ∃ byte,
              out[e.start + j * e.kind.byteWidth + t]? = some byte
                ∧ bytes[d.start + j * e.kind.byteWidth
                    + if order = order' then t else e.kind.byteWidth - 1 - t]? = some byte)
              ∧ (e.kind.byteWidth = 1 → ∀ k < e.size,
                  out[e.start + k]? = bytes[d.start + k]?))
      ∧ (layout'.Covers layout → ∀ back back' : ByteOrder, (back = back' ↔ order = order') →
          (transcode ⟨layout, order⟩ ⟨layout', order'⟩ bytes >>=
              transcode ⟨layout', back⟩ ⟨layout, back'⟩)
            = .ok (bytes.extract 0 layout.width)) := by
  have hpacked := Layout.packed_of_ofRows h
  have hpacked' := Layout.packed_of_ofRows h'
  constructor
  · obtain ⟨out, hout, hwidth, hslices⟩ :=
      exists_transcode hpacked hpacked' hcovers order order' hsize
    refine ⟨out, hout, hwidth, ?_⟩
    intro e he d hd hname
    obtain ⟨hkind, hcount⟩ := hcovers.same_shape hpacked hd he hname
    have hsame : d.size = e.size := by
      rw [Entry.size, Entry.size, hkind, hcount]
    have hinside : d.stop ≤ bytes.size := (hpacked.stop_le hd).trans hsize
    have hbyte := fun {j t : Nat} (hj : j < e.count) (ht : t < e.kind.byteWidth) =>
      getElem?_of_slice_eq order order' hsame hinside (hslices e he d hd hname) hj ht
    constructor
    · intro j hj t ht
      have hstop : e.start + e.size ≤ layout'.width := hpacked'.stop_le he
      have helement := e.element_le hj
      have hlt : e.start + j * e.kind.byteWidth + t < out.size := by omega
      refine ⟨out[e.start + j * e.kind.byteWidth + t], Array.getElem?_eq_getElem hlt, ?_⟩
      exact (hbyte hj ht).symm.trans (Array.getElem?_eq_getElem hlt)
    · intro hone k hk
      -- an element is its only byte, and a single byte has no other place to come from
      have hk' : k < e.count := by
        have hwide : e.size = e.kind.byteWidth * e.count := rfl
        rwa [hwide, hone, Nat.one_mul] at hk
      have horigin : order.origin order' e.kind.byteWidth 0 = 0 := by
        have := order.origin_lt order' e.kind.byteWidth_pos
        omega
      have hsingle := hbyte hk' e.kind.byteWidth_pos
      rw [horigin, hone, Nat.mul_one] at hsingle
      exact hsingle
  · intro hback back back' hswitch
    exact transcode_transcode hpacked hpacked' hcovers order order' hback hswitch hsize

/-- A big-endian record with an array, to a little-endian one with the fields
    the other way round and one of them left out. -/
theorem transcodes_mixed :
    ∃ layout layout',
      Layout.ofRows
          [.field ⟨1, 0, .known .u16, "pair", 2, ""⟩, .field ⟨2, 4, .known .u32, "crc", 1, ""⟩,
            .field ⟨3, 8, .known .u8, "tag", 3, ""⟩] .strict = .ok layout
        ∧ Layout.ofRows
          [.field ⟨1, 0, .known .u8, "tag", 3, ""⟩, .comment 2 "body",
            .field ⟨3, 8, .known .u16, "pair", 2, ""⟩] .warn = .ok layout'
        ∧ layout.Covers layout'
        ∧ ∃ out, transcode ⟨layout, .big⟩ ⟨layout', .little⟩
              #[1, 2, 3, 4, 5, 6, 7, 8, 9, 10, 11, 12] = .ok out
            ∧ out.size = 7 ∧ out[5]? = some 4 := by
  have hsource : Layout.ofRows
      [.field ⟨1, 0, .known .u16, "pair", 2, ""⟩, .field ⟨2, 4, .known .u32, "crc", 1, ""⟩,
        .field ⟨3, 8, .known .u8, "tag", 3, ""⟩] .strict
      = .ok ⟨[.entry ⟨1, 0, 0, .u16, "pair", 2, ""⟩, .entry ⟨2, 4, 4, .u32, "crc", 1, ""⟩,
          .entry ⟨3, 8, 8, .u8, "tag", 3, ""⟩]⟩ := by decide
  have htarget : Layout.ofRows
      [.field ⟨1, 0, .known .u8, "tag", 3, ""⟩, .comment 2 "body",
        .field ⟨3, 8, .known .u16, "pair", 2, ""⟩] .warn
      = .ok ⟨[.entry ⟨1, 0, 0, .u8, "tag", 3, ""⟩, .comment 2 "body",
          .entry ⟨3, 8, 3, .u16, "pair", 2, ""⟩]⟩ := by decide
  refine ⟨_, _, hsource, htarget, by unfold Layout.Covers; decide, ?_⟩
  have hsize : 11 ≤ (#[1, 2, 3, 4, 5, 6, 7, 8, 9, 10, 11, 12] : Array UInt8).size := by decide
  obtain ⟨⟨out, hout, hwidth, hbytes⟩, -⟩ := transcodes_of_ofRows hsource htarget
    (by unfold Layout.Covers; decide) .big .little hsize
  obtain ⟨byte, hbyte, horigin⟩ := (hbytes ⟨3, 8, 3, .u16, "pair", 2, ""⟩ (by decide)
    ⟨1, 0, 0, .u16, "pair", 2, ""⟩ (by decide) rfl).1 1 (by decide) 0 (by decide)
  obtain rfl : 4 = byte := Option.some.inj horigin
  exact ⟨out, hout, hwidth, hbyte⟩

end Codec

end PackedRecord
