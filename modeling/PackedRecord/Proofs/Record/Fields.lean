import PackedRecord.Record.Codec
import PackedRecord.Proofs.Outcomes
import PackedRecord.Proofs.Scalar.Bytes

/-! # Fields — one entry and its own bytes

    What an entry holds is decided by the bytes of its own range, and by
    nothing else: `Entry.valueOf` reads that range.  The heart is
    `entryBytes_eq_ok_iff`: an entry's value is written as exactly those bytes
    of the right length that read back as that value.  Both directions of
    every round trip come from it. -/

namespace PackedRecord

/-! ## Slices and elements -/

/-- The `len` bytes from byte `start` on. -/
def slice (bytes : List UInt8) (start len : Nat) : List UInt8 :=
  (bytes.drop start).take len

/-- A slice that lies inside is as long as it should be. -/
theorem length_slice {bytes : List UInt8} {start len : Nat} (h : start + len ≤ bytes.length) :
    (slice bytes start len).length = len := by
  rw [slice, List.length_take, List.length_drop]
  omega

/-- Bytes that are extracted are a slice. -/
theorem toList_extract_eq_slice (bytes : Array UInt8) (start stop : Nat) :
    (bytes.extract start stop).toList = slice bytes.toList start (stop - start) := by
  rw [Array.toList_extract, List.extract_eq_take_drop, slice]

/-- Position `i` of a slice is position `i` behind its start. -/
theorem getElem?_slice {bytes : List UInt8} {start len i : Nat} (h : i < len) :
    (slice bytes start len)[i]? = bytes[start + i]? := by
  rw [slice, List.getElem?_take_of_lt h, List.getElem?_drop]

/-- Slices are told apart byte by byte. -/
theorem slice_eq_slice_iff {bytes bytes' : List UInt8} {start len : Nat} :
    slice bytes start len = slice bytes' start len
      ↔ ∀ i < len, bytes[start + i]? = bytes'[start + i]? := by
  constructor
  · intro h i hi
    rw [← getElem?_slice hi, h, getElem?_slice hi]
  · intro h
    refine List.ext_getElem? fun i => ?_
    by_cases hi : i < len
    · rw [getElem?_slice hi, getElem?_slice hi, h i hi]
    · have hend : ∀ l : List UInt8, (slice l start len)[i]? = none := fun l =>
        List.getElem?_eq_none ((List.length_take_le len _).trans (Nat.not_lt.mp hi))
      rw [hend, hend]

/-- A slice between a prefix of its start and whatever follows. -/
theorem slice_append {before chunk after : List UInt8} {start len : Nat}
    (hstart : before.length = start) (hlen : chunk.length = len) :
    slice (before ++ chunk ++ after) start len = chunk := by
  rw [slice, List.append_assoc, List.drop_left' hstart, List.take_left' hlen]

/-- A slice of a slice is a slice. -/
theorem slice_slice {bytes : List UInt8} {start len inner k : Nat} (h : inner + k ≤ len) :
    slice (slice bytes start len) inner k = slice bytes (start + inner) k := by
  rw [slice, slice, slice, List.drop_take, List.drop_drop, List.take_take,
    Nat.min_eq_left (by omega)]

/-- A slice inside the first `len` bytes is a slice of them. -/
theorem slice_take {bytes : List UInt8} {start k len : Nat} (h : start + k ≤ len) :
    slice (bytes.take len) start k = slice bytes start k := by
  rw [slice, slice, List.drop_take, List.take_take, Nat.min_eq_left (by omega)]

/-- The first `n` runs of `w` bytes. -/
def elements (w : Nat) : Nat → List UInt8 → List (List UInt8)
  | 0, _ => []
  | n + 1, bytes => bytes.take w :: elements w n (bytes.drop w)

theorem length_elements (w n : Nat) (bytes : List UInt8) : (elements w n bytes).length = n := by
  induction n generalizing bytes with
  | zero => rfl
  | succ n ih => exact congrArg (· + 1) (ih (bytes.drop w))

/-- The elements by index. -/
theorem elements_eq_map_slice (w n : Nat) (bytes : List UInt8) :
    elements w n bytes = (List.range n).map fun i => slice bytes (i * w) w := by
  induction n generalizing bytes with
  | zero => rfl
  | succ n ih =>
      rw [List.range_succ_eq_map, List.map_cons, List.map_map]
      show bytes.take w :: elements w n (bytes.drop w) = _
      rw [ih]
      congr 1
      · rw [slice, Nat.zero_mul, List.drop_zero]
      · refine List.map_congr_left fun i _ => ?_
        show slice (bytes.drop w) (i * w) w = slice bytes ((i + 1) * w) w
        rw [slice, slice, List.drop_drop, Nat.succ_mul, Nat.add_comm w]

/-- An element is a slice at a multiple of the width. -/
theorem getElem?_elements {w n i : Nat} (h : i < n) (bytes : List UInt8) :
    (elements w n bytes)[i]? = some (slice bytes (i * w) w) := by
  rw [elements_eq_map_slice, List.getElem?_map, List.getElem?_range h]
  rfl

/-- Elements put together are the bytes that were cut. -/
theorem flatten_elements {w n : Nat} {bytes : List UInt8} (h : bytes.length = w * n) :
    (elements w n bytes).flatten = bytes := by
  induction n generalizing bytes with
  | zero =>
      rw [Nat.mul_zero] at h
      exact (List.length_eq_zero_iff.mp h).symm
  | succ n ih =>
      have hrest : (bytes.drop w).length = w * n := by
        rw [List.length_drop, h, Nat.mul_succ]
        omega
      show bytes.take w ++ (elements w n (bytes.drop w)).flatten = bytes
      rw [ih hrest, List.take_append_drop]

/-- Every element has the same width. -/
theorem length_of_mem_elements {w n : Nat} {bytes : List UInt8} (h : bytes.length = w * n) :
    ∀ element ∈ elements w n bytes, element.length = w := by
  induction n generalizing bytes with
  | zero => exact fun element he => nomatch he
  | succ n ih =>
      rw [Nat.mul_succ] at h
      have hrest : (bytes.drop w).length = w * n := by
        rw [List.length_drop]
        omega
      intro element he
      rcases List.mem_cons.mp he with rfl | he
      · rw [List.length_take]
        omega
      · exact ih hrest element he

/-- Chunks of one width are found again as elements. -/
theorem elements_flatten {w : Nat} {chunks : List (List UInt8)}
    (h : ∀ chunk ∈ chunks, chunk.length = w) :
    elements w chunks.length chunks.flatten = chunks := by
  induction chunks with
  | nil => rfl
  | cons chunk rest ih =>
      have hchunk : chunk.length = w := h chunk List.mem_cons_self
      show (chunk ++ rest.flatten).take w
        :: elements w rest.length ((chunk ++ rest.flatten).drop w) = _
      rw [List.take_left' hchunk, List.drop_left' hchunk,
        ih (fun c hc => h c (List.mem_cons_of_mem chunk hc))]

theorem length_flatten_of_forall {w : Nat} {chunks : List (List UInt8)}
    (h : ∀ chunk ∈ chunks, chunk.length = w) : chunks.flatten.length = w * chunks.length := by
  induction chunks with
  | nil => rfl
  | cons chunk rest ih =>
      rw [List.flatten_cons, List.length_append, h chunk List.mem_cons_self,
        ih (fun c hc => h c (List.mem_cons_of_mem chunk hc)), List.length_cons, Nat.mul_succ,
        Nat.add_comm]

/-! ## Shapes -/

namespace Layout.Entry

theorem shape_of_isArray {e : Entry} (h : 1 < e.count) : e.shape = .array e.kind e.count :=
  if_pos (decide_eq_true h)

theorem shape_of_not_isArray {e : Entry} (h : ¬ 1 < e.count) : e.shape = .single e.kind :=
  if_neg (by rw [isArray, decide_eq_true_eq]; exact h)

/-- A single scalar takes the width of its kind. -/
theorem size_of_not_isArray {e : Entry} (hcount : 1 ≤ e.count) (h : ¬ 1 < e.count) :
    e.size = e.kind.byteWidth := by
  show e.kind.byteWidth * e.count = _
  rw [show e.count = 1 by omega, Nat.mul_one]

/-- An element of an entry ends inside it. -/
theorem element_le (e : Entry) {i : Nat} (hi : i < e.count) :
    i * e.kind.byteWidth + e.kind.byteWidth ≤ e.size := by
  show _ ≤ e.kind.byteWidth * e.count
  rw [← Nat.succ_mul, Nat.mul_comm]
  exact Nat.mul_le_mul_left _ hi

/-- The value that the bytes of an entry's range stand for. -/
def valueOf (order : ByteOrder) (e : Entry) (chunk : List UInt8) : Value :=
  match e.shape with
  | .single kind => .scalar (.ofBytes order kind chunk)
  | .array kind count =>
      .array ((elements kind.byteWidth count chunk).map fun bytes =>
        .scalar (.ofBytes order kind bytes))

/-- The value of an array is read element by element. -/
theorem valueOf_of_isArray {order : ByteOrder} {e : Entry} (h : 1 < e.count)
    (chunk : List UInt8) :
    e.valueOf order chunk
      = .array ((elements e.kind.byteWidth e.count chunk).map fun bytes =>
          .scalar (.ofBytes order e.kind bytes)) := by
  rw [valueOf, shape_of_isArray h]

/-- The elements by index. -/
theorem valueOf_eq_map_slice {order : ByteOrder} {e : Entry} (h : 1 < e.count)
    (chunk : List UInt8) :
    e.valueOf order chunk
      = .array ((List.range e.count).map fun i =>
          .scalar (.ofBytes order e.kind (slice chunk (i * e.kind.byteWidth) e.kind.byteWidth))) := by
  rw [valueOf_of_isArray h, elements_eq_map_slice, List.map_map]
  rfl

/-- The value of a single entry is one scalar, read from all its bytes. -/
theorem valueOf_of_not_isArray {order : ByteOrder} {e : Entry} (h : ¬ 1 < e.count)
    (chunk : List UInt8) : e.valueOf order chunk = .scalar (.ofBytes order e.kind chunk) := by
  rw [valueOf, shape_of_not_isArray h]

end Layout.Entry

namespace Codec

open Layout (Entry)

/-! ## Writing an entry -/

/-- A scalar is written as those bytes that read back as it. -/
theorem scalarBytes_eq_ok_iff {order : ByteOrder} {e : Entry} {value : Value}
    {bytes : List UInt8} :
    scalarBytes order e value = .ok bytes
      ↔ bytes.length = e.kind.byteWidth ∧ Value.scalar (.ofBytes order e.kind bytes) = value := by
  constructor
  · intro h
    cases value with
    | array items => exact nomatch h
    | scalar s =>
        by_cases hkind : s.kind = e.kind
        · rw [show scalarBytes order e (.scalar s) = .ok (s.toBytes order) from if_pos hkind] at h
          obtain rfl := Except.ok.inj h
          rw [← hkind]
          exact ⟨s.length_toBytes order, congrArg Value.scalar (s.ofBytes_toBytes order)⟩
        · rw [show scalarBytes order e (.scalar s) = .error _ from if_neg hkind] at h
          exact nomatch h
  · rintro ⟨hlength, rfl⟩
    show (if e.kind = e.kind then _ else _) = _
    rw [if_pos rfl, Scalar.toBytes_ofBytes hlength]

/-- An array is encoded element by element, if it has as many as it should. -/
theorem entryBytes_of_isArray {order : ByteOrder} {e : Entry} (h : 1 < e.count)
    (items : List Value) :
    entryBytes order e (.array items)
      = if items.length = e.count then (items.mapM (scalarBytes order e)).map List.flatten
        else .error (.typeMismatch e.name e.shape (.array items)) := by
  simp only [entryBytes, Layout.Entry.shape_of_isArray h]
  rfl

theorem entryBytes_of_not_isArray {order : ByteOrder} {e : Entry} (h : ¬ 1 < e.count)
    (value : Value) : entryBytes order e value = scalarBytes order e value := by
  simp only [entryBytes, Layout.Entry.shape_of_not_isArray h]

/-- The elements of an array are written one by one. -/
private theorem forall₂_scalarBytes_iff {order : ByteOrder} {e : Entry} {items : List Value}
    {chunks : List (List UInt8)} :
    List.Forall₂ (fun item bytes => scalarBytes order e item = .ok bytes) items chunks
      ↔ (∀ chunk ∈ chunks, chunk.length = e.kind.byteWidth)
        ∧ chunks.map (fun bytes => Value.scalar (.ofBytes order e.kind bytes)) = items := by
  induction chunks generalizing items with
  | nil =>
      rw [List.forall₂_nil_right_iff]
      exact ⟨fun h => ⟨fun _ hc => (nomatch hc), h.symm⟩, fun h => h.2.symm⟩
  | cons chunk rest ih =>
      cases items with
      | nil => exact ⟨fun h => (nomatch h), fun h => (nomatch h.2)⟩
      | cons item items =>
          rw [List.forall₂_cons, ih, scalarBytes_eq_ok_iff, List.forall_mem_cons, List.map_cons,
            List.cons.injEq]
          exact ⟨fun ⟨⟨h1, h2⟩, h3, h4⟩ => ⟨⟨h1, h3⟩, h2, h4⟩,
            fun ⟨⟨h1, h3⟩, h2, h4⟩ => ⟨⟨h1, h2⟩, h3, h4⟩⟩

/-- **WRITING INVERTS READING**: an entry's value is written as those bytes of
    the entry's length that read back as it. -/
theorem entryBytes_eq_ok_iff {order : ByteOrder} {e : Entry} (hcount : 1 ≤ e.count)
    {value : Value} {chunk : List UInt8} :
    entryBytes order e value = .ok chunk
      ↔ chunk.length = e.size ∧ e.valueOf order chunk = value := by
  have hsize : e.size = e.kind.byteWidth * e.count := rfl
  by_cases harray : 1 < e.count
  · rw [Layout.Entry.valueOf_of_isArray harray]
    constructor
    · intro h
      cases value with
      | scalar s =>
          simp only [entryBytes, Layout.Entry.shape_of_isArray harray] at h
          exact nomatch h
      | array items =>
          rw [entryBytes_of_isArray harray] at h
          split at h
          · next hlength =>
              -- what was written element by element is cut into the same elements again
              cases hchunks : items.mapM (scalarBytes order e) with
              | error err =>
                  rw [hchunks] at h
                  exact nomatch h
              | ok chunks =>
                  rw [hchunks] at h
                  obtain rfl := Except.ok.inj h
                  have hall := Outcome.mapM_eq_ok_iff.mp hchunks
                  obtain ⟨hwidth, rfl⟩ := forall₂_scalarBytes_iff.mp hall
                  rw [List.length_map] at hlength
                  refine ⟨?_, ?_⟩
                  · rw [length_flatten_of_forall hwidth, hlength, hsize]
                  · rw [← hlength, elements_flatten hwidth]
          · exact nomatch h
    · rintro ⟨hlength, rfl⟩
      rw [hsize] at hlength
      rw [entryBytes_of_isArray harray, List.length_map, length_elements, if_pos rfl]
      have hall := @forall₂_scalarBytes_iff order e _ _ |>.mpr
        ⟨length_of_mem_elements hlength, rfl⟩
      rw [Outcome.mapM_eq_ok_iff.mpr hall]
      exact congrArg Except.ok (flatten_elements hlength)
  · rw [Layout.Entry.valueOf_of_not_isArray harray, e.size_of_not_isArray hcount harray]
    rw [entryBytes_of_not_isArray harray, scalarBytes_eq_ok_iff]

end Codec

end PackedRecord
