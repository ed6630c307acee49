import PackedRecord.Code.Meaning
import PackedRecord.Proofs.Record.RoundTrip

/-! # Readings — expressions read the bytes of their entry

    `Reading.indices?` lists the indices at which an expression looks into the
    block, in order.  The expression of an entry looks at the entry's own
    bytes, each once and in order, and has the value of the entry's slice in
    the order of the host.  Both facts are first proved of the expression for
    one scalar, wherever the names `i` and `at` let it start. -/

namespace PackedRecord.Code

open Layout (Entry)

/-- The indices at which a field of `count` elements looks into the block. -/
def Reading.indices? (count : Nat) : Scope → Reading → Option (List Nat)
  | scope, byte index => do return [← index.eval? scope]
  | scope, word _ indices => indices.mapM (Index.eval? scope)
  | scope, startingAt index body => do
      let k ← index.eval? scope
      body.indices? count { scope with start := some k }
  | scope, forEach body => do
      let runs ← (List.range count).mapM fun i =>
        body.indices? count { scope with element := some i }
      return runs.flatten

/-! ## Index arithmetic -/

namespace Index

/-- Element `i` starts `i` widths behind the base, whatever parts of the sum are
    left out. -/
theorem eval?_ofElement (base width i : Nat) (start : Option Nat) :
    (ofElement base width).eval? ⟨some i, start⟩ = some (base + i * width) := by
  -- the product is left out where it would be by one, the sum where it would be to zero
  have hstride : (if width = 1 then element else mul element (literal width)).eval?
      ⟨some i, start⟩ = some (i * width) := by
    split
    · next hone =>
        rw [hone, Nat.mul_one]
        rfl
    · rfl
  rw [ofElement]
  split
  · next hzero => rw [hstride, hzero, Nat.zero_add]
  · show (do return base + (← Index.eval? _ _) : Option Nat) = _
    rw [hstride]
    rfl

/-- Byte `k` of an element lies `k` behind its start. -/
theorem eval?_ofByte (element : Option Nat) (at' k : Nat) :
    (ofByte k).eval? ⟨element, some at'⟩ = some (at' + k) := by
  rw [ofByte]
  split
  · next hzero =>
      rw [hzero]
      rfl
  · rfl

/-- Bytes at indices that are a run are the bytes of the run. -/
theorem mapM_byte? {scope : Scope} {block : Array UInt8} {indices : List Index} {ks : List Nat}
    (h : indices.mapM (Index.eval? scope) = some ks) :
    indices.mapM (Index.byte? scope block) = ks.mapM (block[·]?) := by
  induction indices generalizing ks with
  | nil =>
      obtain rfl := Option.some.inj h
      rfl
  | cons a indices ih =>
      rw [List.mapM_cons] at h ⊢
      cases ha : a.eval? scope with
      | none =>
          rw [ha] at h
          exact nomatch h
      | some k =>
          rw [ha] at h
          cases hrest : indices.mapM (Index.eval? scope) with
          | none =>
              rw [hrest] at h
              exact nomatch h
          | some rest =>
              rw [hrest] at h
              obtain rfl := Option.some.inj h
              have hbyte : a.byte? scope block = block[k]? := by
                rw [byte?, ha]
                rfl
              rw [hbyte, ih hrest, List.mapM_cons]

end Index

/-! ## One scalar -/

namespace Reading

/-- The expression looks at the bytes of one scalar and has its value. -/
structure ReadsScalar (count : Nat) (kind : Scalar.Kind) (first : Nat) (scope : Scope)
    (r : Reading) : Prop where
  indices : r.indices? count scope = some (List.range' first kind.byteWidth)
  value : ∀ (host : ByteOrder) (block : Array UInt8), first + kind.byteWidth ≤ block.size →
    r.eval? host block count scope
      = some (.scalar (.ofBytes host kind (slice block.toList first kind.byteWidth)))

/-- A number reads a scalar if its indices are the run of the scalar's bytes. -/
theorem readsScalar_word {count : Nat} {kind : Scalar.Kind} {first : Nat} {scope : Scope}
    {indices : List Index}
    (h : indices.mapM (Index.eval? scope) = some (List.range' first kind.byteWidth)) :
    ReadsScalar count kind first scope (.word kind indices) where
  indices := h
  value := by
    intro host block hinside
    have hlength : (slice block.toList first kind.byteWidth).length = kind.byteWidth :=
      length_slice hinside
    rw [eval?, Index.mapM_byte? h, Codec.mapM_getElem?_range' hinside]
    exact if_pos hlength

/-- A byte of the block is a scalar of one byte. -/
theorem readsScalar_byte {count : Nat} {kind : Scalar.Kind} {first : Nat} {scope : Scope}
    {index : Index} (hkind : kind.byteWidth = 1) (h : index.eval? scope = some first) :
    ReadsScalar count kind first scope (.byte index) where
  indices := by
    rw [indices?, h, hkind]
    rfl
  value := by
    -- a slice of one byte is that byte
    intro host block hinside
    have hlt : first < block.size := by omega
    have hslice : slice block.toList first kind.byteWidth = [block[first]] := by
      rw [hkind, slice, List.drop_eq_getElem_cons (by simpa using hlt)]
      rfl
    have hbyte : index.byte? scope block = some block[first] := by
      rw [Index.byte?, h]
      exact Array.getElem?_eq_getElem hlt
    rw [eval?, hbyte, hslice]
    cases kind with
    | u8 => cases host <;> rfl
    | u16 | u32 | u64 => exact absurd hkind (by decide)

/-- A name for the index at which a scalar starts changes nothing about it. -/
theorem readsScalar_startingAt {count : Nat} {kind : Scalar.Kind} {first : Nat} {scope : Scope}
    {index : Index} {body : Reading} (h : index.eval? scope = some first)
    (hbody : ReadsScalar count kind first { scope with start := some first } body) :
    ReadsScalar count kind first scope (.startingAt index body) where
  indices := by
    rw [indices?, h]
    exact hbody.indices
  value := by
    intro host block hinside
    rw [eval?, h]
    exact hbody.value host block hinside

/-! ## One entry -/

/-- Consecutive runs of one length are one run. -/
theorem flatten_runs (start w n : Nat) :
    ((List.range n).map fun i => List.range' (start + i * w) w).flatten
      = List.range' start (w * n) := by
  induction n with
  | zero => rfl
  | succ n ih =>
      rw [List.range_succ, List.map_append, List.flatten_append, ih, List.map_singleton,
        List.flatten_singleton, Nat.mul_comm n w, Nat.mul_succ]
      exact List.range'_append_1

/-- The expression for an element of an array, while `i` is its number. -/
def ofElement (e : Entry) : Reading :=
  let first := Index.ofElement e.start e.kind.byteWidth
  if e.kind.byteWidth = 1 then byte first
  else startingAt first (word e.kind ((List.range e.kind.byteWidth).map .ofByte))

/-- The expression for an entry of one element. -/
def ofSingle (e : Entry) : Reading :=
  if e.kind.byteWidth = 1 then byte (.literal e.start)
  else word e.kind ((List.range' e.start e.kind.byteWidth).map .literal)

theorem ofEntry_of_isArray {e : Entry} (h : 1 < e.count) : ofEntry e = forEach (ofElement e) := by
  rw [ofEntry, Entry.shape_of_isArray h]
  exact (apply_ite forEach _ _ _).symm

theorem ofEntry_of_not_isArray {e : Entry} (h : ¬ 1 < e.count) : ofEntry e = ofSingle e := by
  rw [ofEntry, Entry.shape_of_not_isArray h]
  rfl

/-- The expression for an element reads the scalar of that element. -/
theorem readsScalar_ofElement (count : Nat) (e : Entry) (i : Nat) :
    ReadsScalar count e.kind (e.start + i * e.kind.byteWidth) { element := some i }
      (ofElement e) := by
  have hfirst := Index.eval?_ofElement e.start e.kind.byteWidth i none
  rw [ofElement]
  split
  · next hone => exact readsScalar_byte hone hfirst
  · refine readsScalar_startingAt hfirst (readsScalar_word ?_)
    rw [List.mapM_map, List.range'_eq_map_range]
    exact Outcome.mapM_eq_pure fun k _ => Index.eval?_ofByte (some i) _ k

theorem readsScalar_ofSingle (count : Nat) (e : Entry) :
    ReadsScalar count e.kind e.start {} (ofSingle e) := by
  rw [ofSingle]
  split
  · next hone => exact readsScalar_byte hone rfl
  · refine readsScalar_word ?_
    exact Outcome.mapM_map_eq_self fun k _ => rfl

/-- **AN EXPRESSION LOOKS AT ITS ENTRY**: at each byte of it, in order, and
    at no other byte of the block. -/
theorem indices?_ofEntry {e : Entry} (hcount : 1 ≤ e.count) :
    (ofEntry e).indices? e.count {} = some (List.range' e.start e.size) := by
  have hsize : e.size = e.kind.byteWidth * e.count := rfl
  by_cases harray : 1 < e.count
  · -- every element contributes its run, and the runs follow each other
    rw [ofEntry_of_isArray harray, indices?,
      Outcome.mapM_eq_pure fun i _ => (readsScalar_ofElement e.count e i).indices, hsize,
      ← flatten_runs]
    rfl
  · rw [ofEntry_of_not_isArray harray, (readsScalar_ofSingle e.count e).indices,
      e.size_of_not_isArray hcount harray]

/-- The value of an expression is that of its entry's slice. -/
theorem eval?_ofEntry {e : Entry} (hcount : 1 ≤ e.count) (host : ByteOrder)
    {block : Array UInt8} (hinside : e.stop ≤ block.size) :
    (ofEntry e).eval? host block e.count {}
      = some (e.valueOf host (slice block.toList e.start e.size)) := by
  have hstop : e.stop = e.start + e.size := rfl
  by_cases harray : 1 < e.count
  · have helement : ∀ i ∈ List.range e.count,
        (ofElement e).eval? host block e.count { element := some i }
          = pure (Value.scalar (.ofBytes host e.kind
              (slice (slice block.toList e.start e.size) (i * e.kind.byteWidth)
                e.kind.byteWidth))) := by
      intro i hi
      have hlast := e.element_le (List.mem_range.mp hi)
      rw [slice_slice hlast]
      exact (readsScalar_ofElement e.count e i).value host block (by omega)
    rw [ofEntry_of_isArray harray, Entry.valueOf_eq_map_slice harray, eval?,
      Outcome.mapM_eq_pure helement]
    rfl
  · have hone := e.size_of_not_isArray hcount harray
    rw [ofEntry_of_not_isArray harray, Entry.valueOf_of_not_isArray harray, hone]
    exact (readsScalar_ofSingle e.count e).value host block (by omega)

end Reading

end PackedRecord.Code
