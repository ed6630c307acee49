import PackedRecord.Proofs.Machine.Decoding

/-! # Encoding on a machine — windows, and a cursor that writes into one

    The encoder takes for every slot a window on the record, which faults if
    the record does not reach so far, and writes the scalars of the slot's
    value one after another.  The cursor refuses to write over the end of its
    window.  Every window of a packed layout is there, and is as long as what
    is written into it: the scalars of a value have one width, and there are
    as many as the slot has room for, or nothing is written at all. -/

namespace PackedRecord

namespace Codec

/-! ## Bytes over bytes -/

theorem size_overlay (bytes : List UInt8) :
    ∀ (record : Array UInt8) (start : Nat), (overlay record start bytes).size = record.size := by
  induction bytes with
  | nil => exact fun _ _ => rfl
  | cons b rest ih =>
      intro record start
      rw [overlay, ih, Array.size_setIfInBounds]

/-- Bytes behind bytes are written as one run of bytes. -/
theorem overlay_append (first rest : List UInt8) :
    ∀ (record : Array UInt8) (start : Nat),
      overlay (overlay record start first) (start + first.length) rest
        = overlay record start (first ++ rest) := by
  induction first with
  | nil => exact fun _ _ => rfl
  | cons b first ih =>
      intro record start
      have hnext : start + (b :: first).length = start + 1 + first.length := by
        rw [List.length_cons]
        omega
      rw [hnext, List.cons_append]
      exact ih (record.setIfInBounds start b) (start + 1)

/-- Scalars of one kind take as many bytes each as the kind has. -/
theorem length_flatten_scalarBytes {order : ByteOrder} {e : Layout.Entry} {items : List Value}
    {chunks : List (List UInt8)} (h : items.mapM (scalarBytes order e) = .ok chunks) :
    chunks.flatten.length = e.kind.byteWidth * items.length := by
  have hwidth : ∀ chunk ∈ chunks, chunk.length = e.kind.byteWidth := by
    intro chunk hchunk
    obtain ⟨item, -, hitem⟩ := Outcome.exists_of_mem_mapM h hchunk
    exact (scalarBytes_eq_ok_iff.mp hitem).1
  rw [length_flatten_of_forall hwidth, (Outcome.mapM_eq_ok_iff.mp h).length_eq]

/-- Writing an entry does not move the end of the record. -/
theorem size_of_writeEntry {order : ByteOrder} {values : Values} {record out : Array UInt8}
    {e : Layout.Entry} (h : writeEntry order values record e = .ok out) :
    out.size = record.size := by
  rw [writeEntry_eq] at h
  obtain ⟨chunk, -, h⟩ := Outcome.of_bind_ok h
  rw [writeBytes] at h
  split at h
  · obtain rfl := Except.ok.inj h
    exact size_overlay chunk record e.start
  · exact absurd h Outcome.error_ne_ok

end Codec

namespace Machine

open Codec (overlay scalarBytes writeEntry)
open Layout (Packed)
open Layout.Words (Progress Slot)

/-! ## Windows and cursors -/

/-- A window on a buffer that ends at `stop`, written up to `position`. -/
structure Cursor where
  bytes : Array UInt8
  position : Nat
  stop : Nat

/-- The window from one index to before another, which has to be inside the
    buffer. -/
def window {ε : Type} (bytes : Array UInt8) (start stop : Nat) : Except (Stop ε) Cursor :=
  if start ≤ stop ∧ stop ≤ bytes.size then .ok ⟨bytes, start, stop⟩
  else .error (.fault .index)

def Cursor.write (c : Cursor) (chunk : List UInt8) : Except (Stop CodecError) Cursor :=
  if c.position + chunk.length ≤ c.stop then
    .ok { c with bytes := overlay c.bytes c.position chunk
                 position := c.position + chunk.length }
  else .error (.refusal .unexpectedEnd)

/-! ## The encoder -/

/-- Writes a value that has to be a scalar of the slot's kind. -/
def put (order : ByteOrder) (s : Slot) (c : Cursor) (value : Value) :
    Except (Stop CodecError) Cursor := do
  let chunk ← (scalarBytes order s.entry value).mapError .refusal
  c.write chunk

def putAll (order : ByteOrder) (s : Slot) (c : Cursor) (value : Value) :
    Except (Stop CodecError) Cursor :=
  match value.asArray? with
  | some items =>
      if items.length = s.arrayLength.toNat then items.foldlM (put order s) c
      else .error (.refusal (.typeMismatch s.name s.entry.shape value))
  | none => .error (.refusal (.typeMismatch s.name s.entry.shape value))

def putValue (order : ByteOrder) (s : Slot) (c : Cursor) (value : Value) :
    Except (Stop CodecError) Cursor :=
  if s.entry.isArray then putAll order s c value else put order s c value

def fill (order : ByteOrder) (values : Values) (record : Array UInt8) (s : Slot) :
    Except (Stop CodecError) (Array UInt8) :=
  match values.get? s.name with
  | none => .error (.refusal (.missingField s.name))
  | some value => do
      let stop ← packedEnd s
      let c ← window record s.position.toNat stop.toNat
      let c ← putValue order s c value
      return c.bytes

def encode (p : Progress) (order : ByteOrder) (values : Values) :
    Except (Stop CodecError) (Array UInt8) :=
  (slotsOf p).foldlM (fill order values) (Array.replicate p.width.toNat 0)

/-! ## Without faults -/

/-- A chunk that fits into the window is written there, and the cursor stands
    behind it. -/
theorem Cursor.write_eq {c : Cursor} {chunk : List UInt8}
    (h : c.position + chunk.length ≤ c.stop) :
    c.write chunk = .ok ⟨overlay c.bytes c.position chunk, c.position + chunk.length, c.stop⟩ :=
  if_pos h

/-- Writing twice is writing once. -/
theorem Cursor.write_write (c : Cursor) (first rest : List UInt8)
    (h : c.position + (first.length + rest.length) ≤ c.stop) :
    c.write first >>= (fun next => next.write rest) = c.write (first ++ rest) := by
  have hfirst : c.position + first.length ≤ c.stop := by omega
  have hrest : c.position + first.length + rest.length ≤ c.stop := by omega
  have hboth : c.position + (first ++ rest).length ≤ c.stop := by
    rw [List.length_append]
    exact h
  rw [write_eq hfirst, write_eq hboth, ← Codec.overlay_append, List.length_append,
    ← Nat.add_assoc]
  exact write_eq hrest

/-- The scalars of one kind are written one behind the other, unless one of
    them is at fault. -/
theorem foldlM_put (order : ByteOrder) (s : Slot) {items : List Value} :
    ∀ {c : Cursor}, c.position + s.kind.byteWidth * items.length ≤ c.stop →
      items.foldlM (put order s) c
        = (items.mapM (scalarBytes order s.entry)).mapError .refusal
            >>= fun chunks => c.write chunks.flatten := by
  induction items with
  | nil =>
      intro c h
      exact (Cursor.write_eq (show c.position + ([] : List UInt8).length ≤ c.stop from h)).symm
  | cons item items ih =>
      intro c h
      rw [List.length_cons, Nat.mul_succ] at h
      rw [List.foldlM_cons, List.mapM_cons, put]
      cases hchunk : scalarBytes order s.entry item with
      | error err => rfl
      | ok chunk =>
          have hlength : chunk.length = s.kind.byteWidth :=
            (Codec.scalarBytes_eq_ok_iff.mp hchunk).1
          show (c.write chunk >>= fun next => items.foldlM (put order s) next) = _
          rw [Cursor.write_eq (by omega)]
          show items.foldlM (put order s) _ = _
          rw [ih (by show c.position + chunk.length + _ ≤ c.stop; omega)]
          cases hchunks : items.mapM (scalarBytes order s.entry) with
          | error err => rfl
          | ok chunks =>
              -- what is left of the window is as long as the chunks to come
              have hall : chunks.flatten.length = s.kind.byteWidth * items.length :=
                Codec.length_flatten_scalarBytes hchunks
              have hboth := c.write_write chunk chunks.flatten (by omega)
              rw [Cursor.write_eq (by omega)] at hboth
              exact hboth

/-- A value goes through the cursor as the bytes that it is written as. -/
theorem putValue_eq (order : ByteOrder) {s : Slot} {c : Cursor}
    (hfits : c.position + s.entry.size ≤ c.stop) (value : Value) :
    putValue order s c value
      = (Codec.entryBytes order s.entry value).mapError .refusal >>= fun chunk => c.write chunk := by
  by_cases harray : 1 < s.entry.count
  · have hseveral : s.entry.isArray = true := decide_eq_true harray
    simp only [putValue, if_pos hseveral, putAll, Codec.entryBytes,
      Layout.Entry.shape_of_isArray harray]
    cases value.asArray? with
    | none => rfl
    | some items =>
        by_cases hlength : items.length = s.entry.count
        · have hcount : items.length = s.arrayLength.toNat := hlength
          have hroom : c.position + s.kind.byteWidth * items.length ≤ c.stop := by
            rw [hlength]
            exact hfits
          simp only [if_pos hlength, if_pos hcount]
          rw [foldlM_put order s hroom]
          cases items.mapM (scalarBytes order s.entry) <;> rfl
        · have hcount : ¬ items.length = s.arrayLength.toNat := hlength
          simp only [if_neg hlength, if_neg hcount]
          rfl
  · have hsingle : ¬ s.entry.isArray = true := fun h => harray (of_decide_eq_true h)
    rw [putValue, if_neg hsingle, put, Codec.entryBytes_of_not_isArray harray]

/-- A slot inside the record is filled as its entry is. -/
theorem fill_eq (order : ByteOrder) (values : Values) {record : Array UInt8} {s : Slot}
    (hexact : s.Exact) (hcount : 1 ≤ s.entry.count) (hinside : s.entry.stop ≤ record.size) :
    fill order values record s = (writeEntry order values record s.entry).mapError .refusal := by
  obtain ⟨stop, hend, hstop⟩ := exists_packedEnd CodecError hexact
  have hsize : s.entry.stop = s.entry.start + s.entry.size := rfl
  have hwindow : (window record s.position.toNat stop.toNat : Except (Stop CodecError) _)
      = .ok ⟨record, s.entry.start, s.entry.stop⟩ := by
    rw [hstop]
    exact if_pos ⟨by rw [hsize]; exact Nat.le_add_right _ _, hinside⟩
  unfold fill writeEntry
  show (match values.get? s.entry.name with | none => _ | some value => _) = _
  cases values.get? s.entry.name with
  | none => rfl
  | some value =>
      show (packedEnd s >>= _)
        = (Codec.entryBytes order s.entry value
            >>= Codec.writeBytes record s.entry.start).mapError _
      rw [hend]
      show (window record s.position.toNat stop.toNat >>= _) = _
      rw [hwindow]
      show (putValue order s ⟨record, s.entry.start, s.entry.stop⟩ value >>= _) = _
      rw [putValue_eq order hsize.ge]
      cases hchunk : Codec.entryBytes order s.entry value with
      | error err => rfl
      | ok chunk =>
          -- what a value is written as is as long as its window
          have hlength : chunk.length = s.entry.size :=
            ((Codec.entryBytes_eq_ok_iff hcount).mp hchunk).1
          have hfits : s.entry.start + chunk.length ≤ s.entry.stop := by omega
          have hwrite := Cursor.write_eq (c := ⟨record, s.entry.start, s.entry.stop⟩) hfits
          show (Cursor.write _ chunk >>= fun c => pure c.bytes)
            = (Codec.writeBytes record s.entry.start chunk).mapError _
          rw [hwrite, Codec.writeBytes, if_pos (by omega)]
          rfl

theorem foldlM_fill (order : ByteOrder) (values : Values) {slots : List Slot} :
    ∀ {record : Array UInt8},
      (∀ s ∈ slots, s.Exact ∧ 1 ≤ s.entry.count ∧ s.entry.stop ≤ record.size) →
      slots.foldlM (fill order values) record
        = ((slots.map Slot.entry).foldlM (writeEntry order values) record).mapError .refusal := by
  induction slots with
  | nil => exact fun _ => rfl
  | cons s slots ih =>
      intro record h
      obtain ⟨⟨hexact, hcount, hinside⟩, hrest⟩ := List.forall_mem_cons.mp h
      rw [List.map_cons, List.foldlM_cons, List.foldlM_cons, fill_eq order values hexact hcount hinside]
      cases hout : writeEntry order values record s.entry with
      | error err => rfl
      | ok out =>
          -- filling a slot does not change how long the record is
          refine ih fun t ht => ?_
          rw [Codec.size_of_writeEntry hout]
          exact hrest t ht

/-- **ENCODING NEVER FAULTS**: no window is out of bounds and no cursor writes
    over its end, whatever the values. -/
theorem encode_eq {p : Progress} (hexact : p.Exact) (hpacked : Packed p.layout)
    (order : ByteOrder) (values : Values) :
    encode p order values = (Codec.encode ⟨p.layout, order⟩ values).mapError .refusal := by
  have hslots : ∀ s ∈ slotsOf p, s.Exact ∧ 1 ≤ s.entry.count
      ∧ s.entry.stop ≤ (Array.replicate p.layout.width (0 : UInt8)).size := by
    intro s hs
    rw [Array.size_replicate]
    exact slot_of_packed hexact hpacked hs
  rw [encode, hexact.width, foldlM_fill order values hslots, ← entries_layout]
  rfl

end Machine

end PackedRecord
