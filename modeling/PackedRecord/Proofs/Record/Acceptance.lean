import PackedRecord.Proofs.Machine.Encoding

/-! # Acceptance — which values make a record

    An entry takes a value of exactly its own shape: a scalar of its kind if
    it has one element, and else an array of as many such scalars as it has
    elements.  `Takes` and `Refuses` say so without the encoder, for values of
    any nesting, and the two rule each other out: what an entry is not filled
    with it refuses, for one reason.

    The record is encoded exactly if every entry is filled; otherwise the
    error is that of the first entry, in table order, which is not. -/

namespace PackedRecord

open Layout (Entry Packed)

/-- A scalar of the given kind. -/
def Value.HasKind (kind : Scalar.Kind) (v : Value) : Prop :=
  ∃ s : Scalar, v = .scalar s ∧ s.kind = kind

namespace Layout.Entry

/-- The value has the shape of the entry. -/
inductive Takes (e : Entry) : Value → Prop
  | single {v : Value} : e.count = 1 → v.HasKind e.kind → Takes e v
  | array {items : List Value} : 1 < e.count → items.length = e.count →
      (∀ item ∈ items, item.HasKind e.kind) → Takes e (.array items)

/-- Why what is there for an entry, if anything is, does not fill it.  A value
    is found fault with as a whole, unless it is an array of the right length:
    then its first item at fault is. -/
inductive Refuses (e : Entry) : Option Value → CodecError → Prop
  | missing : Refuses e none (.missingField e.name)
  | single {v : Value} : e.count = 1 → ¬ v.HasKind e.kind →
      Refuses e (some v) (.typeMismatch e.name (.single e.kind) v)
  | length {v : Value} : 1 < e.count → (∀ items, v = .array items → items.length ≠ e.count) →
      Refuses e (some v) (.typeMismatch e.name (.array e.kind e.count) v)
  | item {before after : List Value} {item : Value} : 1 < e.count →
      (before ++ item :: after).length = e.count → (∀ b ∈ before, b.HasKind e.kind) →
      ¬ item.HasKind e.kind →
      Refuses e (some (.array (before ++ item :: after)))
        (.typeMismatch e.name (.array e.kind e.count) item)

/-- There is a value under the entry's name, and the entry takes it. -/
def Filled (values : Values) (e : Entry) : Prop :=
  ∃ v, values.get? e.name = some v ∧ e.Takes v

end Layout.Entry

namespace Codec

variable {order : ByteOrder} {e : Entry}

/-! ## One scalar -/

/-- A value is a scalar of the entry exactly if it has its kind. -/
theorem exists_scalarBytes_iff {v : Value} :
    (∃ chunk, scalarBytes order e v = .ok chunk) ↔ v.HasKind e.kind := by
  constructor
  · rintro ⟨chunk, hchunk⟩
    obtain ⟨-, rfl⟩ := scalarBytes_eq_ok_iff.mp hchunk
    exact ⟨_, rfl, rfl⟩
  · rintro ⟨s, rfl, hkind⟩
    exact ⟨_, if_pos hkind⟩

/-- Any other value is a mismatch, with the entry's name and shape. -/
theorem scalarBytes_eq_error_iff {v : Value} {err : CodecError} :
    scalarBytes order e v = .error err
      ↔ ¬ v.HasKind e.kind ∧ err = .typeMismatch e.name e.shape v := by
  have hrefused : ¬ v.HasKind e.kind →
      scalarBytes order e v = .error (.typeMismatch e.name e.shape v) := by
    intro h
    cases v with
    | array items => rfl
    | scalar s => exact if_neg fun hkind => h ⟨s, rfl, hkind⟩
  constructor
  · intro herr
    have hkind : ¬ v.HasKind e.kind := by
      intro h
      obtain ⟨chunk, hchunk⟩ := exists_scalarBytes_iff.mpr h
      exact absurd (hchunk.symm.trans herr) Outcome.ok_ne_error
    exact ⟨hkind, Except.error.inj (herr.symm.trans (hrefused hkind))⟩
  · rintro ⟨hkind, rfl⟩
    exact hrefused hkind

/-! ## One entry -/

theorem entryBytes_scalar (harray : 1 < e.count) (s : Scalar) :
    entryBytes order e (.scalar s)
      = .error (.typeMismatch e.name (.array e.kind e.count) (.scalar s)) := by
  simp only [entryBytes, Layout.Entry.shape_of_isArray harray]
  rfl

/-- The encoder has bytes for a value exactly if the entry takes it. -/
theorem exists_entryBytes_iff (hcount : 1 ≤ e.count) {v : Value} :
    (∃ chunk, entryBytes order e v = .ok chunk) ↔ e.Takes v := by
  by_cases harray : 1 < e.count
  · constructor
    · rintro ⟨chunk, hchunk⟩
      cases v with
      | scalar s =>
          rw [entryBytes_scalar harray] at hchunk
          exact absurd hchunk Outcome.error_ne_ok
      | array items =>
          rw [entryBytes_of_isArray harray] at hchunk
          split at hchunk
          · next hlength =>
              obtain ⟨chunks, hchunks, -⟩ := Outcome.of_map_ok hchunk
              refine Entry.Takes.array harray hlength fun item hitem => ?_
              exact exists_scalarBytes_iff.mp
                (Outcome.exists_mapM_eq_ok_iff.mp ⟨chunks, hchunks⟩ item hitem)
          · exact absurd hchunk Outcome.error_ne_ok
    · intro h
      cases h with
      | single hone hkind => omega
      | @array items _ hlength hall =>
          obtain ⟨chunks, hchunks⟩ : ∃ chunks, items.mapM (scalarBytes order e) = .ok chunks :=
            Outcome.exists_mapM_eq_ok fun item hitem => exists_scalarBytes_iff.mpr (hall item hitem)
          rw [entryBytes_of_isArray harray, if_pos hlength, hchunks]
          exact ⟨_, rfl⟩
  · rw [entryBytes_of_not_isArray harray, exists_scalarBytes_iff]
    constructor
    · exact fun hkind => Entry.Takes.single (by omega) hkind
    · intro h
      cases h with
      | single _ hkind => exact hkind
      | array hseveral => exact absurd hseveral harray

/-- What an entry is not filled with is refused for the reason that `Refuses`
    gives, and for no other. -/
theorem entryBytes_eq_error_iff (hcount : 1 ≤ e.count) {v : Value} {err : CodecError} :
    entryBytes order e v = .error err ↔ e.Refuses (some v) err := by
  by_cases harray : 1 < e.count
  · constructor
    · intro herr
      cases v with
      | scalar s =>
          rw [entryBytes_scalar harray] at herr
          obtain rfl := Except.error.inj herr
          exact Entry.Refuses.length harray fun items h => nomatch h
      | array items =>
          rw [entryBytes_of_isArray harray] at herr
          split at herr
          · next hlength =>
              -- every item before the one at fault has been written
              obtain ⟨before, item, after, rfl, hbefore, hitem⟩ :=
                Outcome.mapM_eq_error_iff.mp (Outcome.map_eq_error_iff.mp herr)
              obtain ⟨hkind, rfl⟩ := scalarBytes_eq_error_iff.mp hitem
              rw [Layout.Entry.shape_of_isArray harray]
              exact Entry.Refuses.item harray hlength
                (fun b hb => exists_scalarBytes_iff.mp (hbefore b hb)) hkind
          · next hlength =>
              obtain rfl := Except.error.inj herr
              rw [Layout.Entry.shape_of_isArray harray]
              refine Entry.Refuses.length harray fun items' h => ?_
              obtain rfl := Value.array.inj h
              exact hlength
    · intro h
      cases h with
      | single hone => omega
      | length _ hlength =>
          cases v with
          | scalar s => exact entryBytes_scalar harray s
          | array items =>
              rw [entryBytes_of_isArray harray, if_neg (hlength items rfl),
                Layout.Entry.shape_of_isArray harray]
      | @item before after item _ hlength hbefore hkind =>
          have hitem : scalarBytes order e item
              = .error (.typeMismatch e.name (.array e.kind e.count) item) := by
            rw [← Layout.Entry.shape_of_isArray harray]
            exact scalarBytes_eq_error_iff.mpr ⟨hkind, rfl⟩
          have hitems := Outcome.mapM_eq_error_iff.mpr ⟨before, item, after, rfl,
            fun b hb => exists_scalarBytes_iff.mpr (hbefore b hb), hitem⟩
          rw [entryBytes_of_isArray harray, if_pos hlength, hitems]
          rfl
  · have hone : e.count = 1 := by omega
    rw [entryBytes_of_not_isArray harray, scalarBytes_eq_error_iff,
      Layout.Entry.shape_of_not_isArray harray]
    constructor
    · rintro ⟨hkind, rfl⟩
      exact Entry.Refuses.single hone hkind
    · intro h
      cases h with
      | single _ hkind => exact ⟨hkind, rfl⟩
      | length hseveral => exact absurd hseveral harray
      | item hseveral => exact absurd hseveral harray

/-! ## One entry among the values -/

theorem exists_entryChunk_iff (hcount : 1 ≤ e.count) {values : Values} :
    (∃ chunk, entryChunk order values e = .ok chunk) ↔ e.Filled values := by
  unfold entryChunk Layout.Entry.Filled
  cases values.get? e.name with
  | none =>
      constructor
      · rintro ⟨chunk, hchunk⟩
        exact absurd hchunk Outcome.error_ne_ok
      · rintro ⟨v, hv, -⟩
        exact nomatch hv
  | some value =>
      refine (exists_entryBytes_iff hcount).trans ⟨fun h => ⟨value, rfl, h⟩, ?_⟩
      rintro ⟨v, hv, h⟩
      obtain rfl := Option.some.inj hv
      exact h

/-- The encoder refuses what the entry refuses, for the same reason. -/
theorem entryChunk_eq_error_iff (hcount : 1 ≤ e.count) {values : Values} {err : CodecError} :
    entryChunk order values e = .error err ↔ e.Refuses (values.get? e.name) err := by
  unfold entryChunk
  cases values.get? e.name with
  | none =>
      constructor
      · intro herr
        obtain rfl := Except.error.inj herr
        exact Entry.Refuses.missing
      · intro h
        cases h with
        | missing => rfl
  | some value => exact entryBytes_eq_error_iff hcount

/-! ## The record -/

section Record

variable {layout : Layout} (h : Packed layout) (order : ByteOrder) (values : Values)

include h

/-- **A RECORD IS ENCODED** exactly if every entry is filled. -/
theorem exists_encode_iff :
    (∃ out, encode ⟨layout, order⟩ values = .ok out)
      ↔ ∀ e ∈ layout.entries, e.Filled values := by
  have hchunks : (∃ out, encode ⟨layout, order⟩ values = .ok out)
      ↔ ∃ chunks, layout.entries.mapM (entryChunk order values) = .ok chunks := by
    rw [encode_eq h]
    constructor
    · rintro ⟨out, hout⟩
      obtain ⟨chunks, hchunks, -⟩ := Outcome.of_map_ok hout
      exact ⟨chunks, hchunks⟩
    · rintro ⟨chunks, hchunks⟩
      rw [hchunks]
      exact ⟨_, rfl⟩
  rw [hchunks, Outcome.exists_mapM_eq_ok_iff]
  exact forall₂_congr fun e he => exists_entryChunk_iff (h.sound e he).count_pos

/-- The error is that of the first entry that is not filled. -/
theorem encode_eq_error_iff {err : CodecError} :
    encode ⟨layout, order⟩ values = .error err
      ↔ ∃ before e after, layout.entries = before ++ e :: after
          ∧ (∀ d ∈ before, d.Filled values) ∧ e.Refuses (values.get? e.name) err := by
  have hchunks : encode ⟨layout, order⟩ values = .error err
      ↔ layout.entries.mapM (entryChunk order values) = .error err := by
    rw [encode_eq h]
    exact Outcome.map_eq_error_iff
  rw [hchunks, Outcome.mapM_eq_error_iff]
  refine exists₃_congr fun before e after => and_congr_right fun hsplit => ?_
  have hcount : ∀ d ∈ before ++ e :: after, 1 ≤ d.count :=
    fun d hd => (h.sound d (hsplit ▸ hd)).count_pos
  refine and_congr (forall₂_congr fun d hd => ?_) ?_
  · exact exists_entryChunk_iff (hcount d (List.mem_append_left _ hd))
  · exact entryChunk_eq_error_iff (hcount e (List.mem_append_right _ List.mem_cons_self))

end Record

/-- **THE ENCODING LAW**, for every layout that is built, either byte order and
    any values.  Exactly the values that fill every entry are encoded; others
    are refused for the first entry that they do not fill, for the reason for
    which that entry refuses them.  Nothing is ever written past the end: not
    as an error, and not on a machine, where it would be a fault. -/
theorem encode_law {rows : List Table.Row} {policy : OffsetPolicy} {layout : Layout}
    (h : Layout.ofRows rows policy = .ok layout) (order : ByteOrder) (values : Values) :
    ((∃ out, encode ⟨layout, order⟩ values = .ok out)
        ↔ ∀ e ∈ layout.entries, e.Filled values)
      ∧ (∀ err, encode ⟨layout, order⟩ values = .error err
          ↔ ∃ before e after, layout.entries = before ++ e :: after
              ∧ (∀ d ∈ before, d.Filled values) ∧ e.Refuses (values.get? e.name) err)
      ∧ encode ⟨layout, order⟩ values ≠ .error .unexpectedEnd
      ∧ ((∀ row ∈ rows, row.Fits) →
          ∃ p, Machine.build rows policy = .ok p ∧ p.layout = layout
            ∧ Machine.encode p order values
              = (encode ⟨layout, order⟩ values).mapError .refusal) := by
  have hpacked := Layout.packed_of_ofRows h
  refine ⟨exists_encode_iff hpacked order values,
    fun err => encode_eq_error_iff hpacked order values, ?_, ?_⟩
  · intro herr
    obtain ⟨-, e, -, -, -, hrefuses⟩ := (encode_eq_error_iff hpacked order values).mp herr
    -- no entry refuses anything for a lack of room
    generalize values.get? e.name = found at hrefuses
    exact nomatch hrefuses
  · intro hfits
    obtain ⟨p, hbuild, rfl, hexact⟩ := Machine.exists_build_of_ofRows h hfits
    exact ⟨p, hbuild, rfl, Machine.encode_eq hexact hpacked order values⟩

/-- An array of one element takes a scalar; of two entries at fault behind it
    the first is reported, for the first of its items that is no scalar. -/
theorem encode_law_mixed :
    Layout.ofRows
        [.field ⟨1, 0, .known .u8, "tag", 1, ""⟩, .field ⟨2, 1, .known .u16, "pair", 2, ""⟩,
          .field ⟨3, 5, .known .u32, "crc", 1, ""⟩] .warn
      = .ok ⟨[.entry ⟨1, 0, 0, .u8, "tag", 1, ""⟩, .entry ⟨2, 1, 1, .u16, "pair", 2, ""⟩,
          .entry ⟨3, 5, 5, .u32, "crc", 1, ""⟩]⟩
      ∧ encode ⟨⟨[.entry ⟨1, 0, 0, .u8, "tag", 1, ""⟩, .entry ⟨2, 1, 1, .u16, "pair", 2, ""⟩,
            .entry ⟨3, 5, 5, .u32, "crc", 1, ""⟩]⟩, .big⟩
          ⟨[("pair", .array [.scalar ⟨.u16, 258, by decide⟩, .array []]),
            ("tag", .scalar ⟨.u8, 7, by decide⟩)]⟩
        = .error (.typeMismatch "pair" (.array .u16 2) (.array [])) := by
  have h : Layout.ofRows
      [.field ⟨1, 0, .known .u8, "tag", 1, ""⟩, .field ⟨2, 1, .known .u16, "pair", 2, ""⟩,
        .field ⟨3, 5, .known .u32, "crc", 1, ""⟩] .warn
      = .ok ⟨[.entry ⟨1, 0, 0, .u8, "tag", 1, ""⟩, .entry ⟨2, 1, 1, .u16, "pair", 2, ""⟩,
          .entry ⟨3, 5, 5, .u32, "crc", 1, ""⟩]⟩ := by decide
  refine ⟨h, ((encode_law h .big _).2.1 _).mpr
    ⟨[⟨1, 0, 0, .u8, "tag", 1, ""⟩], ⟨2, 1, 1, .u16, "pair", 2, ""⟩,
      [⟨3, 5, 5, .u32, "crc", 1, ""⟩], rfl, ?_, ?_⟩⟩
  · intro d hd
    obtain rfl := List.mem_singleton.mp hd
    exact ⟨_, rfl, Entry.Takes.single rfl ⟨_, rfl, rfl⟩⟩
  · have hfirst : ∀ v ∈ [Value.scalar ⟨.u16, 258, by decide⟩], v.HasKind .u16 := by
      intro v hv
      obtain rfl := List.mem_singleton.mp hv
      exact ⟨_, rfl, rfl⟩
    have hsecond : ¬ (Value.array []).HasKind .u16 := by
      rintro ⟨s, hs, -⟩
      exact nomatch hs
    show Entry.Refuses ⟨2, 1, 1, .u16, "pair", 2, ""⟩
      (some (.array ([.scalar ⟨.u16, 258, by decide⟩] ++ .array [] :: []))) _
    exact Entry.Refuses.item (by decide) rfl hfirst hsecond

end Codec

end PackedRecord
