import PackedRecord.Proofs.Layout.Demands
import PackedRecord.Proofs.Layout.Words
import PackedRecord.Proofs.Outcomes

/-! # Packed layouts — what holds of every layout that is built

    `Places` says what the builder does with each row, once and for all; every
    invariant follows from it by induction.  The one that the codec and the
    generated code rest on is `BackToBack`: each entry starts where the entry
    before it stops.  From it come the packed positions as sums, the tiling of
    the record by the entries, and that no entry reaches past the end. -/

namespace PackedRecord.Layout

open Table (Field Row)

/-! ## Placing rows -/

/-- Rows and the items that they become, the first field at the byte `start`
    behind fields of the names `taken`. -/
inductive Places : Nat → List String → List Row → List Item → Prop
  | done (start : Nat) (taken : List String) : Places start taken [] []
  | blank {start : Nat} {taken : List String} {rows : List Row} {items : List Item} :
      Places start taken rows items → Places start taken (.blank :: rows) items
  | comment {start : Nat} {taken : List String} {rows : List Row} {items : List Item}
      (line : Nat) (text : String) :
      Places start taken rows items →
      Places start taken (.comment line text :: rows) (.comment line text :: items)
  | field {start : Nat} {taken : List String} {rows : List Row} {items : List Item}
      {kind : Scalar.Kind} {f : Field} :
      f.type = .known kind → AllMet (demandsAt start taken f) →
      Places (entryOf start kind f).stop (f.name :: taken) rows items →
      Places start taken (.field f :: rows) (.entry (entryOf start kind f) :: items)

/-- Whatever the builder answers, it has placed row by row. -/
theorem places_of_itemsFrom {rows : List Row} :
    ∀ {start : Nat} {taken : List String} {items : List Item},
      itemsFrom start taken rows = .ok items → Places start taken rows items := by
  induction rows with
  | nil =>
      intro start taken items h
      obtain rfl := Except.ok.inj h
      exact Places.done start taken
  | cons row rows ih =>
      intro start taken items h
      cases row with
      | blank => exact Places.blank (ih h)
      | comment line text =>
          obtain ⟨rest, hrest, h⟩ := Outcome.of_bind_ok h
          obtain rfl := Except.ok.inj h
          exact Places.comment line text (ih hrest)
      | field f =>
          obtain ⟨e, he, h⟩ := Outcome.of_bind_ok h
          obtain ⟨rest, hrest, h⟩ := Outcome.of_bind_ok h
          obtain rfl := Except.ok.inj h
          obtain ⟨hall, kind, hkind, rfl⟩ := nextEntry_eq_ok_iff.mp he
          exact Places.field hkind hall (ih hrest)

/-- The row that an item comes from. -/
def Item.row : Item → Row
  | .entry e =>
      .field { line := e.line, offset := e.offset, type := .known e.kind, name := e.name,
               count := e.count, description := e.description }
  | .comment line text => .comment line text

/-- Nothing but blank rows is dropped, and nothing is changed. -/
theorem Places.rows_eq {start : Nat} {taken : List String} {rows : List Row}
    {items : List Item} (h : Places start taken rows items) :
    items.map Item.row = rows.filter (· ≠ .blank) := by
  induction h with
  | done start taken => rfl
  | blank _ ih => exact ih
  | comment line text _ ih => exact congrArg (Row.comment line text :: ·) ih
  | @field start taken rows items kind f hkind hall _ ih =>
      simp only [demandsAt, allMet_cons] at hall
      obtain ⟨-, -, hcount, -⟩ := hall
      have hf : (Item.entry (entryOf start kind f)).row = .field f := by
        -- the count is positive, so that its number of elements says all about it
        obtain ⟨line, offset, type, name, count, description⟩ := f
        have htoNat : (count.toNat : Int) = count := Int.toNat_of_nonneg (by
          have : 1 ≤ count := hcount
          omega)
        have htype : type = .known kind := hkind
        simp only [Item.row, entryOf, htoNat, htype]
      rw [List.map_cons, hf, ih]
      rfl

/-! ## Entries back to back -/

/-- The first entry stands at the byte `start`, every other one where the one
    before it stops. -/
def BackToBack : Nat → List Entry → Prop
  | _, [] => True
  | start, e :: rest => e.start = start ∧ BackToBack e.stop rest

theorem backToBack_cons (start : Nat) (e : Entry) (rest : List Entry) :
    BackToBack start (e :: rest) ↔ e.start = start ∧ BackToBack e.stop rest := Iff.rfl

/-- An entry starts behind the bytes of all entries before it. -/
theorem BackToBack.start_eq {before : List Entry} {e : Entry} {after : List Entry} :
    ∀ {start : Nat}, BackToBack start (before ++ e :: after) →
      e.start = start + bytesOfEntries before := by
  induction before with
  | nil => exact fun h => h.1
  | cons d before ih =>
      intro start h
      obtain ⟨hd, hrest⟩ := (backToBack_cons start d _).mp h
      have hstop : d.stop = d.start + d.size := rfl
      rw [ih hrest, bytesOfEntries_cons, hstop, hd, Nat.add_assoc]

/-- No entry reaches out of the bytes that they take together. -/
theorem BackToBack.bounds {entries : List Entry} :
    ∀ {start : Nat}, BackToBack start entries → ∀ e ∈ entries,
      start ≤ e.start ∧ e.stop ≤ start + bytesOfEntries entries := by
  intro start h e he
  obtain ⟨before, after, rfl⟩ := List.append_of_mem he
  have hstart := h.start_eq
  have hstop : e.stop = e.start + e.size := rfl
  rw [bytesOfEntries_append, bytesOfEntries_cons]
  omega

/-- Every byte belongs to exactly one entry. -/
theorem BackToBack.tiling {entries : List Entry} :
    ∀ {start : Nat}, BackToBack start entries → ∀ k, start ≤ k →
      k < start + bytesOfEntries entries →
      ∃! e, e ∈ entries ∧ e.start ≤ k ∧ k < e.stop := by
  induction entries with
  | nil =>
      intro start _ k hlow hhigh
      exact absurd hhigh (Nat.not_lt.mpr hlow)
  | cons e rest ih =>
      intro start h k hlow hhigh
      obtain ⟨hstart, hrest⟩ := (backToBack_cons start e rest).mp h
      have hstop : e.stop = e.start + e.size := rfl
      rw [bytesOfEntries_cons] at hhigh
      by_cases hk : k < e.stop
      · refine ⟨e, ⟨List.mem_cons_self, by omega, hk⟩, ?_⟩
        rintro d ⟨hd, hdlow, -⟩
        rcases List.mem_cons.mp hd with rfl | hd
        · rfl
        · -- an entry behind `e` starts where `e` stops, or later
          have := (hrest.bounds d hd).1
          omega
      · -- behind `e` the rest is tiled, from where `e` stops
        obtain ⟨d, ⟨hd, hdlow, hdhigh⟩, hunique⟩ := ih hrest k (by omega) (by omega)
        refine ⟨d, ⟨List.mem_cons_of_mem e hd, hdlow, hdhigh⟩, ?_⟩
        rintro d' ⟨hd', hdlow', hdhigh'⟩
        rcases List.mem_cons.mp hd' with rfl | hd'
        · exact absurd hdhigh' hk
        · exact hunique d' ⟨hd', hdlow', hdhigh'⟩

/-! ## What placing gives -/

def entriesOf (items : List Item) : List Entry :=
  items.filterMap Item.entry?

/-- What holds of an entry wherever it stands. -/
structure Entry.Sound (e : Entry) : Prop where
  name : FieldName e.name
  count_pos : 1 ≤ e.count
  range : e.declaredEnd < 2 ^ 64

theorem Entry.Sound.size_pos {e : Entry} (h : e.Sound) : 1 ≤ e.size :=
  Nat.mul_pos e.kind.byteWidth_pos h.count_pos

private theorem entriesOf_entry (e : Entry) (items : List Item) :
    entriesOf (.entry e :: items) = e :: entriesOf items := rfl

/-- Every field that is placed starts where the field before it stops. -/
theorem Places.backToBack {start : Nat} {taken : List String} {rows : List Row}
    {items : List Item} (h : Places start taken rows items) :
    BackToBack start (entriesOf items) := by
  induction h with
  | done start taken => exact True.intro
  | blank _ ih => exact ih
  | comment line text _ ih => exact ih
  | field _ _ _ ih => exact ⟨rfl, ih⟩

/-- Every field that is placed has met the demands on it. -/
theorem Places.sound {start : Nat} {taken : List String} {rows : List Row}
    {items : List Item} (h : Places start taken rows items) :
    ∀ e ∈ entriesOf items, e.Sound := by
  induction h with
  | done start taken => exact fun e he => nomatch he
  | blank _ ih => exact ih
  | comment line text _ ih => exact ih
  | @field start taken rows items kind f hkind hall _ ih =>
      simp only [demandsAt, allMet_cons] at hall
      obtain ⟨-, hname, hcount, ⟨-, hrange⟩, -⟩ := hall
      have hsize := entryOf_size start hkind hcount
      intro e he
      rw [entriesOf_entry] at he
      rcases List.mem_cons.mp he with rfl | he
      · refine ⟨hname, ?_, ?_⟩
        · show 1 ≤ f.count.toNat
          omega
        · show f.offset + (entryOf start kind f).size < 2 ^ 64
          omega
      · exact ih e he

/-- Fields that are placed have different names, and none that was taken. -/
theorem Places.distinct {start : Nat} {taken : List String} {rows : List Row}
    {items : List Item} (h : Places start taken rows items) :
    ((entriesOf items).map (·.name)).Nodup ∧ ∀ e ∈ entriesOf items, e.name ∉ taken := by
  induction h with
  | done start taken => exact ⟨List.nodup_nil, fun e he => nomatch he⟩
  | blank _ ih => exact ih
  | comment line text _ ih => exact ih
  | @field start taken rows items kind f hkind hall _ ih =>
      simp only [demandsAt, allMet_cons] at hall
      obtain ⟨-, -, -, -, hfresh, -⟩ := hall
      obtain ⟨hnodup, hrest⟩ := ih
      rw [entriesOf_entry, List.map_cons]
      constructor
      · refine List.nodup_cons.mpr ⟨?_, hnodup⟩
        -- the name of `f` is taken when the entries behind it are placed
        intro hmem
        obtain ⟨e, he, hname⟩ := List.mem_map.mp hmem
        refine hrest e he ?_
        rw [hname]
        exact List.mem_cons_self
      · intro e he
        rcases List.mem_cons.mp he with rfl | he
        · exact hfresh
        · exact fun hmem => hrest e he (List.mem_cons_of_mem f.name hmem)

/-- The bytes placed so far never exceed the limit. -/
theorem Places.width_le {start : Nat} {taken : List String} {rows : List Row}
    {items : List Item} (h : Places start taken rows items) :
    start ≤ widthLimit → start + bytesOfEntries (entriesOf items) ≤ widthLimit := by
  induction h with
  | done start taken => exact fun hstart => hstart
  | blank _ ih => exact ih
  | comment line text _ ih => exact ih
  | @field start taken rows items kind f hkind hall _ ih =>
      simp only [demandsAt, allMet_cons] at hall
      obtain ⟨-, -, hcount, -, -, hroom, -⟩ := hall
      intro _
      have hsize := entryOf_size start hkind hcount
      have hstop : (entryOf start kind f).stop = start + (entryOf start kind f).size := rfl
      have hlimit : widthLimit = 2 ^ 20 := rfl
      have := ih (by omega)
      rw [entriesOf_entry, bytesOfEntries_cons]
      omega

/-- What the codec and generated code rely on. -/
structure Packed (layout : Layout) : Prop where
  contiguous : BackToBack 0 layout.entries
  sound : ∀ e ∈ layout.entries, e.Sound
  distinct : (layout.entries.map (·.name)).Nodup
  width_le : layout.width ≤ widthLimit

/-- Whatever becomes of offsets, a layout consists of the items of its rows. -/
theorem itemsFrom_of_ofRows {rows : List Row} {policy : OffsetPolicy} {layout : Layout}
    (h : ofRows rows policy = .ok layout) : itemsFrom 0 [] rows = .ok layout.items := by
  obtain ⟨items, hitems, h⟩ := Outcome.of_bind_ok h
  -- the check of offsets refuses a layout or leaves it as it is
  have hlayout : Layout.mk items = layout := by
    simp only at h
    split at h
    · exact nomatch h
    · exact Except.ok.inj h
  rw [← hlayout]
  exact hitems

theorem places_of_ofRows {rows : List Row} {policy : OffsetPolicy} {layout : Layout}
    (h : ofRows rows policy = .ok layout) : Places 0 [] rows layout.items :=
  places_of_itemsFrom (itemsFrom_of_ofRows h)

/-- Every item is made of a row of the table. -/
theorem row_mem_of_ofRows {rows : List Row} {policy : OffsetPolicy} {layout : Layout}
    (h : ofRows rows policy = .ok layout) {item : Item} (hitem : item ∈ layout.items) :
    item.row ∈ rows := by
  have hmem : item.row ∈ layout.items.map Item.row := List.mem_map_of_mem hitem
  rw [(places_of_ofRows h).rows_eq] at hmem
  exact (List.mem_filter.mp hmem).1

/-- **EVERY LAYOUT THAT IS BUILT IS PACKED**, whatever is checked about its
    offsets. -/
theorem packed_of_ofRows {rows : List Row} {policy : OffsetPolicy} {layout : Layout}
    (h : ofRows rows policy = .ok layout) : Packed layout := by
  have hplaces := places_of_ofRows h
  refine ⟨hplaces.backToBack, hplaces.sound, hplaces.distinct.1, ?_⟩
  have := hplaces.width_le (Nat.zero_le _)
  rwa [Nat.zero_add] at this

namespace Packed

variable {layout : Layout}

/-- No entry reaches past the end of the record. -/
theorem stop_le (h : Packed layout) {e : Entry} (he : e ∈ layout.entries) :
    e.stop ≤ layout.width := by
  have := (h.contiguous.bounds e he).2
  rwa [Nat.zero_add] at this

/-- Every byte of the record belongs to exactly one entry. -/
theorem tiling (h : Packed layout) {k : Nat} (hk : k < layout.width) :
    ∃! e, e ∈ layout.entries ∧ e.start ≤ k ∧ k < e.stop := by
  refine h.contiguous.tiling k (Nat.zero_le k) ?_
  rw [Nat.zero_add]
  exact hk

/-- An entry is found under its name and under no other. -/
theorem get?_eq_some_iff (h : Packed layout) (name : String) (e : Entry) :
    layout.get? name = some e ↔ e ∈ layout.entries ∧ e.name = name := by
  constructor
  · intro hget
    have hname := List.find?_some (p := fun e : Entry => decide (e.name = name)) hget
    exact ⟨List.mem_of_find?_eq_some hget, of_decide_eq_true hname⟩
  · rintro ⟨he, rfl⟩
    cases hget : layout.get? e.name with
    | none => exact absurd (decide_eq_true rfl) (List.find?_eq_none.mp hget e he)
    | some d =>
        -- two entries of one name are one entry
        have hd : d ∈ layout.entries := List.mem_of_find?_eq_some hget
        have hname : d.name = e.name :=
          of_decide_eq_true (List.find?_some (p := fun d : Entry => decide (d.name = e.name)) hget)
        rw [List.inj_on_of_nodup_map h.distinct hd he hname]

end Packed

/-! ## The invariant of built layouts -/

/-- The rows and the layout that they make. -/
structure Represents (rows : List Row) (layout : Layout) : Prop where
  /-- The items are the rows that are not blank, in order and unchanged. -/
  items : layout.items.map Item.row = rows.filter (· ≠ .blank)
  size : ∀ e ∈ layout.entries, e.size = e.kind.byteWidth * e.count ∧ 1 ≤ e.size
  /-- Positions are the sums of the lengths of all earlier entries. -/
  start : ∀ before e after, layout.entries = before ++ e :: after →
    e.start = bytesOfEntries before
  /-- Every byte of the record belongs to exactly one entry. -/
  tiling : ∀ k < layout.width, ∃! e, e ∈ layout.entries ∧ e.start ≤ k ∧ k < e.stop
  inside : ∀ e ∈ layout.entries, e.stop ≤ layout.width
  width : layout.width ≤ 2 ^ 20
  range : ∀ e ∈ layout.entries, e.offset + e.size < 2 ^ 64
  fieldName : ∀ e ∈ layout.entries, FieldName e.name
  distinct : (layout.entries.map (·.name)).Nodup
  get : ∀ name e, layout.get? name = some e ↔ e ∈ layout.entries ∧ e.name = name
  /-- The loop on 64-bit words makes the same layout, and nothing in it has
      wrapped. -/
  words : (∀ row ∈ rows, row.Fits) →
    ∃ p, Words.run rows = .ok p ∧ p.layout = layout ∧ p.Exact

theorem exists_run_of_ofRows {rows : List Row} {policy : OffsetPolicy} {layout : Layout}
    (h : ofRows rows policy = .ok layout) (hfits : ∀ row ∈ rows, row.Fits) :
    ∃ p, Words.run rows = .ok p ∧ p.layout = layout ∧ p.Exact := by
  have hrun := Words.run_layout hfits
  rw [itemsFrom_of_ofRows h] at hrun
  cases hp : Words.run rows with
  | error err =>
      rw [hp] at hrun
      exact nomatch hrun
  | ok p =>
      rw [hp] at hrun
      exact ⟨p, rfl, Except.ok.inj hrun, Words.run_exact hfits hp⟩

/-- **THE REPRESENTATION INVARIANT**: every layout that is built represents
    its rows, whatever becomes of declared offsets. -/
theorem represents_of_ofRows {rows : List Row} {policy : OffsetPolicy} {layout : Layout}
    (h : ofRows rows policy = .ok layout) : Represents rows layout where
  items := (places_of_ofRows h).rows_eq
  size := fun e he => ⟨rfl, ((packed_of_ofRows h).sound e he).size_pos⟩
  start := by
    intro before e after hsplit
    have hcontiguous := (packed_of_ofRows h).contiguous
    rw [hsplit] at hcontiguous
    rw [hcontiguous.start_eq, Nat.zero_add]
  tiling := by
    intro k hk
    refine (packed_of_ofRows h).contiguous.tiling k (Nat.zero_le k) ?_
    rw [Nat.zero_add]
    exact hk
  inside := fun _ he => (packed_of_ofRows h).stop_le he
  width := (packed_of_ofRows h).width_le
  range := fun e he => ((packed_of_ofRows h).sound e he).range
  fieldName := fun e he => ((packed_of_ofRows h).sound e he).name
  distinct := (packed_of_ofRows h).distinct
  get := (packed_of_ofRows h).get?_eq_some_iff
  words := exists_run_of_ofRows h

/-- A blank row, a comment and an array behind a gap. -/
theorem represents_gapped :
    ofRows
        [.comment 1 "head", .field ⟨2, 0, .known .u8, "a", 1, "first"⟩, .blank,
          .field ⟨4, 8, .known .u32, "b_1", 3, ""⟩] .warn
      = .ok ⟨[.comment 1 "head", .entry ⟨2, 0, 0, .u8, "a", 1, "first"⟩,
          .entry ⟨4, 8, 1, .u32, "b_1", 3, ""⟩]⟩
      ∧ Represents
          [.comment 1 "head", .field ⟨2, 0, .known .u8, "a", 1, "first"⟩, .blank,
            .field ⟨4, 8, .known .u32, "b_1", 3, ""⟩]
          ⟨[.comment 1 "head", .entry ⟨2, 0, 0, .u8, "a", 1, "first"⟩,
            .entry ⟨4, 8, 1, .u32, "b_1", 3, ""⟩]⟩ :=
  have h := by decide
  ⟨h, represents_of_ofRows h⟩

end PackedRecord.Layout
