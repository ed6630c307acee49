import PackedRecord.Proofs.Layout.Demands
import PackedRecord.Proofs.Layout.Words

/-! # Admission — which rows make a layout

    Rows are admissible if every field is sound by itself, no name stands
    twice and all fields together fit into the largest record.  Nothing is
    carried from row to row in that definition, whereas the builder carries a
    running width and the names so far.

    The heart is that the builder walks through an admissible prefix without
    a fault and arrives at the width and the names of that prefix
    (`itemsFrom_run`).  So it fails exactly at the first field whose prefix is
    no longer admissible, and there with the first demand that is not met. -/

namespace PackedRecord

namespace Table

def fieldsOf (rows : List Row) : List Field :=
  rows.filterMap Row.field?

def namesOf (rows : List Row) : List String :=
  (fieldsOf rows).map (·.name)

/-- The bytes that the fields ask for together, as an unbounded sum. -/
def extentOf (rows : List Row) : Int :=
  ((fieldsOf rows).map Field.extent).sum

theorem fieldsOf_append (rows rows' : List Row) :
    fieldsOf (rows ++ rows') = fieldsOf rows ++ fieldsOf rows' :=
  List.filterMap_append

theorem namesOf_append (rows rows' : List Row) :
    namesOf (rows ++ rows') = namesOf rows ++ namesOf rows' := by
  show (fieldsOf (rows ++ rows')).map (·.name) = _
  rw [fieldsOf_append, List.map_append]
  rfl

theorem extentOf_append (rows rows' : List Row) :
    extentOf (rows ++ rows') = extentOf rows + extentOf rows' := by
  show ((fieldsOf (rows ++ rows')).map Field.extent).sum = _
  rw [fieldsOf_append, List.map_append, List.sum_append]
  rfl

/-- A field adds its extent. -/
theorem extentOf_append_field (rows : List Row) (f : Field) :
    extentOf (rows ++ [.field f]) = extentOf rows + f.extent := by
  rw [extentOf_append]
  exact congrArg (extentOf rows + ·) (Int.add_zero f.extent)

end Table

namespace Layout

open Table (Field Row fieldsOf namesOf extentOf)

/-- What a field has to satisfy wherever it stands. -/
structure Sound (f : Field) : Prop where
  known : ∃ kind, f.type = .known kind
  name : FieldName f.name
  count : 1 ≤ f.count
  extent : f.extent ≤ 2 ^ 20
  range : f.offset + f.extent < 2 ^ 64

/-- What the rows of a layout have to satisfy. -/
structure Admissible (rows : List Row) : Prop where
  sound : ∀ f ∈ fieldsOf rows, Sound f
  distinct : (namesOf rows).Nodup
  room : extentOf rows ≤ 2 ^ 20

/-- The demands on a field behind the given rows. -/
def demandsBehind (before : List Row) (f : Field) : List (Prop × LayoutError) :=
  demandsAt (extentOf before) (namesOf before) f

/-! ## One row more -/

/-- A sound field asks for a byte at least. -/
theorem Sound.extent_pos {f : Field} (h : Sound f) : 0 < f.extent := by
  obtain ⟨kind, hkind⟩ := h.known
  have hwidth : (0 : Int) < f.type.byteWidth := by
    rw [hkind]
    exact Int.natCast_pos.mpr kind.byteWidth_pos
  exact Int.mul_pos hwidth h.count

/-- Sound fields take nothing back. -/
theorem extentOf_nonneg {rows : List Row} (h : ∀ f ∈ fieldsOf rows, Sound f) :
    0 ≤ extentOf rows := by
  refine List.sum_nonneg ?_
  intro x hx
  obtain ⟨f, hf, rfl⟩ := List.mem_map.mp hx
  exact (h f hf).extent_pos.le

/-- What stands further down cannot make the rows before it admissible. -/
theorem Admissible.of_append {rows rows' : List Row} (h : Admissible (rows ++ rows')) :
    Admissible rows := by
  obtain ⟨hsound, hdistinct, hroom⟩ := h
  rw [Table.fieldsOf_append] at hsound
  rw [Table.namesOf_append] at hdistinct
  rw [Table.extentOf_append] at hroom
  have hrest : 0 ≤ extentOf rows' :=
    extentOf_nonneg (fun f hf => hsound f (List.mem_append_right _ hf))
  exact ⟨fun f hf => hsound f (List.mem_append_left _ hf), hdistinct.of_append_left, by omega⟩

/-- A field may follow admissible rows exactly if it meets all demands. -/
theorem admissible_append_field_iff (before : List Row) (f : Field) :
    Admissible (before ++ [.field f]) ↔ Admissible before ∧ AllMet (demandsBehind before f) := by
  have hfields : fieldsOf (before ++ [.field f]) = fieldsOf before ++ [f] :=
    Table.fieldsOf_append before [.field f]
  have hnames : namesOf (before ++ [.field f]) = namesOf before ++ [f.name] :=
    Table.namesOf_append before [.field f]
  have hextent : extentOf (before ++ [.field f]) = extentOf before + f.extent :=
    Table.extentOf_append_field before f
  simp only [demandsBehind, demandsAt, allMet_cons]
  constructor
  · intro h
    have hf : Sound f := h.sound f (by rw [hfields]; exact List.mem_append_right _ List.mem_cons_self)
    have hdistinct := h.distinct
    have hroom := h.room
    rw [hnames] at hdistinct
    rw [hextent] at hroom
    -- of the names in a list without repetition, the last is not among those before
    refine ⟨h.of_append, hf.known, hf.name, hf.count, ⟨hf.extent, hf.range⟩, ?_, hroom, ?_⟩
    · intro hmem
      exact (List.nodup_append.mp hdistinct).2.2 f.name hmem f.name List.mem_cons_self rfl
    · exact fun d hd => absurd hd List.not_mem_nil
  · rintro ⟨h, hknown, hname, hcount, ⟨hextent', hrange⟩, hfresh, hroom, -⟩
    refine ⟨?_, ?_, ?_⟩
    · intro g hg
      rw [hfields] at hg
      rcases List.mem_append.mp hg with hg | hg
      · exact h.sound g hg
      · obtain rfl := List.mem_singleton.mp hg
        exact ⟨hknown, hname, hcount, hextent', hrange⟩
    · rw [hnames]
      refine List.nodup_append.mpr ⟨h.distinct, List.nodup_singleton _, ?_⟩
      rintro n hn m hm rfl
      rw [List.mem_singleton.mp hm] at hn
      exact hfresh hn
    · rw [hextent]
      exact hroom

/-- Blank lines and comments are always admitted. -/
theorem admissible_append_other_iff (before : List Row) {row : Row} (hrow : row.field? = none) :
    Admissible (before ++ [row]) ↔ Admissible before := by
  have hfields : fieldsOf (before ++ [row]) = fieldsOf before := by
    rw [Table.fieldsOf_append]
    simp [fieldsOf, hrow]
  constructor
  · exact Admissible.of_append
  · rintro ⟨hsound, hdistinct, hroom⟩
    refine ⟨?_, ?_, ?_⟩
    · rw [hfields]
      exact hsound
    · rw [namesOf, hfields]
      exact hdistinct
    · rw [extentOf, hfields]
      exact hroom

theorem admissible_nil : Admissible [] where
  sound := fun f hf => nomatch hf
  distinct := List.nodup_nil
  room := by decide

/-- Rows that are not admissible have a first field at which they cease to
    be. -/
theorem exists_fault {rows : List Row} (h : ¬ Admissible rows) :
    ∃ before f after, rows = before ++ .field f :: after ∧ Admissible before
      ∧ ¬ Admissible (before ++ [.field f]) := by
  -- from the end: the first fault lies in the rows before the last one, or is the last one
  induction rows using List.reverseRecOn with
  | nil => exact absurd admissible_nil h
  | append_singleton rows row ih =>
      by_cases hrows : Admissible rows
      · cases row with
        | field f => exact ⟨rows, f, [], rfl, hrows, h⟩
        | blank => exact absurd ((admissible_append_other_iff rows rfl).mpr hrows) h
        | comment line text => exact absurd ((admissible_append_other_iff rows rfl).mpr hrows) h
      · obtain ⟨before, f, after, rfl, hbefore, hfault⟩ := ih hrows
        exact ⟨before, f, after ++ [row], by simp, hbefore, hfault⟩

/-! ## The builder's walk -/

/-- The running width behind the given rows. -/
def widthBehind (before : List Row) : Nat :=
  (extentOf before).toNat

/-- The names so far behind the given rows, the last one first. -/
def namesBehind (before : List Row) : List String :=
  (namesOf before).reverse

/-- The builder makes the demands of the rows that it has behind it. -/
theorem demandsAt_behind {before : List Row} (h : Admissible before) (f : Field) :
    demandsAt (widthBehind before) (namesBehind before) f = demandsBehind before f := by
  have hwidth : (widthBehind before : Int) = extentOf before :=
    Int.toNat_of_nonneg (extentOf_nonneg h.sound)
  have hnames : f.name ∈ namesBehind before ↔ f.name ∈ namesOf before := List.mem_reverse
  simp only [demandsBehind, demandsAt, hwidth, hnames]

/-- A field is placed first, and what is behind it starts where it stops. -/
theorem itemsFrom_field (start : Nat) (taken : List String) (f : Field)
    (rows : List Row) :
    itemsFrom start taken (.field f :: rows)
      = nextEntry start taken f >>= fun e =>
          (itemsFrom e.stop (e.name :: taken) rows).map (.entry e :: ·) := rfl

private theorem behind_other (before : List Row) {row : Row} (hrow : row.field? = none) :
    widthBehind (before ++ [row]) = widthBehind before
      ∧ namesBehind (before ++ [row]) = namesBehind before := by
  have hfields : fieldsOf (before ++ [row]) = fieldsOf before := by
    rw [Table.fieldsOf_append]
    simp [fieldsOf, hrow]
  simp only [widthBehind, namesBehind, extentOf, namesOf, hfields, and_self]

private theorem behind_field {before : List Row} {kind : Scalar.Kind} {f : Field}
    (h : Admissible before) (hkind : f.type = .known kind) (hcount : 1 ≤ f.count) :
    widthBehind (before ++ [.field f]) = (entryOf (widthBehind before) kind f).stop
      ∧ namesBehind (before ++ [.field f]) = f.name :: namesBehind before := by
  constructor
  · have hextent := Table.extentOf_append_field before f
    have hsize := entryOf_size (widthBehind before) hkind hcount
    have hnonneg := extentOf_nonneg h.sound
    have hstop : (entryOf (widthBehind before) kind f).stop
        = widthBehind before + (entryOf (widthBehind before) kind f).size := rfl
    rw [hstop, widthBehind, hextent]
    show _ = (extentOf before).toNat + _
    omega
  · show (namesOf (before ++ [.field f])).reverse = _
    rw [Table.namesOf_append, List.reverse_append]
    rfl

/-- One row of an admissible prefix: the builder goes on with the width and
    the names that are then behind it. -/
theorem itemsFrom_step {before : List Row} {row : Row} (h : Admissible (before ++ [row]))
    (rows : List Row) :
    ∃ items, itemsFrom (widthBehind before) (namesBehind before) (row :: rows)
      = (itemsFrom (widthBehind (before ++ [row])) (namesBehind (before ++ [row])) rows).map
          (items ++ ·) := by
  cases row with
  | blank =>
      obtain ⟨hwidth, hnames⟩ := behind_other before (show Row.blank.field? = none from rfl)
      refine ⟨[], ?_⟩
      rw [hwidth, hnames]
      cases hrest : itemsFrom (widthBehind before) (namesBehind before) rows <;> exact hrest
  | comment line text =>
      obtain ⟨hwidth, hnames⟩ := behind_other before (show (Row.comment line text).field? = none from rfl)
      refine ⟨[.comment line text], ?_⟩
      rw [hwidth, hnames]
      rfl
  | field f =>
      obtain ⟨hbefore, hall⟩ := (admissible_append_field_iff before f).mp h
      rw [← demandsAt_behind hbefore] at hall
      obtain ⟨kind, hkind, hentry⟩ := nextEntry_of_allMet hall
      have hcount : 1 ≤ f.count := by
        refine (h.sound f ?_).count
        rw [Table.fieldsOf_append]
        exact List.mem_append_right _ List.mem_cons_self
      obtain ⟨hwidth, hnames⟩ := behind_field hbefore hkind hcount
      refine ⟨[.entry (entryOf (widthBehind before) kind f)], ?_⟩
      rw [itemsFrom_field, hentry, hwidth, hnames]
      rfl

/-- An admissible prefix is walked through without a fault. -/
theorem itemsFrom_run (walked : List Row) :
    ∀ before : List Row, Admissible (before ++ walked) → ∀ rows : List Row,
      ∃ items, itemsFrom (widthBehind before) (namesBehind before) (walked ++ rows)
        = (itemsFrom (widthBehind (before ++ walked)) (namesBehind (before ++ walked)) rows).map
            (items ++ ·) := by
  induction walked with
  | nil =>
      intro before _ rows
      refine ⟨[], ?_⟩
      rw [List.append_nil]
      cases hrest : itemsFrom (widthBehind before) (namesBehind before) rows <;> exact hrest
  | cons row walked ih =>
      intro before h rows
      rw [List.append_cons] at h ⊢
      -- one row joins the prefix, and the rest is walked from there
      obtain ⟨first, hfirst⟩ := itemsFrom_step h.of_append (walked ++ rows)
      obtain ⟨items, hitems⟩ := ih (before ++ [row]) h rows
      refine ⟨first ++ items, ?_⟩
      rw [List.cons_append, hfirst, hitems]
      cases itemsFrom (widthBehind (before ++ [row] ++ walked))
          (namesBehind (before ++ [row] ++ walked)) rows with
      | error err => rfl
      | ok rest => exact congrArg Except.ok (List.append_assoc first items rest).symm

/-- **ADMISSIBLE ROWS ARE PLACED**, every one of them. -/
theorem exists_itemsFrom_of_admissible {rows : List Row} (h : Admissible rows) :
    ∃ items, itemsFrom 0 [] rows = .ok items := by
  obtain ⟨items, hitems⟩ := itemsFrom_run rows [] h []
  rw [List.append_nil] at hitems
  exact ⟨items ++ [], hitems⟩

/-- Behind an admissible prefix, a field that does not meet a demand ends the
    walk, whatever follows. -/
theorem itemsFrom_of_firstUnmet {before : List Row} {f : Field} {err : LayoutError}
    (h : Admissible before) (hf : FirstUnmet (demandsBehind before f) err) (after : List Row) :
    itemsFrom 0 [] (before ++ .field f :: after) = .error err := by
  obtain ⟨items, hitems⟩ := itemsFrom_run before [] h (.field f :: after)
  rw [← demandsAt_behind h] at hf
  rw [List.nil_append, itemsFrom_field, nextEntry_of_firstUnmet hf] at hitems
  exact hitems

/-! ## The law -/

/-- Without a check of offsets, building is placing the rows. -/
theorem ofRows_ignore (rows : List Row) :
    ofRows rows .ignore = (itemsFrom 0 [] rows).map Layout.mk := by
  show itemsFrom 0 [] rows >>= _ = _
  cases itemsFrom 0 [] rows <;> rfl

/-- **THE ADMISSION LAW**: exactly the admissible rows make a layout.  All
    others are refused at the first field whose prefix is not admissible, with
    the error of the first demand that this field does not meet; what follows
    the field does not matter.  The loop on 64-bit words answers the same, so
    that no wrapped product or sum ever lets rows through. -/
theorem ofRows_ignore_law (rows : List Row) :
    ((∃ layout, ofRows rows .ignore = .ok layout) ↔ Admissible rows)
      ∧ (∀ err, ofRows rows .ignore = .error err
          ↔ ∃ before f after, rows = before ++ .field f :: after ∧ Admissible before
              ∧ ¬ Admissible (before ++ [.field f])
              ∧ FirstUnmet (demandsBehind before f) err)
      ∧ ((∀ row ∈ rows, row.Fits) →
          (Words.run rows).map Words.Progress.layout = ofRows rows .ignore) := by
  rw [ofRows_ignore]
  -- the field at fault cannot meet every demand, or its prefix would go on being admissible
  have hrefused : ¬ Admissible rows → ∃ before f after err,
      rows = before ++ .field f :: after ∧ Admissible before
        ∧ ¬ Admissible (before ++ [.field f]) ∧ FirstUnmet (demandsBehind before f) err
        ∧ itemsFrom 0 [] rows = .error err := by
    intro h
    obtain ⟨before, f, after, rfl, hbefore, hfault⟩ := exists_fault h
    rcases allMet_or_firstUnmet (demandsBehind before f) with hall | ⟨err, hf⟩
    · exact absurd ((admissible_append_field_iff before f).mpr ⟨hbefore, hall⟩) hfault
    · exact ⟨before, f, after, err, rfl, hbefore, hfault, hf,
        itemsFrom_of_firstUnmet hbefore hf after⟩
  refine ⟨⟨?_, ?_⟩, fun err => ⟨?_, ?_⟩, Words.run_layout⟩
  · rintro ⟨layout, hlayout⟩
    refine Classical.byContradiction fun h => ?_
    obtain ⟨-, -, -, err, -, -, -, -, herr⟩ := hrefused h
    rw [herr] at hlayout
    exact nomatch hlayout
  · intro h
    obtain ⟨items, hitems⟩ := exists_itemsFrom_of_admissible h
    exact ⟨⟨items⟩, by rw [hitems]; rfl⟩
  · intro herr
    by_cases h : Admissible rows
    · obtain ⟨items, hitems⟩ := exists_itemsFrom_of_admissible h
      rw [hitems] at herr
      exact nomatch herr
    · obtain ⟨before, f, after, err', hrows, hbefore, hfault, hf, herr'⟩ := hrefused h
      rw [herr'] at herr
      obtain rfl : err' = err := Except.error.inj herr
      exact ⟨before, f, after, hrows, hbefore, hfault, hf⟩
  · rintro ⟨before, f, after, rfl, hbefore, -, hf⟩
    rw [itemsFrom_of_firstUnmet hbefore hf after]
    rfl

/-- A product that wraps to zero is not let through: the bytes of `2 ^ 61`
    words of 64 bits. -/
theorem ofRows_ignore_law_wrapping :
    (∀ row ∈ [Row.field ⟨1, 0, .known .u64, "a", 2 ^ 61, ""⟩], row.Fits)
      ∧ (Words.run [.field ⟨1, 0, .known .u64, "a", 2 ^ 61, ""⟩]).map Words.Progress.layout
        = .error (.tooWide 1 "a") := by
  have hfits : ∀ row ∈ [Row.field ⟨1, 0, .known .u64, "a", 2 ^ 61, ""⟩], row.Fits := by
    intro row hrow
    obtain rfl := List.mem_singleton.mp hrow
    exact ⟨by decide, by decide, by decide⟩
  exact ⟨hfits, ((ofRows_ignore_law _).2.2 hfits).trans (by decide)⟩

end Layout

end PackedRecord
