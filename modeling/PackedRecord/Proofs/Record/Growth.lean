import PackedRecord.Proofs.Layout.Admission
import PackedRecord.Proofs.Layout.Reckoning
import PackedRecord.Proofs.Record.RoundTrip

/-! # Growth — rows appended to a record

    A record format grows by new rows at the end of its table.  The builder
    goes through the rows once, and what it carries along, the width and the
    names so far, can be told from the items that it has made
    (`itemsFrom_append`).  So the layout of the rows before is where the layout
    of all rows starts, and what is found, reckoned and decoded from front to
    back starts the same. -/

namespace PackedRecord

namespace Layout

open Table (Row)

/-! ## The builder's walk in two parts -/

/-- The names of the entries among the items, the last one first. -/
def namesUsed (items : List Item) : List String :=
  ((entriesOf items).map (·.name)).reverse

/-- A name that is used counts as taken for what follows. -/
theorem namesUsed_entry (e : Entry) (items : List Item) (taken : List String) :
    namesUsed (.entry e :: items) ++ taken = namesUsed items ++ e.name :: taken := by
  show (e.name :: (entriesOf items).map (·.name)).reverse ++ taken = _
  rw [List.reverse_cons, List.append_assoc]
  rfl

private theorem itemsFrom_comment (start : Nat) (taken : List String) (line : Nat) (text : String)
    (rows : List Row) :
    itemsFrom start taken (.comment line text :: rows)
      = (itemsFrom start taken rows).map (.comment line text :: ·) := by
  rw [itemsFrom]
  cases itemsFrom start taken rows <;> rfl

/-- An item in front of others is in front of what follows them. -/
private theorem map_cons_append (item : Item) (items : List Item)
    (x : Except LayoutError (List Item)) :
    (x.map (items ++ ·)).map (item :: ·) = x.map (item :: items ++ ·) := by
  cases x <;> rfl

/-- Rows behind others are placed behind their bytes and their names. -/
theorem itemsFrom_append (rows rows' : List Row) :
    ∀ (start : Nat) (taken : List String),
      itemsFrom start taken (rows ++ rows')
        = itemsFrom start taken rows >>= fun items =>
            (itemsFrom (start + bytesOfEntries (entriesOf items)) (namesUsed items ++ taken)
              rows').map (items ++ ·) := by
  induction rows with
  | nil =>
      intro start taken
      show itemsFrom start taken rows' = (itemsFrom start taken rows').map _
      cases itemsFrom start taken rows' <;> rfl
  | cons row rows ih =>
      intro start taken
      cases row with
      | blank => exact ih start taken
      | comment line text =>
          rw [List.cons_append, itemsFrom_comment, itemsFrom_comment, ih]
          cases itemsFrom start taken rows with
          | error err => rfl
          | ok items => exact map_cons_append _ items _
      | field f =>
          rw [List.cons_append, itemsFrom_field, itemsFrom_field]
          cases hentry : nextEntry start taken f with
          | error err => rfl
          | ok e =>
              obtain ⟨-, kind, -, rfl⟩ := nextEntry_eq_ok_iff.mp hentry
              show (itemsFrom (entryOf start kind f).stop _ (rows ++ rows')).map _
                = (itemsFrom (entryOf start kind f).stop _ rows).map _ >>= _
              rw [ih]
              cases itemsFrom (entryOf start kind f).stop ((entryOf start kind f).name :: taken)
                  rows with
              | error err => rfl
              | ok items =>
                  -- the entry's bytes and its name are those of one more item
                  have hbytes : start + bytesOfEntries (entriesOf (.entry (entryOf start kind f) :: items))
                      = (entryOf start kind f).stop + bytesOfEntries (entriesOf items) :=
                    (Nat.add_assoc start _ _).symm
                  show _ = Except.map _ (itemsFrom (start + _) _ rows')
                  rw [hbytes, namesUsed_entry]
                  exact map_cons_append _ items _

/-! ## Layouts that go on -/

/-- The layout starts as the other one does, and so does what comes of it. -/
structure Continues (first layout : Layout) : Prop where
  items : first.items <+: layout.items
  width : first.width ≤ layout.width
  findings : first.findings <+: layout.findings
  fields : ∀ (order : ByteOrder) (bytes : Array UInt8), layout.width ≤ bytes.size →
    ∃ fields fields', Codec.decode ⟨first, order⟩ bytes = .ok fields
      ∧ Codec.decode ⟨layout, order⟩ bytes = .ok fields' ∧ fields <+: fields'

/-- Items in front bring their own entries in front. -/
theorem entries_prefix {first layout : Layout} (h : first.items <+: layout.items) :
    first.entries <+: layout.entries :=
  h.filterMap Item.entry?

/-- Everything goes from front to back, so that it is enough if the items do. -/
theorem continues_of_items {first layout : Layout} (hfirst : Packed first)
    (hlayout : Packed layout) (h : first.items <+: layout.items) : Continues first layout := by
  obtain ⟨more, hmore⟩ := entries_prefix h
  have hwidth : first.width ≤ layout.width := by
    show bytesOfEntries first.entries ≤ bytesOfEntries layout.entries
    rw [← hmore, bytesOfEntries_append]
    exact Nat.le_add_right _ _
  refine ⟨h, hwidth, ?_, ?_⟩
  · show findingsFrom 0 none first.entries <+: findingsFrom 0 none layout.entries
    rw [← hmore, findingsFrom_append]
    exact List.prefix_append _ _
  · intro order bytes hsize
    refine ⟨_, _, Codec.decode_eq hfirst order (hwidth.trans hsize),
      Codec.decode_eq hlayout order hsize, ?_⟩
    rw [← hmore, List.map_append]
    exact List.prefix_append _ _

/-- **APPENDING ROWS DISTURBS NOTHING**, where offsets are not enforced.  Rows
    that are refused are refused for the same reason with any rows behind them;
    and if rows are placed together with others behind them, they are placed on
    their own, as a layout that the larger one continues: item by item and
    finding by finding, and field by field in every buffer that holds the
    larger record. -/
theorem ofRows_append_law {policy : OffsetPolicy} (hpolicy : policy ≠ .strict)
    (rows rows' : List Row) :
    (∀ err, ofRows rows policy = .error err → ofRows (rows ++ rows') policy = .error err)
      ∧ ∀ layout, ofRows (rows ++ rows') policy = .ok layout →
          ∃ first, ofRows rows policy = .ok first ∧ Continues first layout := by
  have happend := itemsFrom_append rows rows' 0 []
  constructor
  · intro err h
    rw [ofRows_lax hpolicy, Outcome.map_eq_error_iff] at h
    rw [ofRows_lax hpolicy, happend, h]
    rfl
  · intro layout h
    have hlayout := packed_of_ofRows h
    have hitems := itemsFrom_of_ofRows h
    rw [happend] at hitems
    obtain ⟨items, hfirst, hmore⟩ := Outcome.of_bind_ok hitems
    obtain ⟨more, -, hsplit⟩ := Outcome.of_map_ok hmore
    have hbuilt : ofRows rows policy = .ok ⟨items⟩ := by
      rw [ofRows_lax hpolicy, hfirst]
      rfl
    exact ⟨⟨items⟩, hbuilt, continues_of_items (packed_of_ofRows hbuilt) hlayout ⟨more, hsplit⟩⟩

/-- Behind a tag come a comment and a number that leaves a gap; and an array of
    no elements is refused, even where a field behind it is at fault as well. -/
theorem ofRows_append_law_versions :
    (∃ first, ofRows [.field ⟨1, 0, .known .u8, "tag", 1, ""⟩] .warn = .ok first
        ∧ Continues first ⟨[.entry ⟨1, 0, 0, .u8, "tag", 1, ""⟩, .comment 2 "since version 2",
            .entry ⟨3, 4, 1, .u32, "crc", 1, ""⟩]⟩)
      ∧ ofRows ([.field ⟨1, 0, .known .u8, "tag", 0, ""⟩]
            ++ [.field ⟨2, 0, .unknown "i8", "tag", 1, ""⟩]) .ignore
        = .error (.nonPositiveCount 1 "tag" 0) :=
  ⟨(ofRows_append_law (by decide) [.field ⟨1, 0, .known .u8, "tag", 1, ""⟩]
      [.comment 2 "since version 2", .field ⟨3, 4, .known .u32, "crc", 1, ""⟩]).2 _ (by decide),
    (ofRows_append_law (by decide) _ _).1 _ (by decide)⟩

end Layout

end PackedRecord
