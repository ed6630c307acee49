import PackedRecord.Proofs.Record.ValueText
import PackedRecord.Record.Dump

/-! # Dumping — records as text that loses nothing

    A dump has a line for each field.  Two records of one layout have the same
    names and ranges, so that their dumps differ only in the texts of values;
    and these tell the bytes that they come from (`text_valueOf_inj`).  No line
    can be taken for two, because all that is on a line is printable. -/

namespace PackedRecord

open Layout (Entry Packed FieldName NameChar)
open Text (isPrintableAscii every_append)

/-! ## Lines -/

theorem isPrintableAscii_of_between {low high c : Char} (hlow : isPrintableAscii low = true)
    (hhigh : isPrintableAscii high = true) (h : low ≤ c ∧ c ≤ high) :
    isPrintableAscii c = true := by
  have hleft : low.toNat ≤ c.toNat := h.1
  have hright : c.toNat ≤ high.toNat := h.2
  simp only [isPrintableAscii, Bool.and_eq_true, decide_eq_true_eq] at hlow hhigh ⊢
  exact ⟨hlow.1.trans hleft, hright.trans hhigh.2⟩

/-- Names are printable. -/
theorem isPrintableAscii_of_nameChar {c : Char} (h : NameChar c) : isPrintableAscii c = true := by
  rcases h with (hupper | hlower | rfl) | hdigit
  · exact isPrintableAscii_of_between (by decide) (by decide) hupper
  · exact isPrintableAscii_of_between (by decide) (by decide) hlower
  · decide
  · exact isPrintableAscii_of_between (by decide) (by decide) hdigit

theorem shown_name {name : String} (h : FieldName name) : Shown name := by
  obtain ⟨⟨c, rest, hname, hstart, hrest⟩, -⟩ := h
  intro d hd
  rw [hname] at hd
  rcases List.mem_cons.mp hd with rfl | hd
  · exact isPrintableAscii_of_nameChar (Or.inl hstart)
  · exact isPrintableAscii_of_nameChar (hrest d hd)

namespace Dump

/-- A line is printable if its name is, so that it stays one line. -/
theorem shown_line (width : Nat) {f : RecordField} (h : Shown f.name) : Shown (line width f) := by
  have hpadded : Shown (padded width f.name) := every_append h (shown_spaces _)
  have hvalue : Shown (padded width f.name ++ " = " ++ f.value.text) :=
    every_append (every_append hpadded (by decide)) f.value.shown_text
  have hstart : Shown (padded width f.name ++ " = " ++ f.value.text ++ "  [" ++ toString f.start) :=
    every_append (every_append hvalue (by decide)) (shown_toString f.start)
  exact every_append (every_append (every_append hstart (by decide)) (shown_toString f.stop))
    (by decide)

/-- Between the same names and the same ranges, lines differ in their values
    only. -/
theorem text_eq_of_line_eq {width : Nat} (f f' : RecordField) (hname : f.name = f'.name)
    (hstart : f.start = f'.start) (hstop : f.stop = f'.stop) (h : line width f = line width f') :
    f.value.text = f'.value.text := by
  rw [line, line, hname, hstart, hstop] at h
  simpa only [String.append_left_inj, String.append_right_inj] using h

/-- A dump is cut into the lines that it was made from. -/
theorem splitOn_text {fields : List RecordField} (hne : fields ≠ [])
    (h : ∀ f ∈ fields, Shown f.name) :
    (text fields).toList.splitOn '\n'
      = fields.map fun f => (line (nameWidth fields) f).toList := by
  have hlines : ∀ text ∈ fields.map (line (nameWidth fields)), '\n' ∉ text.toList := by
    intro text htext
    obtain ⟨f, hf, rfl⟩ := List.mem_map.mp htext
    exact (shown_line _ (h f hf)).not_mem (by decide)
  rw [text, Text.splitOn_toList_intercalate rfl (by simpa using hne) hlines, List.map_map]
  rfl

/-- The line of an entry: its name, padded, the value of its field, and its
    packed range. -/
def IsLineOf (fields : List RecordField) (e : Entry) (piece : List Char) : Prop :=
  ∃ f ∈ fields, f.name = e.name ∧ ∃ padding,
    piece = (e.name ++ Text.spaces padding ++ " = " ++ f.value.text
      ++ "  [" ++ toString e.start ++ ".." ++ toString e.stop ++ ")").toList

end Dump

/-! ## Dumps of one layout -/

namespace Codec

variable {layout : Layout} {order : ByteOrder}

theorem shown_name_of_mem_fieldsIn (h : Packed layout) (bytes : List UInt8) :
    ∀ f ∈ layout.entries.map (fieldIn order bytes), Shown f.name := by
  intro f hf
  obtain ⟨e, he, rfl⟩ := List.mem_map.mp hf
  exact shown_name (h.sound e he).name

/-- Names are padded alike, whatever the bytes are. -/
theorem nameWidth_fieldsIn (order : ByteOrder) (entries : List Entry) (bytes bytes' : List UInt8) :
    Dump.nameWidth (entries.map (fieldIn order bytes))
      = Dump.nameWidth (entries.map (fieldIn order bytes')) := by
  rw [Dump.nameWidth, Dump.nameWidth, List.map_map, List.map_map]
  rfl

/-- **DUMPS TELL RECORDS APART**: if two dumps are the same, then so are the
    records. -/
theorem extract_eq_of_text_eq (h : Packed layout) {bytes bytes' : Array UInt8}
    (hsize : layout.width ≤ bytes.size) (hsize' : layout.width ≤ bytes'.size)
    (htext : Dump.text (layout.entries.map (fieldIn order bytes.toList))
      = Dump.text (layout.entries.map (fieldIn order bytes'.toList))) :
    bytes.extract 0 layout.width = bytes'.extract 0 layout.width := by
  have hslices : layout.entries.map (fun e => slice bytes.toList e.start e.size)
      = layout.entries.map fun e => slice bytes'.toList e.start e.size := by
    by_cases hne : layout.entries = []
    · rw [hne]
      rfl
    · have hlines := congrArg (fun text : String => text.toList.splitOn '\n') htext
      rw [Dump.splitOn_text (by simpa using hne) (shown_name_of_mem_fieldsIn h _),
        Dump.splitOn_text (by simpa using hne) (shown_name_of_mem_fieldsIn h _),
        nameWidth_fieldsIn order layout.entries bytes.toList bytes'.toList, List.map_map,
        List.map_map] at hlines
      refine List.map_congr_left fun e he => ?_
      have hline := String.toList_inj.mp (List.map_inj_left.mp hlines e he)
      have hvalue := Dump.text_eq_of_line_eq (fieldIn order bytes.toList e)
        (fieldIn order bytes'.toList e) rfl rfl rfl hline
      have hstop : e.start + e.size ≤ layout.width := h.stop_le he
      exact Layout.Entry.text_valueOf_inj (h.sound e he).count_pos
        (length_slice (hstop.trans hsize)) (length_slice (hstop.trans hsize')) hvalue
  apply Array.toList_inj.mp
  rw [← flatten_slices_entries h hsize, ← flatten_slices_entries h hsize', hslices]

/-- Decoding looks at nothing but the record. -/
theorem decode_congr (order : ByteOrder) {bytes bytes' : Array UInt8}
    (hsize : layout.width ≤ bytes.size) (hsize' : layout.width ≤ bytes'.size)
    (h : bytes.extract 0 layout.width = bytes'.extract 0 layout.width) :
    decode ⟨layout, order⟩ bytes = decode ⟨layout, order⟩ bytes' := by
  show (if bytes.size < layout.width then _ else _) = if bytes'.size < layout.width then _ else _
  rw [if_neg (by omega), if_neg (by omega)]
  simp only
  rw [h]

/-- A dump has a line for each entry, in their order. -/
theorem forall₂_isLineOf (h : Packed layout) (hne : layout.entries ≠ []) (bytes : List UInt8) :
    List.Forall₂ (Dump.IsLineOf (layout.entries.map (fieldIn order bytes))) layout.entries
      ((Dump.text (layout.entries.map (fieldIn order bytes))).toList.splitOn '\n') := by
  rw [Dump.splitOn_text (by simpa using hne) (shown_name_of_mem_fieldsIn h bytes), List.map_map,
    List.forall₂_map_right_iff, List.forall₂_same]
  intro e he
  exact ⟨fieldIn order bytes e, List.mem_map_of_mem he, rfl, _, rfl⟩

end Codec

end PackedRecord
