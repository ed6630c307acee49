import PackedRecord.Proofs.Record.Dumping
import PackedRecord.Proofs.Stages
import PackedRecord.Proofs.Tool.Files
import PackedRecord.Proofs.Tool.Starts

/-! # Showing — the window of a file that a dump is made from

    The dumper reads one window of its file: from the chosen byte on, as long
    as the record is.  If the window lies in the file, the record is printed,
    and otherwise nothing is.  What is printed tells the bytes of the window
    and depends on no other byte (`stdout_eq_iff`), so that it is the same for
    two files exactly if they agree there. -/

namespace PackedRecord.Tool.Show

open Layout (Packed)

/-! ## Windows -/

/-- The layout of the table and the content of the file that a run meets. -/
structure Choice.Meets (choice : Choice) (d : Directory) (layout : Layout) (content : ByteArray) :
    Prop where
  table : ∃ source : String, d.read choice.table = .ok source.toUTF8
    ∧ load source .warn = .ok layout
  binary : d.read choice.binary = .ok content

/-- The window of the record lies in the file. -/
def Choice.Fits (choice : Choice) (layout : Layout) (content : ByteArray) : Prop :=
  choice.start ≤ content.size ∧ layout.width ≤ content.size - choice.start

/-- The bytes from the start of the record on. -/
def Choice.record (choice : Choice) (content : ByteArray) : Array UInt8 :=
  content.data.extract choice.start content.size

/-- Two contents agree in the window of the record. -/
def Choice.Agree (choice : Choice) (layout : Layout) (content content' : ByteArray) : Prop :=
  ∀ k, choice.start ≤ k → k < choice.start + layout.width → content.data[k]? = content'.data[k]?

/-- What a run leaves behind: the record, if its window lies in the file, and
    otherwise a failure. -/
structure ShowsWindow (choice : Choice) (layout : Layout) (content : ByteArray) (o : Outcome) :
    Prop where
  status : o.status = 0 ↔ choice.Fits layout content
  printed : choice.Fits layout content → ∃ fields,
    (Codec.mk layout choice.order).decode (choice.record content) = .ok fields
      ∧ o.stdout = Dump.text fields ++ "\n"
  refused : ¬ choice.Fits layout content → o.status = 1 ∧ o.stdout = ""

section

variable {choice : Choice} {d d' : Directory} {layout : Layout} {content content' : ByteArray}

theorem Choice.Meets.packed (h : choice.Meets d layout content) : Packed layout := by
  obtain ⟨source, -, hload⟩ := h.table
  obtain ⟨rows, -, hrows⟩ := exists_rows_of_load hload
  exact Layout.packed_of_ofRows hrows

@[simp]
theorem size_record (choice : Choice) (content : ByteArray) :
    (choice.record content).size = content.size - choice.start := by
  simp [Choice.record]

/-- Once the table is loaded, what remains is to dump the record. -/
theorem Choice.Meets.result_showRecord (h : choice.Meets d layout content) :
    (showRecord choice d).result = dumpRecord choice layout d := by
  obtain ⟨source, hread, hload⟩ := h.table
  rw [showRecord, Directory.readText_eq_ok_iff.mpr hread]
  show ((load source .warn).mapError _).bind _ = _
  rw [hload]
  rfl

/-- The one way to a dump. -/
theorem Choice.Meets.dumpRecord_of_fits (h : choice.Meets d layout content)
    (hfits : choice.Fits layout content) :
    (Codec.mk layout choice.order).decode (choice.record content)
        = .ok (layout.entries.map (Codec.fieldIn choice.order (choice.record content).toList))
      ∧ dumpRecord choice layout d
        = .ok (Dump.text (layout.entries.map
            (Codec.fieldIn choice.order (choice.record content).toList)) ++ "\n") := by
  have hdecode := Codec.decode_eq h.packed choice.order
    (hfits.2.trans_eq (size_record choice content).symm)
  refine ⟨hdecode, ?_⟩
  rw [Choice.record] at hdecode
  simp only [dumpRecord, h.binary, Except.mapError, bind, Except.bind,
    if_neg (Nat.not_lt.mpr hfits.1), hdecode, Choice.record]

/-- Both ways to a failure: the start is behind the end of the file, or too
    little follows it. -/
theorem Choice.Meets.dumpRecord_of_not_fits (h : choice.Meets d layout content)
    (hfits : ¬ choice.Fits layout content) : ∃ failure, dumpRecord choice layout d = .error failure := by
  rw [dumpRecord, h.binary]
  show ∃ failure, (if content.size < choice.start then _ else _) = _
  by_cases hpast : content.size < choice.start
  · rw [if_pos hpast]
    exact ⟨_, rfl⟩
  · have hshort : (choice.record content).size < layout.width := by
      rw [size_record]
      exact Nat.not_le.mp fun hwidth => hfits ⟨Nat.not_lt.mp hpast, hwidth⟩
    have hdecode : (Codec.mk layout choice.order).decode (choice.record content) = .error _ :=
      if_pos hshort
    rw [if_neg hpast, ← Choice.record, hdecode]
    exact ⟨_, rfl⟩

/-- A window that lies in the file is decoded and printed. -/
theorem Choice.Meets.runChoice_of_fits (h : choice.Meets d layout content)
    (hfits : choice.Fits layout content) :
    (runChoice choice d).status = 0
      ∧ (runChoice choice d).stdout = Dump.text (layout.entries.map
          (Codec.fieldIn choice.order (choice.record content).toList)) ++ "\n" := by
  have hresult := h.result_showRecord.trans (h.dumpRecord_of_fits hfits).2
  simp only [runChoice, hresult, and_self]

/-- A window that does not lie in the file is not printed. -/
theorem Choice.Meets.runChoice_of_not_fits (h : choice.Meets d layout content)
    (hfits : ¬ choice.Fits layout content) :
    (runChoice choice d).status = 1 ∧ (runChoice choice d).stdout = "" := by
  obtain ⟨failure, hfailure⟩ := h.dumpRecord_of_not_fits hfits
  simp only [runChoice, h.result_showRecord, hfailure, and_self]

/-- **A RUN SHOWS ITS WINDOW**, if it meets a table and a file. -/
theorem Choice.Meets.showsWindow (h : choice.Meets d layout content) :
    ShowsWindow choice layout content (runChoice choice d) where
  status := by
    constructor
    · intro hstatus
      by_contra hfits
      rw [(h.runChoice_of_not_fits hfits).1] at hstatus
      exact nomatch hstatus
    · exact fun hfits => (h.runChoice_of_fits hfits).1
  printed := by
    intro hfits
    exact ⟨_, (h.dumpRecord_of_fits hfits).1, (h.runChoice_of_fits hfits).2⟩
  refused := h.runChoice_of_not_fits

/-! ## Two files -/

/-- Records are the same exactly if the windows are. -/
theorem agree_iff (hfits : choice.Fits layout content) (hfits' : choice.Fits layout content') :
    choice.Agree layout content content'
      ↔ (choice.record content).extract 0 layout.width
          = (choice.record content').extract 0 layout.width := by
  have hwindow : ∀ {content : ByteArray}, choice.Fits layout content →
      ((choice.record content).extract 0 layout.width).toList
        = slice content.data.toList choice.start layout.width := by
    rintro content ⟨hstart, hwidth⟩
    have hstop : min (choice.start + layout.width) content.size = choice.start + layout.width := by
      omega
    rw [Choice.record, Array.extract_extract, Nat.add_zero, hstop, toList_extract_eq_slice,
      Nat.add_sub_cancel_left]
  rw [← Array.toList_inj, hwindow hfits, hwindow hfits', slice_eq_slice_iff]
  simp only [Array.getElem?_toList]
  constructor
  · intro h i hi
    exact h (choice.start + i) (by omega) (by omega)
  · intro h k hstart hstop
    have hk : choice.start + (k - choice.start) = k := by omega
    rw [← hk]
    exact h (k - choice.start) (by omega)

/-- Two runs print the same exactly if the windows are the same. -/
theorem stdout_eq_iff (h : choice.Meets d layout content) (h' : choice.Meets d' layout content')
    (hfits : choice.Fits layout content) (hfits' : choice.Fits layout content') :
    (runChoice choice d).stdout = (runChoice choice d').stdout
      ↔ choice.Agree layout content content' := by
  have hsize : layout.width ≤ (choice.record content).size :=
    hfits.2.trans_eq (size_record choice content).symm
  have hsize' : layout.width ≤ (choice.record content').size :=
    hfits'.2.trans_eq (size_record choice content').symm
  rw [(h.runChoice_of_fits hfits).2, (h'.runChoice_of_fits hfits').2, String.append_left_inj,
    agree_iff hfits hfits']
  constructor
  · exact Codec.extract_eq_of_text_eq h.packed hsize hsize'
  · intro hrecord
    have hsame := Codec.decode_congr choice.order hsize hsize' hrecord
    rw [(h.dumpRecord_of_fits hfits).1, (h'.dumpRecord_of_fits hfits').1] at hsame
    rw [Except.ok.inj hsame]

end

/-- A directory with a table of one number and a file. -/
def oneNumber (content : List UInt8) : Directory where
  files := [(["t"], "0\tu16\ta\n".toUTF8), (["b"], ⟨content.toArray⟩)]

end PackedRecord.Tool.Show
