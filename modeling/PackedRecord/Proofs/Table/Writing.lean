import PackedRecord.Proofs.Layout.Words
import PackedRecord.Proofs.Table.PlainReading
import PackedRecord.Proofs.Text.Blanks
import PackedRecord.Proofs.Text.Digits

/-! # Writing tables — every list of rows has a text

    A row is written cell by cell, and a table row by row.  What is written is
    read back, whatever names and texts the rows hold, as long as no cell holds
    a separator or has blanks at its ends: cells and lines are found again
    (`cells_text`), and each of them is read as what was written
    (`readRow_cellTexts`).  Rows say neither how an offset is marked nor how a
    type is spelled, so that there is more than one text of a table. -/

namespace PackedRecord.Table

open Text (trim isBlank digitChars Every every_append)

/-! ## The text of a table -/

/-- What may stand before a hexadecimal number. -/
inductive RadixMark
  | none
  | lower
  | upper
  deriving DecidableEq, Repr

def RadixMark.text : RadixMark → String
  | none => ""
  | lower => "0x"
  | upper => "0X"

/-- What a row leaves open about its text. -/
structure Style where
  mark : RadixMark
  spelling : String
  deriving DecidableEq, Repr

namespace Row

/-- What stands in the cells of a row. -/
def cellTexts (style : Style) : Row → List String
  | blank => [""]
  | comment _ text => ["", "", "", text]
  | field f =>
      [style.mark.text ++ Text.hex f.offset, style.spelling,
        f.name ++ "[" ++ toString f.count ++ "]", f.description]

/-- The row as a line: its cells with tabs between them. -/
def text (style : Style) (row : Row) : String :=
  "\t".intercalate (row.cellTexts style)

/-- The same row on another line. -/
def onLine (line : Nat) : Row → Row
  | blank => blank
  | comment _ text => comment line text
  | field f => field { f with line }

end Row

/-- The rows as a table, each with its style, and line feeds between them. -/
def tableText (rows : List (Style × Row)) : String :=
  "\n".intercalate (rows.map fun r => r.2.text r.1)

/-- The rows on the lines from the first one on. -/
def numbered (rows : List Row) : List Row :=
  (rows.zipIdx 1).map fun (row, line) => row.onLine line

/-! ## What can be written -/

/-- A character that separates nothing. -/
def isCellChar (c : Char) : Bool :=
  c ≠ '\t' && c ≠ '\n'

/-- A text that a cell keeps as it is. -/
structure CellText (text : String) : Prop where
  inside : Every isCellChar text
  trimmed : trim text.toList = text.toList

/-- What a field has to satisfy to be read back.  Any spelling of its type will
    do; a name may hold all that separates nothing, but no opening bracket. -/
structure Field.Writable (style : Style) (f : Field) : Prop where
  fits : (Row.field f).Fits
  spelled : ∃ kind, f.type = .known kind ∧ Scalar.Kind.ofSpelling? style.spelling = some kind
  spelling : Every isCellChar style.spelling
  name : CellText f.name
  named : f.name ≠ ""
  free : '[' ∉ f.name.toList
  description : CellText f.description

def Row.Writable (style : Style) : Row → Prop
  | .blank => True
  | .comment _ text => CellText text ∧ text ≠ ""
  | .field f => f.Writable style

/-- Every spelling of a kind that is listed will do. -/
theorem spelled_of_mem_spellings {kind : Scalar.Kind} {spelling : String}
    (h : spelling ∈ kind.spellings) :
    Scalar.Kind.ofSpelling? spelling = some kind ∧ Every isCellChar spelling := by
  have hall : ∀ s ∈ kind.spellings,
      Scalar.Kind.ofSpelling? s = some kind ∧ Every isCellChar s := by
    cases kind <;> decide
  exact hall spelling h

/-! ## Cells and lines -/

theorem isCellChar_of_mem_digitChars : ∀ c ∈ digitChars, isCellChar c = true := by
  simp [digitChars, isCellChar]

/-- No separator stands in a cell that is written. -/
theorem every_isCellChar_cellTexts {style : Style} {row : Row} (h : row.Writable style) :
    ∀ cell ∈ row.cellTexts style, Every isCellChar cell := by
  have hempty : Every isCellChar "" := by decide
  cases row with
  | blank => exact List.forall_mem_singleton.mpr hempty
  | comment line text =>
      simp only [Row.cellTexts, List.forall_mem_cons]
      exact ⟨hempty, hempty, hempty, h.1.inside, List.forall_mem_nil _⟩
  | field f =>
      have hmark : Every isCellChar style.mark.text := by
        cases style.mark <;> decide
      have hoffset := every_append hmark (Text.every_hex isCellChar_of_mem_digitChars f.offset)
      have hcount := Text.every_toString_int (by decide) isCellChar_of_mem_digitChars f.count
      have hnamed : Every isCellChar (f.name ++ "[" ++ toString f.count ++ "]") :=
        every_append (every_append (every_append h.name.inside (by decide)) hcount) (by decide)
      simp only [Row.cellTexts, List.forall_mem_cons]
      exact ⟨hoffset, h.spelling, hnamed, h.description.inside, List.forall_mem_nil _⟩

theorem cellTexts_ne_nil (style : Style) (row : Row) : row.cellTexts style ≠ [] := by
  cases row <;> exact List.cons_ne_nil _ _

/-- A line is cut into the cells that were written. -/
theorem cells_text {style : Style} {row : Row} (h : row.Writable style) :
    cells (row.text style).toList = (row.cellTexts style).map fun cell => trim cell.toList := by
  have htab : ∀ cell ∈ row.cellTexts style, '\t' ∉ cell.toList := fun cell hcell =>
    (every_isCellChar_cellTexts h cell hcell).not_mem (by decide)
  rw [cells, Text.splitAt_eq_splitOn, Row.text,
    Text.splitOn_toList_intercalate rfl (cellTexts_ne_nil style row) htab, List.map_map]
  rfl

/-- A row is written on one line. -/
theorem newline_not_mem_text {style : Style} {row : Row} (h : row.Writable style) :
    '\n' ∉ (row.text style).toList := by
  intro hmem
  rw [Row.text, String.toList_intercalate] at hmem
  rcases Text.mem_of_mem_intercalate hmem with htab | ⟨cell, hcell, hc⟩
  · exact absurd htab (by decide)
  · obtain ⟨text, htext, rfl⟩ := List.mem_map.mp hcell
    exact (every_isCellChar_cellTexts h text htext).not_mem (by decide) hc

/-- A table is cut into the lines that were written. -/
theorem splitAt_tableText {rows : List (Style × Row)} (hne : rows ≠ [])
    (h : ∀ r ∈ rows, r.2.Writable r.1) :
    Text.splitAt '\n' (tableText rows).toList = rows.map fun r => (r.2.text r.1).toList := by
  have hnewline : ∀ line ∈ rows.map fun r => r.2.text r.1, '\n' ∉ line.toList := by
    intro line hline
    obtain ⟨r, hr, rfl⟩ := List.mem_map.mp hline
    exact newline_not_mem_text (h r hr)
  rw [Text.splitAt_eq_splitOn, tableText,
    Text.splitOn_toList_intercalate rfl (by simpa using hne) hnewline, List.map_map]
  rfl

/-! ## Reading cells -/

theorem not_isBlank_of_mem_digitChars : ∀ c ∈ digitChars, (!isBlank c) = true := by
  simp [digitChars, isBlank, Text.inRanges, Text.blankRanges]

theorem trim_of_every {text : String} (h : Every (fun c => !isBlank c) text) :
    trim text.toList = text.toList :=
  Text.trim_of_forall_not_blank fun c hc => by simpa using h c hc

/-- Whatever mark an offset has, its digits are left. -/
theorem stripRadix_mark (mark : RadixMark) (n : Nat) :
    stripRadix (mark.text ++ Text.hex n).toList = Nat.toDigits 16 n := by
  have hletter : ∀ c : Char, c ∉ digitChars → c ∉ Nat.toDigits 16 n := fun c hc =>
    Text.not_mem_toDigits hc (by decide) (by decide)
  rw [String.toList_append, Text.hex, String.toList_ofList]
  cases mark with
  | none =>
      show stripRadix (Nat.toDigits 16 n) = _
      unfold stripRadix
      split
      · next hx => exact absurd (hx ▸ by simp) (hletter 'x' (by decide))
      · next hx => exact absurd (hx ▸ by simp) (hletter 'X' (by decide))
      · rfl
  | lower => rfl
  | upper => rfl

/-- An offset is read back under every mark. -/
theorem readOffset_mark (line : Nat) (mark : RadixMark) {n : Nat} (h : n < 2 ^ 64) :
    readOffset line (trim (mark.text ++ Text.hex n).toList) = .ok n := by
  have hmark : Every (fun c => !isBlank c) mark.text := by
    cases mark <;> decide
  have hread : Text.readNat 16 Text.bound64 (Nat.toDigits 16 n) = .ok n :=
    Text.readNat_toDigits (by decide) (by decide) h
  rw [trim_of_every (every_append hmark (Text.every_hex not_isBlank_of_mem_digitChars n)),
    readOffset, stripRadix_mark, hread]

/-- A name without brackets is cut off in front of its count. -/
theorem splitCount_append {name inside : List Char} (hname : '[' ∉ name) (hinside : ']' ∉ inside) :
    splitCount (name ++ '[' :: (inside ++ [']'])) = (name, some inside) := by
  induction name with
  | nil =>
      have hall : ∀ c ∈ inside, decide (c ≠ ']') = true := by
        intro c hc
        exact decide_eq_true fun heq => hinside (heq ▸ hc)
      have hbracketed : bracketed? ('[' :: (inside ++ [']'])) = some inside := by
        rw [Grammar.bracketed?_cons, List.dropWhile_append_of_pos hall,
          List.takeWhile_append_of_pos hall]
        simp
      rw [List.nil_append, splitCount, hbracketed]
  | cons c rest ih =>
      obtain ⟨hc, hrest⟩ := not_or.mp (List.mem_cons.not.mp hname)
      have hnone : bracketed? (c :: (rest ++ '[' :: (inside ++ [']']))) = none :=
        Grammar.bracketed?_of_head_ne fun hhead => hc (Option.some.inj hhead).symm
      rw [List.cons_append, splitCount, hnone, ih hrest]
      rfl

/-- A name and its count have no blanks at their ends. -/
theorem trim_nameCell {name : String} (hname : CellText name) (hne : name ≠ "") (count : Int) :
    trim (name ++ "[" ++ toString count ++ "]").toList
      = name.toList ++ '[' :: ((toString count).toList ++ [']']) := by
  have hcell : (name ++ "[" ++ toString count ++ "]").toList
      = name.toList ++ '[' :: ((toString count).toList ++ [']']) := by
    simp
  obtain ⟨c, rest, hlist⟩ := List.exists_cons_of_ne_nil (String.toList_eq_nil_iff.not.mpr hne)
  have hhead : isBlank c = false := by
    have htrimmed := hname.trimmed
    rw [hlist] at htrimmed
    exact Text.isBlank_head_of_trim htrimmed
  rw [hcell]
  refine Text.trim_eq_self ?_ ?_
  · rw [hlist]
    simpa using hhead
  · rw [← List.cons_append, ← List.append_assoc, List.getLast?_concat]
    intro c hc
    rw [← Option.mem_some.mp hc]
    decide

/-- A name is read back with its count. -/
theorem readName_written (line : Nat) {name : String} {count : Int} (hname : CellText name)
    (hne : name ≠ "") (hfree : '[' ∉ name.toList) (hlow : -2 ^ 63 ≤ count)
    (hhigh : count < 2 ^ 63) :
    readName line (trim (name ++ "[" ++ toString count ++ "]").toList) = .ok (name, count) := by
  have hdigits : Every (fun c => !isBlank c) (toString count) :=
    Text.every_toString_int (by decide) not_isBlank_of_mem_digitChars count
  have hbracket : ']' ∉ (toString count).toList := by
    have hother : Every (· ≠ ']') (toString count) :=
      Text.every_toString_int (by decide) (by simp [digitChars]) count
    exact hother.not_mem (by decide)
  have hread : Text.readInt (1 <<< 63) (toString count).toList = .ok count :=
    Text.readInt_toString hlow hhigh
  rw [trim_nameCell hname hne, readName, splitCount_append hfree hbracket]
  simp only
  rw [trim_of_every hdigits, hread, hname.trimmed, String.ofList_toList]

/-- Blanks around a spelling do not matter. -/
theorem ofSpelling_trim {spelling : String} {kind : Scalar.Kind}
    (h : Scalar.Kind.ofSpelling? spelling = some kind) :
    TypeRef.ofSpelling (String.ofList (trim spelling.toList)) = .known kind := by
  have htrim : Scalar.Kind.ofSpelling? (String.ofList (trim spelling.toList)) = some kind := by
    rw [Scalar.Kind.ofSpelling?, String.toList_ofList, Text.collapse_trim]
    exact h
  rw [TypeRef.ofSpelling, htrim]

/-- The fourth cell of a line is its description. -/
theorem description_of_four (a b c : List Char) {text : String} (h : CellText text) :
    description [a, b, c, trim text.toList] = text := by
  have hspaced : Text.spaced [text.toList] = text.toList := by
    by_cases hnil : text.toList = []
    · rw [hnil]
      rfl
    · rw [Text.spaced, List.filter_cons_of_pos (by simpa using hnil)]
      exact List.intercalate_singleton
  rw [description, h.trimmed]
  show String.ofList (Text.spaced [text.toList]) = text
  rw [hspaced, String.ofList_toList]

/-! ## Reading rows -/

/-- A field is read back from its cells, with the number of its line. -/
theorem readField_written (line : Nat) {style : Style} {f : Field}
    (h : f.Writable style) :
    readField line (trim (style.mark.text ++ Text.hex f.offset).toList)
        (trim style.spelling.toList) (trim (f.name ++ "[" ++ toString f.count ++ "]").toList)
        (((Row.field f).cellTexts style).map fun cell => trim cell.toList)
      = .ok { f with line } := by
  obtain ⟨hoffset, hlow, hhigh⟩ := h.fits
  obtain ⟨kind, htype, hspelling⟩ := h.spelled
  have htexts : description (((Row.field f).cellTexts style).map fun cell => trim cell.toList)
      = f.description := description_of_four _ _ _ h.description
  rw [readField, readOffset_mark line style.mark hoffset,
    readName_written line h.name h.named h.free hlow hhigh, htexts, ofSpelling_trim hspelling]
  obtain ⟨number, offset, type, name, count, text⟩ := f
  obtain rfl : type = .known kind := htype
  rfl

/-- **ROWS ARE READ BACK** from their cells, whatever their style. -/
theorem readRow_cellTexts (line : Nat) {style : Style} {row : Row} (h : row.Writable style) :
    readRow line ((row.cellTexts style).map fun cell => trim cell.toList)
      = .ok (row.onLine line) := by
  cases row with
  | blank => rfl
  | comment number text =>
      obtain ⟨htext, hne⟩ := h
      have hremark : description [trim [], trim [], trim [], trim text.toList] = text :=
        description_of_four _ _ _ htext
      show Except.ok (commentRow line
        (description [trim [], trim [], trim [], trim text.toList])) = _
      rw [hremark, commentRow, if_neg hne]
      rfl
  | field f =>
      have hcell : trim (f.name ++ "[" ++ toString f.count ++ "]").toList ≠ [] := by
        rw [trim_nameCell h.name h.named]
        exact List.append_ne_nil_of_right_ne_nil _ (List.cons_ne_nil _ _)
      show (if _ then _ else _) = _
      rw [if_neg hcell, readField_written line h]
      rfl

/-- **TABLES ARE READ AS THEY WERE WRITTEN**: the rows that are written are read
    back, in their order, each on its line, however offsets are marked and
    types are spelled. -/
theorem read_tableText {rows : List (Style × Row)} (hne : rows ≠ [])
    (h : ∀ r ∈ rows, r.2.Writable r.1) :
    read (tableText rows) = .ok (numbered (rows.map Prod.snd)) := by
  have hline : ∀ item ∈ rows.zipIdx 1,
      readRow item.2 (cells (item.1.2.text item.1.1).toList)
        = (pure (item.1.2.onLine item.2) : Except ReadError Row) := by
    intro item hitem
    have hwritable := h item.1 (List.fst_mem_of_mem_zipIdx hitem)
    rw [cells_text hwritable]
    exact readRow_cellTexts item.2 hwritable
  rw [read, splitAt_tableText hne h, List.zipIdx_map, List.mapM_map, numbered, List.zipIdx_map,
    List.map_map]
  exact Outcome.mapM_eq_pure hline

/-- The largest offset, the least count, brackets in a description and one in a
    name, and no line feed at the end. -/
theorem read_tableText_extreme :
    tableText
        [(⟨.upper, "uchar"⟩,
            .field ⟨0, 18446744073709551615, .known .u8, "my tag", -9223372036854775808, "a [b]"⟩),
          (⟨.none, ""⟩, .blank), (⟨.none, ""⟩, .comment 0 "Tail"),
          (⟨.none, "le16"⟩, .field ⟨0, 10, .known .u16, "n]", 2, ""⟩)]
        = "0Xffffffffffffffff\tuchar\tmy tag[-9223372036854775808]\ta [b]\n\n\t\t\tTail\na\tle16\tn][2]\t"
      ∧ read "0Xffffffffffffffff\tuchar\tmy tag[-9223372036854775808]\ta [b]\n\n\t\t\tTail\na\tle16\tn][2]\t"
        = .ok
          [.field ⟨1, 18446744073709551615, .known .u8, "my tag", -9223372036854775808, "a [b]"⟩,
            .blank, .comment 3 "Tail", .field ⟨4, 10, .known .u16, "n]", 2, ""⟩] := by
  have htext : tableText
        [(⟨.upper, "uchar"⟩,
            .field ⟨0, 18446744073709551615, .known .u8, "my tag", -9223372036854775808, "a [b]"⟩),
          (⟨.none, ""⟩, .blank), (⟨.none, ""⟩, .comment 0 "Tail"),
          (⟨.none, "le16"⟩, .field ⟨0, 10, .known .u16, "n]", 2, ""⟩)]
      = "0Xffffffffffffffff\tuchar\tmy tag[-9223372036854775808]\ta [b]\n\n\t\t\tTail\na\tle16\tn][2]\t" := by
    decide +kernel
  obtain ⟨hbyte, hbyteChars⟩ : _ ∧ Every isCellChar "uchar" :=
    spelled_of_mem_spellings (by decide : "uchar" ∈ Scalar.Kind.u8.spellings)
  obtain ⟨hword, hwordChars⟩ : _ ∧ Every isCellChar "le16" :=
    spelled_of_mem_spellings (by decide : "le16" ∈ Scalar.Kind.u16.spellings)
  have htag : Field.Writable ⟨.upper, "uchar"⟩
      ⟨0, 18446744073709551615, .known .u8, "my tag", -9223372036854775808, "a [b]"⟩ :=
    { fits := ⟨by decide, by decide, by decide⟩
      spelled := ⟨.u8, rfl, hbyte⟩
      spelling := hbyteChars
      name := ⟨by decide, by decide⟩
      named := by decide
      free := by decide
      description := ⟨by decide, by decide⟩ }
  have hn : Field.Writable ⟨.none, "le16"⟩ ⟨0, 10, .known .u16, "n]", 2, ""⟩ :=
    { fits := ⟨by decide, by decide, by decide⟩
      spelled := ⟨.u16, rfl, hword⟩
      spelling := hwordChars
      name := ⟨by decide, by decide⟩
      named := by decide
      free := by decide
      description := ⟨by decide, by decide⟩ }
  have htail : CellText "Tail" := ⟨by decide, by decide⟩
  refine ⟨htext, ?_⟩
  rw [← htext]
  refine read_tableText (List.cons_ne_nil _ _) ?_
  simp only [List.forall_mem_cons]
  exact ⟨htag, True.intro, ⟨htail, by decide⟩, hn, List.forall_mem_nil _⟩

end PackedRecord.Table
