import PackedRecord.Proofs.Code.PrintedLines

/-! # Code lines — the lines of a program that are not for its reader

    Apart from the header, from its members and from one remark of its own, a
    program consists of code (`lines_eq`), a statement a line.  No such line
    breaks, as long as the name of the structure does not, and none begins like
    a comment: identifiers are words, and everything else is the program's. -/

namespace PackedRecord.Code

/-! ## Texts of code -/

theorem unbroken_toString (n : Nat) : Unbroken (toString n) :=
  Text.not_mem_toString (by simp [Text.digitChars]) n

/-- The name of a kind is one line of code. -/
theorem plainCode_name (kind : Scalar.Kind) : PlainCode kind.name := by
  cases kind <;> simp [Scalar.Kind.name]

/-- No line ends inside an index. -/
theorem Index.unbroken_text (a : Index) : Unbroken a.text := by
  induction a with
  | literal n => exact unbroken_toString n
  | element | start => simp [text]
  | add a b iha ihb | mul a b iha ihb => simp [text, iha, ihb]

theorem Index.unbroken_blockText (a : Index) : Unbroken a.blockText := by
  simp [blockText, a.unbroken_text]

/-- No line ends between the bytes of a number. -/
theorem unbroken_blockTexts (indices : List Index) :
    Unbroken (", ".intercalate (indices.map Index.blockText)) := by
  intro hmem
  rw [String.toList_intercalate] at hmem
  rcases Text.mem_of_mem_intercalate hmem with hmem | ⟨piece, hpiece, hmem⟩
  · simp at hmem
  · obtain ⟨text, htext, rfl⟩ := List.mem_map.mp hpiece
    obtain ⟨index, -, rfl⟩ := List.mem_map.mp htext
    exact index.unbroken_blockText hmem

/-- However long an expression is, it is printed on one line. -/
theorem Reading.unbroken_text (r : Reading) : Unbroken r.text := by
  induction r with
  | byte index => exact index.unbroken_blockText
  | word kind indices =>
      obtain ⟨-, hname⟩ := plainCode_name kind
      show Unbroken (kind.name ++ "::from_ne_bytes(["
        ++ ", ".intercalate (indices.map Index.blockText) ++ "])")
      simpa [hname] using unbroken_blockTexts indices
  | startingAt index body ih =>
      show Unbroken ("\x7b let at = " ++ index.text ++ "; " ++ body.text ++ " \x7d")
      simp [index.unbroken_text, ih]
  | forEach body ih =>
      show Unbroken ("core::array::from_fn(|i| " ++ body.text ++ ")")
      simp [ih]

/-- A word is one line of code, since it holds no slash, no space and no line
    feed. -/
theorem plainCode_of_isWord {word : String} (h : IsWord word) : PlainCode word := by
  refine ⟨?_, h.not_mem (by decide)⟩
  have hslash : '/' ∉ word.toList := h.not_mem (by decide)
  have hspace : ' ' ∉ word.toList := h.not_mem (by decide)
  rw [beginsPlain]
  cases hword : word.toList with
  | nil => exact absurd (String.toList_eq_nil_iff.mp hword) h.1
  | cons c rest =>
      rw [hword] at hslash hspace
      simp [Ne.symm (List.ne_of_not_mem_cons hslash), Ne.symm (List.ne_of_not_mem_cons hspace)]

/-- What stands behind a visibility may begin a line without one. -/
theorem plainCode_visibility {text : String} (h : PlainCode text) (visibility : Visibility) :
    PlainCode (visibility.text ++ text) := by
  cases visibility with
  | hidden => simpa [Visibility.text] using h
  | crateWide | exported => simp [Visibility.text, h.2]

theorem Place.unbroken_text {place : Place} (h : Unbroken place.ident) : Unbroken place.text := by
  cases place with
  | field ident =>
      have hident : Unbroken ident := h
      simp [text, hident]
  | element ident index =>
      have hident : Unbroken ident := h
      simpa [text, hident] using unbroken_toString index

/-- A conversion begins with its kind and breaks only where its identifier does. -/
theorem Conversion.plainCode_text {c : Conversion} (h : IsWord c.place.ident) :
    PlainCode c.text := by
  obtain ⟨-, hident⟩ := plainCode_of_isWord h
  have hplace := Place.unbroken_text hident
  obtain ⟨hbegin, hname⟩ := plainCode_name c.kind
  constructor
  · exact beginsPlain_append (beginsPlain_append (beginsPlain_append hbegin _) _) _
  · simp [text, hname, hplace]

/-! ## Lines of code -/

/-- Assignments are printed as lines of code. -/
theorem isCode_lines_assignment {a : Assignment} (h : a.Printable) :
    ∀ line ∈ a.lines, line.IsCode := by
  intro line hline
  cases a with
  | single ident c =>
      obtain ⟨hident, hc⟩ := h
      obtain ⟨-, hname⟩ := plainCode_of_isWord hident.isWord
      obtain ⟨-, hvalue⟩ := Conversion.plainCode_text hc.isWord
      obtain rfl := List.mem_singleton.mp hline
      simp [hname, hvalue]
  | array ident items =>
      obtain ⟨hident, hitems⟩ := h
      obtain ⟨-, hname⟩ := plainCode_of_isWord hident.isWord
      simp only [Assignment.lines, List.mem_append, List.mem_singleton, List.mem_map] at hline
      rcases hline with (rfl | ⟨c, hc, rfl⟩) | rfl
      · simp [hname]
      · have hcomma : Unbroken "," := by simp
        exact (Conversion.plainCode_text (hitems c hc).isWord).append hcomma
      · simp

namespace Program

section

variable {p : Program}

/-- The body of the constructor consists of lines of code. -/
theorem isCode_nativeLines (h : ∀ d ∈ p.declarations, Readable d) :
    ∀ line ∈ p.nativeLines, line.IsCode := by
  intro line hline
  rw [nativeLines] at hline
  split at hline
  · rcases List.mem_pair.mp hline with rfl | rfl <;> simp
  · simp only [List.mem_append, List.mem_singleton, List.mem_map] at hline
    rcases hline with (rfl | ⟨d, hd, rfl⟩) | rfl
    · simp
    · obtain ⟨hbegin, hident⟩ := plainCode_of_isWord (h d hd).ident.isWord
      have hreading := d.reading.unbroken_text
      constructor
      · exact beginsPlain_append (beginsPlain_append (beginsPlain_append hbegin _) _) _
      · simp [hident, hreading]
    · simp

theorem isCode_convertLines (h : ∀ d ∈ p.declarations, Readable d) :
    ∀ line ∈ p.convertLines, line.IsCode := by
  intro line hline
  rw [convertLines] at hline
  split at hline
  · obtain rfl := List.mem_singleton.mp hline
    simp
  · simp only [List.mem_append, List.mem_singleton, List.mem_flatMap] at hline
    rcases hline with (rfl | ⟨a, ha, hline⟩) | rfl
    · simp
    · obtain ⟨d, hd, ha⟩ := List.mem_filterMap.mp ha
      exact isCode_lines_assignment ((h d hd).assignment a ha) line hline
    · simp

/-- The lines from the last member to the program's own remark. -/
def widthCode (p : Program) (visibility : Visibility) : List Line :=
  [.code 0 "\x7d", .blank, .code 0 ("impl " ++ p.name ++ " \x7b"),
    .code 1 (visibility.text ++ "const WIDTH: usize = " ++ toString p.width ++ ";"), .blank]

/-- What the program says about itself. -/
def nativeRemark : Line :=
  .doc 1 "Reads every field at its packed position in native byte order."

/-- What it says that about. -/
def nativeHead : Line :=
  .code 1 "fn from_native(block: &[u8; Self::WIDTH]) -> Self \x7b"

/-- The lines behind that. -/
def closingCode (p : Program) : List Line :=
  p.nativeLines ++ [.code 1 "\x7d", .code 0 "\x7d", .blank] ++ p.fromLines

/-- **WHAT A PROGRAM CONSISTS OF**: its header, its members and its one remark,
    with lines of code before, between and behind them. -/
theorem lines_eq (p : Program) (options : Options) :
    p.lines options = headerLines options.header ++ (p.openingCode options.visibility
      ++ (membersLines options.visibility none p.members ++ (p.widthCode options.visibility
      ++ nativeRemark :: nativeHead :: p.closingCode))) := by
  simp [lines, structLines, implLines, openingCode, widthCode, nativeRemark, nativeHead,
    closingCode]

/-- The line that names the structure is code if the name does not break. -/
theorem isCode_openingCode (hname : Unbroken p.name) (visibility : Visibility) :
    ∀ line ∈ p.openingCode visibility, line.IsCode := by
  intro line hline
  rcases List.mem_pair.mp hline with rfl | rfl
  · simp
  · rw [Line.IsCode, String.append_assoc, String.append_assoc]
    apply plainCode_visibility
    simp [hname]

/-- The lines around the width are code. -/
theorem isCode_widthCode (hname : Unbroken p.name) (visibility : Visibility) :
    ∀ line ∈ p.widthCode visibility, line.IsCode := by
  intro line hline
  simp only [widthCode, List.mem_cons, List.not_mem_nil, or_false] at hline
  rcases hline with rfl | rfl | rfl | rfl | rfl
  · simp
  · exact True.intro
  · simp [hname]
  · rw [Line.IsCode, String.append_assoc, String.append_assoc]
    apply plainCode_visibility
    simpa using unbroken_toString p.width
  · exact True.intro

theorem isCode_fromLines (hname : Unbroken p.name) (h : ∀ d ∈ p.declarations, Readable d) :
    ∀ line ∈ p.fromLines, line.IsCode := by
  have hconvert := isCode_convertLines h
  simp only [fromLines, List.forall_mem_append]
  refine ⟨⟨?_, hconvert⟩, ?_⟩ <;> simp [hname]

/-- From the constructor on, everything is code. -/
theorem isCode_closingCode (hname : Unbroken p.name) (h : ∀ d ∈ p.declarations, Readable d) :
    ∀ line ∈ nativeHead :: p.closingCode, line.IsCode := by
  have hnative := isCode_nativeLines h
  have hfrom := isCode_fromLines hname h
  simp only [closingCode, List.forall_mem_append, List.forall_mem_cons]
  refine ⟨?_, ⟨hnative, ?_⟩, hfrom⟩ <;> simp [nativeHead]

end

end Program

end PackedRecord.Code
