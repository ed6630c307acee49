import PackedRecord.Proofs.Code.Tokens
import PackedRecord.Proofs.Table.Pieces

/-! # Remarks — what a text says to the compiler

    A remark goes from a comment marker to the end of its line.  `codeOf` is
    what is left of a text without its remarks, without the spaces at the ends
    of its lines and without its empty lines.  It takes a text line by line,
    and of a line of generated code it leaves the code, as long as remarks do
    not run on into another line. -/

namespace PackedRecord.Code

/-- A line up to its first comment marker. -/
def beforeRemark : List Char → List Char
  | [] => []
  | c :: rest => if ['/', '/'] <+: c :: rest then [] else c :: beforeRemark rest

/-- A text without the spaces at either end. -/
def stripSpaces (text : List Char) : List Char :=
  (text.dropWhile (· = ' ')).rdropWhile (· = ' ')

def codeOfLine (line : List Char) : List Char :=
  stripSpaces (beforeRemark line)

/-- The lines of a text that say something to the compiler. -/
def codeOf (text : List Char) : List (List Char) :=
  ((text.splitOn '\n').map codeOfLine).filter (· ≠ [])

/-! ## One line -/

/-- A remark begins behind the spaces in front of a line. -/
theorem beforeRemark_spaces (n : Nat) (line : List Char) :
    beforeRemark (List.replicate n ' ' ++ line) = List.replicate n ' ' ++ beforeRemark line := by
  induction n with
  | zero => rfl
  | succ n ih =>
      rw [List.replicate_succ, List.cons_append, beforeRemark, if_neg (by simp), ih]
      rfl

theorem stripSpaces_spaces (n : Nat) (text : List Char) :
    stripSpaces (List.replicate n ' ' ++ text) = stripSpaces text := by
  rw [stripSpaces, stripSpaces, List.dropWhile_append_of_pos]
  intro c hc
  rw [List.eq_of_mem_replicate hc]
  rfl

theorem stripSpaces_append_space (text : List Char) :
    stripSpaces (text ++ [' ']) = stripSpaces text := by
  rw [stripSpaces, stripSpaces, List.dropWhile_append]
  by_cases hblank : (text.dropWhile (· = ' ')).isEmpty = true
  · rw [if_pos hblank, List.isEmpty_iff.mp hblank]
    rfl
  · rw [if_neg hblank, List.rdropWhile_concat_pos _ _ _ rfl]

/-- Indentation is no code. -/
theorem codeOfLine_spaces (n : Nat) (line : List Char) :
    codeOfLine (List.replicate n ' ' ++ line) = codeOfLine line := by
  rw [codeOfLine, beforeRemark_spaces, stripSpaces_spaces, codeOfLine]

/-- A remark behind a line leaves the line, with the space that stands between
    them unless the line has a remark of its own. -/
theorem beforeRemark_append (line remark : List Char) :
    beforeRemark (line ++ ' ' :: '/' :: '/' :: remark) = beforeRemark line
      ∨ beforeRemark (line ++ ' ' :: '/' :: '/' :: remark) = beforeRemark line ++ [' '] := by
  induction line with
  | nil => exact Or.inr rfl
  | cons c rest ih =>
      by_cases hmarker : ['/', '/'] <+: c :: rest
      · left
        have hlonger : ['/', '/'] <+: c :: (rest ++ ' ' :: '/' :: '/' :: remark) :=
          hmarker.trans (List.prefix_append (c :: rest) _)
        rw [List.cons_append, beforeRemark, beforeRemark, if_pos hmarker, if_pos hlonger]
      · -- no marker begins at the last character of the line
        have hlonger : ¬ ['/', '/'] <+: c :: (rest ++ ' ' :: '/' :: '/' :: remark) := by
          cases rest with
          | nil => simp
          | cons d rest => simpa using hmarker
        rw [List.cons_append, beforeRemark, beforeRemark, if_neg hmarker, if_neg hlonger]
        exact ih.imp (congrArg (c :: ·)) (congrArg (c :: ·))

/-- A remark behind a line is no code. -/
theorem codeOfLine_append (line remark : List Char) :
    codeOfLine (line ++ ' ' :: '/' :: '/' :: remark) = codeOfLine line := by
  rw [codeOfLine, codeOfLine]
  rcases beforeRemark_append line remark with h | h
  · rw [h]
  · rw [h, stripSpaces_append_space]

/-! ## Texts -/

/-- A text is taken line by line. -/
theorem codeOf_append_newline (a b : List Char) :
    codeOf (a ++ '\n' :: b) = codeOf a ++ codeOf b := by
  rw [codeOf, List.splitOn_append_cons_self, List.map_append, List.filter_append]
  rfl

/-- A text of one line has the code of that line, if it has any. -/
theorem codeOf_of_not_mem {line : List Char} (h : '\n' ∉ line) :
    codeOf line = [codeOfLine line].filter (· ≠ []) := by
  rw [codeOf, List.splitOn_eq_singleton h]
  rfl

/-- Spaces are in front of the first line. -/
theorem codeOf_spaces (n : Nat) (text : List Char) :
    codeOf (List.replicate n ' ' ++ text) = codeOf text := by
  have hspaces : '\n' ∉ List.replicate n ' ' := by
    intro h
    exact nomatch List.eq_of_mem_replicate h
  by_cases hone : '\n' ∈ text
  · obtain ⟨line, rest, rfl, hline⟩ := List.eq_append_cons_of_mem hone
    rw [← List.append_assoc, codeOf_append_newline, codeOf_append_newline,
      codeOf_of_not_mem (by simpa [hspaces] using hline), codeOf_of_not_mem hline,
      codeOfLine_spaces]
  · rw [codeOf_of_not_mem (by simpa [hspaces] using hone), codeOf_of_not_mem hone,
      codeOfLine_spaces]

/-- A remark is behind the last line. -/
theorem codeOf_append_remark (text : List Char) {remark : List Char} (h : '\n' ∉ remark) :
    codeOf (text ++ ' ' :: '/' :: '/' :: remark) = codeOf text := by
  induction hlines : text.count '\n' generalizing text with
  | zero =>
      have hone : '\n' ∉ text := List.count_eq_zero.mp hlines
      rw [codeOf_of_not_mem (by simp [hone, h]), codeOf_of_not_mem hone, codeOfLine_append]
  | succ n ih =>
      have hmany : '\n' ∈ text := List.count_pos_iff.mp (by omega)
      obtain ⟨line, rest, rfl, hline⟩ := List.eq_append_cons_of_mem hmany
      have hrest : rest.count '\n' = n := by
        rw [List.count_append, List.count_eq_zero.mpr hline, List.count_cons_self] at hlines
        omega
      rw [List.append_assoc, List.cons_append, codeOf_append_newline, codeOf_append_newline,
        ih rest hrest]

/-- A line that is a remark says nothing else. -/
theorem codeOf_remark {remark : List Char} (h : '\n' ∉ remark) :
    codeOf ('/' :: '/' :: remark) = [] := by
  rw [codeOf_of_not_mem (by simpa using h), codeOfLine, beforeRemark, if_pos (by simp)]
  rfl

example : codeOf "  a: u8, // 0 - 1 // x\n// b: u8,\n\n  \x7d ".toList
    = ["a: u8,".toList, "\x7d".toList] := by decide

/-! ## Lines of generated code -/

namespace Line

/-- What a line says to the compiler. -/
def statements : Line → List (List Char)
  | .code _ text | noted _ text _ => codeOf text.toList
  | blank | note .. | doc .. => []

/-- What a line says to a reader. -/
def remark : Line → String
  | note _ remark | doc _ remark | noted _ _ remark => remark
  | blank | .code .. => ""

/-- The remark of the line ends where the line does. -/
def OneLine (line : Line) : Prop :=
  '\n' ∉ line.remark.toList

theorem toList_spaces (n : Nat) : (Text.spaces n).toList = List.replicate n ' ' :=
  String.toList_ofList

/-- **OF A PRINTED LINE ITS CODE IS LEFT**, if its remark takes one line. -/
theorem codeOf_content (indent : Nat) {line : Line} (h : line.OneLine) :
    codeOf (line.content indent).toList = line.statements := by
  cases line with
  | blank => rfl
  | code depth text =>
      rw [content, String.toList_append, toList_spaces, codeOf_spaces, statements]
  | note depth remark =>
      have hremark : '\n' ∉ ' ' :: remark.toList := List.not_mem_cons_of_ne_of_not_mem (by decide) h
      rw [content, String.append_assoc, String.toList_append, toList_spaces, codeOf_spaces,
        statements, String.toList_append]
      exact codeOf_remark hremark
  | doc depth remark =>
      have hremark : '\n' ∉ '/' :: ' ' :: remark.toList :=
        List.not_mem_cons_of_ne_of_not_mem (by decide)
          (List.not_mem_cons_of_ne_of_not_mem (by decide) h)
      rw [content, String.append_assoc, String.toList_append, toList_spaces, codeOf_spaces,
        statements, String.toList_append]
      exact codeOf_remark hremark
  | noted depth text remark =>
      have hremark : '\n' ∉ ' ' :: remark.toList := List.not_mem_cons_of_ne_of_not_mem (by decide) h
      rw [content, String.append_assoc, String.append_assoc, String.toList_append, toList_spaces,
        codeOf_spaces, statements, String.toList_append, String.toList_append]
      exact codeOf_append_remark text.toList hremark

end Line

/-- A text of lines begins with its first line and a line feed. -/
theorem toList_textOf_cons (indent : Nat) (line : Line) (rest : List Line) :
    (textOf indent (line :: rest)).toList
      = (line.content indent).toList ++ '\n' :: (textOf indent rest).toList := by
  rw [textOf, List.map_cons, String.join_cons, Line.text, String.toList_append,
    String.toList_append, List.append_assoc]
  rfl

/-- Of generated lines, whatever their indentation, their code is left. -/
theorem codeOf_textOf (indent : Nat) {lines : List Line} (h : ∀ line ∈ lines, line.OneLine) :
    codeOf (textOf indent lines).toList = lines.flatMap Line.statements := by
  induction lines with
  | nil => rfl
  | cons line rest ih =>
      obtain ⟨hline, hrest⟩ := List.forall_mem_cons.mp h
      rw [toList_textOf_cons, codeOf_append_newline, Line.codeOf_content indent hline, ih hrest,
        List.flatMap_cons]

end PackedRecord.Code
