import PackedRecord.Proofs.Table.PlainReading

/-! # Line numbers — tables below one another

    What a line says does not depend on its number, which is only handed on.
    So reading commutes with any change of numbers (`rowsFrom_renumber`), and
    a table below another one is read as it is by itself, with its lines
    counted from the end of the first.  How a line is ended plays no part: a
    carriage return in front of a line feed is trimmed away with the blanks. -/

namespace PackedRecord.Table

open Text (trim)

/-! ## Other numbers -/

/-- The same complaint about another line. -/
def ReadError.renumber (number : Nat → Nat) : ReadError → ReadError
  | offset line text => offset (number line) text
  | count line text => count (number line) text

/-- The same field on another line. -/
def Field.renumber (number : Nat → Nat) (f : Field) : Field :=
  { f with line := number f.line }

/-- The same row on another line. -/
def Row.renumber (number : Nat → Nat) : Row → Row
  | blank => blank
  | comment line text => comment (number line) text
  | field f => field (f.renumber number)

/-! ## Rows -/

/-- An offset is read without a look at the number of its line. -/
theorem readOffset_renumber (number : Nat → Nat) (line : Nat) (cell : List Char) :
    readOffset (number line) cell
      = Outcome.rename id (ReadError.renumber number) (readOffset line cell) := by
  rw [readOffset, readOffset]
  cases Text.readNat 16 Text.bound64 (stripRadix cell) <;> rfl

/-- A name and its count are read without a look at the number of their line. -/
theorem readName_renumber (number : Nat → Nat) (line : Nat) (cell : List Char) :
    readName (number line) cell
      = Outcome.rename id (ReadError.renumber number) (readName line cell) := by
  rw [readName, readName]
  obtain ⟨name, inside?⟩ := splitCount cell
  cases inside? with
  | none => rfl
  | some inside =>
      dsimp only
      cases Text.readInt (1 <<< 63) (trim inside) <;> rfl

/-- A field is read in the same way under every number, and keeps its own. -/
theorem readField_renumber (number : Nat → Nat) (line : Nat) (offset type name : List Char)
    (columns : List (List Char)) :
    readField (number line) offset type name columns
      = Outcome.rename (Field.renumber number) (ReadError.renumber number)
          (readField line offset type name columns) := by
  rw [readField, readField, readOffset_renumber]
  refine (Outcome.rename_bind fun n => ?_).symm
  rw [readName_renumber]
  exact Outcome.rename_bind fun _ => rfl

/-- A line says the same under any number. -/
theorem plainRow_renumber (number : Nat → Nat) (line : Nat) (cells : List (List Char)) :
    plainRow (number line) cells
      = Outcome.rename (Row.renumber number) (ReadError.renumber number)
          (plainRow line cells) := by
  rw [plainRow, plainRow, readField_renumber]
  split
  · rfl
  split
  · cases readField line (cells.getD 0 []) (cells.getD 1 []) (cells.getD 2 []) cells <;> rfl
  split <;> rfl

/-! ## Tables -/

/-- The rows of lines with the given cells, numbered from `first` on. -/
def rowsFrom (first : Nat) (lines : List (List (List Char))) : Except ReadError (List Row) :=
  (lines.zipIdx first).mapM fun (cells, line) => plainRow line cells

/-- The cells of a table, line by line. -/
def cellsOf (source : String) : List (List (List Char)) :=
  (plainLines source).map plainCells

/-- A table is read line by line, from the first one on. -/
theorem read_eq_rowsFrom (source : String) : read source = rowsFrom 1 (cellsOf source) := by
  rw [read_eq_readPlainly, readPlainly, rowsFrom, cellsOf, List.zipIdx_map, List.mapM_map]
  rfl

theorem rowsFrom_cons (first : Nat) (cells : List (List Char)) (lines : List (List (List Char))) :
    rowsFrom first (cells :: lines)
      = plainRow first cells >>= fun row => (rowsFrom (first + 1) lines).map (row :: ·) := by
  rw [rowsFrom, List.zipIdx_cons, List.mapM_cons]
  rfl

/-- Reading commutes with a change of numbers; only those in use matter. -/
theorem rowsFrom_renumber {number : Nat → Nat} {lines : List (List (List Char))} :
    ∀ {first first' : Nat}, (∀ i < lines.length, number (first + i) = first' + i) →
      rowsFrom first' lines
        = Outcome.rename (List.map (Row.renumber number)) (ReadError.renumber number)
            (rowsFrom first lines) := by
  induction lines with
  | nil => exact fun _ => rfl
  | cons cells lines ih =>
      intro first first' h
      have hhead : number first = first' := h 0 (Nat.zero_lt_succ _)
      have hbelow : ∀ i < lines.length, number (first + 1 + i) = first' + 1 + i := by
        intro i hi
        rw [Nat.add_assoc, Nat.add_assoc, Nat.add_comm 1 i]
        exact h (i + 1) (Nat.succ_lt_succ hi)
      rw [rowsFrom_cons, rowsFrom_cons, ih hbelow, ← hhead, plainRow_renumber]
      refine (Outcome.rename_bind fun row => ?_).symm
      cases rowsFrom (first + 1) lines <;> rfl

/-- Lines behind lines go on with the numbers where these stop. -/
theorem rowsFrom_append (first : Nat) (lines lines' : List (List (List Char))) :
    rowsFrom first (lines ++ lines')
      = rowsFrom first lines >>= fun rows =>
          (rowsFrom (first + lines.length) lines').map (rows ++ ·) := by
  induction lines generalizing first with
  | nil =>
      show rowsFrom first lines' = (rowsFrom first lines').map _
      cases rowsFrom first lines' <;> rfl
  | cons cells lines ih =>
      have hfirst : first + 1 + lines.length = first + (cells :: lines).length := by
        rw [List.length_cons]
        omega
      rw [List.cons_append, rowsFrom_cons, rowsFrom_cons, ih, hfirst]
      cases plainRow first cells with
      | error err => rfl
      | ok row =>
          cases rowsFrom (first + 1) lines with
          | error err => rfl
          | ok rows => cases rowsFrom (first + (cells :: lines).length) lines' <;> rfl

/-! ## One table below another -/

/-- How many lines a text has: one more than line feeds. -/
def lineCount (source : String) : Nat :=
  1 + source.toList.count '\n'

theorem length_cellsOf (source : String) : (cellsOf source).length = lineCount source := by
  rw [cellsOf, List.length_map, plainLines, Text.length_splitOn, lineCount, Nat.add_comm]

/-- The lines of one text below another are those of both. -/
theorem cellsOf_append (a b : String) : cellsOf (a ++ "\n" ++ b) = cellsOf a ++ cellsOf b := by
  have hlist : (a ++ "\n" ++ b).toList = a.toList ++ '\n' :: b.toList := by simp
  rw [cellsOf, plainLines, hlist, List.splitOn_append_cons_self, List.map_append]
  rfl

/-- The lines of the second text are counted on from those of the first. -/
theorem read_append (a b : String) :
    read (a ++ "\n" ++ b)
      = rowsFrom 1 (cellsOf a) >>= fun rows =>
          (rowsFrom (lineCount a + 1) (cellsOf b)).map (rows ++ ·) := by
  rw [read_eq_rowsFrom, cellsOf_append, rowsFrom_append, length_cellsOf, Nat.add_comm 1]

/-! ## Line ends -/

/-- The text with a carriage return in front of every line feed that is chosen,
    counted from `k` on. -/
def returnsFrom (chosen : Nat → Bool) : Nat → List Char → List Char
  | _, [] => []
  | k, c :: rest =>
      if c = '\n' then
        (if chosen k then ['\r', '\n'] else ['\n']) ++ returnsFrom chosen (k + 1) rest
      else c :: returnsFrom chosen k rest

/-- The table with a carriage return in front of every line feed that is
    chosen, the first one having the number 0. -/
def withReturns (chosen : Nat → Bool) (source : String) : String :=
  String.ofList (returnsFrom chosen 0 source.toList)

example : withReturns (· ≠ 1) "a\nb\n\nc" = "a\r\nb\n\r\nc" := by decide

theorem plainCells_append_return (line : List Char) :
    plainCells (line ++ ['\r']) = plainCells line :=
  Text.map_trim_splitOn_append_return (by decide) line

/-- Line by line, the carriage returns make at most that difference. -/
theorem forall₂_splitOn_returnsFrom (chosen : Nat → Bool) (text : List Char) :
    ∀ k, List.Forall₂ (fun a b => a = b ∨ a = b ++ ['\r'])
      ((returnsFrom chosen k text).splitOn '\n') (text.splitOn '\n') := by
  induction text with
  | nil => exact fun _ => List.Forall₂.cons (Or.inl rfl) List.Forall₂.nil
  | cons c rest ih =>
      intro k
      rw [returnsFrom]
      by_cases hc : c = '\n'
      · rw [if_pos hc, hc]
        have hlines : ('\n' :: rest).splitOn '\n' = [] :: rest.splitOn '\n' :=
          List.splitOn_append_cons_self [] rest
        rw [hlines]
        by_cases hk : chosen k = true
        · have hreturn : (['\r', '\n'] ++ returnsFrom chosen (k + 1) rest).splitOn '\n'
              = ['\r'] :: (returnsFrom chosen (k + 1) rest).splitOn '\n' :=
            List.splitOn_append_cons_self ['\r'] _
          rw [if_pos hk, hreturn]
          exact List.Forall₂.cons (Or.inr rfl) (ih (k + 1))
        · have hfeed : (['\n'] ++ returnsFrom chosen (k + 1) rest).splitOn '\n'
              = [] :: (returnsFrom chosen (k + 1) rest).splitOn '\n' :=
            List.splitOn_append_cons_self [] _
          rw [if_neg hk, hfeed]
          exact List.Forall₂.cons (Or.inl rfl) (ih (k + 1))
      · rw [if_neg hc, Text.splitOn_cons_of_ne hc, Text.splitOn_cons_of_ne hc]
        refine Text.forall₂_modifyHead ?_ (ih k)
        rintro a b (rfl | rfl)
        · exact Or.inl rfl
        · exact Or.inr rfl

/-- Whatever line ends get a carriage return, the cells are the same. -/
theorem cellsOf_withReturns (chosen : Nat → Bool) (source : String) :
    cellsOf (withReturns chosen source) = cellsOf source := by
  rw [cellsOf, cellsOf, plainLines, plainLines, withReturns, String.toList_ofList,
    ← List.forall₂_eq_eq_eq, List.forall₂_map_left_iff, List.forall₂_map_right_iff]
  refine (forall₂_splitOn_returnsFrom chosen source.toList 0).imp fun a b hab => ?_
  rcases hab with rfl | rfl
  · rfl
  · exact plainCells_append_return b

/-- **TABLES ARE READ LINE BY LINE**: of a table below another one, the error of
    the upper one is reported if there is one, and otherwise what the lower one
    gives by itself, with its lines counted on.  The rows of both follow each
    other.  Whichever lines are ended with a carriage return as well, nothing
    that is read changes. -/
theorem read_append_law (a b : String) (chosen : Nat → Bool) :
    (read (a ++ "\n" ++ b)
        = match read a, read b with
          | .error err, _ => .error err
          | .ok _, .error err => .error (err.renumber (· + lineCount a))
          | .ok rows, .ok rows' => .ok (rows ++ rows'.map (Row.renumber (· + lineCount a))))
      ∧ read (withReturns chosen a) = read a := by
  have hbelow : rowsFrom (lineCount a + 1) (cellsOf b)
      = Outcome.rename (List.map (Row.renumber (· + lineCount a)))
          (ReadError.renumber (· + lineCount a)) (rowsFrom 1 (cellsOf b)) :=
    rowsFrom_renumber fun i _ => by omega
  constructor
  · rw [read_append, hbelow, read_eq_rowsFrom a, read_eq_rowsFrom b]
    cases rowsFrom 1 (cellsOf a) with
    | error err => rfl
    | ok rows => cases rowsFrom 1 (cellsOf b) <;> rfl
  · rw [read_eq_rowsFrom, cellsOf_withReturns, ← read_eq_rowsFrom]

end PackedRecord.Table
