import PackedRecord.Proofs.Table.Names

/-! # Reading plainly — lines and cells, without a grammar

    The grammar of tables looks as if a table could fail to match it, and it
    treats a carriage return before a line feed as no other character.  Both
    come to nothing: every text is a table, and what the grammar leaves to a
    cell is trimmed.  So a table can be read by splitting it at line feeds,
    splitting lines at tabs and trimming cells, and that is how it is read. -/

namespace PackedRecord.Table

open Text (trim spaced)

/-! ## The plain reading -/

def plainLines (source : String) : List (List Char) :=
  source.toList.splitOn '\n'

def plainCells (line : List Char) : List (List Char) :=
  (line.splitOn '\t').map trim

/-- The cells from the fourth on that are not empty, with single spaces
    between them. -/
def joined (cells : List (List Char)) : List Char :=
  spaced (cells.drop 3)

/-- What a line without a name says: its first cell if it is cut short before
    the description, and otherwise its description. -/
def said (cells : List (List Char)) : List Char :=
  if cells.length < 4 then cells.getD 0 [] else joined cells

/-- The row of a line with the given trimmed cells: nothing if all are empty,
    a field if there is a name in the third one, and otherwise a comment if it
    says something. -/
def plainRow (line : Nat) (cells : List (List Char)) : Except ReadError Row :=
  if ∀ c ∈ cells, c = [] then .ok .blank
  else if cells.getD 2 [] ≠ [] then
    (readField line (cells.getD 0 []) (cells.getD 1 []) (cells.getD 2 []) cells).map .field
  else if said cells ≠ [] then .ok (.comment line (String.ofList (said cells)))
  else .ok .blank

def readPlainly (source : String) : Except ReadError (List Row) :=
  ((plainLines source).zipIdx 1).mapM fun (text, line) => plainRow line (plainCells text)

/-- What a row keeps of the line that it stands on: its number, and what the
    line says. -/
def Row.StandsOn (line : Nat) (cells : List (List Char)) : Row → Prop
  | .blank => True
  | .comment n text => n = line ∧ text = String.ofList (said cells)
  | .field f => f.line = line ∧ f.description = String.ofList (joined cells)

/-! ## Rows -/

theorem ofList_eq_empty_iff (text : List Char) : String.ofList text = "" ↔ text = [] := by
  rw [← String.toList_inj, String.toList_ofList]
  rfl

theorem commentRow_ofList (line : Nat) (text : List Char) :
    commentRow line (String.ofList text)
      = if text ≠ [] then .comment line (String.ofList text) else .blank := by
  rw [commentRow]
  by_cases h : text = []
  · rw [if_pos ((ofList_eq_empty_iff text).mpr h), if_neg (not_not.mpr h)]
  · rw [if_neg (fun heq => h ((ofList_eq_empty_iff text).mp heq)), if_pos h]

/-- The remark of a line is what its cells say. -/
theorem remark_eq (cells : List (List Char)) : remark cells = String.ofList (said cells) := by
  rw [remark, said]
  by_cases h : cells.length < 4
  · rw [if_pos h, if_pos h]
    cases cells <;> rfl
  · rw [if_neg h, if_neg h]
    rfl

/-- Cells that are all empty say nothing and name nothing. -/
theorem said_of_empty {cells : List (List Char)} (h : ∀ c ∈ cells, c = []) : said cells = [] := by
  have hjoined : joined cells = [] := by
    have hnone : (cells.drop 3).filter (· ≠ []) = [] := by
      rw [List.filter_eq_nil_iff]
      intro c hc
      simpa using h c (List.mem_of_mem_drop hc)
    rw [joined, spaced, hnone]
    rfl
  have hfirst : cells.getD 0 [] = [] := by
    cases cells with
    | nil => rfl
    | cons c rest => exact h c List.mem_cons_self
  rw [said, hjoined, hfirst]
  exact ite_self []

theorem getD_of_empty {cells : List (List Char)} (h : ∀ c ∈ cells, c = []) (i : Nat) :
    cells.getD i [] = [] := by
  rw [List.getD_eq_getElem?_getD]
  cases hi : cells[i]? with
  | none => rfl
  | some c => exact h c (List.mem_of_getElem? hi)

/-- A line without a name is a comment if it says something, and blank
    otherwise. -/
theorem readRow_of_unnamed (line : Nat) {cells : List (List Char)} (h : cells.getD 2 [] = []) :
    readRow line cells
      = .ok (if said cells ≠ [] then .comment line (String.ofList (said cells)) else .blank) := by
  rw [← commentRow_ofList, ← remark_eq]
  match cells with
  | [] => rfl
  | [_] => rfl
  | [_, _] => rfl
  | _ :: _ :: name :: _ => exact if_pos h

/-- A line with a name is a field, or at fault. -/
theorem readRow_of_named (line : Nat) {cells : List (List Char)} (h : cells.getD 2 [] ≠ []) :
    readRow line cells
      = (readField line (cells.getD 0 []) (cells.getD 1 []) (cells.getD 2 []) cells).map
          .field := by
  match cells with
  | [] => exact absurd rfl h
  | [_] => exact absurd rfl h
  | [_, _] => exact absurd rfl h
  | _ :: _ :: name :: _ => exact if_neg h

theorem readRow_eq_plainRow (line : Nat) (cells : List (List Char)) :
    readRow line cells = plainRow line cells := by
  rw [plainRow]
  by_cases hempty : ∀ c ∈ cells, c = []
  · rw [if_pos hempty, readRow_of_unnamed line (getD_of_empty hempty 2), said_of_empty hempty]
    rfl
  · rw [if_neg hempty]
    by_cases hname : cells.getD 2 [] = []
    · rw [if_neg (not_not.mpr hname), readRow_of_unnamed line hname]
      split <;> rfl
    · rw [if_pos hname, readRow_of_named line hname]

namespace Grammar

/-- The cells that are looked for are there, and what they are read as does
    not depend on how they were found. -/
theorem readField_eq (line : Nat) {cells : List (List Char)} (h : cells.getD 2 [] ≠ []) :
    readField line cells
      = (Table.readField line (cells.getD 0 []) (cells.getD 1 []) (cells.getD 2 []) cells).mapError
          .refusal := by
  match cells with
  | [] => exact absurd rfl h
  | [_] => exact absurd rfl h
  | [_, _] => exact absurd rfl h
  | offset :: type :: name :: rest =>
      show ((readOffset line offset).mapError Stop.refusal >>= fun offset =>
          readName line name >>= fun found => _)
        = (Table.readField line offset type name (offset :: type :: name :: rest)).mapError _
      rw [readName_eq, Table.readField]
      cases readOffset line offset with
      | error e => rfl
      | ok n => cases Table.readName line name <;> rfl

theorem getElem?_any_iff (cells : List (List Char)) (i : Nat) :
    cells[i]?.any (· ≠ []) = true ↔ cells.getD i [] ≠ [] := by
  rw [List.getD_eq_getElem?_getD]
  cases cells[i]? <;> simp

/-- Every line has a first cell, and that is all that reading it takes for
    granted. -/
theorem readRow_eq (line : Nat) {cells : List (List Char)} (hne : cells ≠ []) :
    readRow line cells = (plainRow line cells).mapError .refusal := by
  have hall : cells.all (· = []) = true ↔ ∀ c ∈ cells, c = [] := by simp
  rw [readRow, plainRow]
  by_cases hempty : ∀ c ∈ cells, c = []
  · rw [if_pos hempty, if_pos (hall.mpr hempty)]
    rfl
  rw [if_neg hempty, if_neg (fun h => hempty (hall.mp h))]
  by_cases hname : cells.getD 2 [] ≠ []
  · rw [if_pos hname, if_pos ((getElem?_any_iff cells 2).mpr hname), readField_eq line hname]
    cases Table.readField line (cells.getD 0 []) (cells.getD 1 []) (cells.getD 2 []) cells <;> rfl
  rw [if_neg hname, if_neg (fun h => hname ((getElem?_any_iff cells 2).mp h)), said]
  cases hfourth : cells[3]? with
  | none =>
      -- a line cut short says its first cell
      have hshort : cells.length < 4 := by
        have := List.getElem?_eq_none_iff.mp hfourth
        omega
      obtain ⟨first, rest, rfl⟩ := List.exists_cons_of_ne_nil hne
      have hget : (first :: rest).getD 0 [] = first := rfl
      rw [if_pos hshort, hget]
      show (.ok (if first ≠ [] then _ else _) : Except _ _) = _
      by_cases hfirst : first ≠ []
      · rw [if_pos hfirst, if_pos hfirst]
        rfl
      · rw [if_neg hfirst, if_neg hfirst]
        rfl
  | some fourth =>
      have hlong : ¬ cells.length < 4 := by
        have := (List.getElem?_eq_some_iff.mp hfourth).1
        omega
      rw [if_neg hlong]
      show (.ok (if String.ofList (joined cells) = "" then _ else _) : Except _ _) = _
      by_cases hjoined : joined cells = []
      · rw [if_pos ((ofList_eq_empty_iff _).mpr hjoined), if_neg (not_not.mpr hjoined)]
        rfl
      · rw [if_neg (fun h => hjoined ((ofList_eq_empty_iff _).mp h)), if_pos hjoined]
        rfl

end Grammar

/-! ## Tables -/

/-- Every line has a cell. -/
theorem plainCells_ne_nil (line : List Char) : plainCells line ≠ [] := by
  rw [plainCells, Ne, List.map_eq_nil_iff]
  exact List.splitOn_ne_nil '\t' line

/-- What is left of a line end in a cell is trimmed away. -/
theorem map_plainCells_bodies (lines : List (List Char)) :
    (Grammar.bodies lines).map plainCells = lines.map plainCells := by
  induction lines with
  | nil => rfl
  | cons line others ih =>
      have hline : plainCells (Grammar.bodyOf line others) = plainCells line := by
        rw [Grammar.bodyOf]
        by_cases hlast : others = []
        · rw [if_pos hlast]
        · rw [if_neg hlast]
          conv_rhs => rw [← Grammar.dropReturn_append_returnOf line]
          rw [Grammar.returnOf]
          split
          · exact (Text.map_trim_splitOn_append_return (by decide) _).symm
          · rw [List.append_nil]
      rw [Grammar.bodies, List.map_cons, List.map_cons, hline, ih]

/-- The tree of a text has the cells of its lines. -/
theorem rowsOf_tree (source : List Char) :
    Grammar.rowsOf ⟨.table, source, Grammar.rowNodes source ++ [Grammar.endNode]⟩
      = (source.splitOn '\n').map plainCells := by
  have hrows : (Grammar.rowNodes source ++ [Grammar.endNode]).filter (·.rule = .row)
      = Grammar.rowNodes source := by
    have hall : ∀ node ∈ Grammar.rowNodes source, decide (node.rule = .row) = true := by
      intro node hnode
      obtain ⟨body, -, rfl⟩ := List.mem_map.mp hnode
      rfl
    rw [List.filter_append, List.filter_eq_self.mpr hall]
    exact List.append_nil _
  rw [Grammar.rowsOf, hrows, Grammar.rowNodes, List.map_map, ← map_plainCells_bodies]
  refine List.map_congr_left fun body _ => ?_
  show ((body.splitOn '\t').map Grammar.cellNode).map _ = _
  rw [List.map_map]
  rfl

/-- The reader of tables reads plainly. -/
theorem read_eq_readPlainly (source : String) : read source = readPlainly source := by
  have hcells : ∀ line, cells line = plainCells line :=
    fun line => congrArg (List.map trim) (Text.splitAt_eq_splitOn '\t' line)
  rw [read, readPlainly, plainLines, Text.splitAt_eq_splitOn]
  refine Outcome.mapM_congr fun item _ => ?_
  obtain ⟨text, line⟩ := item
  show readRow line (cells text) = plainRow line (plainCells text)
  rw [hcells, readRow_eq_plainRow]

/-- Every text has a tree. -/
theorem parse_table (source : List Char) :
    (Grammar.parse Grammar.table source : Except (Stop ReadError) _)
      = .ok ⟨.table, source, Grammar.rowNodes source ++ [Grammar.endNode]⟩ := by
  rw [Grammar.parse, Grammar.run_table]
  rfl

/-- **THE GRAMMAR READS PLAINLY**: matching a table against its grammar meets no
    fault, and gives what splitting it gives. -/
theorem grammar_read_eq (source : String) :
    Grammar.read source = (readPlainly source).mapError .refusal := by
  rw [Grammar.read, parse_table, readPlainly, ← Outcome.mapM_mapError]
  show ((Grammar.rowsOf _).zipIdx 1).mapM _ = _
  rw [rowsOf_tree, List.zipIdx_map, List.mapM_map]
  exact Outcome.mapM_congr fun item _ => Grammar.readRow_eq item.2 (plainCells_ne_nil item.1)

/-- A row that is read stands on its line, with what that line says. -/
theorem standsOn_of_plainRow {line : Nat} {cells : List (List Char)} {row : Row}
    (h : plainRow line cells = .ok row) : row.StandsOn line cells := by
  rw [plainRow] at h
  split at h
  · obtain rfl := Except.ok.inj h
    exact True.intro
  split at h
  · obtain ⟨f, hf, rfl⟩ := Outcome.of_map_ok h
    rw [readField] at hf
    obtain ⟨offset, -, hf⟩ := Outcome.of_bind_ok hf
    obtain ⟨found, -, hf⟩ := Outcome.of_bind_ok hf
    obtain rfl := Except.ok.inj hf
    exact ⟨rfl, rfl⟩
  split at h
  · obtain rfl := Except.ok.inj h
    exact ⟨rfl, rfl⟩
  · obtain rfl := Except.ok.inj h
    exact True.intro

/-- **TABLES ARE READ PLAINLY**: reading a table by its grammar gives what
    splitting it at line feeds and tabs and trimming the cells gives, so that
    no text fails to match and no cell is missing.  There is one row for each
    line, in order, which keeps its number. -/
theorem reads_plainly (source : String) :
    Grammar.read source = (readPlainly source).mapError .refusal
      ∧ read source = readPlainly source
      ∧ ∀ rows, read source = .ok rows →
          List.Forall₂ (fun line row => Row.StandsOn line.2 (plainCells line.1) row)
            ((plainLines source).zipIdx 1) rows := by
  refine ⟨grammar_read_eq source, read_eq_readPlainly source, fun rows hrows => ?_⟩
  rw [read_eq_readPlainly, readPlainly] at hrows
  exact (Outcome.mapM_eq_ok_iff.mp hrows).imp fun line row => standsOn_of_plainRow

/-- Both line ends, an array, a description cut by a tab, a section comment
    and free text. -/
theorem reads_plainly_mixed :
    read "0\tu8\ta[ 2 ]\tsize\tin bytes\r\n\n\t\t\tTail\r\nnote\t"
        = .ok [.field ⟨1, 0, .known .u8, "a", 2, "size in bytes"⟩, .blank, .comment 3 "Tail",
            .comment 4 "note"]
      ∧ List.Forall₂ (fun line row => Row.StandsOn line.2 (plainCells line.1) row)
          ((plainLines "0\tu8\ta[ 2 ]\tsize\tin bytes\r\n\n\t\t\tTail\r\nnote\t").zipIdx 1)
          [.field ⟨1, 0, .known .u8, "a", 2, "size in bytes"⟩, .blank, .comment 3 "Tail",
            .comment 4 "note"] :=
  have hread := by decide
  ⟨hread, (reads_plainly _).2.2 _ hread⟩

end PackedRecord.Table
