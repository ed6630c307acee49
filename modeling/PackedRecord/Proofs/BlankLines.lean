import PackedRecord.Proofs.Layout.Numbers

/-! # Blank lines — tables with room between their lines

    A line may say nothing at all: it has no name, and nothing stands where a
    line without a name would say something.  Such a line leaves a blank row,
    which no later stage looks at; what it does is to move the lines below it
    down by one.  So a table with a blank line put in makes the same code, and
    what is found in it or said against it is the same on other lines. -/

namespace PackedRecord

open Outcome (rename)
open Table (Row cellsOf lineCount plainCells plainRow rowsFrom said)

/-! ## Lines that say nothing -/

namespace Table

/-- One line without a name, and with nothing to say without one. -/
structure SaysNothing (line : String) : Prop where
  single : '\n' ∉ line.toList
  nameless : (plainCells line.toList).getD 2 [] = []
  silent : said (plainCells line.toList) = []

/-- A line is a blank row exactly if it has no name and says nothing. -/
theorem plainRow_eq_blank_iff (line : Nat) (cells : List (List Char)) :
    plainRow line cells = .ok .blank ↔ cells.getD 2 [] = [] ∧ said cells = [] := by
  rw [← readRow_eq_plainRow]
  by_cases hname : cells.getD 2 [] = []
  · rw [readRow_of_unnamed line hname]
    by_cases hsaid : said cells = []
    · rw [if_neg (not_not.mpr hsaid)]
      exact iff_of_true rfl ⟨hname, hsaid⟩
    · rw [if_pos hsaid]
      refine iff_of_false (fun h => ?_) fun h => hsaid h.2
      cases Except.ok.inj h
  · rw [readRow_of_named line hname]
    refine iff_of_false (fun h => ?_) fun h => hname h.1
    obtain ⟨f, -, hf⟩ := Outcome.of_map_ok h
    cases hf

/-- A text without a line feed is one line. -/
theorem cellsOf_of_single {line : String} (h : '\n' ∉ line.toList) :
    cellsOf line = [plainCells line.toList] := by
  rw [cellsOf, plainLines, List.splitOn_eq_singleton h]
  rfl

theorem rowsFrom_singleton (first : Nat) (cells : List (List Char)) :
    rowsFrom first [cells] = (plainRow first cells).map fun row => [row] := by
  rw [rowsFrom_cons]
  cases plainRow first cells <;> rfl

/-- A text reads as one blank row exactly if it is a line that says nothing. -/
theorem read_eq_blank_iff (line : String) :
    read line = .ok [.blank] ↔ SaysNothing line := by
  rw [read_eq_rowsFrom]
  constructor
  · intro h
    have hcount : (cellsOf line).length = 1 := by
      have hlength := (Outcome.mapM_eq_ok_iff.mp h).length_eq
      rwa [List.length_zipIdx] at hlength
    rw [length_cellsOf, lineCount] at hcount
    have hsingle : '\n' ∉ line.toList := List.count_eq_zero.mp (by omega)
    rw [cellsOf_of_single hsingle, rowsFrom_singleton] at h
    obtain ⟨row, hrow, hblank⟩ := Outcome.of_map_ok h
    rw [(List.cons.inj hblank).1, plainRow_eq_blank_iff] at hrow
    exact ⟨hsingle, hrow.1, hrow.2⟩
  · rintro ⟨hsingle, hnameless, hsilent⟩
    rw [cellsOf_of_single hsingle, rowsFrom_singleton,
      (plainRow_eq_blank_iff 1 _).mpr ⟨hnameless, hsilent⟩]
    rfl

end Table

/-! ## Lines below -/

/-- The lines below the line `n` move down by one. -/
def moveDown (n line : Nat) : Nat :=
  if n < line then line + 1 else line

def CompileError.renumber (number : Nat → Nat) : CompileError → CompileError
  | table e => table (e.renumber number)
  | layout e => layout (e.renumber number)
  | file e => file e

variable {z : String} (a b : String)

/-- With a blank line between two tables, the upper one is read as before, and
    the lower one as if its lines had moved down. -/
theorem read_blank_line (hz : Table.SaysNothing z) :
    Table.read (a ++ "\n" ++ z ++ "\n" ++ b)
      = rename (List.map (Row.renumber (moveDown (lineCount a))))
            (Table.ReadError.renumber (moveDown (lineCount a))) (rowsFrom 1 (cellsOf a))
          >>= fun rows =>
            (rename (List.map (Row.renumber (moveDown (lineCount a))))
              (Table.ReadError.renumber (moveDown (lineCount a)))
              (rowsFrom (lineCount a + 1) (cellsOf b))).map (rows ++ .blank :: ·) := by
  have hupper : ∀ i < (cellsOf a).length, moveDown (lineCount a) (1 + i) = 1 + i := by
    intro i hi
    rw [Table.length_cellsOf] at hi
    rw [moveDown, if_neg (by omega)]
  have hlower : ∀ i < (cellsOf b).length,
      moveDown (lineCount a) (lineCount a + 1 + i) = lineCount a + 1 + 1 + i := by
    intro i _
    rw [moveDown, if_pos (by omega)]
    omega
  have hblank : plainRow (lineCount a + 1) (plainCells z.toList) = .ok .blank :=
    (Table.plainRow_eq_blank_iff _ _).mpr ⟨hz.nameless, hz.silent⟩
  rw [← Table.rowsFrom_renumber hupper, ← Table.rowsFrom_renumber hlower,
    Table.read_eq_rowsFrom, Table.cellsOf_append, Table.cellsOf_append,
    Table.cellsOf_of_single hz.single, List.append_assoc, Table.rowsFrom_append,
    Table.length_cellsOf, Nat.add_comm 1, List.singleton_append, Table.rowsFrom_cons, hblank]
  cases rowsFrom 1 (cellsOf a) with
  | error err => rfl
  | ok rows => cases rowsFrom (lineCount a + 1 + 1) (cellsOf b) <;> rfl

/-- A layout is loaded in the same way with a blank line put in, apart from the
    lines below. -/
theorem load_blank_line (hz : Table.SaysNothing z) (policy : OffsetPolicy) :
    load (a ++ "\n" ++ z ++ "\n" ++ b) policy
      = rename (Layout.renumber (moveDown (lineCount a)))
          (CompileError.renumber (moveDown (lineCount a))) (load (a ++ "\n" ++ b) policy) := by
  rw [load_eq, load_eq, read_blank_line a b hz, Table.read_append]
  cases rowsFrom 1 (cellsOf a) with
  | error err => rfl
  | ok rows =>
      cases rowsFrom (lineCount a + 1) (cellsOf b) with
      | error err => rfl
      | ok rows' =>
          show (Layout.ofRows (rows.map _ ++ .blank :: rows'.map _) policy).mapError _
            = rename _ _ ((Layout.ofRows (rows ++ rows') policy).mapError _)
          rw [Layout.ofRows_blank, ← List.map_append, Layout.ofRows_renumber]
          cases Layout.ofRows (rows ++ rows') policy <;> rfl

/-- **BLANK LINES CANNOT BE SEEN**: the lines that read as blank are those that
    say nothing, and putting one in anywhere leaves the code as it is.  Findings
    and errors stay the same, on the lines that have moved down. -/
theorem blank_lines_vanish (a b z name : String) (policy : OffsetPolicy)
    (options : Code.Options) :
    (Table.read z = .ok [.blank] ↔ Table.SaysNothing z)
      ∧ (Table.read z = .ok [.blank] →
        compile name (a ++ "\n" ++ z ++ "\n" ++ b) policy options
            = (compile name (a ++ "\n" ++ b) policy options).mapError
                (CompileError.renumber (moveDown (lineCount a)))
          ∧ lint (a ++ "\n" ++ z ++ "\n" ++ b)
            = rename (List.map (Layout.Finding.renumber (moveDown (lineCount a))))
                (CompileError.renumber (moveDown (lineCount a))) (lint (a ++ "\n" ++ b))) := by
  refine ⟨Table.read_eq_blank_iff z, fun hblank => ?_⟩
  have hz := (Table.read_eq_blank_iff z).mp hblank
  constructor
  · rw [compile_eq, compile_eq, load_blank_line a b hz]
    cases load (a ++ "\n" ++ b) policy with
    | error err => rfl
    | ok layout =>
        show Except.ok ((Code.Program.ofLayout name (layout.renumber _)).text options) = _
        rw [Layout.ofLayout_renumber]
        rfl
  · rw [lint_eq, lint_eq, load_blank_line a b hz]
    cases load (a ++ "\n" ++ b) .ignore with
    | error err => rfl
    | ok layout => exact congrArg Except.ok (Layout.findings_renumber _ layout)

/-- A line with a type and an empty description, between a field and one that
    leaves a gap. -/
theorem blank_lines_vanish_gapped :
    Table.read "8\tu8\t \t" = .ok [.blank]
      ∧ compile "R" ("0\tu8\ta" ++ "\n" ++ "8\tu8\t \t" ++ "\n" ++ "2\tu8\tb") .strict {}
        = .error (.layout (.offsets [⟨3, .gap "b" 2 (some "a") 1⟩])) := by
  have hblank : Table.read "8\tu8\t \t" = .ok [.blank] := by decide
  refine ⟨hblank, ((blank_lines_vanish _ _ _ _ _ _).2 hblank).1.trans ?_⟩
  decide

end PackedRecord
