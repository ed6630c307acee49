import PackedRecord.Proofs.Table.Grammar
import PackedRecord.Proofs.Table.Pieces

/-! # Matching tables — the tree of every text

    Every text is a table, and its tree is known: a row for each line, with a
    cell for each piece between tabs.  The lemmas go from the inside out —
    cells, rows, tables — and each says what is matched in front of anything
    that may follow.  What may follow is the delicate part: a carriage return
    belongs to a cell unless a line feed follows it, so that a text and its
    tail must not meet in a line end (`Apart`). -/

namespace PackedRecord.Table.Grammar

open Peg (Expr Node Match)
open Text (dropReturn)

/-! ## Where a cell ends -/

/-- A tab or a line end comes next. -/
def endsCell (input : List Char) : Bool :=
  decide (['\t'] <+: input) || (decide (['\r', '\n'] <+: input) || decide (['\n'] <+: input))

/-- Where a cell may end is decided by at most two characters. -/
theorem isSome_run_cellEnd (pos : Nat) (input : List Char) :
    (cellEnd.run pos input).isSome = endsCell input := by
  rw [cellEnd, Peg.run_choice, Peg.run_choice, Option.isSome_or, Option.isSome_or,
    Peg.isSome_run_text, Peg.isSome_run_text, Peg.isSome_run_text]
  rfl

/-- No line end is made of the end of a text and the start of another. -/
def Apart (text tail : List Char) : Prop :=
  tail.head? = some '\n' → text.getLast? ≠ some '\r'

/-- The end of a text that is apart from its tail is apart from it too. -/
theorem Apart.of_append {a b tail : List Char} (h : Apart (a ++ b) tail) : Apart b tail := by
  intro htail hb
  refine h htail ?_
  rw [List.getLast?_append, hb]
  rfl

/-- Only a line feed in front of the tail could make a line end with the text. -/
theorem apart_of_head_ne {tail : List Char} (h : tail.head? ≠ some '\n') (text : List Char) :
    Apart text tail :=
  fun htail => absurd htail h

/-- Nothing or the end of a cell. -/
def CellTail (tail : List Char) : Prop :=
  tail = [] ∨ endsCell tail = true

/-- Characters that may stand in a cell, whatever follows. -/
def Plain (text : List Char) : Prop :=
  ∀ c ∈ text, c ≠ '\t' ∧ c ≠ '\n'

/-- A cell does not end inside of a piece. -/
theorem endsCell_append {piece tail : List Char} (hpiece : Plain piece) (hapart : Apart piece tail)
    {suffix : List Char} (hsuffix : suffix <:+ piece) (hne : suffix ≠ []) :
    endsCell (suffix ++ tail) = false := by
  cases suffix with
  | nil => exact absurd rfl hne
  | cons c s =>
      obtain ⟨htab, hfeed⟩ := hpiece c (hsuffix.subset List.mem_cons_self)
      have hnext : c = '\r' → ¬ ['\n'] <+: s ++ tail := by
        rintro rfl ⟨rest, hrest⟩
        cases s with
        | nil =>
            -- the piece ends in the carriage return
            obtain ⟨before, rfl⟩ := hsuffix
            refine hapart ?_ List.getLast?_concat
            rw [← List.nil_append tail, ← hrest]
            rfl
        | cons d s =>
            have hmem : d ∈ piece := hsuffix.subset (List.mem_cons_of_mem _ List.mem_cons_self)
            exact (hpiece d hmem).2 (List.cons.inj hrest).1.symm
      simp only [endsCell, List.cons_append, List.cons_prefix_cons, List.nil_prefix, and_true,
        Bool.or_eq_false_iff, decide_eq_false_iff_not]
      exact ⟨htab.symm, fun h => hnext h.1.symm h.2, hfeed.symm⟩

/-! ## Cells and rows -/

def cellNode (piece : List Char) : Node Rule := ⟨.cell, piece, []⟩

def rowNode (line : List Char) : Node Rule :=
  ⟨.row, line, (line.splitOn '\t').map cellNode⟩

/-- A cell takes its piece and nothing of what follows. -/
theorem run_cell {piece tail : List Char} (hpiece : Plain piece) (htail : CellTail tail)
    (hapart : Apart piece tail) (pos : Nat) :
    cell.run pos (piece ++ tail) = some ⟨piece, tail, [cellNode piece]⟩ := by
  exact Peg.run_rule .cell .leaf <|
    Peg.run_until isSome_run_cellEnd htail pos fun _ => endsCell_append hpiece hapart

/-- Nothing or a line end. -/
inductive RowTail : List Char → Prop
  | nothing : RowTail []
  | feed (rest : List Char) : RowTail ('\n' :: rest)
  | returnFeed (rest : List Char) : RowTail ('\r' :: '\n' :: rest)

/-- Where a row ends, its last cell does. -/
theorem RowTail.cellTail {tail : List Char} (h : RowTail tail) : CellTail tail := by
  cases h with
  | nothing => exact Or.inl rfl
  | feed rest => exact Or.inr rfl
  | returnFeed rest => exact Or.inr rfl

theorem RowTail.head_ne_tab {tail : List Char} (h : RowTail tail) : tail.head? ≠ some '\t' := by
  cases h <;> simp

/-- What follows a piece inside of a row ends the piece's cell. -/
theorem cell_tail_and_apart {p tail : List Char} {pieces : List (List Char)}
    (htail : RowTail tail) (hapart : Apart (p ++ pieces.flatMap ('\t' :: ·)) tail) :
    CellTail (pieces.flatMap ('\t' :: ·) ++ tail)
      ∧ Apart p (pieces.flatMap ('\t' :: ·) ++ tail) := by
  cases pieces with
  | nil =>
      rw [List.flatMap_nil, List.append_nil] at hapart
      exact ⟨htail.cellTail, hapart⟩
  | cons q pieces =>
      have hhead : ((q :: pieces).flatMap ('\t' :: ·) ++ tail).head? ≠ some '\n' := by simp
      exact ⟨Or.inr rfl, apart_of_head_ne hhead p⟩

/-- The cells behind the first one of a row, each with the tab before it. -/
theorem run_furtherCells {tail : List Char} (htail : RowTail tail) :
    ∀ {pieces : List (List Char)} (pos : Nat), (∀ p ∈ pieces, Plain p) →
      Apart (pieces.flatMap ('\t' :: ·)) tail →
      (Expr.star (.seq (.text ['\t']) cell)).run pos (pieces.flatMap ('\t' :: ·) ++ tail)
        = some ⟨pieces.flatMap ('\t' :: ·), tail, pieces.map cellNode⟩ := by
  intro pieces
  induction pieces with
  | nil =>
      intro pos _ _
      exact Peg.run_star_of_none
        (Peg.run_seq_of_none (Peg.run_text_of_head_ne htail.head_ne_tab [] pos))
  | cons p pieces ih =>
      intro pos hplain hapart
      obtain ⟨hp, hpieces⟩ := List.forall_mem_cons.mp hplain
      rw [List.flatMap_cons] at hapart ⊢
      have hafter : Apart (p ++ pieces.flatMap ('\t' :: ·)) tail :=
        Apart.of_append (a := ['\t']) hapart
      obtain ⟨hcell, hseam⟩ := cell_tail_and_apart htail hafter
      rw [List.append_assoc]
      -- one tab and one cell, and then the others
      have hround := Peg.run_seq (Peg.run_text ['\t'] _ pos)
        (run_cell hp hcell hseam (pos + ['\t'].length))
      exact Peg.run_star_of_some hround (by simp [Match.followedBy])
        (ih _ hpieces hafter.of_append)

/-- A row is a line without its line end. -/
theorem run_row {line tail : List Char} (hline : '\n' ∉ line) (htail : RowTail tail)
    (hapart : Apart line tail) (pos : Nat) :
    row.run pos (line ++ tail) = some ⟨line, tail, [rowNode line]⟩ := by
  obtain ⟨first, others, hpieces⟩ := Text.exists_splitOn_eq_cons '\t' line
  have hplain : ∀ p ∈ first :: others, Plain p := by
    intro p hp c hc
    rw [← hpieces] at hp
    obtain ⟨hmem, hne⟩ := Text.of_mem_splitOn hp c hc
    exact ⟨hne, fun hfeed => hline (hfeed ▸ hmem)⟩
  obtain ⟨hfirst, hothers⟩ := List.forall_mem_cons.mp hplain
  have hjoin := Text.eq_append_flatMap_of_splitOn hpieces
  rw [hjoin] at hapart
  obtain ⟨hcell, hseam⟩ := cell_tail_and_apart htail hapart
  rw [rowNode, hpieces, hjoin, List.append_assoc]
  exact Peg.run_rule .row .full (Peg.run_seq (run_cell hfirst hcell hseam pos)
    (run_furtherCells htail _ hothers hapart.of_append))

/-! ## Lines -/

/-- The carriage return at the end of a line, if there is one. -/
def returnOf (line : List Char) : List Char :=
  if line.getLast? = some '\r' then ['\r'] else []

theorem dropReturn_append_returnOf (line : List Char) : dropReturn line ++ returnOf line = line := by
  rw [dropReturn, returnOf]
  by_cases h : line.getLast? = some '\r'
  · rw [if_pos h, if_pos h, List.dropLast_append_getLast? '\r' h]
  · rw [if_neg h, if_neg h, List.append_nil]

/-- What a row takes of a line in front of other lines: all, or what stands
    before its line end. -/
def bodyOf (line : List Char) (others : List (List Char)) : List Char :=
  if others = [] then line else dropReturn line

/-- What is left behind the row of a line: nothing, or the line end and the
    other lines. -/
def tailOf (line : List Char) (others : List (List Char)) : List Char :=
  if others = [] then [] else returnOf line ++ others.flatMap ('\n' :: ·)

/-- The rows of lines. -/
def bodies : List (List Char) → List (List Char)
  | [] => []
  | line :: others => bodyOf line others :: bodies others

/-- What a row takes and what it leaves make up the text of all lines. -/
theorem bodyOf_append_tailOf (line : List Char) (others : List (List Char)) :
    bodyOf line others ++ tailOf line others = line ++ others.flatMap ('\n' :: ·) := by
  rw [bodyOf, tailOf]
  by_cases h : others = []
  · rw [if_pos h, if_pos h, h]
    rfl
  · rw [if_neg h, if_neg h, ← List.append_assoc, dropReturn_append_returnOf]

/-- A carriage return before a line feed belongs to the line end and to
    nothing else. -/
theorem rowTail_and_apart (line : List Char) (others : List (List Char)) :
    RowTail (tailOf line others) ∧ Apart (bodyOf line others) (tailOf line others) := by
  cases others with
  | nil => exact ⟨.nothing, fun h => nomatch h⟩
  | cons next others =>
      rw [bodyOf, tailOf, if_neg (List.cons_ne_nil next others),
        if_neg (List.cons_ne_nil next others), dropReturn, returnOf]
      by_cases h : line.getLast? = some '\r'
      · rw [if_pos h, if_pos h]
        exact ⟨.returnFeed _, apart_of_head_ne (by simp) _⟩
      · rw [if_neg h, if_neg h]
        exact ⟨.feed _, fun _ => h⟩

theorem run_lineEnd_nil (pos : Nat) : lineEnd.run pos [] = none := rfl

/-- A line end is a line feed and the carriage return before it, if there is
    one. -/
theorem run_lineEnd (line rest : List Char) (pos : Nat) :
    lineEnd.run pos (returnOf line ++ '\n' :: rest)
      = some ⟨returnOf line ++ ['\n'], rest, []⟩ := by
  refine Peg.run_rule .lineEnd .silent (m := ⟨returnOf line ++ ['\n'], rest, []⟩) ?_
  rw [returnOf, Peg.run_choice]
  by_cases h : line.getLast? = some '\r'
  · rw [if_pos h]
    have hboth := Peg.run_text (ρ := Rule) ['\r', '\n'] rest pos
    exact (congrArg (Option.or · _) hboth).trans rfl
  · rw [if_neg h]
    have hreturn : ('\n' :: rest).head? ≠ some '\r' := by simp
    rw [List.nil_append, Peg.run_text_of_head_ne hreturn]
    exact Peg.run_text ['\n'] rest pos

/-- No line feed stands in the body of a line. -/
theorem not_mem_bodyOf {line : List Char} (h : '\n' ∉ line) (others : List (List Char)) :
    '\n' ∉ bodyOf line others := by
  intro hmem
  refine h ?_
  rw [bodyOf] at hmem
  by_cases hlast : others = []
  · rw [if_pos hlast] at hmem
    exact hmem
  · rw [if_neg hlast] at hmem
    rw [← dropReturn_append_returnOf line]
    exact List.mem_append_left _ hmem

/-- The rows behind the first one, each with the line end before it. -/
theorem run_furtherRows {others : List (List Char)} (hlines : ∀ l ∈ others, '\n' ∉ l) :
    ∀ (line : List Char) (pos : Nat),
      (Expr.star (.seq lineEnd row)).run pos (tailOf line others)
        = some ⟨tailOf line others, [], (bodies others).map rowNode⟩ := by
  induction others with
  | nil =>
      intro line pos
      exact Peg.run_star_of_none (Peg.run_seq_of_none (run_lineEnd_nil pos))
  | cons next others ih =>
      intro line pos
      obtain ⟨hnext, hothers⟩ := List.forall_mem_cons.mp hlines
      obtain ⟨htail, hapart⟩ := rowTail_and_apart next others
      have hsplit : tailOf line (next :: others)
          = returnOf line ++ '\n' :: (bodyOf next others ++ tailOf next others) := by
        rw [tailOf, if_neg (List.cons_ne_nil next others), bodyOf_append_tailOf]
        rfl
      have htaken : returnOf line ++ ['\n'] ++ bodyOf next others ++ tailOf next others
          = returnOf line ++ '\n' :: (bodyOf next others ++ tailOf next others) := by simp
      rw [hsplit]
      -- one line end and one row, and then the others
      have hround := Peg.run_seq (run_lineEnd line _ pos)
        (run_row (not_mem_bodyOf hnext others) htail hapart _)
      have hrun := Peg.run_star_of_some hround (by simp [Match.followedBy]; omega)
        (ih hothers next _)
      simp only [Match.followedBy, htaken] at hrun
      exact hrun

/-- The rows of a text. -/
def rowNodes (source : List Char) : List (Node Rule) :=
  (bodies (source.splitOn '\n')).map rowNode

def endNode : Node Rule := ⟨.endOfInput, [], []⟩

theorem run_endOfInput (pos : Nat) : endOfInput.run pos [] = some ⟨[], [], [endNode]⟩ := rfl

/-- **EVERY TEXT IS A TABLE**, with a row for each of its lines. -/
theorem run_table (source : List Char) :
    table.run 0 source = some ⟨source, [], [⟨.table, source, rowNodes source ++ [endNode]⟩]⟩ := by
  obtain ⟨line, others, hlines⟩ := Text.exists_splitOn_eq_cons '\n' source
  have hfree : ∀ l ∈ line :: others, '\n' ∉ l := by
    intro l hl hmem
    rw [← hlines] at hl
    exact (Text.of_mem_splitOn hl '\n' hmem).2 rfl
  obtain ⟨hline, hothers⟩ := List.forall_mem_cons.mp hfree
  obtain ⟨htail, hapart⟩ := rowTail_and_apart line others
  have hsource : source = bodyOf line others ++ tailOf line others := by
    rw [bodyOf_append_tailOf]
    exact Text.eq_append_flatMap_of_splitOn hlines
  have hstart : (Expr.start : Expr Rule).run 0 source = some (.empty source) := rfl
  have hfirst : row.run (0 + (Match.empty source : Match Rule).taken.length)
      (Match.empty source : Match Rule).rest
      = some ⟨bodyOf line others, tailOf line others, [rowNode (bodyOf line others)]⟩ := by
    show row.run _ source = _
    rw [hsource]
    exact run_row (not_mem_bodyOf hline others) htail hapart _
  have hrun := Peg.run_rule .table .full (Peg.run_seq hstart (Peg.run_seq hfirst
    (Peg.run_seq (run_furtherRows hothers line _) (run_endOfInput _))))
  rw [rowNodes, hlines]
  simp only [Match.followedBy, Match.empty, List.nil_append, List.append_nil, ← hsource] at hrun
  exact hrun

end PackedRecord.Table.Grammar
