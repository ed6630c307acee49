import PackedRecord.Proofs.Table.Numbering
import PackedRecord.Proofs.Text.Numerals

/-! # Refusals — which tables cannot be read

    Only two cells of a line can be at fault, and only if the line has a name:
    an offset that is no hexadecimal number of 64 bits, and a count that is no
    decimal number of 64 bits with a sign.  A table is refused exactly if one
    of its lines is at fault, for the first such line, and there for the offset
    before the count.  A table that is read says what its literals denote. -/

namespace PackedRecord.Table

open Text (IsDigit IsInteger IsNumber trim)

/-! ## Offsets -/

/-- A hexadecimal number of 64 bits, perhaps marked as hexadecimal. -/
def OffsetLiteral (cell : List Char) (n : Nat) : Prop :=
  n < 2 ^ 64 ∧ ∃ mark number, (mark = "" ∨ mark = "0x" ∨ mark = "0X")
    ∧ cell = mark.toList ++ number ∧ IsNumber 16 number n

/-- A number has no radix mark in front. -/
theorem stripRadix_of_isNumber {cell : List Char} {n : Nat} (h : IsNumber 16 cell n) :
    stripRadix cell = cell := by
  unfold stripRadix
  split
  · exact absurd h (Text.not_isNumber_marked (by decide) (Or.inl rfl) _ n)
  · exact absurd h (Text.not_isNumber_marked (by decide) (Or.inr rfl) _ n)
  · rfl

/-- An offset is a number of 64 bits behind its radix mark. -/
theorem offsetLiteral_iff (cell : List Char) (n : Nat) :
    OffsetLiteral cell n ↔ n < 2 ^ 64 ∧ IsNumber 16 (stripRadix cell) n := by
  refine and_congr_right fun _ => ?_
  constructor
  · rintro ⟨_, number, rfl | rfl | rfl, rfl, hn⟩
    · exact (stripRadix_of_isNumber hn).symm ▸ hn
    · exact hn
    · exact hn
  · intro hn
    unfold stripRadix at hn
    split at hn
    · exact ⟨"0x", _, Or.inr (Or.inl rfl), rfl, hn⟩
    · exact ⟨"0X", _, Or.inr (Or.inr rfl), rfl, hn⟩
    · exact ⟨"", _, Or.inl rfl, rfl, hn⟩

variable {line : Nat} {cell : List Char}

/-- The offsets that can be read are the literals. -/
theorem readOffset_eq_ok_iff {n : Nat} : readOffset line cell = .ok n ↔ OffsetLiteral cell n := by
  rw [offsetLiteral_iff]
  have hbound : Text.bound64 = 2 ^ 64 := rfl
  rw [← Text.readNat_eq_ok_iff (by decide) (by decide), readOffset, hbound]
  cases Text.readNat 16 (2 ^ 64) (stripRadix cell) with
  | ok m => simp
  | error err => simp

theorem readOffset_eq_error_iff {err : ReadError} :
    readOffset line cell = .error err
      ↔ (∀ n, ¬ OffsetLiteral cell n) ∧ err = .offset line (String.ofList cell) := by
  have hok : ∀ n, readOffset line cell = .ok n ↔ OffsetLiteral cell n :=
    fun n => readOffset_eq_ok_iff
  simp only [← hok]
  rw [readOffset]
  cases Text.readNat 16 Text.bound64 (stripRadix cell) with
  | ok n =>
      refine iff_of_false Outcome.ok_ne_error fun h => ?_
      exact h.1 n rfl
  | error _ =>
      constructor
      · intro h
        exact ⟨fun n => Outcome.error_ne_ok, (Except.error.inj h).symm⟩
      · rintro ⟨-, rfl⟩
        rfl

/-! ## Counts -/

/-- A decimal number of 64 bits, one of which is for the sign. -/
def CountLiteral (text : List Char) (i : Int) : Prop :=
  (-2 ^ 63 ≤ i ∧ i < 2 ^ 63) ∧ IsInteger text i

/-- The cell ends in a bracket around `inside`, and `before` is what stands in
    front of it.  Of several brackets that the end closes, the first one
    counts. -/
structure Suffix (cell before inside : List Char) : Prop where
  eq : cell = before ++ '[' :: (inside ++ [']'])
  free : ']' ∉ inside
  first : ∀ before' inside', cell = before' ++ '[' :: (inside' ++ [']']) → ']' ∉ inside' →
    before.length ≤ before'.length

/-- A count in brackets goes on to its first closing bracket, which ends the
    cell. -/
theorem bracketed?_eq_some_iff {text inside : List Char} :
    bracketed? text = some inside ↔ text = '[' :: (inside ++ [']']) ∧ ']' ∉ inside := by
  constructor
  · intro h
    unfold bracketed? at h
    split at h
    · next rest =>
        obtain ⟨hclosed, hinside⟩ := Option.ite_none_right_eq_some.mp h
        obtain rfl := Option.some.inj hinside
        refine ⟨?_, fun hmem => ?_⟩
        · rw [← hclosed, List.takeWhile_append_dropWhile]
        · simpa using List.mem_takeWhile_imp hmem
    · exact nomatch h
  · rintro ⟨rfl, hfree⟩
    have hall : ∀ c ∈ inside, decide (c ≠ ']') = true := by
      intro c hc
      refine decide_eq_true fun heq => hfree ?_
      rw [← heq]
      exact hc
    rw [Grammar.bracketed?_cons, List.dropWhile_append_of_pos hall,
      List.takeWhile_append_of_pos hall]
    simp

/-- No bracket that the end closes begins in what is cut off in front. -/
theorem le_length_of_splitCount {before inside : List Char}
    (h : cell = before ++ '[' :: (inside ++ [']'])) (hfree : ']' ∉ inside) :
    (splitCount cell).1.length ≤ before.length := by
  obtain ⟨tail, hcell, -, -, hnone⟩ := Grammar.splitCount_spec cell
  by_contra hshort
  obtain ⟨suffix, hname, htext⟩ : ∃ suffix, (splitCount cell).1 = before ++ suffix
      ∧ '[' :: (inside ++ [']']) = suffix ++ tail := by
    have hboth := hcell.symm.trans h
    rcases List.append_eq_append_iff.mp hboth with ⟨mid, hbefore, -⟩ | ⟨mid, hname, htext⟩
    · rw [hbefore, List.length_append] at hshort
      omega
    · exact ⟨mid, hname, htext⟩
  have hne : suffix ≠ [] := by
    rintro rfl
    rw [hname, List.append_nil] at hshort
    exact hshort (Nat.le_refl _)
  have hsuffix := hnone suffix (hname ▸ List.suffix_append before suffix) hne
  rw [← htext, bracketed?_eq_some_iff.mpr ⟨rfl, hfree⟩] at hsuffix
  exact nomatch hsuffix

/-- A count is cut off where its bracket opens. -/
theorem suffix_of_splitCount {before inside : List Char}
    (h : splitCount cell = (before, some inside)) : Suffix cell before inside := by
  obtain ⟨tail, hcell, htail, -, -⟩ := Grammar.splitCount_spec cell
  rw [h] at hcell htail
  obtain ⟨rfl, hfree⟩ := bracketed?_eq_some_iff.mp htail
  refine ⟨hcell, hfree, fun before' inside' hcell' hfree' => ?_⟩
  have hle := le_length_of_splitCount hcell' hfree'
  rw [h] at hle
  exact hle

/-- Where nothing is cut off, every bracket that the end could close is closed
    before. -/
theorem mem_of_splitCount {name before inside : List Char} (h : splitCount cell = (name, none))
    (hcell : cell = before ++ '[' :: (inside ++ [']'])) : ']' ∈ inside := by
  by_contra hfree
  obtain ⟨tail, hsplit, htail, hend, -⟩ := Grammar.splitCount_spec cell
  have hle := le_length_of_splitCount hcell hfree
  rw [h] at hsplit htail hle
  rcases hend with rfl | hsome
  · -- nothing is left for the bracket
    have hlength := congrArg List.length (hcell.symm.trans hsplit)
    simp at hlength hle
    omega
  · rw [htail] at hsome
    exact nomatch hsome

theorem not_suffix_of_splitCount {name : List Char} (h : splitCount cell = (name, none))
    (before inside : List Char) : ¬ Suffix cell before inside :=
  fun hsuffix => hsuffix.free (mem_of_splitCount h hsuffix.eq)

/-- The cut that is made is the one that is right. -/
theorem splitCount_eq_iff {before inside : List Char} :
    splitCount cell = (before, some inside) ↔ Suffix cell before inside := by
  refine ⟨suffix_of_splitCount, fun h => ?_⟩
  rcases hsplit : splitCount cell with ⟨name, inside?⟩
  cases inside? with
  | none => exact absurd h (not_suffix_of_splitCount hsplit before inside)
  | some inside' =>
      have h' := suffix_of_splitCount hsplit
      have hlength := Nat.le_antisymm (h.first _ _ h'.eq h'.free) (h'.first _ _ h.eq h.free)
      obtain ⟨rfl, hrest⟩ := List.append_inj (h'.eq.symm.trans h.eq) hlength.symm
      obtain ⟨hinside, -⟩ := List.append_inj' (List.cons.inj hrest).2 rfl
      rw [hinside]

example : Suffix "a[[2]".toList "a".toList "[2".toList :=
  splitCount_eq_iff.mp (by decide)

theorem readInt_eq_ok_iff {text : List Char} {i : Int} :
    Text.readInt (1 <<< 63) text = .ok i ↔ CountLiteral text i :=
  Text.readInt_eq_ok_iff (by decide) text

/-- What a name cell says of how many elements there are: one, if it says
    nothing. -/
def CountOf (cell : List Char) (i : Int) : Prop :=
  (∃ before inside, Suffix cell before inside ∧ CountLiteral (trim inside) i)
    ∨ (∀ before inside, ¬ Suffix cell before inside) ∧ i = 1

/-- A count that is read is the one that its cell states. -/
theorem countOf_of_readName {found : String × Int} (h : readName line cell = .ok found) :
    CountOf cell found.2 := by
  rw [readName] at h
  rcases hsplit : splitCount cell with ⟨name, inside?⟩
  rw [hsplit] at h
  cases inside? with
  | none =>
      obtain rfl := Except.ok.inj h
      exact Or.inr ⟨not_suffix_of_splitCount hsplit, rfl⟩
  | some inside =>
      dsimp only at h
      cases hread : Text.readInt (1 <<< 63) (trim inside) with
      | error _ =>
          rw [hread] at h
          exact absurd h Outcome.error_ne_ok
      | ok i =>
          rw [hread] at h
          obtain rfl := Except.ok.inj h
          exact Or.inl ⟨name, inside, splitCount_eq_iff.mp hsplit, readInt_eq_ok_iff.mp hread⟩

/-- A name is refused exactly if it has a count that is no literal. -/
theorem readName_eq_error_iff {err : ReadError} :
    readName line cell = .error err
      ↔ ∃ before inside, Suffix cell before inside ∧ (∀ i, ¬ CountLiteral (trim inside) i)
        ∧ err = .count line (String.ofList inside) := by
  simp only [← splitCount_eq_iff, ← readInt_eq_ok_iff]
  rw [readName]
  obtain ⟨name, inside?⟩ := splitCount cell
  cases inside? with
  | none =>
      refine iff_of_false Outcome.ok_ne_error ?_
      rintro ⟨before, inside, hsplit, -, -⟩
      cases (Prod.mk.inj hsplit).2
  | some inside =>
      dsimp only
      constructor
      · intro h
        refine ⟨name, inside, rfl, ?_⟩
        cases hread : Text.readInt (1 <<< 63) (trim inside) with
        | ok i =>
            rw [hread] at h
            exact absurd h Outcome.ok_ne_error
        | error _ =>
            rw [hread] at h
            exact ⟨fun i => Outcome.error_ne_ok, (Except.error.inj h).symm⟩
      · rintro ⟨before, inside', hsplit, hnone, rfl⟩
        obtain rfl := Option.some.inj (Prod.mk.inj hsplit).2
        cases hread : Text.readInt (1 <<< 63) (trim inside) with
        | ok i => exact absurd hread (hnone i)
        | error _ => rfl

/-! ## Lines -/

/-- The line has a name, and its offset or its count is no such number. -/
def AtFault (cells : List (List Char)) : Prop :=
  cells.getD 2 [] ≠ []
    ∧ ((∀ n, ¬ OffsetLiteral (cells.getD 0 []) n)
      ∨ ∃ before inside, Suffix (cells.getD 2 []) before inside
          ∧ ∀ i, ¬ CountLiteral (trim inside) i)

/-- What is said against a line that is at fault.  The count is looked at only
    where the offset is a number. -/
inductive Refuses (line : Nat) (cells : List (List Char)) : ReadError → Prop
  | offset : cells.getD 2 [] ≠ [] → (∀ n, ¬ OffsetLiteral (cells.getD 0 []) n) →
      Refuses line cells (.offset line (String.ofList (cells.getD 0 [])))
  | count {n : Nat} {before inside : List Char} : cells.getD 2 [] ≠ [] →
      OffsetLiteral (cells.getD 0 []) n → Suffix (cells.getD 2 []) before inside →
      (∀ i, ¬ CountLiteral (trim inside) i) →
      Refuses line cells (.count line (String.ofList inside))

variable {cells : List (List Char)}

/-- A line is at fault exactly if there is an error to report. -/
theorem atFault_iff_refuses (line : Nat) : AtFault cells ↔ ∃ err, Refuses line cells err := by
  constructor
  · rintro ⟨hname, hfault⟩
    by_cases hoffset : ∃ n, OffsetLiteral (cells.getD 0 []) n
    · obtain ⟨n, hn⟩ := hoffset
      rcases hfault with hnone | ⟨before, inside, hsuffix, hcount⟩
      · exact absurd hn (hnone n)
      · exact ⟨_, .count hname hn hsuffix hcount⟩
    · exact ⟨_, .offset hname (not_exists.mp hoffset)⟩
  · rintro ⟨err, hrefuses⟩
    cases hrefuses with
    | offset hname hoffset => exact ⟨hname, Or.inl hoffset⟩
    | count hname _ hsuffix hcount => exact ⟨hname, Or.inr ⟨_, _, hsuffix, hcount⟩⟩

/-- A field is refused for its offset, or for its count if the offset is read. -/
theorem readField_eq_error_iff {err : ReadError} (hname : cells.getD 2 [] ≠ []) :
    readField line (cells.getD 0 []) (cells.getD 1 []) (cells.getD 2 []) cells = .error err
      ↔ Refuses line cells err := by
  rw [readField]
  constructor
  · intro h
    rcases Outcome.of_bind_error h with hoffset | ⟨n, hn, h⟩
    · obtain ⟨hnone, rfl⟩ := readOffset_eq_error_iff.mp hoffset
      exact .offset hname hnone
    rcases Outcome.of_bind_error h with hcount | ⟨found, -, h⟩
    · obtain ⟨before, inside, hsuffix, hnone, rfl⟩ := readName_eq_error_iff.mp hcount
      exact .count hname (readOffset_eq_ok_iff.mp hn) hsuffix hnone
    · exact absurd h Outcome.ok_ne_error
  · intro h
    cases h with
    | offset _ hnone =>
        rw [readOffset_eq_error_iff.mpr ⟨hnone, rfl⟩]
        rfl
    | count _ hn hsuffix hnone =>
        rw [readOffset_eq_ok_iff.mpr hn,
          readName_eq_error_iff.mpr ⟨_, _, hsuffix, hnone, rfl⟩]
        rfl

theorem plainRow_of_named (line : Nat) (hname : cells.getD 2 [] ≠ []) :
    plainRow line cells
      = (readField line (cells.getD 0 []) (cells.getD 1 []) (cells.getD 2 []) cells).map
          .field := by
  rw [← readRow_eq_plainRow, readRow_of_named line hname]

/-- A line is refused exactly if it is at fault, for the fault that comes first. -/
theorem plainRow_eq_error_iff {err : ReadError} :
    plainRow line cells = .error err ↔ Refuses line cells err := by
  by_cases hname : cells.getD 2 [] ≠ []
  · rw [plainRow_of_named line hname, Outcome.map_eq_error_iff, readField_eq_error_iff hname]
  · rw [← readRow_eq_plainRow, readRow_of_unnamed line (not_not.mp hname)]
    refine iff_of_false Outcome.ok_ne_error fun h => ?_
    cases h with
    | offset h => exact hname h
    | count h => exact hname h

/-- A line that is not at fault has a row. -/
theorem exists_plainRow_iff (line : Nat) :
    (∃ row, plainRow line cells = .ok row) ↔ ¬ AtFault cells := by
  rw [atFault_iff_refuses line]
  simp only [← plainRow_eq_error_iff]
  rw [Outcome.exists_error_iff, not_not]

/-- A line with a name has a field, which keeps what the literals denote. -/
def Row.Keeps (cells : List (List Char)) : Row → Prop
  | .field f =>
      cells.getD 2 [] ≠ [] ∧ OffsetLiteral (cells.getD 0 []) f.offset
        ∧ CountOf (cells.getD 2 []) f.count
  | _ => cells.getD 2 [] = []

/-- A line that is read says what its literals denote. -/
theorem keeps_of_plainRow {row : Row} (h : plainRow line cells = .ok row) : row.Keeps cells := by
  by_cases hname : cells.getD 2 [] ≠ []
  · rw [plainRow_of_named line hname] at h
    obtain ⟨f, hf, rfl⟩ := Outcome.of_map_ok h
    rw [readField] at hf
    obtain ⟨n, hn, hf⟩ := Outcome.of_bind_ok hf
    obtain ⟨found, hfound, hf⟩ := Outcome.of_bind_ok hf
    obtain rfl := Except.ok.inj hf
    exact ⟨hname, readOffset_eq_ok_iff.mp hn, countOf_of_readName hfound⟩
  · rw [← readRow_eq_plainRow, readRow_of_unnamed line (not_not.mp hname)] at h
    obtain rfl := Except.ok.inj h
    split <;> exact not_not.mp hname

/-! ## Tables -/

/-- What does not depend on the number of a line holds of numbered lines as it
    does of lines. -/
theorem forall_mem_zipIdx_iff {α : Type} {p : α → Prop} (first : Nat) (l : List α) :
    (∀ item ∈ l.zipIdx first, p item.1) ↔ ∀ a ∈ l, p a := by
  conv_rhs => rw [← List.zipIdx_map_fst first l]
  exact List.forall_mem_map.symm

/-- Lines are read exactly if none of them is at fault. -/
theorem exists_rowsFrom_iff (first : Nat) (lines : List (List (List Char))) :
    (∃ rows, rowsFrom first lines = .ok rows) ↔ ∀ cells ∈ lines, ¬ AtFault cells := by
  rw [rowsFrom, Outcome.exists_mapM_eq_ok_iff]
  simp only [exists_plainRow_iff]
  exact forall_mem_zipIdx_iff (p := fun cells => ¬ AtFault cells) first lines

/-- The first line at fault is the one that is reported. -/
theorem rowsFrom_eq_error_iff {err : ReadError} (first : Nat) (lines : List (List (List Char))) :
    rowsFrom first lines = .error err
      ↔ ∃ before cells after, lines = before ++ cells :: after
          ∧ (∀ upper ∈ before, ¬ AtFault upper)
          ∧ Refuses (first + before.length) cells err := by
  rw [rowsFrom, Outcome.mapM_eq_error_iff]
  simp only [exists_plainRow_iff, plainRow_eq_error_iff]
  constructor
  · rintro ⟨before, item, after, hlines, hbefore, hitem⟩
    obtain ⟨upper, lower, rfl, rfl, hlower⟩ := List.zipIdx_eq_append_iff.mp hlines
    obtain ⟨cells, rest, rfl, rfl, -⟩ := List.zipIdx_eq_cons_iff.mp hlower.symm
    exact ⟨upper, cells, rest, rfl, (forall_mem_zipIdx_iff first upper).mp hbefore, hitem⟩
  · rintro ⟨before, cells, after, rfl, hbefore, hcells⟩
    rw [List.zipIdx_append, List.zipIdx_cons]
    exact ⟨_, _, _, rfl, (forall_mem_zipIdx_iff first before).mpr hbefore, hcells⟩

theorem keeps_of_rowsFrom {first : Nat} {lines : List (List (List Char))} {rows : List Row}
    (h : rowsFrom first lines = .ok rows) : List.Forall₂ Row.Keeps lines rows := by
  rw [rowsFrom, Outcome.mapM_eq_ok_iff] at h
  rw [← List.zipIdx_map_fst first lines, List.forall₂_map_left_iff]
  exact h.imp fun item row => keeps_of_plainRow

/-- **TABLES ARE REFUSED EXACTLY** if a line with a name has an offset or a
    count that is no literal.  What is reported is the first such line, with
    its number, and on it the offset before the count.  A table that is read
    has a row for each line, and a field for each line with a name, whose offset
    and count are what the literals denote. -/
theorem refused_exactly (source : String) :
    ((∃ err, read source = .error err) ↔ ∃ cells ∈ cellsOf source, AtFault cells)
      ∧ (∀ err, read source = .error err
        ↔ ∃ before cells after, cellsOf source = before ++ cells :: after
            ∧ (∀ upper ∈ before, ¬ AtFault upper)
            ∧ Refuses (before.length + 1) cells err)
      ∧ ∀ rows, read source = .ok rows → List.Forall₂ Row.Keeps (cellsOf source) rows := by
  rw [read_eq_rowsFrom]
  refine ⟨?_, fun err => ?_, fun rows => keeps_of_rowsFrom⟩
  · rw [Outcome.exists_error_iff, exists_rowsFrom_iff]
    simp only [not_forall, not_not, exists_prop]
  · simp only [Nat.add_comm _ 1]
    exact rowsFrom_eq_error_iff 1 (cellsOf source)

/-- Literals at the limits are read; on a line with two faults the offset is
    reported, as it is trimmed. -/
theorem refused_exactly_limits :
    List.Forall₂ Row.Keeps (cellsOf "0X+00fFFFFFFFFFFFFFFF\tu8\ta[ -9223372036854775808 ]")
        [.field ⟨1, 18446744073709551615, .known .u8, "a", -9223372036854775808, ""⟩]
      ∧ ∃ before cells after,
          cellsOf "zz\tu8\n 10000000000000000 \tu8\ta[9223372036854775808]"
              = before ++ cells :: after
            ∧ (∀ upper ∈ before, ¬ AtFault upper)
            ∧ Refuses (before.length + 1) cells (.offset 2 "10000000000000000") :=
  ⟨(refused_exactly _).2.2 _ (by decide), ((refused_exactly _).2.1 _).mp (by decide)⟩

end PackedRecord.Table
