import PackedRecord.Proofs.Table.Refusals

/-! # Name cells — the one way to cut them

    A name cell is cut by a rule that repeats a character as long as no count
    begins there, and a count is looked for at every character anew.  What
    comes of it can be said without a rule: if the end of the cell closes a
    bracket, the cell is cut at the first bracket that it closes, and otherwise
    it is a name as a whole.  Brackets inside of the count, brackets inside of
    the name and a name that is empty make no difference. -/

namespace PackedRecord.Table

open Peg (Node)
open Text (trim)

/-! ## What is cut off -/

section

variable {cell before inside : List Char}

/-- If the end of a cell closes a bracket, there is a first bracket that it
    closes. -/
theorem exists_suffix (h : cell = before ++ '[' :: (inside ++ [']'])) (hfree : ']' ∉ inside) :
    ∃ before inside, Suffix cell before inside := by
  rcases hsplit : splitCount cell with ⟨name, inside?⟩
  cases inside? with
  | none => exact absurd (mem_of_splitCount hsplit h) hfree
  | some inside' => exact ⟨name, inside', splitCount_eq_iff.mp hsplit⟩

/-- A cell without a count is its name. -/
theorem eq_of_splitCount {name : List Char} (h : splitCount cell = (name, none)) : name = cell := by
  obtain ⟨tail, hcell, htail, hend, -⟩ := Grammar.splitCount_spec cell
  rw [h] at hcell htail
  rcases hend with rfl | hsome
  · rw [hcell, List.append_nil]
  · rw [htail] at hsome
    exact nomatch hsome

/-- A cell is a name as a whole exactly if its end closes no bracket. -/
theorem splitCount_eq_none_iff :
    splitCount cell = (cell, none)
      ↔ ∀ before inside, cell = before ++ '[' :: (inside ++ [']']) → ']' ∈ inside := by
  constructor
  · intro h before inside hcell
    exact mem_of_splitCount h hcell
  · intro h
    rcases hsplit : splitCount cell with ⟨name, inside?⟩
    cases inside? with
    | none => rw [eq_of_splitCount hsplit]
    | some inside =>
        have hsuffix := splitCount_eq_iff.mp hsplit
        exact absurd (h name inside hsuffix.eq) hsuffix.free

end

/-! ## Trees and readings -/

namespace Grammar

/-- The tree of a cell with a count. -/
def countedTree (raw before inside : List Char) : Node Rule :=
  ⟨.fieldName, raw,
    [baseNameNode before, arraySuffixNode ('[' :: (inside ++ [']'])) inside, endNode]⟩

/-- The tree of a cell that is a name as a whole. -/
def bareTree (raw : List Char) : Node Rule :=
  ⟨.fieldName, raw, [baseNameNode raw, endNode]⟩

/-- What a name cell may be: a name with a count that is a number, a name with
    a count that is none, or just a name. -/
inductive NameCell (line : Nat) (raw : List Char) :
    Node Rule → Except (Stop ReadError) (String × Int) → Prop
  | counted {before inside : List Char} {i : Int} : Suffix raw before inside →
      CountLiteral (trim inside) i →
      NameCell line raw (countedTree raw before inside) (.ok (String.ofList (trim before), i))
  | refused {before inside : List Char} : Suffix raw before inside →
      (∀ i, ¬ CountLiteral (trim inside) i) →
      NameCell line raw (countedTree raw before inside)
        (.error (.refusal (.count line (String.ofList inside))))
  | bare : (∀ before inside, raw = before ++ '[' :: (inside ++ [']']) → ']' ∈ inside) →
      NameCell line raw (bareTree raw) (.ok (String.ofList (trim raw), 1))

variable {line : Nat} {raw : List Char}

/-- With a count at the end, the rule for names leaves a name and the count. -/
theorem parse_of_suffix {before inside : List Char} (h : Suffix raw before inside) :
    (parse fieldName raw : Except (Stop ReadError) _) = .ok (countedTree raw before inside) := by
  obtain ⟨tail, htail, hrun⟩ := run_fieldName raw
  rw [splitCount_eq_iff.mpr h] at htail hrun
  obtain ⟨rfl, -⟩ := bracketed?_eq_some_iff.mp htail
  rw [suffixNodes, htail] at hrun
  rw [parse, hrun]
  rfl

/-- Without a count at the end, the rule leaves a name and nothing else. -/
theorem parse_of_forall_mem
    (h : ∀ before inside, raw = before ++ '[' :: (inside ++ [']']) → ']' ∈ inside) :
    (parse fieldName raw : Except (Stop ReadError) _) = .ok (bareTree raw) := by
  obtain ⟨tail, htail, hrun⟩ := run_fieldName raw
  rw [splitCount_eq_none_iff.mpr h] at htail hrun
  rw [suffixNodes, htail] at hrun
  rw [parse, hrun]
  rfl

/-- Every cell is one of them. -/
theorem exists_nameCell (line : Nat) (raw : List Char) :
    ∃ tree result, NameCell line raw tree result := by
  by_cases hsuffix : ∃ before inside, Suffix raw before inside
  · obtain ⟨before, inside, hsuffix⟩ := hsuffix
    by_cases hcount : ∃ i, CountLiteral (trim inside) i
    · obtain ⟨i, hi⟩ := hcount
      exact ⟨_, _, .counted hsuffix hi⟩
    · exact ⟨_, _, .refused hsuffix (not_exists.mp hcount)⟩
  · refine ⟨_, _, .bare fun before inside hraw => ?_⟩
    by_contra hfree
    exact hsuffix (exists_suffix hraw hfree)

/-- What a cell is decides its tree and how it is read. -/
theorem NameCell.outcome {tree : Node Rule} {result : Except (Stop ReadError) (String × Int)}
    (h : NameCell line raw tree result) :
    (parse fieldName raw : Except (Stop ReadError) _) = .ok tree ∧ readName line raw = result := by
  rw [readName_eq]
  cases h with
  | counted hsuffix hcount =>
      refine ⟨parse_of_suffix hsuffix, ?_⟩
      rw [Table.readName, splitCount_eq_iff.mpr hsuffix]
      simp only [readInt_eq_ok_iff.mpr hcount]
      rfl
  | refused hsuffix hnone =>
      refine ⟨parse_of_suffix hsuffix, ?_⟩
      rw [readName_eq_error_iff.mpr ⟨_, _, hsuffix, hnone, rfl⟩]
      rfl
  | bare hbare =>
      refine ⟨parse_of_forall_mem hbare, ?_⟩
      rw [Table.readName, splitCount_eq_none_iff.mpr hbare]
      rfl

/-- A count is found in a tree just where there is one in the cell. -/
theorem NameCell.exists_arraySuffix_iff {tree : Node Rule}
    {result : Except (Stop ReadError) (String × Int)} (h : NameCell line raw tree result) :
    (∃ part ∈ tree.inner, part.rule = .arraySuffix)
      ↔ ∃ before inside, raw = before ++ '[' :: (inside ++ [']']) ∧ ']' ∉ inside := by
  have hcounted : ∀ before inside, ∃ part ∈ (countedTree raw before inside).inner,
      part.rule = .arraySuffix := by
    intro before inside
    simp [countedTree, arraySuffixNode]
  cases h with
  | counted hsuffix _ => exact iff_of_true (hcounted _ _) ⟨_, _, hsuffix.eq, hsuffix.free⟩
  | refused hsuffix _ => exact iff_of_true (hcounted _ _) ⟨_, _, hsuffix.eq, hsuffix.free⟩
  | bare hbare =>
      refine iff_of_false (by simp [bareTree, baseNameNode, endNode]) ?_
      rintro ⟨before, inside, hraw, hfree⟩
      exact hfree (hbare before inside hraw)

/-- **NAME CELLS ARE CUT IN ONE WAY**: every text has a tree as a name cell, so
    that reading one meets no text that its rule does not match, and cutting it
    without a rule reads the same.  In the tree there is a count exactly if the
    end of the text closes a bracket; of all brackets that it closes the first
    one cuts, what stands before it is the name, and what stands inside is the
    count or is refused as it is.  Any other text is a name as a whole, with one
    element. -/
theorem name_cells_cut (line : Nat) (raw : List Char) :
    readName line raw = (Table.readName line raw).mapError .refusal
      ∧ (∃ tree, (parse fieldName raw : Except (Stop ReadError) _) = .ok tree
        ∧ ((∃ part ∈ tree.inner, part.rule = .arraySuffix)
          ↔ ∃ before inside, raw = before ++ '[' :: (inside ++ [']']) ∧ ']' ∉ inside))
      ∧ ∀ tree result,
        (parse fieldName raw : Except (Stop ReadError) _) = .ok tree ∧ readName line raw = result
          ↔ NameCell line raw tree result := by
  obtain ⟨tree, result, hcell⟩ := exists_nameCell line raw
  obtain ⟨htree, hresult⟩ := hcell.outcome
  refine ⟨readName_eq line raw, ⟨tree, htree, hcell.exists_arraySuffix_iff⟩, ?_⟩
  intro tree' result'
  constructor
  · rintro ⟨htree', rfl⟩
    rw [hresult, ← Except.ok.inj (htree.symm.trans htree')]
    exact hcell
  · exact NameCell.outcome

/-- A bracket inside of the count, one in the middle, one that is closed too
    early, and a count without a name. -/
example :
    readName 1 " a [[2]".toList = .error (.refusal (.count 1 "[2"))
      ∧ readName 1 "a[1]b[ 2 ]".toList = .ok ("a[1]b", 2)
      ∧ readName 1 "a[1]]".toList = .ok ("a[1]]", 1)
      ∧ readName 1 "[+03]".toList = .ok ("", 3) := by
  simp only [readName_eq]
  decide

end Grammar

end PackedRecord.Table
