import Mathlib
import PackedRecord.Text.Blank

/-! # Blanks — what trimming leaves, and what collapsing ignores

    A text stays as it is when it is trimmed exactly if it has no blank at
    either end.  Collapsing a text does not see the blanks at its ends, so that
    it is the same whether the text was trimmed before or not. -/

namespace PackedRecord.Text

/-! ## Trimming -/

theorem trimEnd_eq_rdropWhile (text : List Char) : trimEnd text = text.rdropWhile isBlank := rfl

theorem sublist_trim (text : List Char) : List.Sublist (trim text) text :=
  (List.rdropWhile_prefix isBlank _).sublist.trans (List.dropWhile_sublist isBlank)

/-- A text without blanks at its ends is not changed. -/
theorem trim_eq_self {text : List Char} (hhead : ∀ c ∈ text.head?, isBlank c = false)
    (hlast : ∀ c ∈ text.getLast?, isBlank c = false) : trim text = text := by
  have hstart : trimStart text = text := by
    cases text with
    | nil => rfl
    | cons c rest => exact List.dropWhile_cons_of_neg (by simp [hhead c rfl])
  have hend : trimEnd text = text := by
    rw [trimEnd_eq_rdropWhile, List.rdropWhile_eq_self_iff]
    intro hne hblank
    rw [hlast _ (List.getLast?_eq_some_getLast hne)] at hblank
    exact nomatch hblank
  rw [trim, hstart, hend]

/-- A text without blanks stays as it is. -/
theorem trim_of_forall_not_blank {text : List Char} (h : ∀ c ∈ text, isBlank c = false) :
    trim text = text :=
  trim_eq_self (fun c hc => h c (List.mem_of_mem_head? hc))
    (fun c hc => h c (List.mem_of_getLast? hc))

/-- A text that is not changed does not begin with a blank. -/
theorem isBlank_head_of_trim {c : Char} {rest : List Char} (h : trim (c :: rest) = c :: rest) :
    isBlank c = false := by
  cases hblank : isBlank c with
  | false => rfl
  | true =>
      have hrest : trim (c :: rest) = trim rest := by
        rw [trim, trim, trimStart, List.dropWhile_cons_of_pos hblank]
        rfl
      have hlength := (sublist_trim rest).length_le
      rw [← hrest, h, List.length_cons] at hlength
      omega

/-! ## Collapsing -/

/-- A blank in front is not seen. -/
theorem collapse_cons_of_blank {c : Char} (h : isBlank c = true) (rest : List Char) :
    collapse (c :: rest) = collapse rest := by
  rw [collapse, splitWhere_cons, if_pos h]
  rfl

/-- A separator at the end has an empty piece behind it. -/
theorem splitWhere_append_of_pos {p : Char → Bool} {c : Char} (h : p c = true) (text : List Char) :
    splitWhere p (text ++ [c]) = splitWhere p text ++ [[]] := by
  induction text with
  | nil =>
      rw [List.nil_append, splitWhere_cons, if_pos h]
      rfl
  | cons d rest ih =>
      rw [List.cons_append, splitWhere_cons, splitWhere_cons, ih]
      split
      · rfl
      · obtain ⟨first, others, hpieces⟩ := List.exists_cons_of_ne_nil (splitWhere_ne_nil p rest)
        rw [hpieces]
        rfl

/-- A blank at the end is not seen. -/
theorem collapse_append_of_blank {c : Char} (h : isBlank c = true) (text : List Char) :
    collapse (text ++ [c]) = collapse text := by
  rw [collapse, splitWhere_append_of_pos h, spaced, List.filter_append]
  exact congrArg [' '].intercalate (List.append_nil _)

theorem collapse_trimStart (text : List Char) : collapse (trimStart text) = collapse text := by
  induction text with
  | nil => rfl
  | cons c rest ih =>
      by_cases hblank : isBlank c = true
      · rw [trimStart, List.dropWhile_cons_of_pos hblank, collapse_cons_of_blank hblank]
        exact ih
      · rw [trimStart, List.dropWhile_cons_of_neg hblank]

theorem collapse_trimEnd (text : List Char) : collapse (trimEnd text) = collapse text := by
  induction text using List.reverseRecOn with
  | nil => rfl
  | append_singleton before c ih =>
      rw [trimEnd_eq_rdropWhile] at ih ⊢
      by_cases hblank : isBlank c = true
      · rw [List.rdropWhile_concat_pos _ _ _ hblank, collapse_append_of_blank hblank]
        exact ih
      · rw [List.rdropWhile_concat_neg _ _ _ hblank]

/-- Trimmed or not, a text collapses to the same. -/
theorem collapse_trim (text : List Char) : collapse (trim text) = collapse text := by
  rw [trim, collapse_trimEnd, collapse_trimStart]

end PackedRecord.Text
