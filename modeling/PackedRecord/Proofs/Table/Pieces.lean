import Mathlib
import PackedRecord.Text.Blank

/-! # Pieces — text between separators

    A text is its first piece and then every other piece behind a separator,
    and no piece holds a separator; so pieces that hold none are found again
    between separators.  What is made of pieces has no characters but theirs.
    Where pieces are trimmed, a carriage return at the end of the text does not
    matter. -/

namespace PackedRecord.Text

/-- The two ways of cutting a text agree. -/
theorem splitAt_eq_splitOn (separator : Char) (text : List Char) :
    splitAt separator text = text.splitOn separator := by
  induction text with
  | nil => rfl
  | cons c rest ih =>
      rw [List.splitOn_cons_eq_if_modifyHead, ← ih]
      exact splitWhere_cons (· == separator) c rest

/-- A character that does not separate belongs to the first piece. -/
theorem splitOn_cons_of_ne {separator c : Char} (h : c ≠ separator) (text : List Char) :
    (c :: text).splitOn separator = (text.splitOn separator).modifyHead (c :: ·) := by
  rw [List.splitOn_cons_eq_if_modifyHead, if_neg (by simpa using h)]

/-- There is one piece more than there are separators. -/
theorem length_splitOn (separator : Char) (text : List Char) :
    (text.splitOn separator).length = text.count separator + 1 := by
  induction text with
  | nil => rfl
  | cons c rest ih =>
      by_cases hc : c = separator
      · have hpieces : (c :: rest).splitOn separator = [] :: rest.splitOn separator := by
          rw [hc]
          exact List.splitOn_append_cons_self [] rest
        rw [hpieces, List.length_cons, ih, hc, List.count_cons_self]
      · rw [splitOn_cons_of_ne hc, List.length_modifyHead, ih, List.count_cons_of_ne hc]

/-- There are at most as many separators as characters. -/
theorem length_splitOn_le (separator : Char) (text : List Char) :
    (text.splitOn separator).length ≤ text.length + 1 := by
  rw [length_splitOn]
  exact Nat.succ_le_succ List.count_le_length

/-- Lists that are related stay so when their heads are changed accordingly. -/
theorem forall₂_modifyHead {α β : Type} {related : α → β → Prop} {f : α → α} {g : β → β}
    {l : List α} {l' : List β} (hhead : ∀ a b, related a b → related (f a) (g b))
    (h : List.Forall₂ related l l') :
    List.Forall₂ related (l.modifyHead f) (l'.modifyHead g) := by
  cases h with
  | nil => exact List.Forall₂.nil
  | cons hab hrest => exact List.Forall₂.cons (hhead _ _ hab) hrest

/-- The first piece, and the others. -/
theorem exists_splitOn_eq_cons (separator : Char) (text : List Char) :
    ∃ first others, text.splitOn separator = first :: others := by
  cases h : text.splitOn separator with
  | nil => exact absurd h (List.splitOn_ne_nil separator text)
  | cons first others => exact ⟨first, others, rfl⟩

/-- Splitting is undone by putting the separators back. -/
theorem eq_append_flatMap_of_splitOn {separator : Char} {text first : List Char}
    {others : List (List Char)} (h : text.splitOn separator = first :: others) :
    text = first ++ others.flatMap (separator :: ·) := by
  induction text generalizing first others with
  | nil =>
      obtain ⟨rfl, rfl⟩ := List.cons.inj h
      rfl
  | cons c rest ih =>
      obtain ⟨first', others', hrest⟩ := exists_splitOn_eq_cons separator rest
      rw [List.splitOn_cons_eq_if_modifyHead, hrest] at h
      by_cases hc : c = separator
      · rw [if_pos (beq_iff_eq.mpr hc)] at h
        obtain ⟨rfl, rfl⟩ := List.cons.inj h
        rw [ih hrest, hc]
        rfl
      · rw [if_neg (fun heq => hc (beq_iff_eq.mp heq))] at h
        obtain ⟨rfl, rfl⟩ := List.cons.inj h
        rw [ih hrest]
        rfl

/-- A piece stands in its text. -/
theorem infix_of_mem_splitOn {separator : Char} {text piece : List Char}
    (h : piece ∈ text.splitOn separator) : piece <:+: text := by
  obtain ⟨first, others, hpieces⟩ := exists_splitOn_eq_cons separator text
  rw [eq_append_flatMap_of_splitOn hpieces]
  rw [hpieces] at h
  rcases List.mem_cons.mp h with rfl | h
  · exact (List.prefix_append _ _).isInfix
  · obtain ⟨before, behind, rfl⟩ := List.append_of_mem h
    refine ⟨first ++ before.flatMap (separator :: ·) ++ [separator],
      behind.flatMap (separator :: ·), ?_⟩
    simp

/-- The characters of a piece are those of the text, without the separator. -/
theorem of_mem_splitOn {separator : Char} {text : List Char} :
    ∀ {piece : List Char}, piece ∈ text.splitOn separator →
      ∀ c ∈ piece, c ∈ text ∧ c ≠ separator := by
  induction text with
  | nil =>
      intro piece hpiece c hc
      obtain rfl : piece = [] := List.mem_singleton.mp hpiece
      exact nomatch hc
  | cons d rest ih =>
      intro piece hpiece c hc
      obtain ⟨first, others, hrest⟩ := exists_splitOn_eq_cons separator rest
      have hlater : ∀ p ∈ first :: others, ∀ x ∈ p, x ∈ d :: rest ∧ x ≠ separator := by
        intro p hp x hx
        rw [← hrest] at hp
        obtain ⟨hmem, hne⟩ := ih hp x hx
        exact ⟨List.mem_cons_of_mem d hmem, hne⟩
      rw [List.splitOn_cons_eq_if_modifyHead, hrest] at hpiece
      by_cases hd : d = separator
      · rw [if_pos (beq_iff_eq.mpr hd)] at hpiece
        rcases List.mem_cons.mp hpiece with rfl | hpiece
        · exact nomatch hc
        · exact hlater piece hpiece c hc
      · rw [if_neg (fun heq => hd (beq_iff_eq.mp heq))] at hpiece
        rcases List.mem_cons.mp hpiece with rfl | hpiece
        · -- the first piece got one character more
          rcases List.mem_cons.mp hc with rfl | hc
          · exact ⟨List.mem_cons_self, hd⟩
          · exact hlater first List.mem_cons_self c hc
        · exact hlater piece (List.mem_cons_of_mem first hpiece) c hc

/-! ## Cutting texts -/

/-- A text is cut in one way at its first separator. -/
theorem append_cons_inj {α : Type} {separator : α} {a a' b b' : List α} (ha : separator ∉ a)
    (ha' : separator ∉ a') (h : a ++ separator :: b = a' ++ separator :: b') :
    a = a' ∧ b = b' := by
  induction a generalizing a' with
  | nil =>
      cases a' with
      | nil => exact ⟨rfl, (List.cons.inj h).2⟩
      | cons c rest =>
          obtain ⟨rfl, -⟩ := List.cons.inj h
          exact absurd List.mem_cons_self ha'
  | cons c rest ih =>
      cases a' with
      | nil =>
          obtain ⟨rfl, -⟩ := List.cons.inj h
          exact absurd List.mem_cons_self ha
      | cons c' rest' =>
          obtain ⟨rfl, hrest⟩ := List.cons.inj h
          obtain ⟨rfl, rfl⟩ := ih (fun hmem => ha (List.mem_cons_of_mem c hmem))
            (fun hmem => ha' (List.mem_cons_of_mem c hmem)) hrest
          exact ⟨rfl, rfl⟩

/-- A text is cut in one way at its last separator. -/
theorem append_cons_inj_last {separator : Char} {a a' b b' : List Char} (hb : separator ∉ b)
    (hb' : separator ∉ b') (h : a ++ separator :: b = a' ++ separator :: b') :
    a = a' ∧ b = b' := by
  have hreverse := congrArg List.reverse h
  rw [List.reverse_append, List.reverse_append, List.reverse_cons, List.reverse_cons,
    List.append_assoc, List.append_assoc] at hreverse
  obtain ⟨hbehind, hbefore⟩ := append_cons_inj (by rwa [List.mem_reverse])
    (by rwa [List.mem_reverse]) hreverse
  exact ⟨List.reverse_inj.mp hbefore, List.reverse_inj.mp hbehind⟩

/-- Pieces are found again between separators, if the character with which a
    separator begins is in none of them. -/
theorem intercalate_inj {separator : Char} {others : List Char} {pieces pieces' : List (List Char)}
    (hne : pieces ≠ []) (hne' : pieces' ≠ []) (h : ∀ p ∈ pieces, separator ∉ p)
    (h' : ∀ p ∈ pieces', separator ∉ p)
    (heq : (separator :: others).intercalate pieces
      = (separator :: others).intercalate pieces') : pieces = pieces' := by
  induction pieces generalizing pieces' with
  | nil => exact absurd rfl hne
  | cons p rest ih =>
      obtain ⟨p', rest', rfl⟩ := List.exists_cons_of_ne_nil hne'
      obtain ⟨hp, hrest⟩ := List.forall_mem_cons.mp h
      obtain ⟨hp', hrest'⟩ := List.forall_mem_cons.mp h'
      cases rest with
      | nil =>
          cases rest' with
          | nil =>
              rw [List.intercalate_singleton, List.intercalate_singleton] at heq
              rw [heq]
          | cons q' rest' =>
              rw [List.intercalate_singleton, List.intercalate_cons_cons] at heq
              refine absurd ?_ hp
              rw [heq]
              simp
      | cons q rest =>
          cases rest' with
          | nil =>
              rw [List.intercalate_singleton, List.intercalate_cons_cons] at heq
              refine absurd ?_ hp'
              rw [← heq]
              simp
          | cons q' rest' =>
              rw [List.intercalate_cons_cons, List.intercalate_cons_cons, List.append_assoc,
                List.append_assoc, List.cons_append, List.cons_append] at heq
              obtain ⟨rfl, hbehind⟩ := append_cons_inj hp hp' heq
              rw [ih (List.cons_ne_nil q rest) (List.cons_ne_nil q' rest') hrest hrest'
                (List.append_cancel_left hbehind)]

/-- The same for texts. -/
theorem intercalate_texts_inj {separator : Char} {others : List Char} {between : String}
    {texts texts' : List String} (hbetween : between.toList = separator :: others)
    (hne : texts ≠ []) (hne' : texts' ≠ []) (h : ∀ text ∈ texts, separator ∉ text.toList)
    (h' : ∀ text ∈ texts', separator ∉ text.toList)
    (heq : between.intercalate texts = between.intercalate texts') : texts = texts' := by
  have hlist := congrArg String.toList heq
  rw [String.toList_intercalate, String.toList_intercalate, hbetween] at hlist
  have hpieces := intercalate_inj (by simpa using hne) (by simpa using hne')
    (List.forall_mem_map.mpr h) (List.forall_mem_map.mpr h') hlist
  exact List.map_injective_iff.mpr (fun _ _ => String.toList_inj.mp) hpieces

/-- Texts without the separator are what is found between separators. -/
theorem splitOn_toList_intercalate {separator : Char} {between : String} {texts : List String}
    (hbetween : between.toList = [separator]) (hne : texts ≠ [])
    (h : ∀ text ∈ texts, separator ∉ text.toList) :
    (between.intercalate texts).toList.splitOn separator = texts.map String.toList := by
  rw [String.toList_intercalate, hbetween]
  exact List.splitOn_intercalate separator (List.forall_mem_map.mpr h) (by simpa using hne)

/-! ## Characters of pieces -/

theorem mem_of_mem_trim {c : Char} {text : List Char} (h : c ∈ trim text) : c ∈ text := by
  rw [trim, trimEnd, List.mem_reverse] at h
  have hstart : c ∈ trimStart text :=
    List.mem_reverse.mp (List.dropWhile_subset isBlank h)
  exact List.dropWhile_subset isBlank hstart

/-- Between pieces there is only what was put there. -/
theorem mem_of_mem_intercalate {c : Char} {between : List Char} {pieces : List (List Char)} :
    c ∈ between.intercalate pieces → c ∈ between ∨ ∃ piece ∈ pieces, c ∈ piece := by
  induction pieces with
  | nil => exact fun h => nomatch h
  | cons piece rest ih =>
      intro h
      cases rest with
      | nil =>
          rw [List.intercalate_singleton] at h
          exact Or.inr ⟨piece, List.mem_cons_self, h⟩
      | cons next rest =>
          rw [List.intercalate_cons_cons, List.append_assoc] at h
          rcases List.mem_append.mp h with h | h
          · exact Or.inr ⟨piece, List.mem_cons_self, h⟩
          rcases List.mem_append.mp h with h | h
          · exact Or.inl h
          · rcases ih h with hbetween | ⟨p, hp, hc⟩
            · exact Or.inl hbetween
            · exact Or.inr ⟨p, List.mem_cons_of_mem piece hp, hc⟩

/-- All characters of the text are of one kind. -/
def Every (kind : Char → Bool) (text : String) : Prop :=
  ∀ c ∈ text.toList, kind c = true

instance (kind : Char → Bool) (text : String) : Decidable (Every kind text) :=
  decidable_of_iff (text.toList.all kind = true) List.all_eq_true

section

variable {kind : Char → Bool}

/-- A text of one kind holds no character of another. -/
theorem Every.not_mem {text : String} (h : Every kind text) {c : Char} (hc : kind c = false) :
    c ∉ text.toList := by
  intro hmem
  rw [h c hmem] at hc
  exact nomatch hc

theorem every_ofList {text : List Char} (h : ∀ c ∈ text, kind c = true) :
    Every kind (String.ofList text) := by
  intro c hc
  rw [String.toList_ofList] at hc
  exact h c hc

/-- Texts of one kind make up a text of that kind. -/
theorem every_append {a b : String} (ha : Every kind a) (hb : Every kind b) :
    Every kind (a ++ b) := by
  intro c hc
  rw [String.toList_append] at hc
  rcases List.mem_append.mp hc with hc | hc
  · exact ha c hc
  · exact hb c hc

theorem every_intercalate {between : String} (hbetween : Every kind between) {texts : List String}
    (h : ∀ text ∈ texts, Every kind text) : Every kind (between.intercalate texts) := by
  intro c hc
  rw [String.toList_intercalate] at hc
  rcases mem_of_mem_intercalate hc with hc | ⟨piece, hpiece, hc⟩
  · exact hbetween c hc
  · obtain ⟨text, htext, rfl⟩ := List.mem_map.mp hpiece
    exact h text htext c hc

end

theorem mem_of_mem_spaced {c : Char} {pieces : List (List Char)} (h : c ∈ spaced pieces) :
    c = ' ' ∨ ∃ piece ∈ pieces, c ∈ piece := by
  rcases mem_of_mem_intercalate h with hspace | ⟨piece, hpiece, hc⟩
  · exact Or.inl (List.mem_singleton.mp hspace)
  · exact Or.inr ⟨piece, (List.mem_filter.mp hpiece).1, hc⟩

/-- Closing lines takes characters away and adds none. -/
theorem mem_of_mem_closeLines {c : Char} {line : List Char} {pieces : List (List Char)}
    (hline : line ∈ closeLines pieces) (hc : c ∈ line) : ∃ piece ∈ pieces, c ∈ piece := by
  fun_induction closeLines pieces with
  | case1 => exact nomatch hline
  | case2 => exact nomatch hline
  | case3 last _ => exact ⟨line, hline, hc⟩
  | case4 piece rest _ ih =>
      rcases List.mem_cons.mp hline with rfl | hline
      · refine ⟨piece, List.mem_cons_self, ?_⟩
        rw [dropReturn] at hc
        split at hc
        · exact List.mem_of_mem_dropLast hc
        · exact hc
      · obtain ⟨p, hp, hmem⟩ := ih hline
        exact ⟨p, List.mem_cons_of_mem piece hp, hmem⟩

/-- Lines hold no line feed. -/
theorem newline_not_mem_lines {text line : List Char} (h : line ∈ lines text) : '\n' ∉ line := by
  intro hmem
  obtain ⟨piece, hpiece, hc⟩ := mem_of_mem_closeLines h hmem
  rw [splitAt_eq_splitOn] at hpiece
  exact (of_mem_splitOn hpiece _ hc).2 rfl

/-! ## Carriage returns -/

theorem trim_append_return (text : List Char) : trim (text ++ ['\r']) = trim text := by
  have hend : ∀ t : List Char, trimEnd (t ++ ['\r']) = trimEnd t := by
    intro t
    rw [trimEnd, List.reverse_append, List.reverse_singleton, List.singleton_append,
      List.dropWhile_cons_of_pos (by decide)]
    rfl
  rw [trim, trim, trimStart, List.dropWhile_append]
  by_cases hblank : (text.dropWhile isBlank).isEmpty = true
  · rw [if_pos hblank, trimStart, List.isEmpty_iff.mp hblank]
    rfl
  · rw [if_neg hblank, hend]
    rfl

/-- Piece by piece, a carriage return at the end of a text makes at most that
    difference. -/
theorem forall₂_splitOn_append_return {separator : Char} (hne : separator ≠ '\r')
    (text : List Char) :
    List.Forall₂ (fun a b => a = b ∨ a = b ++ ['\r'])
      ((text ++ ['\r']).splitOn separator) (text.splitOn separator) := by
  induction text with
  | nil =>
      rw [List.nil_append, splitOn_cons_of_ne hne.symm]
      exact List.Forall₂.cons (Or.inr rfl) List.Forall₂.nil
  | cons c rest ih =>
      by_cases hc : c = separator
      · rw [List.cons_append, List.splitOn_cons_eq_if_modifyHead,
          List.splitOn_cons_eq_if_modifyHead, if_pos (beq_iff_eq.mpr hc),
          if_pos (beq_iff_eq.mpr hc)]
        exact List.Forall₂.cons (Or.inl rfl) ih
      · rw [List.cons_append, splitOn_cons_of_ne hc, splitOn_cons_of_ne hc]
        refine forall₂_modifyHead ?_ ih
        rintro a b (rfl | rfl)
        · exact Or.inl rfl
        · exact Or.inr rfl

/-- A carriage return at the end of a text is trimmed off its last piece. -/
theorem map_trim_splitOn_append_return {separator : Char} (hne : separator ≠ '\r')
    (text : List Char) :
    ((text ++ ['\r']).splitOn separator).map trim = (text.splitOn separator).map trim := by
  rw [← List.forall₂_eq_eq_eq, List.forall₂_map_left_iff, List.forall₂_map_right_iff]
  refine (forall₂_splitOn_append_return hne text).imp fun a b hab => ?_
  rcases hab with rfl | rfl
  · rfl
  · exact trim_append_return b

end PackedRecord.Text
