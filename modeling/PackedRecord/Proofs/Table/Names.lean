import PackedRecord.Proofs.Table.Matching

/-! # Matching name cells — a name and its count

    The rule for a name goes on until the rule for a count would match, and
    that one matches only in front of the end of the cell.  So a name is cut
    at the first bracket that the end of the cell closes, which is where
    `splitCount` cuts it. -/

namespace PackedRecord.Table.Grammar

open Peg (Expr Node Match)
open Text (trim readInt)

/-! ## Counts -/

def arrayLenNode (inside : List Char) : Node Rule := ⟨.arrayLen, inside, []⟩

/-- A count goes on to the first closing bracket. -/
theorem run_arrayLen (pos : Nat) (input : List Char) :
    arrayLen.run pos input
      = some ⟨input.takeWhile (· ≠ ']'), input.dropWhile (· ≠ ']'),
          [arrayLenNode (input.takeWhile (· ≠ ']'))]⟩ := by
  have htail : input.dropWhile (· ≠ ']') = []
      ∨ decide ([']'] <+: input.dropWhile (· ≠ ']')) = true := by
    cases hrest : input.dropWhile (· ≠ ']') with
    | nil => exact Or.inl rfl
    | cons c rest =>
        have hc : c = ']' := by
          have hhead := List.head?_dropWhile_not (· ≠ ']') input
          rw [hrest] at hhead
          simpa using hhead
        rw [hc]
        exact Or.inr (decide_eq_true (List.prefix_append [']'] rest))
  have hfree : ∀ suffix, suffix <:+ input.takeWhile (· ≠ ']') → suffix ≠ [] →
      decide ([']'] <+: suffix ++ input.dropWhile (· ≠ ']')) = false := by
    intro suffix hsuffix hne
    cases suffix with
    | nil => exact absurd rfl hne
    | cons c rest =>
        have hc := List.mem_takeWhile_imp (hsuffix.subset List.mem_cons_self)
        refine decide_eq_false fun hprefix => ?_
        rw [List.cons_append, List.cons_prefix_cons] at hprefix
        simp [← hprefix.1] at hc
  have hguard := Peg.isSome_run_text (ρ := Rule) [']']
  have hrun := Peg.run_until hguard htail pos hfree
  rw [List.takeWhile_append_dropWhile] at hrun
  exact Peg.run_rule .arrayLen .leaf hrun

def arraySuffixNode (text inside : List Char) : Node Rule :=
  ⟨.arraySuffix, text, [arrayLenNode inside]⟩

/-- The closing bracket of a count is the last character of its cell. -/
theorem run_closing (pos : Nat) (rest : List Char) :
    (Expr.seq (.text [']']) (.ahead endOfInput)).run pos rest
      = if rest = [']'] then some ⟨[']'], [], []⟩ else none := by
  match rest with
  | [] => rfl
  | [c] =>
      by_cases hc : c = ']'
      · rw [hc, if_pos rfl]
        rfl
      · rw [if_neg (by simpa using hc)]
        exact Peg.run_seq_of_none (Peg.run_text_of_head_ne (by simpa using hc) [] pos)
  | c :: d :: rest =>
      rw [if_neg (by simp)]
      by_cases hc : c = ']'
      · rw [hc]
        exact Peg.run_seq_of_right_none (Peg.run_text [']'] (d :: rest) pos) rfl
      · exact Peg.run_seq_of_none (Peg.run_text_of_head_ne (by simpa using hc) [] pos)

theorem bracketed?_cons (rest : List Char) :
    bracketed? ('[' :: rest)
      = if rest.dropWhile (· ≠ ']') = [']'] then some (rest.takeWhile (· ≠ ']')) else none := rfl

/-- What does not begin with a bracket is no count. -/
theorem bracketed?_of_head_ne {input : List Char} (h : input.head? ≠ some '[') :
    bracketed? input = none := by
  cases input with
  | nil => rfl
  | cons c rest =>
      unfold bracketed?
      split
      · next heq => exact absurd (congrArg List.head? heq) h
      · rfl

/-- A count is matched where a bracket is closed by the end of the text. -/
theorem run_arraySuffix (pos : Nat) (input : List Char) :
    arraySuffix.run pos input
      = (bracketed? input).map fun inside => ⟨input, [], [arraySuffixNode input inside]⟩ := by
  by_cases hopen : input.head? = some '['
  · obtain ⟨rest, rfl⟩ : ∃ rest, input = '[' :: rest := by
      cases input with
      | nil => exact nomatch hopen
      | cons c rest => exact ⟨rest, by rw [Option.some.inj hopen]⟩
    have hbracket := Peg.run_text (ρ := Rule) ['['] rest pos
    have hinside := run_arrayLen (pos + ['['].length) rest
    have hclosing := run_closing
      (pos + ['['].length + (rest.takeWhile (· ≠ ']')).length) (rest.dropWhile (· ≠ ']'))
    rw [bracketed?_cons]
    by_cases hclosed : rest.dropWhile (· ≠ ']') = [']']
    · rw [if_pos hclosed] at hclosing ⊢
      have hrun := Peg.run_rule .arraySuffix .full
        (Peg.run_seq hbracket (Peg.run_seq hinside hclosing))
      have hrest : rest.takeWhile (· ≠ ']') ++ [']'] = rest := by
        rw [← hclosed, List.takeWhile_append_dropWhile]
      simp only [Match.followedBy, hrest] at hrun
      exact hrun
    · rw [if_neg hclosed] at hclosing ⊢
      exact Peg.run_rule_of_none .arraySuffix .full
        (Peg.run_seq_of_right_none hbracket (Peg.run_seq_of_right_none hinside hclosing))
  · rw [bracketed?_of_head_ne hopen]
    exact Peg.run_rule_of_none Rule.arraySuffix .full
      (Peg.run_seq_of_none (Peg.run_text_of_head_ne hopen [] pos))

/-! ## Names -/

/-- The cut is right: what is left behind the name is a count or nothing, and
    no count starts inside of the name. -/
theorem splitCount_spec (raw : List Char) :
    ∃ tail, raw = (splitCount raw).1 ++ tail ∧ bracketed? tail = (splitCount raw).2
      ∧ (tail = [] ∨ (bracketed? tail).isSome = true)
      ∧ ∀ suffix, suffix <:+ (splitCount raw).1 → suffix ≠ [] →
          (bracketed? (suffix ++ tail)).isSome = false := by
  induction raw with
  | nil =>
      refine ⟨[], rfl, rfl, Or.inl rfl, fun suffix hsuffix hne => ?_⟩
      exact absurd (List.suffix_nil.mp hsuffix) hne
  | cons c rest ih =>
      rw [splitCount]
      cases hbracket : bracketed? (c :: rest) with
      | some inside =>
          refine ⟨c :: rest, rfl, hbracket, Or.inr (by rw [hbracket]; rfl), ?_⟩
          exact fun suffix hsuffix hne => absurd (List.suffix_nil.mp hsuffix) hne
      | none =>
          obtain ⟨tail, hraw, htail, hend, hfree⟩ := ih
          refine ⟨tail, congrArg (c :: ·) hraw, htail, hend, fun suffix hsuffix hne => ?_⟩
          rcases List.suffix_cons_iff.mp hsuffix with rfl | hsuffix
          · -- the whole name in front of the tail is the cell
            have hwhole : c :: (splitCount rest).1 ++ tail = c :: rest := by
              rw [List.cons_append, ← hraw]
            rw [Prod.map_fst] at *
            rw [hwhole, hbracket]
            rfl
          · exact hfree suffix hsuffix hne

def baseNameNode (name : List Char) : Node Rule := ⟨.baseName, name, []⟩

/-- What a name cell leaves behind its name. -/
def suffixNodes (tail : List Char) : List (Node Rule) :=
  ((bracketed? tail).map (arraySuffixNode tail)).toList

/-- **EVERY TEXT IS A NAME CELL**, cut where `splitCount` cuts it. -/
theorem run_fieldName (raw : List Char) :
    ∃ tail, bracketed? tail = (splitCount raw).2
      ∧ fieldName.run 0 raw
        = some ⟨raw, [], [⟨.fieldName, raw,
            baseNameNode (splitCount raw).1 :: (suffixNodes tail ++ [endNode])⟩]⟩ := by
  obtain ⟨tail, hraw, htail, hend, hfree⟩ := splitCount_spec raw
  refine ⟨tail, htail, ?_⟩
  generalize (splitCount raw).1 = name at hraw hfree ⊢
  subst hraw
  have hguard : ∀ pos input, (arraySuffix.run pos input).isSome = (bracketed? input).isSome := by
    intro pos input
    rw [run_arraySuffix, Option.isSome_map]
  have hstart : (Expr.start : Expr Rule).run 0 (name ++ tail) = some (.empty (name ++ tail)) := rfl
  have hname : baseName.run 0 (name ++ tail) = some ⟨name, tail, [baseNameNode name]⟩ :=
    Peg.run_rule Rule.baseName .leaf (Peg.run_until hguard hend 0 hfree)
  have hsuffix : (Expr.optional arraySuffix).run (0 + name.length) tail
      = some ⟨tail, [], suffixNodes tail⟩ := by
    rw [Peg.run_optional, run_arraySuffix, suffixNodes]
    rcases hend with rfl | hsome
    · rfl
    · obtain ⟨inside, hinside⟩ := Option.isSome_iff_exists.mp hsome
      rw [hinside]
      rfl
  have hend := run_endOfInput (0 + name.length + tail.length)
  have hrun := Peg.run_rule .fieldName .full
    (Peg.run_seq hstart (Peg.run_seq hname (Peg.run_seq hsuffix hend)))
  simp only [Match.followedBy, Match.empty, List.nil_append, List.append_nil] at hrun
  exact hrun

/-- What the count of a name cell adds to what is known of it. -/
theorem nameStep_arraySuffixNode (line : Nat) (found : String × Int) (text inside : List Char) :
    nameStep line found (arraySuffixNode text inside)
      = match readInt (1 <<< 63) (trim inside) with
        | .ok n => .ok (found.1, n)
        | .error _ => .error (.refusal (.count line (String.ofList inside))) := rfl

/-- Reading a name by its grammar is cutting it with `splitCount`. -/
theorem readName_eq (line : Nat) (raw : List Char) :
    readName line raw = (Table.readName line raw).mapError .refusal := by
  obtain ⟨tail, htail, hrun⟩ := run_fieldName raw
  have hparse : (parse fieldName raw : Except (Stop ReadError) (Node Rule))
      = .ok ⟨.fieldName, raw,
          baseNameNode (splitCount raw).1 :: (suffixNodes tail ++ [endNode])⟩ := by
    rw [parse, hrun]
    rfl
  have hcut : splitCount raw = ((splitCount raw).1, bracketed? tail) := Prod.ext rfl htail.symm
  rw [readName, hparse, Table.readName]
  show (baseNameNode (splitCount raw).1 :: (suffixNodes tail ++ [endNode])).foldlM (nameStep line)
    (String.ofList raw, 1) = _
  rw [hcut, suffixNodes]
  cases bracketed? tail with
  | none => rfl
  | some inside =>
      show nameStep line (String.ofList (trim (splitCount raw).1), 1) (arraySuffixNode tail inside)
        >>= _ = _
      rw [nameStep_arraySuffixNode]
      simp only
      cases readInt (1 <<< 63) (trim inside) <;> rfl

end PackedRecord.Table.Grammar
