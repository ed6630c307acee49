import PackedRecord.Proofs.Code.Lossless

/-! # Printed lines — documentation among the lines of a text

    A text is read line by line, and a line is documentation if three slashes
    are the first that stands on it.  Lines of code that do not break and begin
    like no comment are printed as such lines and no others, so that the
    documentation of a text is that of the lines which it was printed from, each
    with the line behind it (`documented_textOf`). -/

namespace PackedRecord.Code

/-! ## Members of a list and those behind them -/

section

variable {α β : Type}

/-- The members of a kind, each with the one behind it. -/
def followed (kind : α → Bool) (l : List α) : List (α × α) :=
  (l.zip l.tail).filter (kind ·.1)

variable {kind : α → Bool} {l : List α}

/-- The first member counts with the second, and the rest goes on from there. -/
theorem followed_cons_cons (kind : α → Bool) (a b : α) (rest : List α) :
    followed kind (a :: b :: rest)
      = (if kind a then [(a, b)] else []) ++ followed kind (b :: rest) := by
  show List.filter _ ((a, b) :: (b :: rest).zip rest) = _
  rw [List.filter_cons]
  split <;> rfl

/-- Without members of the kind there is nothing to list. -/
theorem followed_of_forall (h : ∀ a ∈ l, kind a = false) : followed kind l = [] := by
  refine List.filter_eq_nil_iff.mpr fun pair hpair => ?_
  rw [h _ (List.of_mem_zip hpair).1]
  exact Bool.false_ne_true

/-- Members of other kinds in front do not matter. -/
theorem followed_append_of_forall (h : ∀ a ∈ l, kind a = false) (l' : List α) :
    followed kind (l ++ l') = followed kind l' := by
  induction l with
  | nil => rfl
  | cons a rest ih =>
      obtain ⟨ha, hrest⟩ := List.forall_mem_cons.mp h
      rw [← ih hrest, List.cons_append]
      cases rest ++ l' with
      | nil => rfl
      | cons b others =>
          rw [followed_cons_cons, ha]
          rfl

/-- Nothing is changed by a last member of another kind. -/
theorem followed_concat (h : ∀ a ∈ l.getLast?, kind a = false) (b : α) :
    followed kind (l ++ [b]) = followed kind l := by
  induction l with
  | nil => rfl
  | cons a rest ih =>
      cases rest with
      | nil =>
          rw [List.singleton_append, followed_cons_cons, h a rfl]
          rfl
      | cons c rest =>
          rw [List.cons_append, List.cons_append, followed_cons_cons, followed_cons_cons,
            ← List.cons_append, ih (by simpa using h)]

/-- What does not change the kind of a member changes each pair on its own. -/
theorem followed_map {kind' : β → Bool} {f : α → β} (h : ∀ a ∈ l, kind' (f a) = kind a) :
    followed kind' (l.map f) = (followed kind l).map (Prod.map f f) := by
  induction l with
  | nil => rfl
  | cons a rest ih =>
      obtain ⟨ha, hrest⟩ := List.forall_mem_cons.mp h
      cases rest with
      | nil => rfl
      | cons b rest =>
          have hmore := ih hrest
          rw [List.map_cons] at hmore ⊢
          rw [List.map_cons, followed_cons_cons, followed_cons_cons, List.map_append, ha, hmore]
          split <;> rfl

end

/-! ## Printed lines -/

/-- Spaces and three slashes begin a line of documentation. -/
def isDocLine (line : List Char) : Bool :=
  ['/', '/', '/'] <+: line.dropWhile (· = ' ')

/-- The lines of documentation in a text, each with the line behind it. -/
def documented (text : List Char) : List (List Char × List Char) :=
  followed isDocLine (text.splitOn '\n')

example : documented "/// a\n a: u8, /// b\n// /// c\n  ///d\n\n".toList
    = [("/// a".toList, " a: u8, /// b".toList), ("  ///d".toList, [])] := by decide

/-- All of the text stands on one line. -/
@[simp]
abbrev Unbroken (text : String) : Prop :=
  '\n' ∉ text.toList

theorem Unbroken.append {a b : String} (ha : Unbroken a) (hb : Unbroken b) :
    Unbroken (a ++ b) := by
  simpa using ⟨ha, hb⟩

/-- The text begins neither in a space nor like a comment. -/
@[simp]
def beginsPlain (text : String) : Bool :=
  text.toList.head?.any fun c => c ≠ '/' && c ≠ ' '

/-- One line of code. -/
@[simp]
abbrev PlainCode (text : String) : Prop :=
  beginsPlain text = true ∧ Unbroken text

/-- What a text begins with does not depend on what is behind it. -/
theorem beginsPlain_append {a : String} (h : beginsPlain a = true) (b : String) :
    beginsPlain (a ++ b) = true := by
  rw [beginsPlain] at h ⊢
  rw [String.toList_append]
  cases ha : a.toList with
  | nil =>
      rw [ha] at h
      exact nomatch h
  | cons c rest =>
      rw [ha] at h
      exact h

theorem PlainCode.append {a b : String} (ha : PlainCode a) (hb : Unbroken b) :
    PlainCode (a ++ b) :=
  ⟨beginsPlain_append ha.1 b, ha.2.append hb⟩

namespace Line

def isDoc : Line → Bool
  | doc .. => true
  | _ => false

/-- Code and nothing else. -/
@[simp]
def IsCode : Line → Prop
  | blank => True
  | code _ text => PlainCode text
  | note .. | doc .. | noted .. => False

/-- The line does not break, and is documentation only if it is meant to be. -/
def Apart : Line → Prop
  | noted _ text remark => PlainCode text ∧ Unbroken remark
  | note _ remark | doc _ remark => Unbroken remark
  | line => line.IsCode

/-- Code is no documentation, and does not break. -/
theorem IsCode.apart {line : Line} (h : line.IsCode) : line.Apart := by
  cases line <;> first | exact h | exact nomatch h

theorem IsCode.isDoc_eq_false {line : Line} (h : line.IsCode) : line.isDoc = false := by
  cases line <;> first | rfl | exact nomatch h

/-- Indentation does not make a line documentation, nor keep it from being so. -/
theorem isDocLine_spaces (n : Nat) (line : List Char) :
    isDocLine (List.replicate n ' ' ++ line) = isDocLine line := by
  have hspaces : ∀ c ∈ List.replicate n ' ', decide (c = ' ') = true := by simp
  rw [isDocLine, isDocLine, List.dropWhile_append_of_pos hspaces]

/-- A text that does not begin like a comment is not documentation, whatever
    stands behind it. -/
theorem isDocLine_of_beginsPlain {text : String} (h : beginsPlain text = true)
    (behind : List Char) : isDocLine (text.toList ++ behind) = false := by
  rw [beginsPlain] at h
  cases htext : text.toList with
  | nil =>
      rw [htext] at h
      exact nomatch h
  | cons c rest =>
      rw [htext] at h
      obtain ⟨hslash, hspace⟩ : c ≠ '/' ∧ c ≠ ' ' := by simpa using h
      simp [isDocLine, hspace, hslash.symm]

/-- **A PRINTED LINE IS DOCUMENTATION** exactly if it is meant to be. -/
theorem isDocLine_content {line : Line} (h : line.Apart) (indent : Nat) :
    isDocLine (line.content indent).toList = line.isDoc := by
  cases line with
  | blank => rfl
  | code depth text =>
      have hcode := isDocLine_of_beginsPlain h.1 []
      rw [List.append_nil] at hcode
      rw [content, String.toList_append, toList_spaces, isDocLine_spaces, hcode]
      rfl
  | note depth remark =>
      rw [content, String.append_assoc, String.toList_append, toList_spaces, isDocLine_spaces]
      simp [isDocLine, isDoc]
  | doc depth remark =>
      rw [content, String.append_assoc, String.toList_append, toList_spaces, isDocLine_spaces]
      simp [isDocLine, isDoc]
  | noted depth text remark =>
      rw [content, String.append_assoc, String.append_assoc, String.toList_append, toList_spaces,
        isDocLine_spaces, String.toList_append, isDocLine_of_beginsPlain h.1.1]
      rfl

/-- A printed line is one line, with its indentation and its remark. -/
theorem unbroken_content {line : Line} (h : line.Apart) (indent : Nat) :
    Unbroken (line.content indent) := by
  cases line with
  | blank => simp [content]
  | code depth text =>
      obtain ⟨-, htext⟩ := h
      simp [content, toList_spaces, htext]
  | note depth remark | doc depth remark =>
      have hremark : Unbroken remark := h
      simp [content, toList_spaces, hremark]
  | noted depth text remark =>
      obtain ⟨⟨-, htext⟩, hremark⟩ := h
      simp [content, toList_spaces, htext, hremark]

end Line

/-- Of lines that are printed, those are documentation that are meant to be. -/
theorem documented_textOf {lines : List Line} (h : ∀ line ∈ lines, line.Apart)
    (hlast : ∀ line ∈ lines.getLast?, line.isDoc = false) (indent : Nat) :
    documented (textOf indent lines).toList
      = (followed Line.isDoc lines).map
          (Prod.map (fun line => (line.content indent).toList)
            fun line => (line.content indent).toList) := by
  have hpieces : (textOf indent lines).toList.splitOn '\n'
      = lines.map (fun line => (line.content indent).toList) ++ [[]] := by
    have hcut := splitOn_textOf_append indent
      (fun line hline => Line.unbroken_content (h line hline) indent) []
    rwa [List.append_nil] at hcut
  rw [documented, hpieces, followed_concat, followed_map]
  · exact fun line hline => Line.isDocLine_content (h line hline) indent
  · intro piece hpiece
    rw [List.getLast?_map] at hpiece
    obtain ⟨line, hline, rfl⟩ := Option.map_eq_some_iff.mp hpiece
    rw [Line.isDocLine_content (h line (List.mem_of_getLast? hline))]
    exact hlast line hline

end PackedRecord.Code
