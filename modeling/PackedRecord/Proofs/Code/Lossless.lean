import PackedRecord.Proofs.Code.Documentation

/-! # Lossless code — layouts that generated code tells apart

    Between the braces of the structure stand the members of a program, and
    with them all that a layout says apart from line numbers.  Any text may
    stand in comments and documentation, so that they may look like fields; but
    each line begins in its own way, and none breaks inside.  So the text gives
    the lines (`content_inj`), the lines give the members one after another
    (`lines_append_inj`), and where entries start follows from those before. -/

namespace PackedRecord

open Text (append_cons_inj Every every_append)

/-! ## Statements of fields -/

namespace Scalar

theorem Kind.name_injective : Function.Injective Kind.name := by
  intro k k' h
  cases k <;> cases k' <;> first | rfl | exact absurd h (by decide)

theorem Shape.toList_text_array (k : Kind) (n : Nat) :
    (array k n).text.toList
      = '[' :: (k.name.toList ++ ';' :: ' ' :: ((toString n).toList ++ [']'])) := by
  simp [text]

/-- Types have different texts: only arrays have a bracket, and the first
    semicolon ends the kind. -/
theorem Shape.text_injective : Function.Injective Shape.text := by
  have hbracket : ∀ (k k' : Kind) (n : Nat), (single k).text ≠ (array k' n).text := by
    intro k k' n h
    have hlist := congrArg String.toList h
    rw [toList_text_array] at hlist
    cases k <;> exact nomatch (List.cons.inj hlist).1
  have hmark : ∀ k : Kind, ';' ∉ k.name.toList := by
    intro k
    cases k <;> decide
  intro shape shape' h
  cases shape with
  | single k =>
      cases shape' with
      | single k' => rw [Kind.name_injective h]
      | array k' n' => exact absurd h (hbracket k k' n')
  | array k n =>
      cases shape' with
      | single k' => exact absurd h.symm (hbracket k' k n)
      | array k' n' =>
          have hlist := congrArg String.toList h
          rw [toList_text_array, toList_text_array] at hlist
          obtain ⟨hkind, hcount⟩ := append_cons_inj (hmark k) (hmark k') (List.cons.inj hlist).2
          have hdigits := List.append_cancel_right (List.cons.inj hcount).2
          rw [Kind.name_injective (String.toList_inj.mp hkind),
            Nat.repr_inj.mp (String.toList_inj.mp hdigits)]

end Scalar

namespace Code

open Layout (Entry Item FieldName BackToBack entriesOf)

/-- The characters that are used where a field is declared. -/
def isStatementChar (c : Char) : Bool :=
  isWordChar c || [' ', '(', ')', ':', '[', ';', ']', ','].contains c

/-- All of the text may stand where a field is declared. -/
abbrev Stated (text : String) : Prop :=
  Every isStatementChar text

theorem stated_toString (n : Nat) : Stated (toString n) := by
  have hdigit : Text.digitChars.all isStatementChar = true := by decide
  exact Text.every_toString (List.all_eq_true.mp hdigit) n

theorem stated_text_shape (shape : Scalar.Shape) : Stated shape.text := by
  cases shape with
  | single k => cases k <;> decide
  | array k n =>
      have hname : Stated ("[" ++ k.name ++ "; ") := by
        cases k <;> decide
      exact every_append (every_append hname (stated_toString n)) (by decide)

/-- Of a declaration, no character could begin a remark. -/
theorem stated_statement {e : Entry} (h : FieldName e.name) (visibility : Visibility) :
    Stated ((Declaration.ofEntry e).statement visibility) := by
  have hvisibility : Stated visibility.text := by
    cases visibility <;> decide
  have hident : Stated (identOf e.name) := by
    intro c hc
    rw [isStatementChar, (isWord_identOf h).2 c hc]
    rfl
  exact every_append (every_append (every_append (every_append hvisibility hident) (by decide))
    (stated_text_shape e.shape)) (by decide)

theorem toList_statement (visibility : Visibility) (e : Entry) :
    ((Declaration.ofEntry e).statement visibility).toList
      = visibility.text.toList
        ++ ((identOf e.name).toList ++ ':' :: ' ' :: (e.shape.text.toList ++ [','])) := by
  simp [Declaration.statement, Declaration.ofEntry]

/-- **FIELDS ARE TOLD APART** by their statements. -/
theorem statement_inj {visibility : Visibility} {e e' : Entry} (hname : FieldName e.name)
    (hname' : FieldName e'.name)
    (h : (Declaration.ofEntry e).statement visibility
      = (Declaration.ofEntry e').statement visibility) :
    e.name = e'.name ∧ e.shape = e'.shape := by
  have hcolon : ∀ {name : String}, FieldName name → ':' ∉ (identOf name).toList := by
    intro name hname hmem
    exact absurd ((isWord_identOf hname).2 ':' hmem) (by decide)
  have hlist := congrArg String.toList h
  rw [toList_statement, toList_statement] at hlist
  obtain ⟨hident, hshape⟩ :=
    append_cons_inj (hcolon hname) (hcolon hname') (List.append_cancel_left hlist)
  have htype := List.append_cancel_right (List.cons.inj hshape).2
  exact ⟨identOf_inj hname hname' (String.toList_inj.mp hident),
    Scalar.Shape.text_injective (String.toList_inj.mp htype)⟩

/-! ## Lines told apart -/

namespace Line

/-- Lines that may stand between the braces of a structure. -/
def InBody : Line → Prop
  | blank => True
  | code .. => False
  | note depth _ | doc depth _ => depth = 1
  | noted depth text _ => depth = 1 ∧ Stated text

/-- What stands before the first slash of a line between the braces, and what
    behind it. -/
def halves? (indent : Nat) : Line → Option (List Char × List Char)
  | blank | code .. => none
  | note _ remark => some (List.replicate indent ' ', '/' :: ' ' :: remark.toList)
  | doc _ remark => some (List.replicate indent ' ', '/' :: '/' :: ' ' :: remark.toList)
  | noted _ text remark =>
      some (List.replicate indent ' ' ++ (text.toList ++ [' ']), '/' :: ' ' :: remark.toList)

theorem toList_content_of_halves? {indent : Nat} {line : Line} {before behind : List Char}
    (h : line.InBody) (hhalves : line.halves? indent = some (before, behind)) :
    (line.content indent).toList = before ++ '/' :: behind ∧ '/' ∉ before := by
  have hspaces : '/' ∉ List.replicate indent ' ' := by simp
  cases line with
  | blank => exact nomatch hhalves
  | code depth text => exact nomatch hhalves
  | note depth remark =>
      obtain rfl : depth = 1 := h
      obtain ⟨rfl, rfl⟩ := Prod.mk.inj (Option.some.inj hhalves)
      exact ⟨by simp [content, toList_spaces], hspaces⟩
  | doc depth remark =>
      obtain rfl : depth = 1 := h
      obtain ⟨rfl, rfl⟩ := Prod.mk.inj (Option.some.inj hhalves)
      exact ⟨by simp [content, toList_spaces], hspaces⟩
  | noted depth text remark =>
      obtain ⟨rfl, htext⟩ : depth = 1 ∧ Stated text := h
      obtain ⟨rfl, rfl⟩ := Prod.mk.inj (Option.some.inj hhalves)
      have hslash : '/' ∉ text.toList := htext.not_mem (by decide)
      exact ⟨by simp [content, toList_spaces], by simp [hspaces, hslash]⟩

/-- Only empty lines have no slash between the braces. -/
theorem eq_blank_of_halves?_eq_none {indent : Nat} {line : Line} (h : line.InBody)
    (hhalves : line.halves? indent = none) : line = blank := by
  cases line with
  | blank => rfl
  | code depth text => exact nomatch h
  | note depth remark => exact nomatch hhalves
  | doc depth remark => exact nomatch hhalves
  | noted depth text remark => exact nomatch hhalves

/-- A line is known by its halves: only documentation has a second slash behind
    the first two, and only in front of a field is more than spaces. -/
theorem halves?_inj {indent : Nat} {line line' : Line} (h : line.InBody) (h' : line'.InBody)
    (heq : line.halves? indent = line'.halves? indent) : line = line' := by
  cases line <;> cases line' <;> simp_all [halves?, InBody, String.toList_inj]

/-- A line between the braces is empty or has a slash in it. -/
theorem content_eq_nil_or_slash_mem {line : Line} (h : line.InBody) (indent : Nat) :
    (line.content indent).toList = [] ∨ '/' ∈ (line.content indent).toList := by
  cases hhalves : line.halves? indent with
  | none =>
      rw [eq_blank_of_halves?_eq_none h hhalves]
      exact Or.inl rfl
  | some halves =>
      rw [(toList_content_of_halves? h hhalves).1]
      exact Or.inr (List.mem_append_right _ List.mem_cons_self)

/-- **LINES ARE TOLD APART** by their text. -/
theorem content_inj {indent : Nat} {line line' : Line} (h : line.InBody) (h' : line'.InBody)
    (heq : (line.content indent).toList = (line'.content indent).toList) : line = line' := by
  have hblank : ∀ (l : Line) (halves : List Char × List Char), l.InBody →
      l.halves? indent = some halves → (l.content indent).toList ≠ [] := by
    intro l halves hl hhalves
    rw [(toList_content_of_halves? hl hhalves).1]
    exact List.append_ne_nil_of_right_ne_nil _ (List.cons_ne_nil _ _)
  suffices hsame : line.halves? indent = line'.halves? indent from halves?_inj h h' hsame
  cases hhalves : line.halves? indent with
  | none =>
      cases hhalves' : line'.halves? indent with
      | none => rfl
      | some halves' =>
          rw [eq_blank_of_halves?_eq_none h hhalves] at heq
          exact absurd heq.symm (hblank line' halves' h' hhalves')
  | some halves =>
      cases hhalves' : line'.halves? indent with
      | none =>
          rw [eq_blank_of_halves?_eq_none h' hhalves'] at heq
          exact absurd heq (hblank line halves h hhalves)
      | some halves' =>
          obtain ⟨hcontent, hbefore⟩ := toList_content_of_halves? h hhalves
          obtain ⟨hcontent', hbefore'⟩ := toList_content_of_halves? h' hhalves'
          rw [hcontent, hcontent'] at heq
          obtain ⟨hfirst, hsecond⟩ := append_cons_inj hbefore hbefore' heq
          rw [Prod.ext hfirst hsecond]

/-- A line between the braces takes one line of the text. -/
theorem newline_not_mem_content {line : Line} (h : line.InBody) (hone : line.OneLine)
    (indent : Nat) : '\n' ∉ (line.content indent).toList := by
  cases line with
  | blank => exact List.not_mem_nil
  | code depth text => exact nomatch h
  | note depth remark =>
      have hremark : '\n' ∉ remark.toList := hone
      simp [content, toList_spaces, hremark]
  | doc depth remark =>
      have hremark : '\n' ∉ remark.toList := hone
      simp [content, toList_spaces, hremark]
  | noted depth text remark =>
      have hremark : '\n' ∉ remark.toList := hone
      have htext : '\n' ∉ text.toList := h.2.not_mem (by decide)
      simp [content, toList_spaces, hremark, htext]

end Line

/-- A text that begins with lines that do not break is cut into these lines
    first. -/
theorem splitOn_textOf_append (indent : Nat) {lines : List Line}
    (h : ∀ line ∈ lines, '\n' ∉ (line.content indent).toList) (behind : List Char) :
    ((textOf indent lines).toList ++ behind).splitOn '\n'
      = lines.map (fun line => (line.content indent).toList) ++ behind.splitOn '\n' := by
  induction lines with
  | nil => rfl
  | cons line rest ih =>
      obtain ⟨hline, hrest⟩ := List.forall_mem_cons.mp h
      rw [toList_textOf_cons, List.append_assoc, List.cons_append, List.splitOn_append_cons_self,
        List.splitOn_eq_singleton hline, ih hrest]
      rfl

/-- **BODIES ARE TOLD APART** by what is printed of them and of all that
    follows, because none of their lines is the brace behind them. -/
theorem body_inj {indent : Nat} {body body' behind behind' : List Line}
    (h : ∀ line ∈ body, line.InBody ∧ line.OneLine)
    (h' : ∀ line ∈ body', line.InBody ∧ line.OneLine)
    (htext : textOf indent (body ++ .code 0 "\x7d" :: behind)
      = textOf indent (body' ++ .code 0 "\x7d" :: behind')) : body = body' := by
  have hbrace : (Line.content indent (.code 0 "\x7d")).toList = ['\x7d'] := by
    simp [Line.content, Line.toList_spaces]
  have hcut : ∀ {body : List Line} (behind : List Line),
      (∀ line ∈ body, line.InBody ∧ line.OneLine) →
      (textOf indent (body ++ .code 0 "\x7d" :: behind)).toList.splitOn '\n'
        = body.map (fun line => (line.content indent).toList)
          ++ ['\x7d'] :: (textOf indent behind).toList.splitOn '\n' := by
    intro body behind h
    rw [textOf_append, String.toList_append, splitOn_textOf_append indent fun line hline =>
        Line.newline_not_mem_content (h line hline).1 (h line hline).2 indent,
      toList_textOf_cons, hbrace, List.splitOn_append_cons_self]
    rfl
  have hnot : ∀ {body : List Line}, (∀ line ∈ body, line.InBody ∧ line.OneLine) →
      ['\x7d'] ∉ body.map fun line => (line.content indent).toList := by
    intro body h hmem
    obtain ⟨line, hline, hcontent⟩ := List.mem_map.mp hmem
    rcases Line.content_eq_nil_or_slash_mem (h line hline).1 indent with hnil | hslash
    · rw [hcontent] at hnil
      exact absurd hnil (List.cons_ne_nil _ _)
    · rw [hcontent] at hslash
      exact absurd hslash (by decide)
  have hpieces := congrArg (fun text : String => text.toList.splitOn '\n') htext
  rw [hcut behind h, hcut behind' h'] at hpieces
  obtain ⟨hlines, -⟩ := append_cons_inj (hnot h) (hnot h') hpieces
  exact Outcome.eq_of_map_eq
    (fun line hline line' hline' => Line.content_inj (h line hline).1 (h' line' hline').1) hlines

/-! ## Members told apart -/

/-- What comes of an item that has the name of a field. -/
theorem inBody_lines_ofItem {item : Item} (h : ∀ e, item.entry? = some e → FieldName e.name)
    (visibility : Visibility) : ∀ line ∈ (Member.ofItem item).lines visibility, line.InBody := by
  intro line hline
  cases item with
  | comment n text =>
      obtain rfl := List.mem_singleton.mp hline
      exact rfl
  | entry e =>
      rcases List.mem_append.mp hline with hline | hline
      · split at hline
        · exact nomatch hline
        · obtain rfl := List.mem_singleton.mp hline
          exact rfl
      · obtain rfl := List.mem_singleton.mp hline
        exact ⟨rfl, stated_statement (h e rfl) visibility⟩

/-- What comes of items with the names of fields may stand between the braces. -/
theorem inBody_membersLines {items : List Item} (h : ∀ e ∈ entriesOf items, FieldName e.name)
    (visibility : Visibility) (previous : Option Member) :
    ∀ line ∈ membersLines visibility previous (items.map .ofItem), line.InBody := by
  intro line hline
  rcases eq_blank_or_mem_lines hline with rfl | ⟨m, hm, hline⟩
  · exact True.intro
  · obtain ⟨item, hitem, rfl⟩ := List.mem_map.mp hm
    refine inBody_lines_ofItem (fun e he => h e ?_) visibility line hline
    exact List.mem_filterMap.mpr ⟨item, hitem, he⟩

/-- Blank lines stand between members only. -/
theorem filter_membersLines (visibility : Visibility) (members : List Member) :
    ∀ previous : Option Member,
      (membersLines visibility previous members).filter (· ≠ .blank)
        = members.flatMap (·.lines visibility) := by
  induction members with
  | nil => exact fun previous => rfl
  | cons m rest ih =>
      intro previous
      have hseparation : (separation previous m).filter (· ≠ .blank) = [] := by
        cases previous with
        | none => rfl
        | some before => cases before <;> cases m <;> rfl
      have hlines : (m.lines visibility).filter (· ≠ .blank) = m.lines visibility := by
        cases m with
        | comment text => rfl
        | field d =>
            rw [Member.lines_field]
            split <;> rfl
      rw [membersLines, List.filter_append, List.filter_append, hseparation, hlines, ih,
        List.flatMap_cons]
      rfl

/-- The last line of a member is the only one that is not documentation. -/
theorem exists_last_line (visibility : Visibility) (m : Member) :
    ∃ last, (∀ depth remark, last ≠ Line.doc depth remark)
      ∧ (m.lines visibility = [last] ∨ ∃ doc, m.lines visibility = [.doc 1 doc, last]) := by
  cases m with
  | comment text => exact ⟨.note 1 text, (fun _ _ h => nomatch h), Or.inl rfl⟩
  | field d =>
      refine ⟨.noted 1 (d.statement visibility) d.rangeText, (fun _ _ h => nomatch h), ?_⟩
      rw [Member.lines_field]
      split
      · exact Or.inl rfl
      · exact Or.inr ⟨d.doc, rfl⟩

theorem lines_ne_nil (visibility : Visibility) (m : Member) : m.lines visibility ≠ [] := by
  obtain ⟨last, -, hlines | ⟨doc, hlines⟩⟩ := exists_last_line visibility m
  · rw [hlines]
    exact List.cons_ne_nil last []
  · rw [hlines]
    exact List.cons_ne_nil _ [last]

/-- The lines of a member say where they end. -/
theorem lines_append_inj {visibility : Visibility} {m m' : Member} {rest rest' : List Line}
    (h : m.lines visibility ++ rest = m'.lines visibility ++ rest') :
    m.lines visibility = m'.lines visibility ∧ rest = rest' := by
  obtain ⟨last, hlast, hlines⟩ := exists_last_line visibility m
  obtain ⟨last', hlast', hlines'⟩ := exists_last_line visibility m'
  rcases hlines with hlines | ⟨doc, hlines⟩
  · rcases hlines' with hlines' | ⟨doc', hlines'⟩
    · rw [hlines, hlines'] at h ⊢
      obtain ⟨rfl, rfl⟩ := List.cons.inj h
      exact ⟨rfl, rfl⟩
    · rw [hlines, hlines'] at h
      exact absurd (List.cons.inj h).1 (hlast 1 doc')
  · rcases hlines' with hlines' | ⟨doc', hlines'⟩
    · rw [hlines, hlines'] at h
      exact absurd (List.cons.inj h).1.symm (hlast' 1 doc)
    · rw [hlines, hlines'] at h ⊢
      obtain ⟨hdoc, hbehind⟩ := List.cons.inj h
      obtain ⟨rfl, rfl⟩ := List.cons.inj hbehind
      rw [hdoc]
      exact ⟨rfl, rfl⟩

/-- The lines of a field give its documentation, its declaration and its range. -/
theorem lines_field_inj {visibility : Visibility} {d d' : Declaration}
    (h : (Member.field d).lines visibility = (Member.field d').lines visibility) :
    d.doc = d'.doc ∧ d.statement visibility = d'.statement visibility
      ∧ d.rangeText = d'.rangeText := by
  rw [Member.lines_field, Member.lines_field] at h
  obtain ⟨hdoc, hlast⟩ := List.append_inj' h rfl
  obtain ⟨-, hstatement, hrange⟩ := Line.noted.inj (List.cons.inj hlast).1
  refine ⟨?_, hstatement, hrange⟩
  -- no documentation is the empty one
  split at hdoc <;> split at hdoc
  · next hempty hempty' => rw [hempty, hempty']
  · exact nomatch hdoc
  · exact nomatch hdoc
  · exact (Line.doc.inj (List.cons.inj hdoc).1).2

theorem lines_comment_ne_field {visibility : Visibility} {text : String} {d : Declaration} :
    (Member.comment text).lines visibility ≠ (Member.field d).lines visibility := by
  intro h
  rw [Member.lines_field] at h
  split at h <;> exact nomatch h

end Code

/-! ## Layouts told apart -/

namespace Layout

open Code (Declaration Member Visibility)

/-- The item without the line of the table that it is from. -/
def Item.unnumbered : Item → Item
  | entry e => entry { e with line := 0 }
  | comment _ text => comment 0 text

/-- The type of a field gives the kind and the count of its entry. -/
theorem shape_inj {e e' : Entry} (hcount : 1 ≤ e.count) (hcount' : 1 ≤ e'.count)
    (h : e.shape = e'.shape) : e.kind = e'.kind ∧ e.count = e'.count := by
  by_cases harray : 1 < e.count <;> by_cases harray' : 1 < e'.count
  · rw [Entry.shape_of_isArray harray, Entry.shape_of_isArray harray'] at h
    exact Scalar.Shape.array.inj h
  · rw [Entry.shape_of_isArray harray, Entry.shape_of_not_isArray harray'] at h
    exact nomatch h
  · rw [Entry.shape_of_not_isArray harray, Entry.shape_of_isArray harray'] at h
    exact nomatch h
  · rw [Entry.shape_of_not_isArray harray, Entry.shape_of_not_isArray harray'] at h
    exact ⟨Scalar.Shape.single.inj h, by omega⟩

/-- The declared offset stands before the first space of the range. -/
theorem offset_eq_of_rangeText {e e' : Entry}
    (h : (Declaration.ofEntry e).rangeText = (Declaration.ofEntry e').rangeText) :
    e.offset = e'.offset := by
  have hspace : ∀ n : Nat, ' ' ∉ (toString n).toList := Text.not_mem_toString (by decide)
  have hrange : ∀ d : Declaration, d.rangeText.toList
      = (toString d.offset).toList ++ ' ' :: '-' :: ' ' :: (toString d.declaredEnd).toList := by
    intro d
    simp [Declaration.rangeText]
  have hlist := congrArg String.toList h
  rw [hrange, hrange] at hlist
  obtain ⟨hoffset, -⟩ := append_cons_inj (hspace _) (hspace _) hlist
  exact Nat.repr_inj.mp (String.toList_inj.mp hoffset)

/-- Entries at one place are told apart by their lines. -/
theorem unnumbered_entry_inj {visibility : Visibility} {e e' : Entry} (hsound : e.Sound)
    (hsound' : e'.Sound) (hstart : e.start = e'.start)
    (h : (Member.field (.ofEntry e)).lines visibility
      = (Member.field (.ofEntry e')).lines visibility) :
    (Item.entry e).unnumbered = (Item.entry e').unnumbered ∧ e.stop = e'.stop := by
  obtain ⟨hdescription, hstatement, hrange⟩ := Code.lines_field_inj h
  obtain ⟨hname, hshape⟩ := Code.statement_inj hsound.name hsound'.name hstatement
  obtain ⟨hkind, hcount⟩ := shape_inj hsound.count_pos hsound'.count_pos hshape
  have hoffset := offset_eq_of_rangeText hrange
  obtain ⟨line, offset, start, kind, name, count, description⟩ := e
  obtain ⟨line', offset', start', kind', name', count', description'⟩ := e'
  simp only at hstart hname hkind hcount hoffset
  obtain rfl : description = description' := hdescription
  subst hstart hname hkind hcount hoffset
  exact ⟨rfl, rfl⟩

/-- **ITEMS ARE TOLD APART** by their lines.  The induction is on the items; its
    invariant is that both lists go on at the same byte of the record. -/
theorem unnumbered_inj {visibility : Visibility} {items : List Item} :
    ∀ (items' : List Item) {start : Nat},
      (∀ e ∈ entriesOf items, e.Sound) → (∀ e ∈ entriesOf items', e.Sound) →
      BackToBack start (entriesOf items) → BackToBack start (entriesOf items') →
      (items.map Member.ofItem).flatMap (·.lines visibility)
        = (items'.map Member.ofItem).flatMap (·.lines visibility) →
      items.map Item.unnumbered = items'.map Item.unnumbered := by
  induction items with
  | nil =>
      intro items' start _ _ _ _ h
      cases items' with
      | nil => rfl
      | cons item' rest' =>
          have hnil := (List.append_eq_nil_iff.mp h.symm).1
          exact absurd hnil (Code.lines_ne_nil visibility _)
  | cons item rest ih =>
      intro items' start hsound hsound' hback hback' h
      cases items' with
      | nil =>
          have hnil := (List.append_eq_nil_iff.mp h).1
          exact absurd hnil (Code.lines_ne_nil visibility _)
      | cons item' rest' =>
          rw [List.map_cons, List.map_cons, List.flatMap_cons, List.flatMap_cons] at h
          obtain ⟨hlines, hrest⟩ := Code.lines_append_inj h
          cases item with
          | comment n text =>
              cases item' with
              | comment n' text' =>
                  obtain ⟨-, rfl⟩ := Code.Line.note.inj (List.cons.inj hlines).1
                  rw [List.map_cons, List.map_cons, ih rest' hsound hsound' hback hback' hrest]
                  rfl
              | entry e' => exact absurd hlines Code.lines_comment_ne_field
          | entry e =>
              cases item' with
              | comment n' text' => exact absurd hlines.symm Code.lines_comment_ne_field
              | entry e' =>
                  obtain ⟨he, hsound⟩ := List.forall_mem_cons.mp hsound
                  obtain ⟨he', hsound'⟩ := List.forall_mem_cons.mp hsound'
                  obtain ⟨hstart, hback⟩ := hback
                  obtain ⟨hstart', hback'⟩ := hback'
                  obtain ⟨hentry, hstop⟩ :=
                    unnumbered_entry_inj he he' (hstart.trans hstart'.symm) hlines
                  rw [← hstop] at hback'
                  rw [List.map_cons, List.map_cons, hentry,
                    ih rest' hsound hsound' hback hback' hrest]

end Layout

namespace Code

open Layout (Item)

namespace Program

/-- The lines before the first member, less the header. -/
def openingCode (p : Program) (visibility : Visibility) : List Line :=
  [.code 0 "#[derive(Debug, Clone, Copy, PartialEq, Eq)]",
    .code 0 (visibility.text ++ "struct " ++ p.name ++ " \x7b")]

/-- The lines of a program up to its first member. -/
def openingLines (p : Program) (options : Options) : List Line :=
  headerLines options.header ++ p.openingCode options.visibility

/-- A program is its opening, its members, the brace behind them, and what they
    do not stand in. -/
theorem text_eq (p : Program) (options : Options) :
    ∃ behind, p.text options
      = textOf options.indent (p.openingLines options)
        ++ textOf options.indent
            (membersLines options.visibility none p.members ++ .code 0 "\x7d" :: behind) := by
  refine ⟨[.blank] ++ p.implLines options.visibility ++ [.blank] ++ p.fromLines, ?_⟩
  rw [← textOf_append]
  show textOf options.indent (p.lines options) = _
  rw [lines, structLines, openingLines, openingCode]
  simp only [List.append_assoc, List.cons_append, List.nil_append]

end Program

/-- **CODE LOSES NOTHING**: two tables whose code is the same, whatever is
    chosen about it, have the same layout, up to the numbers of their lines.
    Comments, names, types, counts, declared offsets, places and descriptions
    are all in the text, in their order. -/
theorem items_of_code {name source source' : String} {policy policy' : OffsetPolicy}
    {options : Options} {layout layout' : Layout} (h : load source policy = .ok layout)
    (h' : load source' policy' = .ok layout')
    (htext : (Program.ofLayout name layout).text options
      = (Program.ofLayout name layout').text options) :
    layout.items.map Item.unnumbered = layout'.items.map Item.unnumbered := by
  obtain ⟨rows, hread, hlayout⟩ := exists_rows_of_load h
  obtain ⟨rows', hread', hlayout'⟩ := exists_rows_of_load h'
  have hpacked := Layout.packed_of_ofRows hlayout
  have hpacked' := Layout.packed_of_ofRows hlayout'
  -- the lines of both bodies
  have hone := oneLine_membersLines options.visibility
    (Program.oneLine_ofLayout hlayout (Table.oneLine_of_read hread) name) none
  have hone' := oneLine_membersLines options.visibility
    (Program.oneLine_ofLayout hlayout' (Table.oneLine_of_read hread') name) none
  have hbody := inBody_membersLines (fun e he => (hpacked.sound e he).name) options.visibility none
  have hbody' :=
    inBody_membersLines (fun e he => (hpacked'.sound e he).name) options.visibility none
  obtain ⟨behind, hprogram⟩ := (Program.ofLayout name layout).text_eq options
  obtain ⟨behind', hprogram'⟩ := (Program.ofLayout name layout').text_eq options
  rw [hprogram, hprogram'] at htext
  have hlines := body_inj (fun line hline => ⟨hbody line hline, hone line hline⟩)
    (fun line hline => ⟨hbody' line hline, hone' line hline⟩) ((String.append_right_inj _).mp htext)
  -- without the blank ones they are those of the members
  have hmembers := congrArg (List.filter (· ≠ .blank)) hlines
  rw [filter_membersLines, filter_membersLines] at hmembers
  exact Layout.unnumbered_inj layout'.items hpacked.sound hpacked'.sound hpacked.contiguous
    hpacked'.contiguous hmembers

/-- A table with a comment that looks like documentation and a field whose
    description looks like another, and the same table further down. -/
theorem items_of_code_moved :
    load "\t\t\t/ a\n0\tle16\ta\tb: u8, // 0 - 1" .strict
        = .ok ⟨[.comment 1 "/ a", .entry ⟨2, 0, 0, .u16, "a", 1, "b: u8, // 0 - 1"⟩]⟩
      ∧ load "\n\t\t\t/ a\n\n0\tu16\ta\tb: u8, // 0 - 1" .ignore
        = .ok ⟨[.comment 2 "/ a", .entry ⟨4, 0, 0, .u16, "a", 1, "b: u8, // 0 - 1"⟩]⟩
      ∧ [Item.comment 1 "/ a", .entry ⟨2, 0, 0, .u16, "a", 1, "b: u8, // 0 - 1"⟩].map Item.unnumbered
        = [Item.comment 2 "/ a", .entry ⟨4, 0, 0, .u16, "a", 1, "b: u8, // 0 - 1"⟩].map
            Item.unnumbered := by
  have h : load "\t\t\t/ a\n0\tle16\ta\tb: u8, // 0 - 1" .strict
      = .ok ⟨[.comment 1 "/ a", .entry ⟨2, 0, 0, .u16, "a", 1, "b: u8, // 0 - 1"⟩]⟩ := by decide
  have h' : load "\n\t\t\t/ a\n\n0\tu16\ta\tb: u8, // 0 - 1" .ignore
      = .ok ⟨[.comment 2 "/ a", .entry ⟨4, 0, 0, .u16, "a", 1, "b: u8, // 0 - 1"⟩]⟩ := by decide
  have htext : ∀ options, (Program.ofLayout "R"
        ⟨[.comment 1 "/ a", .entry ⟨2, 0, 0, .u16, "a", 1, "b: u8, // 0 - 1"⟩]⟩).text options
      = (Program.ofLayout "R"
        ⟨[.comment 2 "/ a", .entry ⟨4, 0, 0, .u16, "a", 1, "b: u8, // 0 - 1"⟩]⟩).text options :=
    fun _ => rfl
  exact ⟨h, h', items_of_code h h' (htext { visibility := .hidden, indent := 0 })⟩

end Code

end PackedRecord
