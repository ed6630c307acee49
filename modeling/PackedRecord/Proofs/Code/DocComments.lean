import PackedRecord.Proofs.Code.CodeLines

/-! # Documentation comments — what is said about fields, and where

    Of the lines of a program just two sorts are documentation: what a
    description says, right in front of its field, and one remark of the
    program's own (`followed_lines`).  A description is printed as it is: a
    carriage return that stands inside of it stands in the documentation too,
    and it gets there from nowhere else (`documents_descriptions`). -/

namespace PackedRecord

open Layout (Entry Item FieldName Packed)
open Text (trim)

/-! ## Carriage returns of tables -/

namespace Table

/-- Some carriage return of the text does not stand before a line feed, nor at
    the end. -/
def BareReturn (source : String) : Prop :=
  ∃ c, c ≠ '\n' ∧ ['\r', c] <:+: source.toList

/-- A carriage return at the end of a cell is trimmed, so that one that stays
    has something behind it. -/
theorem infix_of_return_mem_trim {piece : List Char} (h : '\r' ∈ trim piece) :
    ∃ c, ['\r', c] <:+: piece := by
  have hwithin : trim piece <:+: piece :=
    (List.rdropWhile_prefix Text.isBlank _).isInfix.trans (List.dropWhile_suffix _).isInfix
  obtain ⟨before, behind, hcut⟩ := List.append_of_mem h
  cases behind with
  | nil =>
      -- the last character of a trimmed text is not blank
      have hne : trim piece ≠ [] := List.ne_nil_of_mem h
      have hlast := List.rdropWhile_last_not Text.isBlank (Text.trimStart piece) hne
      have hreturn : (trim piece).getLast hne = '\r' := by simp [hcut]
      exact absurd (hreturn ▸ by decide) hlast
  | cons c behind => exact ⟨c, List.IsInfix.trans ⟨before, behind, by simp [hcut]⟩ hwithin⟩

/-- A description holds no carriage return but a bare one of the table. -/
theorem bareReturn_of_read {source : String} {rows : List Row} (h : read source = .ok rows)
    {f : Field} (hf : .field f ∈ rows) (hreturn : '\r' ∈ f.description.toList) :
    BareReturn source := by
  rw [read_eq_readPlainly, readPlainly] at h
  obtain ⟨⟨line, n⟩, hline, hplain⟩ := Outcome.exists_of_mem_mapM h hf
  have hsource : line ∈ plainLines source := List.fst_mem_of_mem_zipIdx hline
  rw [(standsOn_of_plainRow hplain).2, String.toList_ofList] at hreturn
  rcases Text.mem_of_mem_spaced hreturn with hspace | ⟨cell, hcell, hmem⟩
  · exact absurd hspace (by simp)
  · obtain ⟨piece, hpiece, rfl⟩ := List.mem_map.mp (List.mem_of_mem_drop hcell)
    obtain ⟨c, hc⟩ := infix_of_return_mem_trim hmem
    have hwithin := hc.trans (Text.infix_of_mem_splitOn hpiece)
    refine ⟨c, ?_, hwithin.trans (Text.infix_of_mem_splitOn hsource)⟩
    exact (Text.of_mem_splitOn hsource c (hwithin.subset (by simp))).2

end Table

namespace Code

/-! ## Lines of members -/

/-- The lines of an item do not break and are documentation only where they are
    meant to be. -/
theorem apart_lines_ofItem {item : Item} (h : ∀ e, item.entry? = some e → FieldName e.name)
    (hone : (Member.ofItem item).OneLine) (visibility : Visibility) :
    ∀ line ∈ (Member.ofItem item).lines visibility, line.Apart := by
  intro line hline
  have hnewline := oneLine_lines_member visibility hone line hline
  cases item with
  | comment n text =>
      obtain rfl := List.mem_singleton.mp hline
      exact hnewline
  | entry e =>
      rcases List.mem_append.mp hline with hline | hline
      · split at hline
        · exact nomatch hline
        · obtain rfl := List.mem_singleton.mp hline
          exact hnewline
      · obtain rfl := List.mem_singleton.mp hline
        have hident := plainCode_visibility (plainCode_of_isWord (isWord_identOf (h e rfl))) visibility
        have hstated := stated_statement (h e rfl) visibility
        refine ⟨⟨?_, hstated.not_mem (by decide)⟩, hnewline⟩
        exact beginsPlain_append (beginsPlain_append (beginsPlain_append hident.1 _) _) _

theorem apart_membersLines {items : List Item} (h : ∀ e ∈ Layout.entriesOf items, FieldName e.name)
    (hone : ∀ m ∈ items.map Member.ofItem, m.OneLine) (visibility : Visibility)
    (previous : Option Member) :
    ∀ line ∈ membersLines visibility previous (items.map .ofItem), line.Apart := by
  intro line hline
  rcases eq_blank_or_mem_lines hline with rfl | ⟨m, hm, hline⟩
  · exact True.intro
  · have hmember := hone m hm
    obtain ⟨item, hitem, rfl⟩ := List.mem_map.mp hm
    refine apart_lines_ofItem (fun e he => h e ?_) hmember visibility line hline
    exact List.mem_filterMap.mpr ⟨item, hitem, he⟩

/-- A header is printed as notes and a blank line. -/
theorem eq_blank_or_note_of_mem_headerLines {header : Option String} {line : Line}
    (h : line ∈ headerLines header) : line = .blank ∨ ∃ remark, line = .note 0 remark := by
  cases header with
  | none => exact nomatch h
  | some header =>
      rcases List.mem_append.mp h with h | h
      · obtain ⟨text, -, rfl⟩ := List.mem_map.mp h
        exact Or.inr ⟨_, rfl⟩
      · exact Or.inl (List.mem_singleton.mp h)

/-- The documentation of a declaration, if there is any, and its field. -/
def Declaration.documentation (visibility : Visibility) (d : Declaration) : List (Line × Line) :=
  if d.doc = "" then [] else [(.doc 1 d.doc, .noted 1 (d.statement visibility) d.rangeText)]

/-- The induction is on the members, with whatever follows them. -/
theorem followed_membersLines (visibility : Visibility) (behind : List Line)
    (members : List Member) :
    ∀ previous : Option Member,
      followed Line.isDoc (membersLines visibility previous members ++ behind)
        = (members.filterMap Member.declaration?).flatMap (·.documentation visibility)
          ++ followed Line.isDoc behind := by
  induction members with
  | nil => exact fun previous => rfl
  | cons m rest ih =>
      intro previous
      have hseparation : ∀ line ∈ separation previous m, line.isDoc = false := by
        intro line hline
        rw [eq_blank_of_mem_separation hline]
        rfl
      rw [membersLines, List.append_assoc, List.append_assoc,
        followed_append_of_forall hseparation]
      cases m with
      | comment text =>
          rw [Member.lines, followed_append_of_forall (by simp [Line.isDoc]), ih]
          rfl
      | field d =>
          have hfield : ∀ others, followed Line.isDoc
              (.noted 1 (d.statement visibility) d.rangeText :: others)
                = followed Line.isDoc others :=
            fun others => followed_append_of_forall
              (List.forall_mem_singleton.mpr rfl) others
          have hdeclarations : (Member.field d :: rest).filterMap Member.declaration?
              = d :: rest.filterMap Member.declaration? := rfl
          rw [Member.lines_field, List.append_assoc, hdeclarations, List.flatMap_cons,
            Declaration.documentation, List.append_assoc]
          split
          · rw [List.nil_append, List.singleton_append, hfield, ih]
            rfl
          · rw [List.singleton_append, List.singleton_append, followed_cons_cons, hfield, ih]
            rfl

namespace Program

variable {layout : Layout} {name : String}

/-- The lines of a whole program, in the same way, if its name does not break. -/
theorem apart_lines (h : Packed layout) (hname : Unbroken name)
    (hone : ∀ m ∈ (ofLayout name layout).members, m.OneLine) (options : Options) :
    ∀ line ∈ (ofLayout name layout).lines options, line.Apart := by
  have hreadable := readable_ofLayout h name
  have hheader : ∀ line ∈ headerLines options.header, line.Apart := by
    intro line hline
    have hnewline := oneLine_headerLines options.header line hline
    rcases eq_blank_or_note_of_mem_headerLines hline with rfl | ⟨remark, rfl⟩
    · exact True.intro
    · exact hnewline
  have hremark : nativeRemark.Apart := by simp [nativeRemark, Line.Apart]
  rw [lines_eq]
  simp only [List.forall_mem_append, List.forall_mem_cons]
  refine ⟨hheader, fun line hline => (isCode_openingCode hname _ line hline).apart,
    apart_membersLines (fun e he => (h.sound e he).name) hone _ none,
    fun line hline => (isCode_widthCode hname _ line hline).apart, hremark, ?_⟩
  have hclosing := isCode_closingCode hname hreadable
  exact List.forall_mem_cons.mp fun line hline => (hclosing line hline).apart

/-- Of all the lines of a program, the documentation of its declarations and
    its own remark are documentation. -/
theorem followed_lines {p : Program} (hname : Unbroken p.name)
    (h : ∀ d ∈ p.declarations, Readable d) (options : Options) :
    followed Line.isDoc (p.lines options)
      = p.declarations.flatMap (·.documentation options.visibility)
        ++ [(nativeRemark, nativeHead)] := by
  have hheader : ∀ line ∈ headerLines options.header, line.isDoc = false := by
    intro line hline
    rcases eq_blank_or_note_of_mem_headerLines hline with rfl | ⟨remark, rfl⟩ <;> rfl
  have hclosing : followed Line.isDoc (nativeHead :: p.closingCode) = [] :=
    followed_of_forall fun line hline => (isCode_closingCode hname h line hline).isDoc_eq_false
  rw [lines_eq, followed_append_of_forall hheader,
    followed_append_of_forall fun line hline =>
      (isCode_openingCode hname _ line hline).isDoc_eq_false,
    followed_membersLines,
    followed_append_of_forall fun line hline =>
      (isCode_widthCode hname _ line hline).isDoc_eq_false,
    followed_cons_cons, hclosing]
  rfl

end Program

/-! ## What is printed -/

/-- The line that documents an entry. -/
def docLine (options : Options) (e : Entry) : List Char :=
  (Text.spaces options.indent ++ "/// " ++ e.description).toList

/-- The line that declares the field of an entry. -/
def fieldLine (options : Options) (e : Entry) : List Char :=
  (Text.spaces options.indent ++ (options.visibility.text ++ identOf e.name ++ ": " ++ e.shape.text
    ++ ",") ++ " // " ++ (toString e.offset ++ " - " ++ toString e.declaredEnd)).toList

/-- The documentation that every program has, and the line behind it. -/
def ownDocLines (options : Options) : List Char × List Char :=
  ((Text.spaces options.indent
      ++ "/// Reads every field at its packed position in native byte order.").toList,
    (Text.spaces options.indent ++ "fn from_native(block: &[u8; Self::WIDTH]) -> Self \x7b").toList)

/-- The documentation of declarations is printed as that of their entries, where
    there is any. -/
theorem map_documentation (options : Options) (entries : List Entry) :
    ((entries.map Declaration.ofEntry).flatMap (·.documentation options.visibility)).map
        (Prod.map (fun line => (line.content options.indent).toList)
          fun line => (line.content options.indent).toList)
      = (entries.filter (·.description ≠ "")).map fun e => (docLine options e, fieldLine options e) := by
  induction entries with
  | nil => rfl
  | cons e rest ih =>
      rw [List.map_cons, List.flatMap_cons, List.map_append, ih, Declaration.documentation]
      by_cases hempty : e.description = ""
      · have hdoc : (Declaration.ofEntry e).doc = "" := hempty
        rw [if_pos hdoc, List.filter_cons_of_neg (by simp [hempty])]
        rfl
      · have hdoc : ¬ (Declaration.ofEntry e).doc = "" := hempty
        rw [if_neg hdoc, List.filter_cons_of_pos (by simp [hempty]), List.map_cons, List.map_cons]
        simp only [Prod.map, Line.content, Nat.mul_one]
        rfl

theorem return_mem_docLine_iff (options : Options) (e : Entry) :
    '\r' ∈ docLine options e ↔ '\r' ∈ e.description.toList := by
  simp [docLine, Line.toList_spaces]

theorem return_not_mem_ownDocLines (options : Options) : '\r' ∉ (ownDocLines options).1 := by
  simp [ownDocLines, Line.toList_spaces]

/-- **THE DOCUMENTATION OF A PROGRAM**: a line for every description that is not
    empty, in front of its field, and the program's own remark. -/
theorem documented_text {layout : Layout} {name : String} (h : Packed layout)
    (hname : Unbroken name) (hone : ∀ m ∈ (Program.ofLayout name layout).members, m.OneLine)
    (options : Options) :
    documented ((Program.ofLayout name layout).text options).toList
      = ((layout.entries.filter (·.description ≠ "")).map fun e =>
          (docLine options e, fieldLine options e)) ++ [ownDocLines options] := by
  have hreadable := Program.readable_ofLayout h name
  have hlast : ∀ line ∈ ((Program.ofLayout name layout).lines options).getLast?,
      line.isDoc = false := by
    intro line hline
    have hbrace : ((Program.ofLayout name layout).lines options).getLast?
        = some (.code 0 "\x7d") := by
      simp only [Program.lines, Program.fromLines, ← List.append_assoc, List.getLast?_append]
      rfl
    obtain rfl := Option.some.inj (hbrace.symm.trans hline)
    rfl
  show documented (textOf options.indent ((Program.ofLayout name layout).lines options)).toList = _
  rw [documented_textOf (Program.apart_lines h hname hone options) hlast,
    Program.followed_lines hname hreadable, List.map_append, Program.declarations_ofLayout,
    map_documentation]
  refine congrArg (_ ++ ·) ?_
  simp [ownDocLines, Program.nativeRemark, Program.nativeHead, Line.content]

end Code

/-- **DOCUMENTATION IS WHAT DESCRIPTIONS SAY**, for every table that is
    compiled and whatever is chosen about its code.  The lines of documentation
    are those of the descriptions that are not empty, in their order and each
    in front of its field, and one more of the program's own.  They are printed
    as they are read: a carriage return stands in one of them exactly if it
    stands in a description, where only a bare one of the table comes to
    stand. -/
theorem documents_descriptions {name source text : String} {policy : OffsetPolicy}
    {options : Code.Options} (h : compile name source policy options = .ok text)
    (hname : '\n' ∉ name.toList) :
    ∃ rows layout, Table.read source = .ok rows ∧ Layout.ofRows rows policy = .ok layout
      ∧ Code.documented text.toList
        = ((layout.entries.filter (·.description ≠ "")).map fun e =>
            (Code.docLine options e, Code.fieldLine options e)) ++ [Code.ownDocLines options]
      ∧ ((∃ lines ∈ Code.documented text.toList, '\r' ∈ lines.1)
        ↔ ∃ e ∈ layout.entries, '\r' ∈ e.description.toList)
      ∧ ((∃ e ∈ layout.entries, '\r' ∈ e.description.toList) → Table.BareReturn source) := by
  obtain ⟨rows, layout, hread, hlayout, rfl⟩ := compile_eq_ok_iff.mp h
  have hdocumented := Code.documented_text (Layout.packed_of_ofRows hlayout) hname
    (Code.Program.oneLine_ofLayout hlayout (Table.oneLine_of_read hread) name) options
  refine ⟨rows, layout, hread, hlayout, hdocumented, ?_, ?_⟩
  · rw [hdocumented]
    constructor
    · rintro ⟨lines, hlines, hreturn⟩
      rcases List.mem_append.mp hlines with hlines | hlines
      · obtain ⟨e, he, rfl⟩ := List.mem_map.mp hlines
        exact ⟨e, (List.mem_filter.mp he).1, (Code.return_mem_docLine_iff options e).mp hreturn⟩
      · obtain rfl := List.mem_singleton.mp hlines
        exact absurd hreturn (Code.return_not_mem_ownDocLines options)
    · rintro ⟨e, he, hreturn⟩
      have hne : e.description ≠ "" := by
        intro hempty
        rw [hempty] at hreturn
        exact nomatch hreturn
      have hmem : e ∈ layout.entries.filter (·.description ≠ "") :=
        List.mem_filter.mpr ⟨he, decide_eq_true hne⟩
      exact ⟨_, List.mem_append_left _ (List.mem_map_of_mem hmem),
        (Code.return_mem_docLine_iff options e).mpr hreturn⟩
  · rintro ⟨e, he, hreturn⟩
    obtain ⟨item, hitem, hentry⟩ := List.mem_filterMap.mp he
    have hrow := Layout.row_mem_of_ofRows hlayout hitem
    cases item with
    | comment n said => exact nomatch hentry
    | entry d =>
        obtain rfl : d = e := Option.some.inj hentry
        exact Table.bareReturn_of_read hread hrow hreturn

/-- Two fields, the first of them documented, in lines that end in a carriage
    return each. -/
theorem documents_descriptions_of_first :
    ∃ text, compile "R" "0\tu8\ta\tone\r\n1\tu8\tb\r" .strict {} = .ok text
      ∧ Code.documented text.toList
        = [("  /// one".toList, "  pub(crate) a: u8, // 0 - 1".toList), Code.ownDocLines {}] := by
  have hread : Table.read "0\tu8\ta\tone\r\n1\tu8\tb\r"
      = .ok [.field ⟨1, 0, .known .u8, "a", 1, "one"⟩, .field ⟨2, 1, .known .u8, "b", 1, ""⟩] := by
    decide
  have hlayout : Layout.ofRows
      [.field ⟨1, 0, .known .u8, "a", 1, "one"⟩, .field ⟨2, 1, .known .u8, "b", 1, ""⟩] .strict
        = .ok ⟨[.entry ⟨1, 0, 0, .u8, "a", 1, "one"⟩, .entry ⟨2, 1, 1, .u8, "b", 1, ""⟩]⟩ := by
    decide
  have hcompile : compile "R" "0\tu8\ta\tone\r\n1\tu8\tb\r" .strict {}
      = .ok ((Code.Program.ofLayout "R" ⟨[.entry ⟨1, 0, 0, .u8, "a", 1, "one"⟩,
          .entry ⟨2, 1, 1, .u8, "b", 1, ""⟩]⟩).text {}) :=
    compile_eq_ok_iff.mpr ⟨_, _, hread, hlayout, rfl⟩
  obtain ⟨rows, layout, hrows, hbuilt, hdocumented, -⟩ :=
    documents_descriptions hcompile (by decide)
  obtain rfl := Except.ok.inj (hread.symm.trans hrows)
  obtain rfl := Except.ok.inj (hlayout.symm.trans hbuilt)
  exact ⟨_, hcompile, hdocumented⟩

/-- A carriage return inside of a description. -/
theorem exists_return_documented :
    ∃ text, compile "R" "0\tu8\ta\tx\ry" .warn {} = .ok text
      ∧ ∃ lines ∈ Code.documented text.toList, '\r' ∈ lines.1 := by
  have hread : Table.read "0\tu8\ta\tx\ry"
      = .ok [.field ⟨1, 0, .known .u8, "a", 1, "x\ry"⟩] := by
    decide
  have hlayout : Layout.ofRows [.field ⟨1, 0, .known .u8, "a", 1, "x\ry"⟩] .warn
      = .ok ⟨[.entry ⟨1, 0, 0, .u8, "a", 1, "x\ry"⟩]⟩ := by
    decide
  have hdocumented := Code.documented_text (Layout.packed_of_ofRows hlayout)
    (by decide : Code.Unbroken "R")
    (Code.Program.oneLine_ofLayout hlayout (Table.oneLine_of_read hread) "R") {}
  refine ⟨_, compile_eq_ok_iff.mpr ⟨_, _, hread, hlayout, rfl⟩, ?_⟩
  rw [hdocumented]
  exact ⟨_, List.mem_append_left _ List.mem_cons_self,
    (Code.return_mem_docLine_iff {} _).mpr (by decide)⟩

end PackedRecord
