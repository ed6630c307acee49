import PackedRecord.Proofs.Stages
import PackedRecord.Proofs.Code.Agreement
import PackedRecord.Proofs.Code.Remarks
import PackedRecord.Proofs.Table.PlainReading
import PackedRecord.Proofs.Text.Digits

/-! # Documentation — what cannot change generated code

    Texts of a table go into generated code as they are, and declared offsets
    with them.  They go into remarks only, and reading a table leaves no line
    feed in a text with which a remark could end early.  So the code of a table
    depends on the types, names and counts of its fields and on nothing else. -/

namespace PackedRecord

/-! ## Texts of one line -/

namespace Table

/-- What the row says to a reader takes one line. -/
def Row.OneLine : Row → Prop
  | .blank => True
  | .comment _ text => '\n' ∉ text.toList
  | .field f => '\n' ∉ f.description.toList

/-- Cells of one line are joined into a text of one line. -/
theorem newline_not_mem_joined {cells : List (List Char)} (h : ∀ c ∈ cells, '\n' ∉ c) :
    '\n' ∉ joined cells := by
  intro hmem
  rcases Text.mem_of_mem_spaced hmem with hspace | ⟨cell, hcell, hc⟩
  · exact nomatch hspace
  · exact h cell (List.mem_of_mem_drop hcell) hc

/-- What cells of one line say takes one line. -/
theorem newline_not_mem_said {cells : List (List Char)} (h : ∀ c ∈ cells, '\n' ∉ c) :
    '\n' ∉ said cells := by
  rw [said]
  split
  · cases cells with
    | nil => exact List.not_mem_nil
    | cons c rest => exact h c List.mem_cons_self
  · exact newline_not_mem_joined h

/-- A cell of a table takes one line, because lines end at line feeds. -/
theorem newline_not_mem_plainCells {source : String} {line : List Char}
    (h : line ∈ plainLines source) : ∀ c ∈ plainCells line, '\n' ∉ c := by
  intro cell hcell hmem
  obtain ⟨piece, hpiece, rfl⟩ := List.mem_map.mp hcell
  have hline : '\n' ∈ line := (Text.of_mem_splitOn hpiece _ (Text.mem_of_mem_trim hmem)).1
  exact (Text.of_mem_splitOn h _ hline).2 rfl

/-- Nothing that a table says breaks a line. -/
theorem oneLine_of_read {source : String} {rows : List Row} (h : read source = .ok rows) :
    ∀ row ∈ rows, row.OneLine := by
  intro row hrow
  rw [read_eq_readPlainly, readPlainly] at h
  obtain ⟨⟨text, line⟩, hline, hplain⟩ := Outcome.exists_of_mem_mapM h hrow
  have hcells := newline_not_mem_plainCells (List.fst_mem_of_mem_zipIdx hline)
  have hstands := standsOn_of_plainRow hplain
  cases row with
  | blank => exact True.intro
  | comment n said =>
      obtain ⟨-, rfl⟩ := hstands
      rw [Row.OneLine, String.toList_ofList]
      exact newline_not_mem_said hcells
  | field f =>
      rw [Row.OneLine, hstands.2, String.toList_ofList]
      exact newline_not_mem_joined hcells

/-- What the code of a field depends on. -/
def Field.signature (f : Field) : TypeRef × String × Int :=
  (f.type, f.name, f.count)

/-- The fields of a table, without their documentation. -/
def signatures (rows : List Row) : List (TypeRef × String × Int) :=
  (rows.filterMap Row.field?).map Field.signature

end Table

/-! ## Bare programs -/

namespace Code

/-- A declaration with nothing said about it. -/
def Declaration.bare (d : Declaration) : Declaration :=
  { d with doc := "", offset := 0, declaredEnd := 0 }

/-- What is said about the member takes one line. -/
def Member.OneLine : Member → Prop
  | comment text => '\n' ∉ text.toList
  | field d => '\n' ∉ d.doc.toList

namespace Program

/-- The program without comments and with bare declarations. -/
def bare (p : Program) : Program :=
  { p with members := p.declarations.map fun d => .field d.bare }

/-- The bare program declares the same fields, with nothing said about them. -/
theorem declarations_bare (p : Program) :
    p.bare.declarations = p.declarations.map Declaration.bare := by
  show (p.declarations.map fun d => Member.field d.bare).filterMap Member.declaration? = _
  rw [List.filterMap_map]
  exact List.filterMap_eq_map_iff_forall_eq_some.mpr fun d _ => rfl

theorem assignments_bare (p : Program) : p.bare.assignments = p.assignments := by
  rw [assignments, declarations_bare, List.filterMap_map]
  rfl

theorem nativeLines_bare (p : Program) : p.bare.nativeLines = p.nativeLines := by
  rw [nativeLines, nativeLines, declarations_bare]
  cases p.declarations with
  | nil => rfl
  | cons d rest =>
      rw [List.map_cons]
      simp only [List.map_cons, List.map_map]
      rfl

theorem implLines_bare (p : Program) (visibility : Visibility) :
    p.bare.implLines visibility = p.implLines visibility := by
  rw [implLines, implLines, nativeLines_bare]
  rfl

/-- The conversions from a block do not depend on what is said. -/
theorem fromLines_bare (p : Program) : p.bare.fromLines = p.fromLines := by
  rw [fromLines, fromLines, convertLines, convertLines, assignments_bare]
  rfl

end Program

/-- Between members there are blank lines and nothing else. -/
theorem eq_blank_of_mem_separation {previous : Option Member} {m : Member} {line : Line}
    (h : line ∈ separation previous m) : line = .blank := by
  cases previous with
  | none => exact nomatch h
  | some before => cases before <;> cases m <;> simp_all [separation]

theorem statements_separation (previous : Option Member) (m : Member) :
    (separation previous m).flatMap Line.statements = [] := by
  refine List.flatMap_eq_nil_iff.mpr fun line hline => ?_
  rw [eq_blank_of_mem_separation hline]
  rfl

/-- Every line of members is blank or belongs to one of them. -/
theorem eq_blank_or_mem_lines {visibility : Visibility} {members : List Member} {line : Line} :
    ∀ {previous : Option Member}, line ∈ membersLines visibility previous members →
      line = .blank ∨ ∃ m ∈ members, line ∈ m.lines visibility := by
  induction members with
  | nil => exact fun h => nomatch h
  | cons m rest ih =>
      intro previous h
      rw [membersLines, List.mem_append, List.mem_append] at h
      rcases h with (h | h) | h
      · exact Or.inl (eq_blank_of_mem_separation h)
      · exact Or.inr ⟨m, List.mem_cons_self, h⟩
      · rcases ih h with hblank | ⟨other, hother, hline⟩
        · exact Or.inl hblank
        · exact Or.inr ⟨other, List.mem_cons_of_mem m hother, hline⟩

/-- Members say to the compiler what their declarations say. -/
theorem statements_membersLines (visibility : Visibility) (members : List Member) :
    ∀ previous : Option Member,
      (membersLines visibility previous members).flatMap Line.statements
        = (members.filterMap Member.declaration?).flatMap fun d =>
            codeOf (d.statement visibility).toList := by
  induction members with
  | nil => exact fun previous => rfl
  | cons m rest ih =>
      intro previous
      rw [membersLines, List.flatMap_append, List.flatMap_append, statements_separation, ih]
      cases m with
      | comment text => rfl
      | field d =>
          -- documentation adds a line, and the line says nothing
          have hdoc : ((Member.field d).lines visibility).flatMap Line.statements
              = codeOf (d.statement visibility).toList := by
            rw [Member.lines_field, List.flatMap_append]
            split <;> exact List.append_nil _
          rw [hdoc]
          rfl

namespace Program

/-- The structure says the same to the compiler when nothing is said to its
    reader. -/
theorem statements_structLines_bare (p : Program) (visibility : Visibility) :
    (p.bare.structLines visibility).flatMap Line.statements
      = (p.structLines visibility).flatMap Line.statements := by
  have hmembers : (membersLines visibility none p.bare.members).flatMap Line.statements
      = (membersLines visibility none p.members).flatMap Line.statements := by
    rw [statements_membersLines, statements_membersLines]
    show p.bare.declarations.flatMap _ = p.declarations.flatMap _
    rw [declarations_bare, List.flatMap_map]
    rfl
  rw [structLines, structLines, List.flatMap_append, List.flatMap_append, List.flatMap_append,
    List.flatMap_append, hmembers]
  rfl

/-- A header says nothing to the compiler. -/
theorem statements_headerLines (header : Option String) :
    (headerLines header).flatMap Line.statements = [] := by
  cases header with
  | none => rfl
  | some header =>
      rw [headerLines, List.flatMap_append, List.flatMap_map]
      exact List.append_eq_nil_iff.mpr ⟨List.flatMap_eq_nil_iff.mpr fun _ _ => rfl, rfl⟩

/-- Leaving out what a program says to its reader does not change what it says
    to the compiler. -/
theorem statements_lines_bare (p : Program) (options : Options) :
    (p.bare.lines { visibility := options.visibility }).flatMap Line.statements
      = (p.lines options).flatMap Line.statements := by
  simp only [lines, List.flatMap_append, statements_headerLines, implLines_bare, fromLines_bare,
    statements_structLines_bare]

end Program

/-! ## Remarks of programs -/

theorem oneLine_code (depth : Nat) (text : String) : (Line.code depth text).OneLine :=
  List.not_mem_nil

theorem oneLine_blank : Line.blank.OneLine :=
  List.not_mem_nil

/-- No line of a member runs on, if what is said about the member takes one
    line. -/
theorem oneLine_lines_member (visibility : Visibility) {m : Member} (h : m.OneLine) :
    ∀ line ∈ m.lines visibility, line.OneLine := by
  intro line hline
  cases m with
  | comment text =>
      obtain rfl := List.mem_singleton.mp hline
      exact h
  | field d =>
      rcases List.mem_append.mp hline with hline | hline
      · split at hline
        · exact nomatch hline
        · obtain rfl := List.mem_singleton.mp hline
          exact h
      · -- the declared range, in numerals
        obtain rfl := List.mem_singleton.mp hline
        have hdash : '\n' ∉ " - ".toList := by decide
        show '\n' ∉ (toString d.offset ++ " - " ++ toString d.declaredEnd).toList
        rw [String.toList_append, String.toList_append, List.mem_append, List.mem_append]
        have hnumeral := fun n => Text.not_mem_toString (by decide : '\n' ∉ Text.digitChars) n
        exact not_or.mpr ⟨not_or.mpr ⟨hnumeral d.offset, hdash⟩, hnumeral d.declaredEnd⟩

theorem oneLine_membersLines (visibility : Visibility) {members : List Member}
    (h : ∀ m ∈ members, m.OneLine) (previous : Option Member) :
    ∀ line ∈ membersLines visibility previous members, line.OneLine := by
  intro line hline
  rcases eq_blank_or_mem_lines hline with rfl | ⟨m, hm, hline⟩
  · exact oneLine_blank
  · exact oneLine_lines_member visibility (h m hm) line hline

/-- A header is cut into lines before it is printed. -/
theorem oneLine_headerLines (header : Option String) :
    ∀ line ∈ headerLines header, line.OneLine := by
  intro line hline
  cases header with
  | none => exact nomatch hline
  | some header =>
      rcases List.mem_append.mp hline with hline | hline
      · obtain ⟨text, htext, rfl⟩ := List.mem_map.mp hline
        show '\n' ∉ (String.ofList text).toList
        rw [String.toList_ofList]
        exact Text.newline_not_mem_lines htext
      · obtain rfl := List.mem_singleton.mp hline
        exact oneLine_blank

namespace Program

theorem oneLine_nativeLines (p : Program) : ∀ line ∈ p.nativeLines, line.OneLine := by
  rw [nativeLines]
  split
  · simp [oneLine_code]
  · simp [oneLine_code, or_imp, forall_and]

/-- Conversions have no remarks. -/
theorem oneLine_convertLines (p : Program) : ∀ line ∈ p.convertLines, line.OneLine := by
  have hassignment : ∀ a : Assignment, ∀ line ∈ a.lines, line.OneLine := by
    intro a
    cases a with
    | single ident value => simp [Assignment.lines, oneLine_code]
    | array ident items => simp [Assignment.lines, oneLine_code, or_imp, forall_and]
  rw [convertLines]
  split
  · simp [oneLine_code]
  · intro line hline
    rcases List.mem_append.mp hline with hline | hline
    · rcases List.mem_append.mp hline with hline | hline
      · obtain rfl := List.mem_singleton.mp hline
        exact oneLine_code _ _
      · obtain ⟨a, -, ha⟩ := List.mem_flatMap.mp hline
        exact hassignment a line ha
    · obtain rfl := List.mem_singleton.mp hline
      exact oneLine_code _ _

/-- No remark of a program runs on into another line, if none of its members'
    does. -/
theorem oneLine_lines {p : Program} (h : ∀ m ∈ p.members, m.OneLine) (options : Options) :
    ∀ line ∈ p.lines options, line.OneLine := by
  have hmembers := oneLine_membersLines options.visibility h none
  have hdoc : (Line.doc 1 "Reads every field at its packed position in native byte order.").OneLine := by
    show '\n' ∉ String.toList _
    decide
  have hheader := oneLine_headerLines options.header
  have hnative := p.oneLine_nativeLines
  have hconvert := p.oneLine_convertLines
  simp only [lines, structLines, implLines, fromLines, List.forall_mem_append,
    List.forall_mem_cons, oneLine_code, oneLine_blank, hdoc]
  simpa using ⟨⟨⟨hheader, hmembers⟩, hnative⟩, hconvert⟩

/-- Of the text of a program is left what its lines say to the compiler. -/
theorem codeOf_text {p : Program} (h : ∀ m ∈ p.members, m.OneLine) (options : Options) :
    codeOf (p.text options).toList = (p.lines options).flatMap Line.statements :=
  codeOf_textOf options.indent (oneLine_lines h options)

end Program

end Code

/-! ## Layouts -/

namespace Layout

open Table (Row)

/-- The entry without the line that declares it, and what that line says about
    it. -/
def Entry.bare (e : Entry) : Entry :=
  { e with line := 0, offset := 0, description := "" }

def Entry.signature (e : Entry) : Table.TypeRef × String × Int :=
  (.known e.kind, e.name, e.count)

/-- Where entries start follows from what they are. -/
theorem map_bare_of_backToBack {entries : List Entry} :
    ∀ {entries' : List Entry} {start : Nat}, BackToBack start entries →
      BackToBack start entries' →
      entries.map Entry.signature = entries'.map Entry.signature →
      entries.map Entry.bare = entries'.map Entry.bare := by
  induction entries with
  | nil =>
      intro entries' start _ _ h
      obtain rfl := List.map_eq_nil_iff.mp h.symm
      rfl
  | cons e rest ih =>
      intro entries' start hback hback' h
      obtain ⟨e', rest', rfl, he, hrest⟩ := List.map_eq_cons_iff.mp h.symm
      obtain ⟨hstart, hback⟩ := hback
      obtain ⟨hstart', hback'⟩ := hback'
      obtain ⟨line, offset, first, kind, name, count, description⟩ := e
      obtain ⟨line', offset', first', kind', name', count', description'⟩ := e'
      simp only [Entry.signature, Prod.mk.injEq, Table.TypeRef.known.injEq, Int.natCast_inj] at he
      simp only at hstart hstart'
      obtain ⟨rfl, rfl, rfl⟩ := he
      subst hstart hstart'
      rw [List.map_cons, List.map_cons, ih hback hback' hrest.symm]
      rfl

/-- The bytes of entries do not depend on what is said about them. -/
theorem bytesOfEntries_map_bare (entries : List Entry) :
    bytesOfEntries (entries.map Entry.bare) = bytesOfEntries entries := by
  induction entries with
  | nil => rfl
  | cons e rest ih =>
      rw [List.map_cons, bytesOfEntries_cons, bytesOfEntries_cons, ih]
      rfl

/-- A layout has the fields of its table, by type, name and count. -/
theorem signatures_of_ofRows {rows : List Row} {policy : OffsetPolicy} {layout : Layout}
    (h : ofRows rows policy = .ok layout) :
    layout.entries.map Entry.signature = Table.signatures rows := by
  have hrows : rows.filterMap Row.field? = (layout.items.map Item.row).filterMap Row.field? := by
    rw [(places_of_ofRows h).rows_eq, List.filterMap_filter]
    refine List.filterMap_congr fun row _ => ?_
    cases row <;> rfl
  rw [Table.signatures, hrows, List.filterMap_map, List.map_filterMap, entries,
    List.map_filterMap]
  refine List.filterMap_congr fun item _ => ?_
  cases item <;> rfl

end Layout

namespace Code

open Table (Row)

namespace Program

/-- Layouts of the same fields have the same program, up to what is said about
    it. -/
theorem bare_ofLayout_eq {rows rows' : List Row} {policy policy' : OffsetPolicy}
    {layout layout' : Layout} (h : Layout.ofRows rows policy = .ok layout)
    (h' : Layout.ofRows rows' policy' = .ok layout')
    (hfields : Table.signatures rows = Table.signatures rows') (name : String) :
    (ofLayout name layout).bare = (ofLayout name layout').bare := by
  have hentries : layout.entries.map Layout.Entry.bare = layout'.entries.map Layout.Entry.bare := by
    refine Layout.map_bare_of_backToBack (Layout.packed_of_ofRows h).contiguous
      (Layout.packed_of_ofRows h').contiguous ?_
    rw [Layout.signatures_of_ofRows h, Layout.signatures_of_ofRows h', hfields]
  have hwidth : layout.width = layout'.width := by
    rw [Layout.width, Layout.width, ← Layout.bytesOfEntries_map_bare, hentries,
      Layout.bytesOfEntries_map_bare]
  have hmembers : ∀ l : Layout, (ofLayout name l).bare.members
      = (l.entries.map Layout.Entry.bare).map fun e => .field (Declaration.ofEntry e).bare := by
    intro l
    show (ofLayout name l).declarations.map _ = _
    rw [declarations_ofLayout, List.map_map, List.map_map]
    rfl
  have hbare : ∀ l : Layout, (ofLayout name l).bare
      = { name, width := l.width, members := (ofLayout name l).bare.members } := fun _ => rfl
  rw [hbare layout, hbare layout', hmembers, hmembers, hentries, hwidth]

/-- What is said about members is from the table, and takes one line if it does
    so there. -/
theorem oneLine_ofLayout {rows : List Row} {policy : OffsetPolicy} {layout : Layout}
    (h : Layout.ofRows rows policy = .ok layout) (hrows : ∀ row ∈ rows, row.OneLine)
    (name : String) : ∀ m ∈ (ofLayout name layout).members, m.OneLine := by
  intro m hm
  obtain ⟨item, hitem, rfl⟩ := List.mem_map.mp hm
  have hline := hrows item.row (Layout.row_mem_of_ofRows h hitem)
  cases item <;> exact hline

end Program

end Code

/-- **DOCUMENTATION CHANGES NO CODE**: tables whose fields have the same types,
    names and counts are compiled to the same code, whatever they say apart
    from that, and whatever is chosen about offsets, indentation and header. -/
theorem code_depends_on_signatures {name source source' : String}
    {policy policy' : OffsetPolicy} {options options' : Code.Options} {text text' : String}
    {rows rows' : List Table.Row}
    (htext : compile name source policy options = .ok text)
    (htext' : compile name source' policy' options' = .ok text')
    (hvisibility : options.visibility = options'.visibility)
    (hrows : Table.read source = .ok rows) (hrows' : Table.read source' = .ok rows')
    (hfields : Table.signatures rows = Table.signatures rows') :
    Code.codeOf text.toList = Code.codeOf text'.toList := by
  obtain ⟨read, layout, hread, hlayout, rfl⟩ := compile_eq_ok_iff.mp htext
  obtain ⟨read', layout', hread', hlayout', rfl⟩ := compile_eq_ok_iff.mp htext'
  obtain rfl : read = rows := Except.ok.inj (hread.symm.trans hrows)
  obtain rfl : read' = rows' := Except.ok.inj (hread'.symm.trans hrows')
  have hone := Code.Program.oneLine_ofLayout hlayout (Table.oneLine_of_read hrows) name
  have hone' := Code.Program.oneLine_ofLayout hlayout' (Table.oneLine_of_read hrows') name
  rw [Code.Program.codeOf_text hone, Code.Program.codeOf_text hone',
    ← Code.Program.statements_lines_bare _ options,
    ← Code.Program.statements_lines_bare _ options',
    Code.Program.bare_ofLayout_eq hlayout hlayout' hfields, hvisibility]

/-- A field that is moved and commented on, by a table and a header whose texts
    look like code. -/
theorem code_depends_on_signatures_moved :
    Code.codeOf ((Code.Program.ofLayout "R" ⟨[.entry ⟨1, 0, 0, .u16, "a", 2, "a: u8,"⟩]⟩).text
        {}).toList
      = Code.codeOf ((Code.Program.ofLayout "R"
          ⟨[.comment 1 "// b: u8,", .entry ⟨2, 7, 0, .u16, "a", 2, ""⟩]⟩).text
            { indent := 4, header := some "one\r\nstruct R" }).toList :=
  have hread : Table.read "0\tu16\ta[2]\ta: u8,"
      = .ok [.field ⟨1, 0, .known .u16, "a", 2, "a: u8,"⟩] := by decide
  have hread' : Table.read "\t\t\t// b: u8,\r\n7\tu16\ta[2]"
      = .ok [.comment 1 "// b: u8,", .field ⟨2, 7, .known .u16, "a", 2, ""⟩] := by decide
  code_depends_on_signatures
    (compile_eq_ok_iff.mpr ⟨_, _, hread, (by decide : Layout.ofRows _ .strict = _), rfl⟩)
    (compile_eq_ok_iff.mpr ⟨_, _, hread', (by decide : Layout.ofRows _ .ignore = _), rfl⟩)
    rfl hread hread' (by decide)

end PackedRecord
