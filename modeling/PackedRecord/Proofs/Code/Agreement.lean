import PackedRecord.Layout.Packing
import PackedRecord.Proofs.Code.Conversions
import PackedRecord.Proofs.Code.Functions
import PackedRecord.Proofs.Code.Readings

/-! # Agreement — generated code computes what the codec decodes

    The codec reads a record entry by entry; generated code reads it by
    expressions and, on a big-endian host, assigns its numbers anew.  The two
    have nothing in common but the layout.  Here the text of a program is read
    back by the rules of its language, what was read is run on a host of
    either byte order, and the result is compared with the little-endian codec.
    They agree, field by field, and the code looks at no byte outside the
    record.  That a program runs the same without its text is
    `fromBlock?_ofLayout`. -/

namespace PackedRecord.Code

open Layout (Entry Packed)

/-! ## Programs as text -/

namespace Program

/-- Every entry is declared, in order, and nothing else is. -/
theorem declarations_ofLayout (name : String) (layout : Layout) :
    (ofLayout name layout).declarations = layout.entries.map .ofEntry := by
  show (layout.items.map Member.ofItem).filterMap Member.declaration?
    = (layout.items.filterMap Layout.Item.entry?).map Declaration.ofEntry
  rw [List.filterMap_map, List.map_filterMap]
  refine List.filterMap_congr fun item _ => ?_
  cases item <;> rfl

theorem assignments_ofLayout (name : String) (layout : Layout) :
    (ofLayout name layout).assignments = layout.entries.filterMap Assignment.ofEntry? := by
  rw [assignments, declarations_ofLayout, List.filterMap_map]
  rfl

/-- Whatever is generated for a layout that was built reads back. -/
theorem readable_ofLayout {layout : Layout} (h : Packed layout) (name : String) :
    ∀ d ∈ (ofLayout name layout).declarations, Readable d := by
  intro d hd
  rw [declarations_ofLayout] at hd
  obtain ⟨e, he, rfl⟩ := List.mem_map.mp hd
  have hident := isIdent_identOf (h.sound e he).name
  refine ⟨hident, Reading.printable_ofEntry e, ?_⟩
  -- an assignment names the field of its entry and no other
  intro a ha
  have ha : Assignment.ofEntry? e = some a := ha
  rw [Assignment.ofEntry?] at ha
  split at ha
  · split at ha <;> obtain rfl := Option.some.inj ha
    · refine ⟨hident, fun c hc => ?_⟩
      obtain ⟨i, -, rfl⟩ := List.mem_map.mp hc
      exact hident
    · exact ⟨hident, hident⟩
  · cases ha

/-- The lines of a program hold its functions, one after another. -/
theorem exists_lines_eq (p : Program) (options : Options) :
    ∃ before between after : List Line,
      p.lines options = before ++ p.constructorLines ++ between ++ p.conversionLines .little
        ++ [.blank] ++ p.conversionLines .big ++ after := by
  refine ⟨headerLines options.header ++ p.structLines options.visibility ++ [.blank]
      ++ (p.implLines options.visibility).take 4,
    [.code 0 "\x7d", .blank] ++ p.fromLines.take 1, [.code 0 "\x7d"], ?_⟩
  simp only [lines, implLines, fromLines, constructorLines, conversionLines, conversionBody,
    orderName, List.cons_append, List.nil_append, List.append_assoc, List.take_succ_cons,
    List.take_zero]
  rfl

/-- The text of a program holds the texts of its three functions, one after
    another. -/
theorem exists_text_eq (p : Program) (options : Options) :
    ∃ before between after : String,
      p.text options = before ++ textOf options.indent p.constructorLines ++ between
        ++ textOf options.indent (p.conversionLines .little) ++ "\n"
        ++ textOf options.indent (p.conversionLines .big) ++ after := by
  obtain ⟨before, between, after, hlines⟩ := p.exists_lines_eq options
  refine ⟨textOf options.indent before, textOf options.indent between,
    textOf options.indent after, ?_⟩
  show textOf options.indent (p.lines options) = _
  rw [hlines]
  simp only [textOf_append, textOf_singleton]
  rfl

end Program

/-! ## What a text computes -/

/-- What the functions of a program say: every field of the constructor with
    its expression, and the assignments of the conversion on either host. -/
structure Source where
  fields : List (String × Reading)
  conversion : ByteOrder → List Assignment

namespace Source

/-- The texts of the three functions, read. -/
def read? (constructor : String) (conversion : ByteOrder → String) : Option Source := do
  let fields ← readConstructor? constructor
  let little ← readConversion? .little (conversion .little)
  let big ← readConversion? .big (conversion .big)
  return ⟨fields, fun | .little => little | .big => big⟩

/-- How many elements the field of an identifier is declared with. -/
def countOf? (layout : Layout) (ident : String) : Option Nat :=
  (fieldsOf layout.entries (·.count)).lookup ident

def fieldOf? (layout : Layout) (host : ByteOrder) (block : Array UInt8)
    (field : String × Reading) : Option (String × Value) := do
  let count ← countOf? layout field.1
  return (field.1, ← field.2.eval? host block count {})

/-- The structure that the conversion makes of a block on a host. -/
def fromBlock? (source : Source) (layout : Layout) (host : ByteOrder) (block : Array UInt8) :
    Option Fields := do
  let raw ← source.fields.mapM (fieldOf? layout host block)
  (source.conversion host).foldlM (Assignment.run? host) raw

/-- The indices at which a field looks into the block. -/
def indicesOf? (layout : Layout) (field : String × Reading) : Option (List Nat) := do
  field.2.indices? (← countOf? layout field.1) {}

end Source

def sourceOf (layout : Layout) : Source where
  fields := fieldsOf layout.entries .ofEntry
  conversion
    | .little => []
    | .big => layout.entries.filterMap Assignment.ofEntry?

/-- **THE TEXT IS READ** as the source that the layout was printed from. -/
theorem read?_text {layout : Layout} (h : Packed layout) (name : String) (indent : Nat) :
    Source.read? (textOf indent (Program.ofLayout name layout).constructorLines)
        (fun host => textOf indent ((Program.ofLayout name layout).conversionLines host))
      = some (sourceOf layout) := by
  have hreadable := Program.readable_ofLayout h name
  simp only [Source.read?, Program.readConstructor?_text hreadable,
    Program.readConversion?_text hreadable, Option.bind_eq_bind, Option.bind_some,
    Program.declarations_ofLayout, Program.conversion, Program.assignments_ofLayout, List.map_map]
  rfl

theorem countOf?_eq {layout : Layout} (h : Packed layout) {e : Entry} (he : e ∈ layout.entries) :
    Source.countOf? layout (identOf e.name) = some e.count :=
  lookup_fieldsOf (distinct_of_packed h) (·.count) he

/-- A field looks at the bytes of its entry, in order. -/
theorem indicesOf?_sourceOf {layout : Layout} (h : Packed layout) {e : Entry}
    (he : e ∈ layout.entries) :
    Source.indicesOf? layout (identOf e.name, .ofEntry e)
      = some (List.range' e.start e.size) := by
  rw [Source.indicesOf?, countOf?_eq h he]
  exact Reading.indices?_ofEntry (h.sound e he).count_pos

/-- The constructor gives every field the value of its entry's bytes, in host
    order. -/
theorem fields_sourceOf {layout : Layout} (h : Packed layout) (host : ByteOrder)
    {block : Array UInt8} (hblock : layout.width ≤ block.size) :
    (sourceOf layout).fields.mapM (Source.fieldOf? layout host block)
      = some (fieldsOf layout.entries fun e =>
          e.valueOf host (slice block.toList e.start e.size)) := by
  have hfield : ∀ e ∈ layout.entries,
      Source.fieldOf? layout host block (identOf e.name, .ofEntry e)
        = pure (identOf e.name, e.valueOf host (slice block.toList e.start e.size)) := by
    intro e he
    have hinside : e.stop ≤ block.size := Nat.le_trans (h.stop_le he) hblock
    rw [Source.fieldOf?, countOf?_eq h he]
    show (do return (identOf e.name, ← (Reading.ofEntry e).eval? host block e.count {})) = _
    rw [Reading.eval?_ofEntry (h.sound e he).count_pos host hinside]
    rfl
  rw [sourceOf, fieldsOf, List.mapM_map]
  exact Outcome.mapM_eq_pure hfield

/-- On either host the source makes of a block what its bytes say with the
    least significant one first. -/
theorem fromBlock?_sourceOf {layout : Layout} (h : Packed layout) (host : ByteOrder)
    {block : Array UInt8} (hblock : layout.width ≤ block.size) :
    (sourceOf layout).fromBlock? layout host block
      = some (fieldsOf layout.entries fun e =>
          e.valueOf .little (slice block.toList e.start e.size)) := by
  rw [Source.fromBlock?, fields_sourceOf h host hblock]
  cases host with
  | little => rfl
  | big =>
      have hsound : ∀ e ∈ layout.entries,
          (slice block.toList e.start e.size).length = e.size ∧ 1 ≤ e.count := by
        intro e he
        have hinside : e.start + e.size ≤ block.toList.length :=
          Nat.le_trans (h.stop_le he) hblock
        exact ⟨length_slice hinside, (h.sound e he).count_pos⟩
      -- all entries pass, each with the bytes of its own slice
      have hrun := run_assignments (distinct_of_packed h) hsound
        (fun e => e.valueOf .big (slice block.toList e.start e.size)) (fun d hd => hd)
        (List.Nodup.of_map _ h.distinct) (fun d _ => rfl)
      -- no entry is left that did not pass
      have hall : fieldsOf layout.entries (fun e =>
            if e ∈ layout.entries then e.valueOf .little (slice block.toList e.start e.size)
            else e.valueOf .big (slice block.toList e.start e.size))
          = fieldsOf layout.entries fun e =>
              e.valueOf .little (slice block.toList e.start e.size) := by
        exact List.map_congr_left fun e he => congrArg (identOf e.name, ·) (if_pos he)
      rw [hall] at hrun
      exact hrun

/-! ## Programs and their texts -/

theorem elementCount_shape {e : Entry} (hcount : 1 ≤ e.count) :
    elementCount e.shape = e.count := by
  by_cases harray : 1 < e.count
  · rw [Entry.shape_of_isArray harray]
    rfl
  · rw [Entry.shape_of_not_isArray harray]
    show 1 = e.count
    omega

/-- The constructor of the program is the one that its text is read as. -/
theorem fromNative?_ofLayout {layout : Layout} (h : Packed layout) (name : String)
    (host : ByteOrder) (block : Array UInt8) :
    (Program.ofLayout name layout).fromNative? host block
      = (sourceOf layout).fields.mapM (Source.fieldOf? layout host block) := by
  rw [Program.fromNative?, Program.declarations_ofLayout, sourceOf, fieldsOf, List.mapM_map,
    List.mapM_map]
  refine Outcome.mapM_congr fun e he => ?_
  show (do
    let value ← (Reading.ofEntry e).eval? host block (elementCount e.shape) {}
    return (identOf e.name, value))
      = Source.fieldOf? layout host block (identOf e.name, .ofEntry e)
  rw [elementCount_shape (h.sound e he).count_pos, Source.fieldOf?, countOf?_eq h he]
  rfl

/-- **PROGRAMS MEAN WHAT THEIR TEXT MEANS**: running the program of a layout
    is running what its text reads as, on either host and on any block, even
    one that is too short. -/
theorem fromBlock?_ofLayout {layout : Layout} (h : Packed layout) (name : String) (indent : Nat)
    (host : ByteOrder) (block : Array UInt8) :
    ∃ source,
      Source.read? (textOf indent (Program.ofLayout name layout).constructorLines)
          (fun host => textOf indent ((Program.ofLayout name layout).conversionLines host))
        = some source
      ∧ (Program.ofLayout name layout).fromBlock? host block
        = source.fromBlock? layout host block := by
  refine ⟨sourceOf layout, read?_text h name indent, ?_⟩
  rw [Program.fromBlock?, fromNative?_ofLayout h, Source.fromBlock?]
  cases host with
  | little => cases (sourceOf layout).fields.mapM (Source.fieldOf? layout .little block) <;> rfl
  | big =>
      rw [Program.assignments_ofLayout]
      rfl

/-! ## The agreement -/

/-- The text of a program, read back and run, against the decoded fields of a
    block. -/
structure Constructs (name : String) (layout : Layout) (options : Options)
    (block : Array UInt8) (source : Source) (fields : List RecordField) : Prop where
  /-- The three functions stand in the text. -/
  text : ∃ before between after : String,
    (Program.ofLayout name layout).text options
      = before ++ textOf options.indent (Program.ofLayout name layout).constructorLines ++ between
        ++ textOf options.indent ((Program.ofLayout name layout).conversionLines .little) ++ "\n"
        ++ textOf options.indent ((Program.ofLayout name layout).conversionLines .big) ++ after
  read : Source.read? (textOf options.indent (Program.ofLayout name layout).constructorLines)
      (fun host =>
        textOf options.indent ((Program.ofLayout name layout).conversionLines host))
    = some source
  names : fields.map (·.name) = layout.entries.map (·.name)
  /-- On either host the source gives every field its decoded value. -/
  values : ∀ host, source.fromBlock? layout host block
    = some (fields.map fun f => (identOf f.name, f.value))
  /-- Every index, for every element, lies inside the record. -/
  inside : ∀ field ∈ source.fields, ∃ indices,
    Source.indicesOf? layout field = some indices ∧ ∀ k ∈ indices, k < layout.width

/-- **GENERATED CODE AGREES WITH THE CODEC**, for every layout that is built,
    every name, all options, every block of the record's width and either
    host. -/
theorem constructs_of_ofRows {rows : List Table.Row} {policy : OffsetPolicy} {layout : Layout}
    (h : Layout.ofRows rows policy = .ok layout) (name : String) (options : Options)
    {block : Array UInt8} (hblock : block.size = layout.width) :
    ∃ source fields, Codec.decode ⟨layout, .little⟩ block = .ok fields
      ∧ Constructs name layout options block source fields := by
  have hpacked := Layout.packed_of_ofRows h
  have hwidth : layout.width ≤ block.size := Nat.le_of_eq hblock.symm
  refine ⟨sourceOf layout, _, Codec.decode_eq hpacked .little hwidth, ?_⟩
  constructor
  · exact (Program.ofLayout name layout).exists_text_eq options
  · exact read?_text hpacked name options.indent
  · rw [List.map_map]
    rfl
  · intro host
    rw [fromBlock?_sourceOf hpacked host hwidth, List.map_map]
    rfl
  · intro field hfield
    obtain ⟨e, he, rfl⟩ := List.mem_map.mp hfield
    refine ⟨_, indicesOf?_sourceOf hpacked he, fun k hk => ?_⟩
    have hstop : e.start + e.size ≤ layout.width := hpacked.stop_le he
    have := (List.mem_range'_1.mp hk).2
    omega

/-- An escaped name, an array of numbers and an array of bytes. -/
theorem constructs_escaped :
    Layout.ofRows
        [.field ⟨1, 0, .known .u16, "type", 1, ""⟩, .comment 2 "body",
          .field ⟨3, 8, .known .u32, "pair", 2, ""⟩, .field ⟨4, 16, .known .u8, "tag", 2, ""⟩] .warn
      = .ok ⟨[.entry ⟨1, 0, 0, .u16, "type", 1, ""⟩, .comment 2 "body",
          .entry ⟨3, 8, 2, .u32, "pair", 2, ""⟩, .entry ⟨4, 16, 10, .u8, "tag", 2, ""⟩]⟩
      ∧ ∃ source fields,
          Codec.decode ⟨⟨[.entry ⟨1, 0, 0, .u16, "type", 1, ""⟩, .comment 2 "body",
              .entry ⟨3, 8, 2, .u32, "pair", 2, ""⟩, .entry ⟨4, 16, 10, .u8, "tag", 2, ""⟩]⟩, .little⟩
            #[1, 2, 3, 4, 5, 6, 7, 8, 9, 10, 11, 12] = .ok fields
          ∧ Constructs "Header"
            ⟨[.entry ⟨1, 0, 0, .u16, "type", 1, ""⟩, .comment 2 "body",
              .entry ⟨3, 8, 2, .u32, "pair", 2, ""⟩, .entry ⟨4, 16, 10, .u8, "tag", 2, ""⟩]⟩ {}
            #[1, 2, 3, 4, 5, 6, 7, 8, 9, 10, 11, 12] source fields :=
  have h := by decide
  ⟨h, constructs_of_ofRows h "Header" {} (by decide)⟩

end PackedRecord.Code
