import PackedRecord.Proofs.Code.ReadBack

/-! # Functions of generated code — bodies read back

    The text of a program holds three functions that matter: the constructor
    in host order and the conversion from a block, once for hosts of either
    byte order.  None of them depends on the name of the structure or on what
    is chosen about its text.  The constructor is read as its fields with
    their expressions, a conversion as its assignments. -/

namespace PackedRecord.Code

namespace Program

/-- The constructor in host order. -/
def constructorLines (p : Program) : List Line :=
  .code 1 "fn from_native(block: &[u8; Self::WIDTH]) -> Self \x7b"
    :: (p.nativeLines ++ [.code 1 "\x7d"])

/-- What the body of a conversion consists of. -/
def conversionBody (p : Program) : ByteOrder → List Line
  | .little => [.code 2 "Self::from_native(block)"]
  | .big => p.convertLines

/-- The conversion from a block on hosts of one byte order. -/
def conversionLines (p : Program) (host : ByteOrder) : List Line :=
  .code 1 ("#[cfg(target_endian = \"" ++ orderName host ++ "\")]")
    :: .code 1 "fn from(block: &[u8; Self::WIDTH]) -> Self \x7b"
    :: (p.conversionBody host ++ [.code 1 "\x7d"])

/-- The assignments of a conversion. -/
def conversion (p : Program) : ByteOrder → List Assignment
  | .little => []
  | .big => p.assignments

/-- What is printed for a declaration reads back. -/
structure Readable (d : Declaration) : Prop where
  ident : IsIdent d.ident
  reading : d.reading.Printable
  assignment : ∀ a ∈ d.assignment?, a.Printable

/-! ## The constructor -/

/-- A field of the constructor, without the comma behind it. -/
def fieldTokens (d : Declaration) : List Token :=
  .word d.ident.toList :: .sign ':' :: tokens d.reading.text

/-- A field of the constructor is printed as its tokens and a comma. -/
theorem tokens_field {d : Declaration} (h : Readable d) :
    tokens (d.ident ++ ": " ++ d.reading.text ++ ",") = fieldTokens d ++ [.sign ','] := by
  rw [tokens_append_of_startsApart _ rfl, tokens_append_append _ _ (by decide) rfl rfl,
    tokens_of_isWord h.ident.isWord]
  rfl

theorem readInitialiser?_fieldTokens {d : Declaration} (h : Readable d) :
    readInitialiser? (fieldTokens d) = some (d.ident, d.reading) := by
  rw [fieldTokens, readInitialiser?, h.ident.ident?_toList, h.reading.read?_text]
  rfl

/-- No comma inside the expression of a field ends the field. -/
theorem whole_fieldTokens {d : Declaration} (h : Readable d) : Whole ',' (fieldTokens d) := by
  have hlabel : Whole ',' [.word d.ident.toList, .sign ':'] := fun _ => rfl
  exact whole_append hlabel h.reading.whole

/-- A function is its header, its body and a brace. -/
theorem tokens_function (indent : Nat) (header : String) (body : List Line) :
    tokens (textOf indent (.code 1 header :: (body ++ [.code 1 "\x7d"])))
      = tokens header ++ tokens (textOf indent body) ++ tokens "\x7d" := by
  rw [← List.singleton_append, tokens_textOf_append, tokens_textOf_append, tokens_textOf_code,
    tokens_textOf_code, List.append_assoc]

/-- The body of the constructor, if there are fields. -/
theorem tokens_nativeLines {p : Program} (h : ∀ d ∈ p.declarations, Readable d)
    (hne : p.declarations ≠ []) (indent : Nat) :
    tokens (textOf indent p.nativeLines)
      = tokens "Self \x7b" ++ (p.declarations.map fieldTokens).flatMap (· ++ [.sign ','])
        ++ tokens "\x7d" := by
  have hlines : p.nativeLines = [.code 2 "Self \x7b"]
      ++ p.declarations.map (fun d => .code 3 (d.ident ++ ": " ++ d.reading.text ++ ","))
      ++ [.code 2 "\x7d"] := by
    rw [nativeLines]
    split
    · next hnil => exact absurd hnil hne
    · rfl
  have hfields : p.declarations.flatMap
        (fun d => tokens (d.ident ++ ": " ++ d.reading.text ++ ","))
      = (p.declarations.map fieldTokens).flatMap (· ++ [.sign ',']) := by
    rw [List.flatMap_map]
    exact List.flatMap_congr fun d hd => tokens_field (h d hd)
  rw [hlines, tokens_textOf_append, tokens_textOf_append, tokens_textOf_code, tokens_textOf_map,
    tokens_textOf_code, hfields]

/-- The body of the constructor is read as its fields, also where there are
    none. -/
theorem readStructure?_nativeLines {p : Program} (h : ∀ d ∈ p.declarations, Readable d)
    (indent : Nat) :
    readStructure? (tokens (textOf indent p.nativeLines))
      = some (p.declarations.map fun d => (d.ident, d.reading)) := by
  -- without fields, the body says that it does not need the block
  by_cases hne : p.declarations = []
  · have hlines : p.nativeLines = [.code 2 "let _ = block;"] ++ [.code 2 "Self \x7b\x7d"] := by
      rw [nativeLines, hne]
      rfl
    rw [hlines, tokens_textOf_append, tokens_textOf_code, tokens_textOf_code, hne]
    rfl
  · have hwhole : ∀ piece ∈ p.declarations.map fieldTokens, Whole ',' piece :=
      List.forall_mem_map.mpr fun d hd => whole_fieldTokens (h d hd)
    have hread : (p.declarations.map fieldTokens).mapM readInitialiser?
        = some (p.declarations.map fun d => (d.ident, d.reading)) := by
      rw [List.mapM_map]
      exact Outcome.mapM_eq_pure fun d hd => readInitialiser?_fieldTokens (h d hd)
    have hblock : ∀ ts, (tokens "Self \x7b" ++ ts).dropPrefix? (tokens "let _ = block;") = none :=
      fun _ => rfl
    rw [tokens_nativeLines h hne, readStructure?, List.append_assoc, hblock, ← List.append_assoc]
    simp only [Option.getD_none, between?_eq_some, terminated?_eq_some hwhole,
      Option.bind_eq_bind, Option.bind_some, hread]

/-- **THE CONSTRUCTOR READS BACK**: every field, in order, with the expression
    that was printed for it. -/
theorem readConstructor?_text {p : Program} (h : ∀ d ∈ p.declarations, Readable d)
    (indent : Nat) :
    readConstructor? (textOf indent p.constructorLines)
      = some (p.declarations.map fun d => (d.ident, d.reading)) := by
  rw [readConstructor?, constructorLines, tokens_function, between?_eq_some]
  exact readStructure?_nativeLines h indent

/-! ## The conversion -/

theorem assignments_printable {p : Program} (h : ∀ d ∈ p.declarations, Readable d) :
    ∀ a ∈ p.assignments, a.Printable := by
  intro a ha
  obtain ⟨d, hd, ha⟩ := List.mem_filterMap.mp ha
  exact (h d hd).assignment a ha

/-- The body of the conversion on a big-endian host, if anything is converted. -/
theorem tokens_convertLines {p : Program} (hne : p.assignments ≠ []) (indent : Nat) :
    tokens (textOf indent p.convertLines)
      = tokens "let mut raw = Self::from_native(block);"
        ++ (p.assignments.map Assignment.statement).flatMap (· ++ [.sign ';'])
        ++ tokens "raw" := by
  have hlines : p.convertLines = [.code 2 "let mut raw = Self::from_native(block);"]
      ++ p.assignments.flatMap Assignment.lines ++ [.code 2 "raw"] := by
    rw [convertLines]
    split
    · next hnil => exact absurd hnil hne
    · rfl
  have hstatements : ∀ as : List Assignment, tokens (textOf indent (as.flatMap Assignment.lines))
      = (as.map Assignment.statement).flatMap (· ++ [.sign ';']) := by
    intro as
    induction as with
    | nil => rfl
    | cons a as ih =>
        rw [List.flatMap_cons, tokens_textOf_append, Assignment.tokens_textOf_lines, ih]
        rfl
  rw [hlines, tokens_textOf_append, tokens_textOf_append, tokens_textOf_code, hstatements,
    tokens_textOf_code]

/-- The body of the conversion on a big-endian host is read as its assignments,
    also where there are none. -/
theorem readAssignments?_convertLines {p : Program} (h : ∀ d ∈ p.declarations, Readable d)
    (indent : Nat) :
    readAssignments? (tokens (textOf indent p.convertLines)) = some p.assignments := by
  have hprintable := assignments_printable h
  by_cases hne : p.assignments = []
  · have hlines : p.convertLines = [.code 2 "Self::from_native(block)"] := by
      rw [convertLines, hne]
    rw [hlines, tokens_textOf_code, hne]
    decide
  · have hwhole : ∀ piece ∈ p.assignments.map Assignment.statement, Whole ';' piece :=
      List.forall_mem_map.mpr fun a ha => Assignment.whole_statement (hprintable a ha)
    have hread : (p.assignments.map Assignment.statement).mapM Assignment.read?
        = some p.assignments :=
      Outcome.mapM_map_eq_self fun a ha => Assignment.read?_statement (hprintable a ha)
    -- the two bodies differ in their first word
    have hplain : ∀ ts, tokens "let mut raw = Self::from_native(block);" ++ ts
        ≠ tokens "Self::from_native(block)" := by
      intro ts heq
      exact absurd (List.cons.inj heq).1 (by decide)
    rw [tokens_convertLines hne, readAssignments?, List.append_assoc, if_neg (hplain _),
      ← List.append_assoc, between?_eq_some]
    simp only [Option.bind_eq_bind, Option.bind_some, terminated?_eq_some hwhole, hread]

/-- **THE CONVERSIONS READ BACK**: on either host, the assignments that were
    printed for it. -/
theorem readConversion?_text {p : Program} (h : ∀ d ∈ p.declarations, Readable d)
    (host : ByteOrder) (indent : Nat) :
    readConversion? host (textOf indent (p.conversionLines host)) = some (p.conversion host) := by
  have hopening : tokens ("#[cfg(target_endian = \"" ++ orderName host ++ "\")]"
        ++ "fn from(block: &[u8; Self::WIDTH]) -> Self \x7b")
      = tokens ("#[cfg(target_endian = \"" ++ orderName host ++ "\")]")
        ++ tokens "fn from(block: &[u8; Self::WIDTH]) -> Self \x7b" :=
    tokens_append_of_endsApart (endsApart_append _ (by decide) rfl) _
  have hbody : readAssignments? (tokens (textOf indent (p.conversionBody host)))
      = some (p.conversion host) := by
    cases host with
    | little =>
        rw [conversionBody, tokens_textOf_code]
        exact if_pos rfl
    | big => exact readAssignments?_convertLines h indent
  rw [readConversion?, conversionLines, ← List.singleton_append, tokens_textOf_append,
    tokens_textOf_code, tokens_function, ← List.append_assoc, ← List.append_assoc, ← hopening,
    between?_eq_some]
  exact hbody

end Program

end PackedRecord.Code
