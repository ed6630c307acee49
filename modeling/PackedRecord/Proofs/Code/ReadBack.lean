import PackedRecord.Proofs.Code.Reader
import PackedRecord.Proofs.Record.Fields

/-! # Reading back — printed code means what was printed

    Every text that is printed for an entry is read as the expression or the
    assignment that it was printed for.  The lemmas follow the grammar from
    the inside out: numerals, operands, products and sums, bytes of the
    block, expressions, conversions, statements, bodies.  Each says what the
    tokens of a text are, that `split` does not cut them, and what they read
    as. -/

namespace PackedRecord.Code

/-! ## Numerals and names -/

theorem isWordChar_of_isDigit {c : Char} (h : c.isDigit = true) : isWordChar c = true := by
  simp [isWordChar, Char.isAlphanum, h]

/-- A numeral is one word. -/
theorem tokens_toString (n : Nat) : tokens (toString n) = [.word (Nat.toDigits 10 n)] := by
  have hlist : (toString n).toList = Nat.toDigits 10 n := Nat.toList_repr
  have hne : toString n ≠ "" := by
    intro h
    rw [h] at hlist
    exact Nat.toDigits_ne_nil hlist.symm
  have hdigits : ∀ c ∈ (toString n).toList, isWordChar c = true := by
    intro c hc
    rw [hlist] at hc
    exact isWordChar_of_isDigit (Nat.isDigit_of_mem_toDigits (by decide) (by decide) hc)
  rw [tokens_of_isWord ⟨hne, hdigits⟩, hlist]

theorem all_isDigit_toDigits (n : Nat) : (Nat.toDigits 10 n).all Char.isDigit = true := by
  rw [List.all_eq_true]
  exact fun c hc => Nat.isDigit_of_mem_toDigits (by decide) (by decide) hc

/-- Decimal digits denote the number that they were printed for. -/
theorem numeral?_toDigits (n : Nat) : numeral? (Nat.toDigits 10 n) = some n := by
  rw [numeral?, if_pos ⟨Nat.toDigits_ne_nil, all_isDigit_toDigits n⟩,
    Nat.ofDigitChars_ten_toDigits]

theorem tokens_name (kind : Scalar.Kind) : tokens kind.name = [.word kind.name.toList] := by
  cases kind <;> rfl

theorem kindNamed?_name (kind : Scalar.Kind) : kindNamed? kind.name.toList = some kind := by
  cases kind <;> rfl

/-! ## Identifiers -/

/-- The text is an identifier of the language. -/
def IsIdent (ident : String) : Prop :=
  isIdent ident.toList = true

/-- A name consists of the characters of words. -/
theorem isWordChar_of_isPlainName {w : List Char} (h : isPlainName w = true) :
    w ≠ [] ∧ ∀ c ∈ w, isWordChar c = true := by
  cases w with
  | nil => exact nomatch h
  | cons c rest =>
      simp only [isPlainName, Bool.and_eq_true, Bool.or_eq_true, List.all_eq_true] at h
      obtain ⟨hfirst, hrest⟩ := h
      refine ⟨List.cons_ne_nil c rest, List.forall_mem_cons.mpr ⟨?_, fun d hd => ?_⟩⟩
      · rcases hfirst with hletter | hmark <;> simp [isWordChar, Char.isAlphanum, *]
      · rcases hrest d hd with hletter | hmark <;> simp [isWordChar, *]

/-- The mark of an identifier belongs to the same word as its name. -/
theorem IsIdent.isWord {ident : String} (h : IsIdent ident) : IsWord ident := by
  suffices hword : ident.toList ≠ [] ∧ ∀ c ∈ ident.toList, isWordChar c = true from
    ⟨fun hnil => hword.1 (String.toList_eq_nil_iff.mpr hnil), hword.2⟩
  rw [IsIdent, isIdent.eq_def] at h
  split at h
  · next w hw =>
      obtain ⟨-, hrest⟩ := isWordChar_of_isPlainName (Bool.and_elim_left h)
      rw [hw]
      exact ⟨List.cons_ne_nil _ _, List.forall_mem_cons.mpr ⟨rfl,
        List.forall_mem_cons.mpr ⟨rfl, hrest⟩⟩⟩
  · exact isWordChar_of_isPlainName (Bool.and_elim_left h)

/-- An identifier is read as it is written. -/
theorem IsIdent.ident?_toList {ident : String} (h : IsIdent ident) :
    ident? ident.toList = some ident := by
  rw [IsIdent] at h
  rw [ident?, if_pos h, String.ofList_toList]

/-! ## Enclosed tokens -/

/-- What was put between an opening and a closing text is found there. -/
theorem between?_eq_some (opening closing : String) (ts : List Token) :
    between? opening closing (tokens opening ++ ts ++ tokens closing) = some ts := by
  rw [between?, List.append_assoc, List.dropPrefix?_append_of_beq _ (beq_self_eq_true _)]
  exact List.dropSuffix?_eq_some_iff.mpr ⟨tokens closing, rfl, beq_self_eq_true _⟩

/-- Tokens that start otherwise are not enclosed. -/
theorem between?_eq_none {opening : String} (closing : String) {t u : Token} {us : List Token}
    (hopening : tokens opening = u :: us) (h : t ≠ u) (ts : List Token) :
    between? opening closing (t :: ts) = none := by
  rw [between?, hopening, List.dropPrefix?, beq_eq_false_iff_ne.mpr h]
  rfl

/-- Pieces without a cut are found again before their separators. -/
theorem terminated?_eq_some {separator : Char} {pieces : List (List Token)}
    (h : ∀ piece ∈ pieces, Whole separator piece) :
    terminated? separator (pieces.flatMap (· ++ [.sign separator])) = some pieces := by
  rw [terminated?, split_terminated h]
  simp

/-! ## Indices -/

namespace Index

/-- Names and numbers. -/
inductive Operand : Index → Prop
  | literal (n : Nat) : Operand (.literal n)
  | element : Operand .element
  | start : Operand .start

/-- Operands, and products of two. -/
inductive Product : Index → Prop
  | operand {a : Index} (h : Operand a) : Product a
  | mul {a b : Index} (ha : Operand a) (hb : Operand b) : Product (.mul a b)

/-- Products, and sums of two: what is printed without brackets. -/
inductive Sum : Index → Prop
  | product {a : Index} (h : Product a) : Sum a
  | add {a b : Index} (ha : Product a) (hb : Product b) : Sum (.add a b)

/-- A sum is its operands with a plus sign between them. -/
theorem tokens_add (a b : Index) :
    tokens (add a b).text = tokens a.text ++ .sign '+' :: tokens b.text := by
  show tokens (a.text ++ " + " ++ b.text) = _
  rw [tokens_append_append _ _ (by decide) rfl rfl, List.append_assoc]
  rfl

theorem tokens_mul (a b : Index) :
    tokens (mul a b).text = tokens a.text ++ .sign '*' :: tokens b.text := by
  show tokens (a.text ++ " * " ++ b.text) = _
  rw [tokens_append_append _ _ (by decide) rfl rfl, List.append_assoc]
  rfl

/-- An operand is one word, and it reads back. -/
theorem Operand.exists_word {a : Index} (h : Operand a) :
    ∃ w, tokens a.text = [.word w] ∧ readOperand? [.word w] = some a := by
  cases h with
  | literal n =>
      refine ⟨Nat.toDigits 10 n, tokens_toString n, ?_⟩
      have hdigits := all_isDigit_toDigits n
      -- a numeral is neither of the two names, since it has only digits
      rw [readOperand?, if_neg ?_, if_neg ?_, numeral?_toDigits]
      · rfl
      · intro hat
        rw [hat] at hdigits
        exact absurd hdigits (by decide)
      · intro hi
        rw [hi] at hdigits
        exact absurd hdigits (by decide)
  | element => exact ⟨['i'], rfl, rfl⟩
  | start => exact ⟨['a', 't'], rfl, rfl⟩

/-- An operand is one word, so that nothing separates anything in it. -/
theorem Operand.whole {a : Index} (h : Operand a) (separator : Char) :
    Whole separator (tokens a.text) := by
  obtain ⟨w, hw, -⟩ := h.exists_word
  rw [hw]
  exact whole_word separator w

theorem Operand.readOperand?_text {a : Index} (h : Operand a) :
    readOperand? (tokens a.text) = some a := by
  obtain ⟨w, hw, hread⟩ := h.exists_word
  rw [hw]
  exact hread

/-- A sign that is no bracket cuts at itself only. -/
theorem whole_sign {separator c : Char} (hsep : c ≠ separator)
    (hdepth : ∀ depth, (Token.sign c).depthAfter depth = depth) :
    Whole separator [.sign c] := by
  intro depth
  rw [through?, if_neg (fun h => hsep (Token.sign.inj h.1)), hdepth]
  rfl

/-- Nothing in a product separates anything but its factors. -/
theorem Product.whole {a : Index} (h : Product a) {separator : Char} (hsep : '*' ≠ separator) :
    Whole separator (tokens a.text) := by
  cases h with
  | operand h => exact h.whole separator
  | mul ha hb =>
      rw [tokens_mul]
      exact whole_append (ha.whole separator)
        (whole_append (whole_sign hsep fun _ => rfl) (hb.whole separator))

/-- A product is read as it was printed. -/
theorem Product.readProduct?_text {a : Index} (h : Product a) :
    readProduct? (tokens a.text) = some a := by
  cases h with
  | operand h =>
      rw [readProduct?, split_of_whole (h.whole '*'), List.mapM_cons, h.readOperand?_text]
      rfl
  | mul ha hb =>
      rw [readProduct?, tokens_mul, split_append_separator (ha.whole '*'),
        split_of_whole (hb.whole '*'), List.mapM_cons, ha.readOperand?_text, List.mapM_cons,
        hb.readOperand?_text]
      rfl

/-- Nothing in a sum separates anything but its operands. -/
theorem Sum.whole {a : Index} (h : Sum a) {separator : Char} (hmul : '*' ≠ separator)
    (hadd : '+' ≠ separator) : Whole separator (tokens a.text) := by
  cases h with
  | product h => exact h.whole hmul
  | add ha hb =>
      rw [tokens_add]
      exact whole_append (ha.whole hmul)
        (whole_append (whole_sign hadd fun _ => rfl) (hb.whole hmul))

/-- Sums of products are read as they were printed. -/
theorem Sum.read?_text {a : Index} (h : Sum a) : read? (tokens a.text) = some a := by
  have hmul : '*' ≠ '+' := by decide
  cases h with
  | product h =>
      rw [read?, split_of_whole (h.whole hmul), List.mapM_cons, h.readProduct?_text]
      rfl
  | add ha hb =>
      rw [read?, tokens_add, split_append_separator (ha.whole hmul),
        split_of_whole (hb.whole hmul), List.mapM_cons, ha.readProduct?_text, List.mapM_cons,
        hb.readProduct?_text]
      rfl

/-- The start of an element is a sum at most, whichever parts of it are left
    out. -/
theorem sum_ofElement (base width : Nat) : Sum (ofElement base width) := by
  have hstride : Product (if width = 1 then element else mul element (literal width)) := by
    split
    · exact .operand .element
    · exact .mul .element (.literal width)
  rw [ofElement]
  split
  · exact .product hstride
  · exact .add (.operand (.literal base)) hstride

/-- The index of a byte inside an element is a sum at most. -/
theorem sum_ofByte (k : Nat) : Sum (ofByte k) := by
  rw [ofByte]
  split
  · exact .product (.operand .start)
  · exact .add (.operand .start) (.operand (.literal k))

theorem tokens_blockText (a : Index) :
    tokens a.blockText = tokens "block[" ++ tokens a.text ++ tokens "]" := by
  rw [blockText, tokens_append_of_startsApart _ rfl, tokens_append_of_endsApart rfl]

theorem Sum.readBlock?_blockText {a : Index} (h : Sum a) :
    readBlock? (tokens a.blockText) = some a := by
  rw [readBlock?, tokens_blockText, between?_eq_some]
  exact h.read?_text

end Index

/-! ## Expressions -/

/-- What separates the items of a list, or statements. -/
def IsSeparator (c : Char) : Prop :=
  c = ',' ∨ c = ';'

theorem Index.Sum.whole_text {a : Index} (h : a.Sum) {separator : Char}
    (hsep : IsSeparator separator) : Whole separator (tokens a.text) := by
  rcases hsep with rfl | rfl <;> exact h.whole (by decide) (by decide)

/-- No item of a list ends inside a byte of the block. -/
theorem Index.Sum.whole_blockText {a : Index} (h : a.Sum) {separator : Char}
    (hsep : IsSeparator separator) : Whole separator (tokens a.blockText) := by
  have hinner := (h.whole_text hsep).inner
  rw [tokens_blockText]
  rcases hsep with rfl | rfl <;> exact whole_enclosed 0 (fun _ => rfl) hinner fun _ => rfl

/-- The tokens of texts with a comma between them. -/
theorem tokens_intercalate {texts : List String} :
    tokens (", ".intercalate texts) = [.sign ','].intercalate (texts.map tokens) := by
  induction texts with
  | nil => rfl
  | cons text rest ih =>
      cases rest with
      | nil =>
          rw [String.intercalate_singleton, List.map_cons, List.map_nil,
            List.intercalate_singleton]
      | cons next rest =>
          rw [String.intercalate_cons_cons, tokens_append_append text _ (by decide) rfl rfl, ih,
            List.map_cons, List.map_cons, List.map_cons, List.intercalate_cons_cons]
          rfl

namespace Reading

/-- A byte, or a number from bytes, whose indices read back. -/
inductive Plain : Reading → Prop
  | byte {a : Index} (h : a.Sum) : Plain (.byte a)
  | word {kind : Scalar.Kind} {indices : List Index} (hne : indices ≠ [])
      (h : ∀ a ∈ indices, a.Sum) : Plain (.word kind indices)

/-- The same, perhaps with a name for the index at which it starts. -/
inductive Element : Reading → Prop
  | plain {r : Reading} (h : Plain r) : Element r
  | startingAt {a : Index} {r : Reading} (ha : a.Sum) (hr : Plain r) : Element (.startingAt a r)

/-- The same, perhaps for every element of an array. -/
inductive Printable : Reading → Prop
  | element {r : Reading} (h : Element r) : Printable r
  | forEach {r : Reading} (h : Element r) : Printable (.forEach r)

/-- A number from bytes: its kind, the call, and the bytes with commas between
    them. -/
theorem tokens_word (kind : Scalar.Kind) (indices : List Index) :
    tokens (word kind indices).text
      = .word kind.name.toList :: (tokens "::from_ne_bytes(["
          ++ [.sign ','].intercalate (indices.map fun a => tokens a.blockText)
          ++ tokens "])") := by
  show tokens (kind.name ++ "::from_ne_bytes([" ++ ", ".intercalate (indices.map Index.blockText)
    ++ "])") = _
  rw [tokens_append_of_startsApart _ rfl, tokens_append_append _ _ (by decide) rfl rfl,
    tokens_name, tokens_intercalate, List.map_map, List.append_assoc, List.append_assoc,
    List.singleton_append, List.append_assoc]
  rfl

/-- Nothing is cut between the brackets around the bytes of a number. -/
theorem inner_indices {indices : List Index} (h : ∀ a ∈ indices, a.Sum) {separator : Char}
    (hsep : IsSeparator separator) :
    Inner separator ([.sign ','].intercalate (indices.map fun a => tokens a.blockText)) := by
  have hcomma : Inner separator [.sign ','] := by
    rcases hsep with rfl | rfl <;> exact fun _ => rfl
  refine inner_intercalate hcomma (List.forall_mem_map.mpr fun a ha => ?_)
  exact ((h a ha).whole_blockText hsep).inner

/-- The commas between bytes are inside brackets, so that nothing outside sees
    them. -/
theorem Plain.whole {r : Reading} (h : Plain r) {separator : Char}
    (hsep : IsSeparator separator) : Whole separator (tokens r.text) := by
  cases h with
  | byte h => exact h.whole_blockText hsep
  | @word kind indices _ h =>
      have hinner := inner_indices h hsep
      rw [tokens_word, ← List.singleton_append]
      refine whole_append (whole_word separator _) ?_
      rcases hsep with rfl | rfl <;> exact whole_enclosed 1 (fun _ => rfl) hinner fun _ => rfl

/-- A byte or a number is read as it was printed. -/
theorem Plain.readPlain?_text {r : Reading} (h : Plain r) :
    readPlain? (tokens r.text) = some r := by
  cases h with
  | @byte a h =>
      have hblock : Index.readBlock? (tokens (Reading.byte a).text) = some a :=
        h.readBlock?_blockText
      rw [readPlain?, hblock]
  | @word kind indices hne h =>
      -- no kind is called `block`
      have hblock : Index.readBlock? (tokens (Reading.word kind indices).text) = none := by
        rw [tokens_word, Index.readBlock?, between?_eq_none "]" rfl]
        · rfl
        · cases kind <;> decide
      have hpieces : indices.map (fun a => tokens a.blockText) ≠ [] := by
        rw [Ne, List.map_eq_nil_iff]
        exact hne
      have hwhole : ∀ piece ∈ indices.map (fun a => tokens a.blockText), Whole ',' piece :=
        List.forall_mem_map.mpr fun a ha => (h a ha).whole_blockText (Or.inl rfl)
      have hread : (indices.map fun a => tokens a.blockText).mapM Index.readBlock?
          = some indices :=
        Outcome.mapM_map_eq_self fun a ha => (h a ha).readBlock?_blockText
      rw [readPlain?, hblock, tokens_word]
      simp only [readWord?, kindNamed?_name, between?_eq_some, Option.bind_eq_bind,
        Option.bind_some, split_intercalate hpieces hwhole, hread]
      rfl

/-- An expression behind `let` is an index and a body, with a semicolon between
    them. -/
theorem tokens_startingAt (a : Index) (r : Reading) :
    tokens (startingAt a r).text
      = tokens "\x7b let at = " ++ (tokens a.text ++ .sign ';' :: tokens r.text) ++ tokens " \x7d" := by
  show tokens ("\x7b let at = " ++ a.text ++ "; " ++ r.text ++ " \x7d") = _
  have hsemicolon : tokens "; " = [.sign ';'] := rfl
  rw [tokens_append_of_startsApart _ rfl, tokens_append_append _ _ (by decide) rfl rfl,
    tokens_append_of_endsApart rfl, hsemicolon, List.append_assoc (tokens _),
    List.append_assoc (tokens _), List.append_assoc (tokens a.text), List.singleton_append]

/-- The semicolon behind `let` stands between braces and ends no statement
    outside. -/
theorem Element.whole {r : Reading} (h : Element r) : Whole ',' (tokens r.text) := by
  cases h with
  | plain h => exact h.whole (Or.inl rfl)
  | @startingAt a r ha hr =>
      have hinner : Whole ',' (tokens a.text ++ .sign ';' :: tokens r.text) :=
        whole_append (ha.whole_text (Or.inl rfl))
          (whole_append (Index.whole_sign (by decide) fun _ => rfl) (hr.whole (Or.inl rfl)))
      rw [tokens_startingAt]
      exact whole_enclosed 0 (fun _ => rfl) hinner.inner fun _ => rfl

/-- An expression for a byte or a number starts with a word, and not with the
    one that a library path starts with. -/
theorem Plain.exists_head {r : Reading} (h : Plain r) :
    ∃ w ts, tokens r.text = .word w :: ts ∧ w ≠ "core".toList := by
  cases h with
  | @byte a h =>
      refine ⟨"block".toList, .sign '[' :: (tokens a.text ++ tokens "]"), ?_, by decide⟩
      exact Index.tokens_blockText a
  | @word kind indices hne h =>
      exact ⟨kind.name.toList, _, tokens_word kind indices, by cases kind <;> decide⟩

/-- The expression for an element is read as it was printed, with the name for
    its start if it has one. -/
theorem Element.readElement?_text {r : Reading} (h : Element r) :
    readElement? (tokens r.text) = some r := by
  cases h with
  | plain h =>
      obtain ⟨w, ts, hts, -⟩ := h.exists_head
      -- a word is no brace, so that no index gets a name
      have hbrace : Token.word w ≠ .sign '\x7b' := fun h => nomatch h
      have hlet : between? "\x7b let at = " " \x7d" (tokens r.text) = none := by
        rw [hts]
        exact between?_eq_none " \x7d" rfl hbrace ts
      simp only [readElement?, hlet]
      exact h.readPlain?_text
  | @startingAt a r ha hr =>
      have hpieces : split ';' 0 (tokens a.text ++ .sign ';' :: tokens r.text)
          = [tokens a.text, tokens r.text] := by
        rw [split_append_separator (ha.whole_text (Or.inr rfl)),
          split_of_whole (hr.whole (Or.inr rfl))]
      simp only [readElement?, tokens_startingAt, between?_eq_some, hpieces, ha.read?_text,
        hr.readPlain?_text]
      rfl

/-- No expression for an element starts like the one for an array. -/
theorem Element.exists_head {r : Reading} (h : Element r) :
    ∃ t ts, tokens r.text = t :: ts ∧ t ≠ .word "core".toList := by
  cases h with
  | plain h =>
      obtain ⟨w, ts, hts, hw⟩ := h.exists_head
      exact ⟨.word w, ts, hts, fun h => hw (Token.word.inj h)⟩
  | @startingAt a r ha hr =>
      exact ⟨.sign '\x7b', _, tokens_startingAt a r, fun h => nomatch h⟩

theorem tokens_forEach (r : Reading) :
    tokens (forEach r).text = tokens "core::array::from_fn(|i| " ++ tokens r.text ++ tokens ")" := by
  show tokens ("core::array::from_fn(|i| " ++ r.text ++ ")") = _
  rw [tokens_append_of_startsApart _ rfl, tokens_append_of_endsApart rfl]

/-- Items of a structure are not cut inside their expressions. -/
theorem Printable.whole {r : Reading} (h : Printable r) : Whole ',' (tokens r.text) := by
  cases h with
  | element h => exact h.whole
  | @forEach r h =>
      rw [tokens_forEach]
      exact whole_enclosed 0 (fun _ => rfl) h.whole.inner fun _ => rfl

/-- **EXPRESSIONS READ BACK**: what is printed for a field is read as the
    expression that it was printed for. -/
theorem Printable.read?_text {r : Reading} (h : Printable r) :
    read? (tokens r.text) = some r := by
  cases h with
  | element h =>
      -- only an array starts with `core`
      obtain ⟨t, ts, hts, ht⟩ := h.exists_head
      have harray : between? "core::array::from_fn(|i| " ")" (tokens r.text) = none := by
        rw [hts]
        exact between?_eq_none ")" rfl ht ts
      simp only [read?, harray]
      exact h.readElement?_text
  | @forEach r h =>
      simp only [read?, tokens_forEach, between?_eq_some, h.readElement?_text]
      rfl

/-- Every entry gets an expression of this form. -/
theorem printable_ofEntry (e : Layout.Entry) : Printable (ofEntry e) := by
  have hwidth := e.kind.byteWidth_pos
  rw [ofEntry]
  by_cases harray : 1 < e.count
  · rw [Layout.Entry.shape_of_isArray harray]
    show Printable (if e.kind.byteWidth = 1 then _ else _)
    split
    · exact .forEach (.plain (.byte (Index.sum_ofElement _ _)))
    · refine .forEach (.startingAt (Index.sum_ofElement _ _) (.word ?_ ?_))
      · rw [Ne, List.map_eq_nil_iff, List.range_eq_nil]
        omega
      · intro a ha
        obtain ⟨k, -, rfl⟩ := List.mem_map.mp ha
        exact Index.sum_ofByte k
  · rw [Layout.Entry.shape_of_not_isArray harray]
    show Printable (if e.kind.byteWidth = 1 then _ else _)
    split
    · exact .element (.plain (.byte (.product (.operand (.literal e.start)))))
    · refine .element (.plain (.word ?_ ?_))
      · rw [Ne, List.map_eq_nil_iff, List.range'_eq_nil_iff]
        omega
      · intro a ha
        obtain ⟨k, -, rfl⟩ := List.mem_map.mp ha
        exact .product (.operand (.literal k))

end Reading

/-! ## Conversions -/

/-- The field that a place belongs to. -/
def Place.ident : Place → String
  | field ident => ident
  | element ident _ => ident

/-- A field of `raw` is three tokens. -/
theorem Place.tokens_field {ident : String} (h : IsWord ident) :
    tokens (field ident).text = [.word "raw".toList, .sign '.', .word ident.toList] := by
  show tokens ("raw." ++ ident) = _
  rw [tokens_append_of_endsApart rfl, tokens_of_isWord h]
  rfl

theorem Place.tokens_element {ident : String} (h : IsWord ident) (index : Nat) :
    tokens (element ident index).text
      = [.word "raw".toList, .sign '.', .word ident.toList, .sign '[',
          .word (Nat.toDigits 10 index), .sign ']'] := by
  show tokens ("raw." ++ ident ++ "[" ++ toString index ++ "]") = _
  rw [tokens_append_of_startsApart _ rfl, tokens_append_append _ _ (by decide) rfl rfl,
    tokens_append_of_endsApart rfl, tokens_of_isWord h, tokens_toString]
  rfl

/-- A place is read as it was printed, if its name is an identifier. -/
theorem Place.read?_text {place : Place} (h : IsIdent place.ident) :
    read? (tokens place.text) = some place := by
  cases place with
  | field ident =>
      have hident : IsIdent ident := h
      rw [tokens_field hident.isWord, read?, if_pos rfl, hident.ident?_toList]
      rfl
  | element ident index =>
      have hident : IsIdent ident := h
      rw [tokens_element hident.isWord, read?, if_pos rfl, hident.ident?_toList, numeral?_toDigits]
      rfl

/-- A word of the language is a name only behind the mark, and some are not
    even there. -/
example : Place.read? (tokens "raw.type") = none
    ∧ Place.read? (tokens "raw.r#type") = some (.field "r#type")
    ∧ Place.read? (tokens "raw.r#self") = none := by decide

theorem Place.whole {place : Place} (h : IsWord place.ident) {separator : Char}
    (hsep : IsSeparator separator) : Whole separator (tokens place.text) := by
  cases place with
  | field ident =>
      have hident : IsWord ident := h
      rw [tokens_field hident]
      rcases hsep with rfl | rfl <;> exact fun _ => rfl
  | element ident index =>
      have hident : IsWord ident := h
      rw [tokens_element hident]
      rcases hsep with rfl | rfl <;> exact fun _ => rfl

namespace Conversion

theorem tokens_text (c : Conversion) :
    tokens c.text
      = .word c.kind.name.toList
        :: (tokens "::from_le(" ++ tokens c.place.text ++ tokens ")") := by
  show tokens (c.kind.name ++ "::from_le(" ++ c.place.text ++ ")") = _
  rw [tokens_append_of_startsApart _ rfl, tokens_append_append _ _ (by decide) rfl rfl,
    tokens_name]
  rfl

/-- A conversion is read as it was printed. -/
theorem read?_text {c : Conversion} (h : IsIdent c.place.ident) :
    read? (tokens c.text) = some c := by
  rw [tokens_text]
  simp only [read?, kindNamed?_name, between?_eq_some, Option.bind_eq_bind, Option.bind_some,
    Place.read?_text h]
  rfl

/-- The place of a conversion stands between brackets, so that it is not cut
    either. -/
theorem whole {c : Conversion} (h : IsWord c.place.ident) {separator : Char}
    (hsep : IsSeparator separator) : Whole separator (tokens c.text) := by
  have hplace := (Place.whole h hsep).inner
  rw [tokens_text, ← List.singleton_append]
  refine whole_append (whole_word separator _) ?_
  rcases hsep with rfl | rfl <;> exact whole_enclosed 0 (fun _ => rfl) hplace fun _ => rfl

end Conversion

namespace Assignment

/-- An assignment whose names are identifiers. -/
def Printable : Assignment → Prop
  | single ident c => IsIdent ident ∧ IsIdent c.place.ident
  | array ident items => IsIdent ident ∧ ∀ c ∈ items, IsIdent c.place.ident

/-- The assignment without the semicolon that ends it. -/
def statement : Assignment → List Token
  | single ident c => tokens ("raw." ++ ident ++ " = ") ++ tokens c.text
  | array ident items =>
      tokens ("raw." ++ ident ++ " = ")
        ++ (tokens "[" ++ (items.map fun c => tokens c.text).flatMap (· ++ [.sign ','])
          ++ tokens "]")

theorem tokens_target {ident : String} (h : IsWord ident) :
    tokens ("raw." ++ ident ++ " = ")
      = [.word "raw".toList, .sign '.', .word ident.toList, .sign '='] := by
  rw [tokens_append_of_startsApart _ rfl, tokens_append_of_endsApart rfl, tokens_of_isWord h]
  rfl

/-- The lines of an assignment are its statement. -/
theorem tokens_textOf_lines (indent : Nat) (a : Assignment) :
    tokens (textOf indent a.lines) = a.statement ++ [.sign ';'] := by
  cases a with
  | single ident c =>
      rw [lines, tokens_textOf_code, tokens_append_of_startsApart _ rfl,
        tokens_append_append _ _ (by decide) rfl rfl, statement,
        tokens_append_of_startsApart ("raw." ++ ident) rfl]
      rfl
  | array ident items =>
      have hitems : items.flatMap (fun c => tokens (c.text ++ ","))
          = (items.map fun c => tokens c.text).flatMap (· ++ [.sign ',']) := by
        rw [List.flatMap_map]
        exact congrArg (items.flatMap ·) (funext fun c => tokens_append_of_startsApart c.text rfl)
      have hassign : tokens " = " = [.sign '='] := rfl
      have hopens : tokens "[" = [.sign '['] := rfl
      have hcloses : tokens "]" = [.sign ']'] := rfl
      have hfirst : tokens " = [" = [.sign '=', .sign '['] := rfl
      have hlast : tokens "];" = [.sign ']', .sign ';'] := rfl
      rw [lines, tokens_textOf_append, tokens_textOf_append, tokens_textOf_code,
        tokens_textOf_map, tokens_textOf_code, hitems, tokens_append_of_startsApart _ rfl,
        hfirst, hlast, statement, tokens_append_of_startsApart ("raw." ++ ident) rfl, hassign,
        hopens, hcloses]
      simp only [List.append_assoc, List.cons_append, List.nil_append]

/-- An assignment is read as it was printed, to a field or to an array. -/
theorem read?_statement {a : Assignment} (h : a.Printable) : read? a.statement = some a := by
  cases a with
  | single ident c =>
      obtain ⟨hident, hc⟩ := h
      -- a conversion starts with its kind and not with a bracket
      have hitems : between? "[" "]" (tokens c.text) = none := by
        have hbracket : Token.word c.kind.name.toList ≠ .sign '[' := fun h => nomatch h
        rw [Conversion.tokens_text]
        exact between?_eq_none "]" rfl hbracket _
      rw [statement, tokens_target hident.isWord]
      simp only [List.cons_append, List.nil_append, read?, if_true, hitems,
        Conversion.read?_text hc, hident.ident?_toList]
      rfl
  | array ident items =>
      obtain ⟨hident, hitems⟩ := h
      have hwhole : ∀ piece ∈ items.map (fun c => tokens c.text), Whole ',' piece :=
        List.forall_mem_map.mpr fun c hc => Conversion.whole (hitems c hc).isWord (Or.inl rfl)
      have hread : (items.map fun c => tokens c.text).mapM Conversion.read? = some items :=
        Outcome.mapM_map_eq_self fun c hc => Conversion.read?_text (hitems c hc)
      rw [statement, tokens_target hident.isWord]
      simp only [List.cons_append, List.nil_append, read?, if_true, between?_eq_some,
        terminated?_eq_some hwhole, Option.bind_eq_bind, Option.bind_some, hread,
        hident.ident?_toList]
      rfl

/-- The commas of an array are inside its brackets, so that a statement ends
    only in its semicolon. -/
theorem whole_statement {a : Assignment} (h : a.Printable) : Whole ';' a.statement := by
  cases a with
  | single ident c =>
      obtain ⟨hident, hc⟩ := h
      rw [statement, tokens_target hident.isWord]
      exact whole_append (fun _ => rfl) (Conversion.whole hc.isWord (Or.inr rfl))
  | array ident items =>
      obtain ⟨hident, hitems⟩ := h
      have hinner : Inner ';' ((items.map fun c => tokens c.text).flatMap (· ++ [.sign ','])) := by
        refine inner_flatMap (fun _ => rfl) (List.forall_mem_map.mpr fun c hc => ?_)
        exact (Conversion.whole (hitems c hc).isWord (Or.inr rfl)).inner
      rw [statement, tokens_target hident.isWord]
      exact whole_append (fun _ => rfl) (whole_enclosed 0 (fun _ => rfl) hinner fun _ => rfl)

end Assignment

end PackedRecord.Code
