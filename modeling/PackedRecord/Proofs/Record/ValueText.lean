import PackedRecord.Proofs.Record.RoundTrip
import PackedRecord.Proofs.Text.Digits
import PackedRecord.Proofs.Text.Quotations

/-! # Values as text — shown on one line, and told apart

    The text of a value is printable, so that it stays on its line, and for
    values of one entry it says which value it is.  There are three forms, and
    each ends what it says in its own way: a number of more than one digit
    repeats itself in decimal, quoted text is followed by the bytes in
    hexadecimal, and the elements of an array are kept apart by commas, which
    numbers do not hold. -/

namespace PackedRecord

open Text (isPrintableAscii not_mem_toDigits append_cons_inj append_cons_inj_last
  intercalate_texts_inj Every every_append every_ofList every_intercalate)

/-! ## Printable texts -/

/-- The text shows as it is, on one line. -/
abbrev Shown (text : String) : Prop :=
  Every isPrintableAscii text

theorem shown_spaces (n : Nat) : Shown (Text.spaces n) := by
  refine every_ofList fun c hc => ?_
  rw [List.eq_of_mem_replicate hc]
  rfl

theorem shown_toString (n : Nat) : Shown (toString n) :=
  Text.every_toString Text.isPrintableAscii_of_mem_digitChars n

/-- A byte is written in hexadecimal digits. -/
theorem mem_digitChars_of_mem_hexByte (b : UInt8) :
    ∀ c ∈ (Text.hexByte b).toList, c ∈ Text.digitChars := by
  have hdigit : ∀ d < 16, Nat.digitChar d ∈ Text.digitChars := by decide
  have hb : b.toNat < 256 := b.toNat_lt
  intro c hc
  rw [Text.hexByte, String.toList_ofList, List.mem_cons, List.mem_singleton] at hc
  rcases hc with rfl | rfl
  · exact hdigit _ (by omega)
  · exact hdigit _ (by omega)

/-- A quotation of printable text is printable, since its escapes are. -/
theorem shown_quote {text : String} (h : Shown text) : Shown (Text.Quoted.quote text) := by
  have hmark : isPrintableAscii '"' = true := by decide
  refine every_ofList fun c hc => ?_
  rcases List.mem_append.mp hc with hc | hc
  · rcases List.mem_append.mp hc with hc | hc
    · rw [List.mem_singleton.mp hc]
      exact hmark
    · obtain ⟨d, hd, hc⟩ := List.mem_flatMap.mp hc
      rw [Text.Quoted.encodeChar_eq (h d hd)] at hc
      split at hc
      · rw [List.mem_cons, List.mem_singleton] at hc
        rcases hc with rfl | rfl
        · decide
        · exact h _ hd
      · rw [List.mem_singleton.mp hc]
        exact h d hd
  · rw [List.mem_singleton.mp hc]
    exact hmark

namespace Value

section

variable {kind : Char → Bool}

/-- What holds of digits and of the signs between them holds of the text of a
    number. -/
theorem every_numberText (hdigits : ∀ c ∈ Text.digitChars, kind c = true) (hradix : Every kind "0x")
    (hopen : Every kind " (") (hclose : Every kind ")") (n : Nat) : Every kind (numberText n) := by
  rw [numberText]
  split
  · exact Text.every_toString hdigits n
  · exact every_append (every_append (every_append (every_append hradix (Text.every_hex hdigits n))
      hopen) (Text.every_toString hdigits n)) hclose

/-- What holds of digits, spaces and brackets holds of the digits of bytes. -/
theorem every_hexText (hdigits : ∀ c ∈ Text.digitChars, kind c = true) (hopen : Every kind "hex(")
    (hspace : Every kind " ") (hclose : Every kind ")") (bytes : List UInt8) :
    Every kind (hexText bytes) := by
  have hbytes : ∀ text ∈ bytes.map Text.hexByte, Every kind text := by
    intro text htext c hc
    obtain ⟨b, -, rfl⟩ := List.mem_map.mp htext
    exact hdigits c (mem_digitChars_of_mem_hexByte b c hc)
  exact every_append (every_append hopen (every_intercalate hspace hbytes)) hclose

end

theorem shown_numberText (n : Nat) : Shown (numberText n) :=
  every_numberText Text.isPrintableAscii_of_mem_digitChars (by decide) (by decide) (by decide) n

theorem shown_hexText (bytes : List UInt8) : Shown (hexText bytes) :=
  every_hexText Text.isPrintableAscii_of_mem_digitChars (by decide) (by decide) (by decide) bytes

/-- Text is only found where all of it can be shown. -/
theorem shown_of_printableText? {bytes : List UInt8} {text : String}
    (h : printableText? bytes = some text) : Shown text := by
  rw [printableText?] at h
  split at h
  · next hall =>
      obtain rfl := Option.some.inj h
      exact every_ofList (List.all_eq_true.mp hall.2.1)
  · exact nomatch h

theorem shown_bytesText (bytes : List UInt8) : Shown (bytesText bytes) := by
  rw [bytesText]
  cases h : printableText? bytes with
  | none => exact shown_hexText bytes
  | some text =>
      exact every_append (every_append (every_append (shown_quote (shown_of_printableText? h))
        (by decide)) (shown_hexText bytes)) (by decide)

/-- **VALUES ARE SHOWN ON ONE LINE**, whatever they hold. -/
theorem shown_text : ∀ value : Value, Shown value.text
  | scalar s => by
      rw [text]
      exact shown_numberText s.value
  | array items => by
      have hitems : ∀ text ∈ items.map Value.text, Shown text := by
        intro text htext
        obtain ⟨item, hitem, rfl⟩ := List.mem_map.mp htext
        exact shown_text item
      rw [text]
      split
      · exact shown_bytesText _
      · exact every_append (every_append (by decide) (every_intercalate (by decide) hitems))
          (by decide)

/-! ## Arrays of bytes -/

def ofByte (b : UInt8) : Value :=
  .scalar ⟨.u8, b.toNat, b.toNat_lt⟩

/-- The array of these bytes. -/
def ofBytes (bytes : List UInt8) : Value :=
  .array (bytes.map ofByte)

/-- A value is a byte exactly if it is a scalar of one byte. -/
theorem asByte?_eq_some_iff {value : Value} {b : UInt8} :
    asByte? value = some b ↔ value = ofByte b := by
  constructor
  · intro h
    cases value with
    | array items => exact nomatch h
    | scalar s =>
        obtain ⟨hkind, hb⟩ := Option.ite_none_right_eq_some.mp h
        have hlt : s.value < 256 := by
          have hbound := s.value_lt
          rwa [hkind] at hbound
        have hvalue : s.value = b.toNat := by
          rw [← Option.some.inj hb, UInt8.toNat_ofNat']
          exact (Nat.mod_eq_of_lt hlt).symm
        exact congrArg Value.scalar (Scalar.ext_of_value hkind hvalue)
  · rintro rfl
    show some (UInt8.ofNat b.toNat) = some b
    rw [UInt8.ofNat_toNat]

theorem mapM_asByte?_eq_some_iff {items : List Value} {bytes : List UInt8} :
    items.mapM asByte? = some bytes ↔ items = bytes.map ofByte := by
  constructor
  · intro h
    induction items generalizing bytes with
    | nil =>
        obtain rfl := Option.some.inj h
        rfl
    | cons item rest ih =>
        rw [List.mapM_cons] at h
        obtain ⟨b, hb, h⟩ := Option.bind_eq_some_iff.mp h
        obtain ⟨bs, hbs, h⟩ := Option.bind_eq_some_iff.mp h
        obtain rfl := Option.some.inj h
        rw [asByte?_eq_some_iff.mp hb, ih hbs]
        rfl
  · rintro rfl
    exact Outcome.mapM_map_eq_self fun b _ => asByte?_eq_some_iff.mpr rfl

/-- A value is shown by its bytes exactly if it is an array of them. -/
theorem asBytes?_eq_some_iff {value : Value} {bytes : List UInt8} :
    asBytes? value = some bytes ↔ value = ofBytes bytes := by
  cases value with
  | scalar s => exact iff_of_false (fun h => nomatch h) (fun h => nomatch h)
  | array items =>
      rw [asBytes?, mapM_asByte?_eq_some_iff, ofBytes, Value.array.injEq]

theorem text_ofBytes (bytes : List UInt8) : (ofBytes bytes).text = bytesText bytes := by
  have hbytes : asBytes? (ofBytes bytes) = some bytes := asBytes?_eq_some_iff.mpr rfl
  rw [ofBytes] at hbytes ⊢
  rw [text, hbytes]

/-- Any other array is a list in brackets. -/
theorem text_array {items : List Value} (h : ∀ bytes, array items ≠ ofBytes bytes) :
    (array items).text = "[" ++ ", ".intercalate (items.map text) ++ "]" := by
  have hnone : asBytes? (array items) = none :=
    Option.eq_none_iff_forall_ne_some.mpr fun bytes hbytes =>
      h bytes (asBytes?_eq_some_iff.mp hbytes)
  rw [text, hnone]

/-! ## Telling numbers and bytes apart -/

/-- A number of one digit is that digit. -/
theorem toList_numberText_of_lt {n : Nat} (h : n < 10) :
    (numberText n).toList = [Nat.digitChar n] := by
  rw [numberText, if_pos h, Nat.toString_eq_ofList_toDigits, String.toList_ofList,
    Nat.toDigits_of_lt_base h]

/-- Any other number is shown in hexadecimal, and in decimal between brackets. -/
theorem toList_numberText_of_le {n : Nat} (h : ¬ n < 10) :
    (numberText n).toList
      = '0' :: 'x' :: (Nat.toDigits 16 n ++ ' ' :: '(' :: (Nat.toDigits 10 n ++ [')'])) := by
  rw [numberText, if_neg h, Nat.toString_eq_ofList_toDigits, Text.hex]
  simp

/-- **NUMBERS ARE TOLD APART** by their text. -/
theorem numberText_injective : Function.Injective numberText := by
  intro n m h
  have hlist := congrArg String.toList h
  by_cases hn : n < 10
  · rw [toList_numberText_of_lt hn] at hlist
    by_cases hm : m < 10
    · rw [toList_numberText_of_lt hm] at hlist
      have hdigit : ∀ d < 10, ∀ d' < 10, Nat.digitChar d = Nat.digitChar d' → d = d' := by decide
      exact hdigit n hn m hm (List.cons.inj hlist).1
    · -- one digit is shorter than what stands before the decimal value
      rw [toList_numberText_of_le hm] at hlist
      exact nomatch (List.cons.inj hlist).2
  · rw [toList_numberText_of_le hn] at hlist
    by_cases hm : m < 10
    · rw [toList_numberText_of_lt hm] at hlist
      exact nomatch (List.cons.inj hlist).2
    · rw [toList_numberText_of_le hm] at hlist
      have hspace : ∀ k, ' ' ∉ Nat.toDigits 16 k := fun k =>
        not_mem_toDigits (by decide) (by decide) (by decide)
      have hrest := List.cons.inj (List.cons.inj hlist).2
      obtain ⟨-, hdecimal⟩ := append_cons_inj (hspace n) (hspace m) hrest.2
      have hdigits := List.append_cancel_right (List.cons.inj hdecimal).2
      rw [← Nat.ofDigitChars_ten_toDigits (n := n), hdigits, Nat.ofDigitChars_ten_toDigits]

/-- Numbers hold no comma. -/
theorem comma_not_mem_numberText (n : Nat) : ',' ∉ (numberText n).toList := by
  have hother : Every (· ≠ ',') (numberText n) :=
    every_numberText (by simp [Text.digitChars]) (by decide) (by decide) (by decide) n
  exact hother.not_mem (by decide)

/-- Numbers between commas are found again. -/
theorem intercalate_numberText_inj {numbers numbers' : List Nat} (hne : numbers ≠ [])
    (hne' : numbers' ≠ [])
    (h : ", ".intercalate (numbers.map numberText) = ", ".intercalate (numbers'.map numberText)) :
    numbers = numbers' := by
  have hcomma : ∀ l : List Nat, ∀ text ∈ l.map numberText, ',' ∉ text.toList := fun l =>
    List.forall_mem_map.mpr fun n _ => comma_not_mem_numberText n
  have htexts := intercalate_texts_inj rfl (by simpa using hne) (by simpa using hne')
    (hcomma numbers) (hcomma numbers') h
  exact List.map_injective_iff.mpr numberText_injective htexts

/-- Different bytes have different digits. -/
theorem hexByte_injective : Function.Injective Text.hexByte := by
  intro b b' h
  have hdigit : ∀ d < 16, ∀ d' < 16, Nat.digitChar d = Nat.digitChar d' → d = d' := by decide
  have hb : b.toNat < 256 := b.toNat_lt
  have hb' : b'.toNat < 256 := b'.toNat_lt
  have hlist := congrArg String.toList h
  rw [Text.hexByte, Text.hexByte, String.toList_ofList, String.toList_ofList] at hlist
  obtain ⟨hhigh, hlow⟩ := List.cons.inj hlist
  have hdiv := hdigit _ (by omega) _ (by omega) hhigh
  have hmod := hdigit _ (by omega) _ (by omega) (List.cons.inj hlow).1
  exact UInt8.toNat_inj.mp (by omega)

/-- Bytes are known by their digits. -/
theorem hexText_inj {bytes bytes' : List UInt8} (hne : bytes ≠ []) (hne' : bytes' ≠ [])
    (h : hexText bytes = hexText bytes') : bytes = bytes' := by
  have hspace : ∀ l : List UInt8, ∀ text ∈ l.map Text.hexByte, ' ' ∉ text.toList := fun l =>
    List.forall_mem_map.mpr fun b _ hmem =>
      absurd (mem_digitChars_of_mem_hexByte b ' ' hmem) (by decide)
  rw [hexText, hexText, String.append_left_inj, String.append_right_inj] at h
  have htexts := intercalate_texts_inj rfl (by simpa using hne) (by simpa using hne')
    (hspace bytes) (hspace bytes') h
  exact List.map_injective_iff.mpr hexByte_injective htexts

/-- Digits of bytes hold no quote. -/
theorem quote_not_mem_hexText (bytes : List UInt8) : '"' ∉ (hexText bytes).toList := by
  have hother : Every (· ≠ '"') (hexText bytes) :=
    every_hexText (by simp [Text.digitChars]) (by decide) (by decide) (by decide) bytes
  exact hother.not_mem (by decide)

/-- Bytes that hold text begin with a quote. -/
theorem toList_bytesText_of_some {bytes : List UInt8} {text : String}
    (h : printableText? bytes = some text) :
    (bytesText bytes).toList
      = '"' :: (Text.Quoted.encode text.toList
          ++ '"' :: (' ' :: '(' :: ((hexText bytes).toList ++ [')']))) := by
  simp [bytesText, h, Text.Quoted.quote]

/-- All others begin with a letter. -/
theorem toList_bytesText_of_none {bytes : List UInt8} (h : printableText? bytes = none) :
    (bytesText bytes).toList
      = 'h' :: ("ex(" ++ " ".intercalate (bytes.map Text.hexByte) ++ ")").toList := by
  simp [bytesText, h, hexText]

/-- **BYTES ARE TOLD APART** by their text, which may be quoted and hold any
    character that is shown: what stands behind the last quote are the bytes. -/
theorem bytesText_inj {bytes bytes' : List UInt8} (hne : bytes ≠ []) (hne' : bytes' ≠ [])
    (h : bytesText bytes = bytesText bytes') : bytes = bytes' := by
  have hlist := congrArg String.toList h
  cases hbytes : printableText? bytes with
  | none =>
      cases hbytes' : printableText? bytes' with
      | none =>
          rw [bytesText, hbytes, bytesText, hbytes'] at h
          exact hexText_inj hne hne' h
      | some text' =>
          rw [toList_bytesText_of_none hbytes, toList_bytesText_of_some hbytes'] at hlist
          exact absurd (List.cons.inj hlist).1 (by decide)
  | some text =>
      cases hbytes' : printableText? bytes' with
      | none =>
          rw [toList_bytesText_of_some hbytes, toList_bytesText_of_none hbytes'] at hlist
          exact absurd (List.cons.inj hlist).1 (by decide)
      | some text' =>
          rw [toList_bytesText_of_some hbytes, toList_bytesText_of_some hbytes'] at hlist
          have hquote : ∀ l : List UInt8, '"' ∉ ' ' :: '(' :: ((hexText l).toList ++ [')']) := by
            intro l
            simp [quote_not_mem_hexText l]
          obtain ⟨-, hbehind⟩ :=
            append_cons_inj_last (hquote bytes) (hquote bytes') (List.cons.inj hlist).2
          have hhex := List.append_cancel_right (List.cons.inj (List.cons.inj hbehind).2).2
          exact hexText_inj hne hne' (String.toList_inj.mp hhex)

end Value

/-! ## Telling the values of an entry apart -/

namespace Layout.Entry

open Value (numberText bytesText)

variable {order : ByteOrder} {e : Entry} {chunk chunk' : List UInt8}

theorem elements_one (bytes : List UInt8) : elements 1 bytes.length bytes = bytes.map ([·]) := by
  induction bytes with
  | nil => rfl
  | cons b rest ih => exact congrArg ([b] :: ·) ih

/-- The text of a single scalar is that of its number. -/
theorem text_valueOf_single (harray : ¬ 1 < e.count) (hlength : chunk.length = e.kind.byteWidth) :
    (e.valueOf order chunk).text = numberText (order.read chunk) := by
  rw [valueOf_of_not_isArray harray, Value.text, Scalar.value_ofBytes hlength]

/-- The value of an entry of bytes is the array of its bytes. -/
theorem valueOf_eq_ofBytes (harray : 1 < e.count) (hkind : e.kind = .u8)
    (hlength : chunk.length = e.count) : e.valueOf order chunk = Value.ofBytes chunk := by
  have helements : elements e.kind.byteWidth e.count chunk = chunk.map ([·]) := by
    rw [hkind, ← hlength]
    exact elements_one chunk
  have hbyte : ∀ b, Value.scalar (.ofBytes order .u8 [b]) = Value.ofByte b := by
    intro b
    refine congrArg Value.scalar (Scalar.ext_of_value rfl ?_)
    rw [Scalar.value_ofBytes rfl, ByteOrder.read_singleton order .little]
    exact Nat.add_zero _
  rw [valueOf_of_isArray harray, helements, hkind, List.map_map]
  exact congrArg Value.array (List.map_congr_left fun b _ => hbyte b)

/-- The text of an array of bytes is that of the bytes. -/
theorem text_valueOf_bytes (harray : 1 < e.count) (hkind : e.kind = .u8)
    (hlength : chunk.length = e.count) : (e.valueOf order chunk).text = bytesText chunk := by
  rw [valueOf_eq_ofBytes harray hkind hlength, Value.text_ofBytes]

/-- The text of any other array lists its numbers. -/
theorem text_valueOf_numbers (harray : 1 < e.count) (hkind : e.kind ≠ .u8)
    (hlength : chunk.length = e.size) :
    (e.valueOf order chunk).text
      = "[" ++ ", ".intercalate ((elements e.kind.byteWidth e.count chunk).map fun bytes =>
          numberText (order.read bytes)) ++ "]" := by
  have hnone : Value.asBytes? (e.valueOf order chunk) = none := by
    obtain ⟨n, hn⟩ : ∃ n, e.count = n + 1 := ⟨e.count - 1, by omega⟩
    rw [valueOf_of_isArray harray, hn, Value.asBytes?, elements, List.map_cons, List.mapM_cons]
    have hfirst : Value.asByte?
        (.scalar (.ofBytes order e.kind (chunk.take e.kind.byteWidth))) = none := if_neg hkind
    rw [hfirst]
    rfl
  have hread : ∀ bytes ∈ elements e.kind.byteWidth e.count chunk,
      Value.text (.scalar (.ofBytes order e.kind bytes)) = numberText (order.read bytes) := by
    intro bytes hbytes
    rw [Value.text, Scalar.value_ofBytes (length_of_mem_elements hlength bytes hbytes)]
  rw [valueOf_of_isArray harray] at hnone ⊢
  rw [Value.text, hnone, List.map_map]
  exact congrArg (fun texts => "[" ++ ", ".intercalate texts ++ "]") (List.map_congr_left hread)

/-- **VALUES ARE TOLD APART**: two values of one entry that have the same text
    come from the same bytes. -/
theorem text_valueOf_inj (hcount : 1 ≤ e.count) (hlength : chunk.length = e.size)
    (hlength' : chunk'.length = e.size)
    (h : (e.valueOf order chunk).text = (e.valueOf order chunk').text) : chunk = chunk' := by
  have hsize : e.size = e.kind.byteWidth * e.count := rfl
  by_cases harray : 1 < e.count
  · by_cases hkind : e.kind = .u8
    · have hwidth : e.size = e.count := by
        rw [hsize, hkind]
        exact Nat.one_mul e.count
      rw [text_valueOf_bytes harray hkind (hlength.trans hwidth),
        text_valueOf_bytes harray hkind (hlength'.trans hwidth)] at h
      refine Value.bytesText_inj ?_ ?_ h
      · exact List.ne_nil_of_length_pos (by omega)
      · exact List.ne_nil_of_length_pos (by omega)
    · rw [text_valueOf_numbers harray hkind hlength,
        text_valueOf_numbers harray hkind hlength', String.append_left_inj,
        String.append_right_inj] at h
      have hne : ∀ bytes, elements e.kind.byteWidth e.count bytes ≠ [] := by
        intro bytes
        refine List.ne_nil_of_length_pos ?_
        rw [length_elements]
        omega
      have hnumbers : (elements e.kind.byteWidth e.count chunk).map order.read
          = (elements e.kind.byteWidth e.count chunk').map order.read := by
        refine Value.intercalate_numberText_inj (by simpa using hne chunk)
          (by simpa using hne chunk') ?_
        rw [List.map_map, List.map_map]
        exact h
      have helements := order.map_read_inj (length_of_mem_elements hlength)
        (length_of_mem_elements hlength') hnumbers
      rw [← flatten_elements hlength, helements, flatten_elements hlength']
  · have hwidth := e.size_of_not_isArray hcount harray
    rw [text_valueOf_single harray (hlength.trans hwidth),
      text_valueOf_single harray (hlength'.trans hwidth)] at h
    exact order.read_inj (hlength.trans hlength'.symm) (Value.numberText_injective h)

end Layout.Entry

end PackedRecord
