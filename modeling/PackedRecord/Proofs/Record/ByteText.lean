import PackedRecord.Proofs.Record.ValueText

/-! # Bytes as text — what a line says of an array of bytes

    Arrays of bytes are shown by their digits.  If they begin with text, and
    after that there are only zeros, the text stands in front in quotes.  It may
    hold quotes, brackets, or what digits begin with; still it reads back, and
    the digits that come last are all the bytes.  No other value has digits
    outside of the brackets of a list. -/

namespace PackedRecord.Value

open Text (isPrintableAscii digitChars Every every_append OnTop Closed isLoose closed_of_isLoose
  closed_intercalate closed_quote)

/-! ## Text in front of zeros -/

/-- The bytes are printable text, and zeros behind it. -/
structure Padded (bytes text : List UInt8) : Prop where
  ne_nil : text ≠ []
  printable : ∀ b ∈ text, 0x20 ≤ b ∧ b ≤ 0x7e
  zeros : ∃ n, bytes = text ++ List.replicate n 0

/-- The characters of which the text consists. -/
def charsOf (text : List UInt8) : List Char :=
  text.map fun b => Char.ofNat b.toNat

/-- The printable bytes are those from the space to the tilde. -/
theorem isPrintableAscii_ofNat (b : UInt8) :
    isPrintableAscii (Char.ofNat b.toNat) = true ↔ 0x20 ≤ b ∧ b ≤ 0x7e := by
  have hlt : b.toNat < 256 := b.toNat_lt
  have hvalid : b.toNat.isValidChar := Or.inl (by omega)
  rw [isPrintableAscii, Char.toNat_ofNat, if_pos hvalid, Bool.and_eq_true, decide_eq_true_eq,
    decide_eq_true_eq]
  rfl

/-- What stands before the padding is printable, character by character. -/
theorem Padded.all_printable {bytes text : List UInt8} (h : Padded bytes text) :
    ∀ c ∈ charsOf text, isPrintableAscii c = true :=
  List.forall_mem_map.mpr fun b hb => (isPrintableAscii_ofNat b).mpr (h.printable b hb)

/-- The text ends at the first zero. -/
theorem Padded.split {bytes text : List UInt8} (h : Padded bytes text) :
    bytes.takeWhile (· ≠ 0) = text ∧ (bytes.dropWhile (· ≠ 0)).all (· = 0) = true := by
  obtain ⟨n, rfl⟩ := h.zeros
  have hnonzero : ∀ b ∈ text, decide (b ≠ 0) = true := by
    intro b hb
    refine decide_eq_true ?_
    rintro rfl
    exact absurd (h.printable 0 hb).1 (by decide)
  rw [List.takeWhile_append_of_pos hnonzero, List.dropWhile_append_of_pos hnonzero]
  refine ⟨?_, List.all_eq_true.mpr fun b hb => ?_⟩
  · rw [List.takeWhile_replicate, if_neg (by decide), List.append_nil]
  · exact decide_eq_true (List.eq_of_mem_replicate ((List.dropWhile_sublist _).subset hb))

/-- **TEXT IS FOUND WHERE THERE IS TEXT**, and it is all of it. -/
theorem printableText?_eq_some_iff {bytes : List UInt8} {shown : String} :
    printableText? bytes = some shown
      ↔ ∃ text, Padded bytes text ∧ shown = String.ofList (charsOf text) := by
  rw [printableText?]
  constructor
  · intro h
    obtain ⟨⟨hne, hall, hzeros⟩, hshown⟩ := Option.ite_none_right_eq_some.mp h
    refine ⟨bytes.takeWhile (· ≠ 0), ⟨?_, ?_, (bytes.dropWhile (· ≠ 0)).length, ?_⟩,
      (Option.some.inj hshown).symm⟩
    · exact fun hnil => hne (List.map_eq_nil_iff.mpr hnil)
    · intro b hb
      exact (isPrintableAscii_ofNat b).mp (List.all_eq_true.mp hall _ (List.mem_map_of_mem hb))
    · have hreplicate := List.eq_replicate_of_mem fun b hb =>
        of_decide_eq_true (List.all_eq_true.mp hzeros b hb)
      rw [← hreplicate, List.takeWhile_append_dropWhile]
  · rintro ⟨text, htext, rfl⟩
    obtain ⟨hsplit, hzeros⟩ := htext.split
    rw [hsplit, if_pos]
    · rfl
    · exact ⟨fun hnil => htext.ne_nil (List.map_eq_nil_iff.mp hnil),
        List.all_eq_true.mpr htext.all_printable, hzeros⟩

/-! ## Digits -/

/-- What digits begin with. -/
def hexSign : List Char :=
  ['h', 'e', 'x', '(']

/-- `inside` is what the last sign for digits on the line opens. -/
structure LastGroup (line before inside behind : List Char) : Prop where
  eq : line = before ++ (hexSign ++ (inside ++ ')' :: behind))
  free : ')' ∉ inside
  last : ∀ before' behind', line = before' ++ (hexSign ++ behind') →
    before'.length ≤ before.length

/-- Two lower-case hexadecimal digits that mean the byte. -/
def Spells (pair : List Char) (b : UInt8) : Prop :=
  ∃ i j c d, digitChars[i]? = some c ∧ digitChars[j]? = some d ∧ pair = [c, d]
    ∧ b.toNat = 16 * i + j

/-- The text spells byte for byte, with a space between two. -/
def Lists (text : List Char) (bytes : List UInt8) : Prop :=
  ∃ pairs, List.Forall₂ Spells pairs bytes ∧ text = [' '].intercalate pairs

/-- The two digits of a byte mean the byte. -/
theorem spells_hexByte (b : UInt8) : Spells (Text.hexByte b).toList b := by
  have hdigit : ∀ k < 16, digitChars[k]? = some (Nat.digitChar k) := by decide
  have hb : b.toNat < 256 := b.toNat_lt
  refine ⟨b.toNat / 16, b.toNat % 16, _, _, hdigit _ (by omega), hdigit _ (by omega), ?_,
    (Nat.div_add_mod b.toNat 16).symm⟩
  rw [Text.hexByte, String.toList_ofList]

/-- All bytes as they are listed. -/
def listing (bytes : List UInt8) : List Char :=
  (" ".intercalate (bytes.map Text.hexByte)).toList

/-- The listing of bytes spells them, in their order. -/
theorem lists_listing (bytes : List UInt8) : Lists (listing bytes) bytes := by
  refine ⟨bytes.map fun b => (Text.hexByte b).toList, ?_, ?_⟩
  · rw [List.forall₂_map_left_iff, List.forall₂_same]
    exact fun b _ => spells_hexByte b
  · rw [listing, String.toList_intercalate, List.map_map]
    rfl

/-- A listing holds digits and spaces only. -/
theorem not_mem_listing {c : Char} (hspace : c ≠ ' ') (hdigit : c ∉ digitChars)
    (bytes : List UInt8) : c ∉ listing bytes := by
  intro hc
  rw [listing, String.toList_intercalate] at hc
  rcases Text.mem_of_mem_intercalate hc with hc | ⟨piece, hpiece, hc⟩
  · exact hspace (List.mem_singleton.mp hc)
  · rw [List.map_map] at hpiece
    obtain ⟨b, -, rfl⟩ := List.mem_map.mp hpiece
    exact hdigit (mem_digitChars_of_mem_hexByte b c hc)

/-- The last sign is the one behind which its first letter does not come again. -/
theorem lastGroup_of_not_mem {before inside behind : List Char} (hfree : ')' ∉ inside)
    (hinside : 'h' ∉ inside) (hbehind : 'h' ∉ behind) :
    LastGroup (before ++ (hexSign ++ (inside ++ ')' :: behind))) before inside behind := by
  refine ⟨rfl, hfree, fun before' behind' heq => ?_⟩
  have hrest : 'h' ∉ 'e' :: 'x' :: '(' :: (inside ++ ')' :: behind) := by
    simp [hinside, hbehind]
  rcases List.append_eq_append_iff.mp heq with ⟨between, rfl, hbetween⟩ | ⟨between, rfl, -⟩
  · cases between with
    | nil => rw [List.append_nil]
    | cons c between =>
        have hlater : 'e' :: 'x' :: '(' :: (inside ++ ')' :: behind)
            = between ++ (hexSign ++ behind') := (List.cons.inj hbetween).2
        rw [hlater] at hrest
        exact absurd (List.mem_append_right between List.mem_cons_self) hrest
  · rw [List.length_append]
    exact Nat.le_add_right before'.length between.length

/-! ## Lines of bytes -/

theorem toList_hexText (bytes : List UInt8) :
    (hexText bytes).toList = hexSign ++ (listing bytes ++ [')']) := by
  simp [hexText, listing, hexSign]

/-- Behind quoted text stand the digits of all bytes, in brackets of their own. -/
theorem toList_bytesText_quoted {bytes : List UInt8} {text : String}
    (h : printableText? bytes = some text) :
    (bytesText bytes).toList = (Text.Quoted.quote text).toList ++ [' ', '(']
      ++ (hexSign ++ (listing bytes ++ ')' :: [')'])) := by
  simp [bytesText, h, toList_hexText]

/-- The quotation says the text that the bytes hold, if they hold any. -/
theorem said?_bytesText (bytes : List UInt8) :
    Text.Quoted.said? (bytesText bytes).toList = (printableText? bytes).map String.toList := by
  cases h : printableText? bytes with
  | none =>
      rw [toList_bytesText_of_none h]
      rfl
  | some text =>
      rw [toList_bytesText_quoted h, List.append_assoc]
      exact Text.Quoted.said?_quote (shown_of_printableText? h) _

/-- There are quotes exactly if the bytes hold text. -/
theorem quote_mem_bytesText_iff (bytes : List UInt8) :
    '"' ∈ (bytesText bytes).toList ↔ (printableText? bytes).isSome = true := by
  cases h : printableText? bytes with
  | none =>
      rw [bytesText, h]
      exact iff_of_false (quote_not_mem_hexText bytes) Bool.false_ne_true
  | some text =>
      rw [toList_bytesText_of_some h]
      exact iff_of_true List.mem_cons_self rfl

/-- The last digits on the line are all the bytes, and they stand in no
    brackets. -/
theorem exists_lastGroup_bytesText (bytes : List UInt8) :
    ∃ before inside behind, LastGroup (bytesText bytes).toList before inside behind
      ∧ OnTop before ∧ Lists inside bytes := by
  have hclose : ')' ∉ listing bytes := not_mem_listing (by decide) (by decide) bytes
  have hletter : 'h' ∉ listing bytes := not_mem_listing (by decide) (by decide) bytes
  cases h : printableText? bytes with
  | none =>
      have hline : (bytesText bytes).toList = [] ++ (hexSign ++ (listing bytes ++ ')' :: [])) := by
        rw [bytesText, h, List.nil_append]
        exact toList_hexText bytes
      rw [hline]
      exact ⟨_, _, _, lastGroup_of_not_mem hclose hletter (by decide), rfl, lists_listing bytes⟩
  | some text =>
      have htop : OnTop ((Text.Quoted.quote text).toList ++ [' ', '(']) := by
        rw [OnTop, Text.Spot.after_append, (closed_quote (shown_of_printableText? h)).back]
        rfl
      rw [toList_bytesText_quoted h]
      exact ⟨_, _, _, lastGroup_of_not_mem hclose hletter (by decide), htop, lists_listing bytes⟩

/-! ## Lines of other values -/

theorem closed_numberText (n : Nat) : Closed (numberText n).toList :=
  closed_of_isLoose
    (every_numberText (by simp [digitChars, isLoose]) (by decide) (by decide) (by decide) n)

/-- What is shown of bytes closes its brackets, with quoted text or without. -/
theorem closed_bytesText (bytes : List UInt8) : Closed (bytesText bytes).toList := by
  have hhex : Every isLoose (hexText bytes) :=
    every_hexText (by simp [digitChars, isLoose]) (by decide) (by decide) (by decide) bytes
  rw [bytesText]
  cases h : printableText? bytes with
  | none => exact closed_of_isLoose hhex
  | some text =>
      have hbehind : Every isLoose (" (" ++ (hexText bytes ++ ")")) :=
        every_append (by decide) (every_append hhex (by decide))
      have hquote := closed_quote (shown_of_printableText? h)
      show Closed (Text.Quoted.quote text ++ " (" ++ hexText bytes ++ ")").toList
      rw [String.append_assoc, String.append_assoc, String.toList_append]
      exact hquote.append (closed_of_isLoose hbehind)

/-- The elements of a list, with commas between them. -/
def elementsText (items : List Value) : List Char :=
  [',', ' '].intercalate (items.map fun item => item.text.toList)

theorem toList_text_array {items : List Value} (h : ∀ bytes, array items ≠ ofBytes bytes) :
    (array items).text.toList = '[' :: (elementsText items ++ [']']) := by
  rw [text_array h, String.toList_append, String.toList_append, String.toList_intercalate,
    List.map_map]
  rfl

theorem closed_elementsText {items : List Value} (h : ∀ item ∈ items, Closed item.text.toList) :
    Closed (elementsText items) :=
  closed_intercalate (closed_of_isLoose (by simp [isLoose])) (List.forall_mem_map.mpr h)

/-- **VALUES CLOSE THEIR BRACKETS**, and no quoted text does it for them. -/
theorem closed_text : ∀ value : Value, Closed value.text.toList
  | scalar s => by
      rw [text]
      exact closed_numberText s.value
  | array items => by
      by_cases hbytes : ∃ bytes, array items = ofBytes bytes
      · obtain ⟨bytes, hbytes⟩ := hbytes
        rw [hbytes, text_ofBytes]
        exact closed_bytesText bytes
      · have hitems : ∀ item ∈ items, Closed item.text.toList := fun item _ => closed_text item
        rw [toList_text_array (not_exists.mp hbytes)]
        exact (closed_elementsText hitems).bracketed

/-- There are digits on the line outside of brackets. -/
def HexOnTop (line : List Char) : Prop :=
  ∃ before behind, line = before ++ (hexSign ++ behind) ∧ OnTop before

/-- A number is shown without the sign for digits of bytes. -/
theorem not_hexOnTop_scalar (s : Scalar) : ¬ HexOnTop (scalar s).text.toList := by
  have hother : Every (· ≠ 'h') (numberText s.value) :=
    every_numberText (by simp [digitChars]) (by decide) (by decide) (by decide) s.value
  have hletter : 'h' ∉ (numberText s.value).toList := hother.not_mem (by decide)
  rintro ⟨before, behind, hline, -⟩
  rw [text] at hline
  rw [hline] at hletter
  exact hletter (List.mem_append_right before List.mem_cons_self)

/-- Whatever digits the elements of a list have, they stand inside its brackets. -/
theorem not_hexOnTop_array {items : List Value} (h : ∀ bytes, array items ≠ ofBytes bytes) :
    ¬ HexOnTop (array items).text.toList := by
  rintro ⟨before, behind, hline, htop⟩
  rw [toList_text_array h] at hline
  have hne : before ≠ [] := by
    rintro rfl
    exact absurd (List.cons.inj hline).1 (by decide)
  have hbefore : before <+: '[' :: elementsText items := by
    have hwhole : before <+: '[' :: elementsText items ++ [']'] := ⟨_, hline.symm⟩
    rcases List.prefix_concat_iff.mp hwhole with rfl | hbefore
    · have hnil := List.append_cancel_left (hline.symm.trans (List.append_nil _).symm)
      exact nomatch hnil
    · exact hbefore
  exact (closed_elementsText fun item _ => closed_text item).not_onTop hbefore hne htop

/-! ## What a line says of bytes -/

/-- The line says what the bytes are: it has quotes exactly if they are text
    with zeros behind it, the quotation says this text, and the last digits on
    it, which stand in no brackets, spell the bytes. -/
structure Faithful (bytes : List UInt8) (line : List Char) : Prop where
  quote_mem : '"' ∈ line ↔ ∃ text, Padded bytes text
  said : ∀ shown, Text.Quoted.said? line = some shown
    ↔ ∃ text, Padded bytes text ∧ shown = charsOf text
  listed : ∃ before inside behind, LastGroup line before inside behind ∧ OnTop before
    ∧ Lists inside bytes

/-- **BYTES ARE SHOWN FAITHFULLY**, with quoted text in front of them or
    without. -/
theorem faithful_bytesText (bytes : List UInt8) : Faithful bytes (bytesText bytes).toList where
  quote_mem := by
    rw [quote_mem_bytesText_iff, Option.isSome_iff_exists]
    constructor
    · rintro ⟨shown, hshown⟩
      obtain ⟨text, htext, -⟩ := printableText?_eq_some_iff.mp hshown
      exact ⟨text, htext⟩
    · rintro ⟨text, htext⟩
      exact ⟨_, printableText?_eq_some_iff.mpr ⟨text, htext, rfl⟩⟩
  said := by
    intro shown
    rw [said?_bytesText, Option.map_eq_some_iff]
    constructor
    · rintro ⟨found, hfound, rfl⟩
      obtain ⟨text, htext, rfl⟩ := printableText?_eq_some_iff.mp hfound
      exact ⟨text, htext, String.toList_ofList⟩
    · rintro ⟨text, htext, rfl⟩
      exact ⟨_, printableText?_eq_some_iff.mpr ⟨text, htext, rfl⟩, String.toList_ofList⟩
  listed := exists_lastGroup_bytesText bytes

/-- Text with a quote and the sign for digits in it, a byte behind a zero, and
    no bytes at all. -/
example :
    bytesText [0x22, 0x68, 0x65, 0x78, 0x28, 0] = "\"\\\"hex(\" (hex(22 68 65 78 28 00))"
      ∧ bytesText [0x61, 0, 0x62] = "hex(61 00 62)"
      ∧ bytesText [] = "hex()" := by
  decide

/-- **BYTES ARE SHOWN AS THEY ARE**: an array of any bytes, and of none, has a
    line that is faithful to it; and of all values only these have digits
    outside of the brackets of a list. -/
theorem bytes_shown_faithfully :
    (∀ bytes, Faithful bytes (ofBytes bytes).text.toList)
      ∧ ∀ value : Value, HexOnTop value.text.toList ↔ ∃ bytes, value = ofBytes bytes := by
  have hfaithful : ∀ bytes, Faithful bytes (ofBytes bytes).text.toList := by
    intro bytes
    rw [text_ofBytes]
    exact faithful_bytesText bytes
  refine ⟨hfaithful, fun value => ?_⟩
  constructor
  · intro htop
    by_contra hother
    cases value with
    | scalar s => exact not_hexOnTop_scalar s htop
    | array items => exact not_hexOnTop_array (not_exists.mp hother) htop
  · rintro ⟨bytes, rfl⟩
    obtain ⟨before, inside, behind, hgroup, htop, -⟩ := (hfaithful bytes).listed
    exact ⟨before, inside ++ ')' :: behind, hgroup.eq, htop⟩

end PackedRecord.Value
