import PackedRecord.Proofs.Code.Agreement
import PackedRecord.Proofs.Code.Remarks
import PackedRecord.Proofs.Text.Blanks
import PackedRecord.Proofs.Text.Digits

/-! # Calls — every number of several bytes is converted once

    In the block that converts a record, a line converts a number exactly if
    the sign of such a call stands in it.  No space and no line feed belongs to
    the sign, so that it cannot come about where texts meet (`infix_seam_iff`):
    lines of generated code have it where a conversion was printed, and the
    name of the structure brings none unless one stands in it.  What is left is
    to go through the block line by line (`callLines_textOf`). -/

namespace PackedRecord.Code

open Layout (Entry FieldName Packed)
open Text (trim)

/-! ## Parts of texts -/

/-- What does not hold a character stands on one side of it. -/
theorem infix_seam_iff {α : Type} {part a b : List α} {c : α} (hc : c ∉ part) :
    part <:+: a ++ c :: b ↔ part <:+: a ∨ part <:+: b := by
  constructor
  · rintro ⟨before, behind, h⟩
    rcases List.append_eq_append_iff.mp h with ⟨rest, rfl, -⟩ | ⟨tail, htail, hb⟩
    · exact Or.inl ⟨before, rest, rfl⟩
    · cases tail with
      | nil => exact Or.inl ⟨before, [], by simpa using htail⟩
      | cons d tail =>
          -- the part ends behind the character, so it begins there as well
          obtain ⟨rfl, rfl⟩ := List.cons.inj hb
          rcases List.append_eq_append_iff.mp htail with ⟨rest, -, rfl⟩ | ⟨rest, -, hpart⟩
          · exact absurd (List.mem_append_right rest List.mem_cons_self) hc
          · cases rest with
            | nil =>
                obtain rfl : c :: tail = part := hpart
                exact absurd List.mem_cons_self hc
            | cons d rest =>
                obtain ⟨-, rfl⟩ := List.cons.inj hpart
                exact Or.inr ⟨rest, behind, rfl⟩
  · rintro (h | h)
    · exact h.trans (List.prefix_append a _).isInfix
    · exact h.trans ((List.suffix_cons c b).trans (List.suffix_append a _)).isInfix

/-- What ends in a character stands before a text without it. -/
theorem infix_of_last_not_mem {α : Type} {part a b : List α} {c : α}
    (hlast : part.getLast? = some c) (hc : c ∉ b) (h : part <:+: a ++ b) : part <:+: a := by
  obtain ⟨start, rfl⟩ := List.getLast?_eq_some_iff.mp hlast
  obtain ⟨before, behind, h⟩ := h
  rcases List.append_eq_append_iff.mp h with ⟨rest, rfl, -⟩ | ⟨tail, htail, rfl⟩
  · exact ⟨before, rest, rfl⟩
  · rcases List.eq_nil_or_concat tail with rfl | ⟨tail, d, rfl⟩
    · exact ⟨before, [], by simpa using htail⟩
    · rw [List.concat_eq_append, ← List.append_assoc, ← List.append_assoc] at htail
      obtain rfl : c = d := by simpa using (List.append_inj' htail rfl).2
      exact absurd (by simp) hc

/-! ## Lines with a call -/

/-- What stands in every call that converts a number. -/
def callSign : List Char :=
  [':', ':', 'f', 'r', 'o', 'm', '_', 'l', 'e', '(']

/-- The lines of a text that convert a number, without the blanks around
    them. -/
def callLines (text : List Char) : List (List Char) :=
  ((text.splitOn '\n').filter (callSign <:+: ·)).map trim

/-- A text is searched line by line. -/
theorem callLines_append_newline (a b : List Char) :
    callLines (a ++ '\n' :: b) = callLines a ++ callLines b := by
  rw [callLines, List.splitOn_append_cons_self, List.filter_append, List.map_append]
  rfl

theorem callLines_of_absent {text : List Char} (h : ¬ callSign <:+: text) :
    callLines text = [] := by
  rw [callLines, List.map_eq_nil_iff, List.filter_eq_nil_iff]
  intro piece hpiece hsign
  exact h ((of_decide_eq_true hsign).trans (Text.infix_of_mem_splitOn hpiece))

theorem callLines_of_present {line : List Char} (hline : '\n' ∉ line) (h : callSign <:+: line) :
    callLines line = [trim line] := by
  simp [callLines, List.splitOn_eq_singleton hline, h]

/-- The calls of a printed line. -/
def Line.calls (indent : Nat) (line : Line) : List (List Char) :=
  callLines (line.content indent).toList

/-- The calls of a printed text are those of its lines, in order. -/
theorem callLines_textOf (indent : Nat) (lines : List Line) :
    callLines (textOf indent lines).toList = lines.flatMap (·.calls indent) := by
  induction lines with
  | nil => rfl
  | cons line rest ih =>
      rw [toList_textOf_cons, callLines_append_newline, ih, List.flatMap_cons]
      rfl

/-! ## Lines of generated code -/

/-- The sign does not begin in the indentation. -/
theorem infix_spaces_iff (n : Nat) (text : List Char) :
    callSign <:+: List.replicate n ' ' ++ text ↔ callSign <:+: text := by
  induction n with
  | zero => rfl
  | succ n ih =>
      rw [List.replicate_succ, List.cons_append, ← List.nil_append (' ' :: _),
        infix_seam_iff (by decide), ih]
      exact or_iff_right (by decide)

theorem trim_spaces (n : Nat) (text : List Char) :
    trim (List.replicate n ' ' ++ text) = trim text := by
  have hblank : ∀ c ∈ List.replicate n ' ', Text.isBlank c = true := by
    intro c hc
    rw [List.eq_of_mem_replicate hc]
    decide
  rw [trim, trim, Text.trimStart, Text.trimStart, List.dropWhile_append_of_pos hblank]

theorem toList_content_code (indent depth : Nat) (text : String) :
    ((Line.code depth text).content indent).toList
      = List.replicate (indent * depth) ' ' ++ text.toList := by
  rw [Line.content, String.toList_append, Line.toList_spaces]

section

variable {text : String} (indent depth : Nat)

/-- A line of code without the sign is printed without a call. -/
theorem calls_code_of_absent (h : ¬ callSign <:+: text.toList) :
    (Line.code depth text).calls indent = [] := by
  refine callLines_of_absent ?_
  rwa [toList_content_code, infix_spaces_iff]

/-- A call ends in a bracket. -/
theorem calls_code_of_not_mem (h : '(' ∉ text.toList) :
    (Line.code depth text).calls indent = [] :=
  calls_code_of_absent indent depth fun hsign => h (hsign.subset (by decide))

theorem calls_code_of_present (hline : '\n' ∉ text.toList) (htrim : trim text.toList = text.toList)
    (h : callSign <:+: text.toList) : (Line.code depth text).calls indent = [text.toList] := by
  have hspaces : '\n' ∉ List.replicate (indent * depth) ' ' := by simp
  rw [Line.calls, toList_content_code,
    callLines_of_present (by simp [hspaces, hline]) ((infix_spaces_iff _ _).mpr h), trim_spaces, htrim]

end

/-! ## The lines of an entry -/

/-- The lines that convert an entry: none for single bytes, one for a number,
    and one for every element of an array. -/
def callsOf (e : Entry) : List String :=
  let field := "raw." ++ identOf e.name
  let convert := "u" ++ toString (8 * e.kind.byteWidth) ++ "::from_le("
  if e.kind.byteWidth ≤ 1 then []
  else if e.count = 1 then [field ++ " = " ++ convert ++ field ++ ");"]
  else (List.range e.count).map fun i => convert ++ field ++ "[" ++ toString i ++ "]),"

theorem name_eq (kind : Scalar.Kind) : kind.name = "u" ++ toString (8 * kind.byteWidth) := by
  cases kind <;> decide

/-- A call with something in front of it and something behind it. -/
theorem calls_code_call {text : String} (first : Char) (before behind : List Char) (last : Char)
    (htext : text.toList = first :: (before ++ callSign ++ behind) ++ [last])
    (hline : '\n' ∉ text.toList) (hfirst : Text.isBlank first = false)
    (hlast : Text.isBlank last = false) (indent depth : Nat) :
    (Line.code depth text).calls indent = [text.toList] := by
  refine calls_code_of_present indent depth hline (Text.trim_eq_self ?_ ?_) ?_
  · rw [htext]
    intro c hc
    obtain rfl : first = c := Option.some.inj hc
    exact hfirst
  · rw [htext, List.getLast?_concat]
    intro c hc
    obtain rfl : last = c := Option.some.inj hc
    exact hlast
  · rw [htext]
    exact ⟨first :: before, behind ++ [last], by simp⟩

section

variable {ident : String} (h : IsWord ident) (indent : Nat) (kind : Scalar.Kind)

include h

/-- A number is converted on one line. -/
theorem calls_single :
    (Assignment.single ident ⟨kind, .field ident⟩).lines.flatMap (·.calls indent)
      = [("raw." ++ ident ++ " = " ++ ("u" ++ toString (8 * kind.byteWidth) ++ "::from_le(")
          ++ ("raw." ++ ident) ++ ");").toList] := by
  have hident : '\n' ∉ ident.toList := h.not_mem (by decide)
  have hkind : '\n' ∉ kind.name.toList := by cases kind <;> decide
  have htext : "raw." ++ ident ++ " = " ++ (Conversion.mk kind (.field ident)).text ++ ";"
      = "raw." ++ ident ++ " = " ++ (kind.name ++ "::from_le(") ++ ("raw." ++ ident) ++ ");" := by
    rw [← String.toList_inj]
    simp [Conversion.text, Place.text]
  rw [Assignment.lines, List.flatMap_singleton, htext, ← name_eq]
  refine calls_code_call 'r' ("aw.".toList ++ ident.toList ++ " = ".toList ++ kind.name.toList)
    ("raw.".toList ++ ident.toList ++ [')']) ';' ?_ ?_ (by decide) (by decide) _ _
  · simp [callSign]
  · simp [hident, hkind]

/-- An element of an array is converted on a line of its own. -/
theorem calls_element (i : Nat) :
    (Line.code 3 ((Conversion.mk kind (.element ident i)).text ++ ",")).calls indent
      = [("u" ++ toString (8 * kind.byteWidth) ++ "::from_le(" ++ ("raw." ++ ident) ++ "["
          ++ toString i ++ "]),").toList] := by
  have hident : '\n' ∉ ident.toList := h.not_mem (by decide)
  have hnumber : '\n' ∉ Nat.toDigits 10 i :=
    Text.not_mem_toDigits (by decide) (by decide) (by decide)
  have htext : (Conversion.mk kind (.element ident i)).text ++ ","
      = kind.name ++ "::from_le(" ++ ("raw." ++ ident) ++ "[" ++ toString i ++ "])," := by
    rw [← String.toList_inj]
    simp [Conversion.text, Place.text]
  obtain ⟨width, hkind, hwidth⟩ :
      ∃ width, kind.name.toList = 'u' :: width ∧ '\n' ∉ width := by
    cases kind <;> exact ⟨_, rfl, by decide⟩
  rw [htext, ← name_eq]
  refine calls_code_call 'u' width
    ("raw.".toList ++ ident.toList ++ '[' :: (toString i).toList ++ "])".toList) ',' ?_ ?_
    (by decide) (by decide) _ _
  · simp [callSign, hkind]
  · simp [hident, hkind, hwidth, hnumber]

/-- An array is converted element by element; the lines around the elements hold
    no call. -/
theorem calls_array (count : Nat) :
    (Assignment.array ident ((List.range count).map fun i => ⟨kind, .element ident i⟩)).lines.flatMap
        (·.calls indent)
      = (List.range count).map fun i =>
          ("u" ++ toString (8 * kind.byteWidth) ++ "::from_le(" ++ ("raw." ++ ident) ++ "["
            ++ toString i ++ "]),").toList := by
  have hopen : '(' ∉ ("raw." ++ ident ++ " = [").toList := by
    have hident : '(' ∉ ident.toList := h.not_mem (by decide)
    simp [hident]
  have hclose : '(' ∉ "];".toList := by decide
  rw [Assignment.lines, List.flatMap_append, List.flatMap_append, List.flatMap_singleton,
    List.flatMap_singleton, calls_code_of_not_mem indent 2 hopen,
    calls_code_of_not_mem indent 2 hclose, List.map_map, List.flatMap_map, List.append_nil,
    List.nil_append, List.map_eq_flatMap]
  exact List.flatMap_congr fun i _ => calls_element h indent kind i

end

/-- What is printed for an entry converts its elements, one after another. -/
theorem calls_ofEntry? {e : Entry} (hname : FieldName e.name) (hcount : 1 ≤ e.count)
    (indent : Nat) :
    ((Assignment.ofEntry? e).toList.flatMap Assignment.lines).flatMap (·.calls indent)
      = (callsOf e).map String.toList := by
  have hword := isWord_identOf hname
  rw [Assignment.ofEntry?, callsOf]
  by_cases hwidth : e.kind.byteWidth ≤ 1
  · have horder : ¬ e.hasByteOrder = true := by
      rw [Entry.hasByteOrder, decide_eq_true_eq]
      omega
    rw [if_neg horder, if_pos hwidth]
    rfl
  · have horder : e.hasByteOrder = true := by
      rw [Entry.hasByteOrder, decide_eq_true_eq]
      omega
    rw [if_pos horder, if_neg hwidth]
    by_cases hone : e.count = 1
    · rw [Entry.shape_of_not_isArray (by omega), if_pos hone]
      show (Assignment.lines _ ++ []).flatMap _ = _
      rw [List.append_nil]
      exact calls_single hword indent e.kind
    · rw [Entry.shape_of_isArray (by omega), if_neg hone, List.map_map]
      show (Assignment.lines _ ++ []).flatMap _ = _
      rw [List.append_nil]
      exact calls_array hword indent e.kind e.count

/-- The calls of the assignments are those of the entries, one entry after
    another. -/
theorem calls_assignments {entries : List Entry} (indent : Nat)
    (h : ∀ e ∈ entries, FieldName e.name ∧ 1 ≤ e.count) :
    ((entries.filterMap Assignment.ofEntry?).flatMap Assignment.lines).flatMap (·.calls indent)
      = (entries.flatMap callsOf).map String.toList := by
  induction entries with
  | nil => rfl
  | cons e rest ih =>
      obtain ⟨⟨hname, hcount⟩, hrest⟩ := List.forall_mem_cons.mp h
      have hhead := calls_ofEntry? hname hcount indent
      have hcons : (e :: rest).filterMap Assignment.ofEntry?
          = (Assignment.ofEntry? e).toList ++ rest.filterMap Assignment.ofEntry? := by
        rw [List.filterMap_cons]
        cases Assignment.ofEntry? e <;> rfl
      rw [hcons, List.flatMap_append, List.flatMap_append, hhead, ih hrest, List.flatMap_cons,
        List.map_append]

/-! ## How many they are -/

/-- No element that is converted is a single byte. -/
theorem length_callsOf (e : Entry) : 2 * (callsOf e).length ≤ e.size := by
  have hsize : e.size = e.kind.byteWidth * e.count := rfl
  rw [callsOf]
  split_ifs with hwidth hone
  · exact Nat.zero_le _
  · rw [hsize, hone, List.length_singleton]
    omega
  · rw [hsize, List.length_map, List.length_range]
    exact Nat.mul_le_mul_right e.count (Nat.not_le.mp hwidth)

/-- There are at most half as many calls as bytes. -/
theorem length_flatMap_callsOf (entries : List Entry) :
    2 * (entries.flatMap callsOf).length ≤ Layout.bytesOfEntries entries := by
  induction entries with
  | nil => exact Nat.le_refl 0
  | cons e rest ih =>
      have := length_callsOf e
      rw [List.flatMap_cons, List.length_append, Layout.bytesOfEntries_cons]
      omega

/-! ## The block -/

/-- The name of the structure brings no call, unless one stands in it. -/
theorem not_infix_head {name : String} (h : ¬ callSign <:+: name.toList) :
    ¬ callSign <:+: ("impl From<&[u8; " ++ name ++ "::WIDTH]> for " ++ name ++ " \x7b").toList := by
  have htext : ("impl From<&[u8; " ++ name ++ "::WIDTH]> for " ++ name ++ " \x7b").toList
      = "impl From<&[u8;".toList ++ ' ' :: ((name.toList ++ "::WIDTH]>".toList)
          ++ ' ' :: ("for".toList ++ ' ' :: (name.toList ++ ' ' :: ['\x7b']))) := by
    simp
  have hspace : ' ' ∉ callSign := by decide
  rw [htext, infix_seam_iff hspace, infix_seam_iff hspace, infix_seam_iff hspace,
    infix_seam_iff hspace]
  rintro (hsign | hsign | hsign | hsign | hsign)
  · exact absurd hsign (by decide)
  · exact h (infix_of_last_not_mem rfl (by decide) hsign)
  · exact absurd hsign (by decide)
  · exact h hsign
  · exact absurd hsign (by decide)

/-- The conversion on a big-endian host holds no calls but those of its
    assignments. -/
theorem calls_convertLines (p : Program) (indent : Nat) :
    p.convertLines.flatMap (·.calls indent)
      = (p.assignments.flatMap Assignment.lines).flatMap (·.calls indent) := by
  have hplain : ∀ {text : String}, ¬ callSign <:+: text.toList →
      (Line.code 2 text).calls indent = [] :=
    fun h => calls_code_of_absent indent 2 h
  rw [Program.convertLines]
  split
  · next hnone =>
      rw [hnone, List.flatMap_singleton]
      exact hplain (by decide)
  · rw [List.flatMap_append, List.flatMap_append, List.flatMap_singleton, List.flatMap_singleton,
      hplain (by decide), hplain (by decide), List.append_nil, List.nil_append]

/-- Only conversions are called for in the block. -/
theorem calls_fromLines {p : Program} (h : ¬ callSign <:+: p.name.toList) (indent : Nat) :
    p.fromLines.flatMap (·.calls indent)
      = (p.assignments.flatMap Assignment.lines).flatMap (·.calls indent) := by
  have hplain : ∀ {depth : Nat} {text : String}, ¬ callSign <:+: text.toList →
      (Line.code depth text).calls indent = [] :=
    fun h => calls_code_of_absent indent _ h
  have hblank : Line.blank.calls indent = [] := rfl
  rw [← calls_convertLines, Program.fromLines]
  simp (disch := decide) only [List.flatMap_append, List.flatMap_cons, List.flatMap_nil,
    hplain (not_infix_head h), hblank, hplain, List.nil_append, List.append_nil]

/-- The block is what the code ends in. -/
theorem Program.exists_text_eq_append (p : Program) (options : Options) :
    ∃ before, p.text options = before ++ textOf options.indent p.fromLines := by
  refine ⟨textOf options.indent (headerLines options.header ++ p.structLines options.visibility
    ++ [.blank] ++ p.implLines options.visibility ++ [.blank]), ?_⟩
  rw [← textOf_append]
  rfl

/-- **EVERY ELEMENT IS CONVERTED ONCE**, for every layout that is built and
    whatever is chosen about its code.  The block at the end of the code has a
    line for each element of more than one byte, entry by entry and in index
    order, under identifiers that tell the entries apart; single bytes have
    none.  So there are at most half as many lines as the record has bytes. -/
theorem converts_elements_once {rows : List Table.Row} {policy : OffsetPolicy} {layout : Layout}
    (h : Layout.ofRows rows policy = .ok layout) (name : String)
    (hname : ¬ "from_le".toList <:+: name.toList) (options : Options) :
    ∃ before block, (Program.ofLayout name layout).text options = before ++ block
      ∧ block = textOf options.indent (Program.ofLayout name layout).fromLines
      ∧ callLines block.toList = (layout.entries.flatMap callsOf).map String.toList
      ∧ (layout.entries.map fun e => identOf e.name).Nodup
      ∧ (callLines block.toList).length ≤ layout.width / 2
      ∧ (callLines block.toList).length ≤ 2 ^ 19 := by
  have hpacked := Layout.packed_of_ofRows h
  have hsign : ¬ callSign <:+: name.toList := by
    have hinside : "from_le".toList <:+: callSign := ⟨[':', ':'], ['('], rfl⟩
    exact fun hsign => hname (hinside.trans hsign)
  have hcalls : callLines (textOf options.indent (Program.ofLayout name layout).fromLines).toList
      = (layout.entries.flatMap callsOf).map String.toList := by
    have hnamed : ¬ callSign <:+: (Program.ofLayout name layout).name.toList := hsign
    rw [callLines_textOf, calls_fromLines hnamed, Program.assignments_ofLayout]
    exact calls_assignments options.indent fun e he =>
      ⟨(hpacked.sound e he).name, (hpacked.sound e he).count_pos⟩
  have hlength : 2 * (layout.entries.flatMap callsOf).length ≤ layout.width :=
    length_flatMap_callsOf layout.entries
  have hwidth : layout.width ≤ 2 ^ 20 := hpacked.width_le
  obtain ⟨before, hbefore⟩ := (Program.ofLayout name layout).exists_text_eq_append options
  refine ⟨before, _, hbefore, rfl, hcalls, distinct_of_packed hpacked, ?_, ?_⟩
  · rw [hcalls, List.length_map]
    omega
  · rw [hcalls, List.length_map]
    omega

/-- A number with a name that has to be escaped, a byte, and an array. -/
theorem converts_elements_once_escaped :
    Layout.ofRows [.field ⟨1, 0, .known .u16, "type", 1, ""⟩, .field ⟨2, 2, .known .u8, "tag", 4, ""⟩,
        .field ⟨3, 6, .known .u32, "pair", 2, ""⟩] .strict
      = .ok ⟨[.entry ⟨1, 0, 0, .u16, "type", 1, ""⟩, .entry ⟨2, 2, 2, .u8, "tag", 4, ""⟩,
          .entry ⟨3, 6, 6, .u32, "pair", 2, ""⟩]⟩
      ∧ callLines (textOf 4 (Program.ofLayout "from" ⟨[.entry ⟨1, 0, 0, .u16, "type", 1, ""⟩,
          .entry ⟨2, 2, 2, .u8, "tag", 4, ""⟩, .entry ⟨3, 6, 6, .u32, "pair", 2, ""⟩]⟩).fromLines).toList
        = ["raw.r#type = u16::from_le(raw.r#type);", "u32::from_le(raw.pair[0]),",
            "u32::from_le(raw.pair[1]),"].map String.toList := by
  have h : Layout.ofRows [.field ⟨1, 0, .known .u16, "type", 1, ""⟩,
      .field ⟨2, 2, .known .u8, "tag", 4, ""⟩, .field ⟨3, 6, .known .u32, "pair", 2, ""⟩] .strict
      = .ok ⟨[.entry ⟨1, 0, 0, .u16, "type", 1, ""⟩, .entry ⟨2, 2, 2, .u8, "tag", 4, ""⟩,
          .entry ⟨3, 6, 6, .u32, "pair", 2, ""⟩]⟩ := by decide
  obtain ⟨-, _, -, rfl, hcalls, -⟩ :=
    converts_elements_once h "from" (by decide) { indent := 4 }
  exact ⟨h, hcalls⟩

end PackedRecord.Code
