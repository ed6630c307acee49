import PackedRecord.Proofs.Code.Agreement
import PackedRecord.Proofs.Code.Tokens

/-! # Emitting — a program as a sequence of writes

    The text of a program is written by steps: a line is cut into pieces, loops
    run over the items of the layout, the entries and the elements of arrays,
    and some writes depend on what came before.  Every step hands a piece to a
    writer that may fail, and goes on only where it does not.  So whatever the
    writer does, emitting is to write some pieces one after another, and what
    they are the pieces of is the text (`writes_writeLayout`). -/

namespace PackedRecord.Code

namespace Emitter

variable {m : Type → Type} [Monad m] (put : String → m Unit) (options : Options)

/-- What a line of the given depth begins with. -/
def pad (depth : Nat) : String :=
  Text.spaces (options.indent * depth)

/-- Writes a line: its pieces, and the line feed. -/
def writeLine (pieces : List String) : m Unit := do
  forM pieces put
  put "\n"

/-- Writes a line where the condition holds. -/
def writeLineIf (c : Prop) [Decidable c] (pieces : List String) : m Unit :=
  if c then writeLine put pieces else pure ()

def writeHeader : Option String → m Unit
  | none => pure ()
  | some header => do
      forM (Text.lines header.toList) fun line => writeLine put ["// ", String.ofList line]
      writeLine put []

/-! ## The structure -/

/-- The items from the number `i` on; `afterComment` if the one before them is
    a comment. -/
def writeItems (i : Nat) (afterComment : Bool) : List Layout.Item → m Unit
  | [] => pure ()
  | .comment _ text :: rest => do
      writeLineIf put (0 < i) []
      writeLine put [pad options 1, "// ", text]
      writeItems (i + 1) true rest
  | .entry e :: rest => do
      writeLineIf put (afterComment = true) []
      writeLineIf put (e.description ≠ "") [pad options 1, "/// ", e.description]
      writeLine put [pad options 1, options.visibility.text, identOf e.name, ": ", e.shape.text,
        ", // ", toString e.offset, " - ", toString e.declaredEnd]
      writeItems (i + 1) false rest

def writeStruct (name : String) (layout : Layout) : m Unit := do
  writeLine put ["#[derive(Debug, Clone, Copy, PartialEq, Eq)]"]
  writeLine put [options.visibility.text, "struct ", name, " \x7b"]
  writeItems put options 0 false layout.items
  writeLine put ["\x7d"]

/-! ## Reading in host order -/

def writeReadings : List Layout.Entry → m Unit
  | [] => do
      writeLine put [pad options 2, "let _ = block;"]
      writeLine put [pad options 2, "Self \x7b\x7d"]
  | entries => do
      writeLine put [pad options 2, "Self \x7b"]
      forM entries fun e =>
        writeLine put [pad options 3, identOf e.name, ": ", (Reading.ofEntry e).text, ","]
      writeLine put [pad options 2, "\x7d"]

def writeWidthAndNative (name : String) (layout : Layout) : m Unit := do
  writeLine put ["impl ", name, " \x7b"]
  writeLine put [pad options 1, options.visibility.text, "const WIDTH: usize = ",
    toString layout.width, ";"]
  writeLine put []
  writeLine put [pad options 1,
    "/// Reads every field at its packed position in native byte order."]
  writeLine put [pad options 1, "fn from_native(block: &[u8; Self::WIDTH]) -> Self \x7b"]
  writeReadings put options layout.entries
  writeLine put [pad options 1, "\x7d"]
  writeLine put ["\x7d"]

/-! ## Conversions -/

def writeConversion (e : Layout.Entry) : m Unit :=
  if e.isArray then do
    writeLine put [pad options 2, "raw.", identOf e.name, " = ["]
    forM (List.range e.count) fun i =>
      writeLine put [pad options 3, e.kind.name, "::from_le(raw.", identOf e.name, "[",
        toString i, "]),"]
    writeLine put [pad options 2, "];"]
  else
    writeLine put [pad options 2, "raw.", identOf e.name, " = ", e.kind.name, "::from_le(raw.",
      identOf e.name, ");"]

/-- The conversion of the entries whose bytes have an order. -/
def writeConversions : List Layout.Entry → m Unit
  | [] => writeLine put [pad options 2, "Self::from_native(block)"]
  | swapped => do
      writeLine put [pad options 2, "let mut raw = Self::from_native(block);"]
      forM swapped (writeConversion put options)
      writeLine put [pad options 2, "raw"]

def writeFrom (name : String) (layout : Layout) : m Unit := do
  writeLine put ["impl From<&[u8; ", name, "::WIDTH]> for ", name, " \x7b"]
  writeLine put [pad options 1, "#[cfg(target_endian = \"little\")]"]
  writeLine put [pad options 1, "fn from(block: &[u8; Self::WIDTH]) -> Self \x7b"]
  writeLine put [pad options 2, "Self::from_native(block)"]
  writeLine put [pad options 1, "\x7d"]
  writeLine put []
  writeLine put [pad options 1, "#[cfg(target_endian = \"big\")]"]
  writeLine put [pad options 1, "fn from(block: &[u8; Self::WIDTH]) -> Self \x7b"]
  writeConversions put options (layout.entries.filter Layout.Entry.hasByteOrder)
  writeLine put [pad options 1, "\x7d"]
  writeLine put ["\x7d"]

def writeLayout (name : String) (layout : Layout) : m Unit := do
  writeHeader put options.header
  writeStruct put options name layout
  writeLine put []
  writeWidthAndNative put options name layout
  writeLine put []
  writeFrom put options name layout

/-! ## What is written -/

variable (indent : Nat)

/-- The step writes some pieces one after another, and they are the pieces of
    these lines. -/
def Writes (step : m Unit) (lines : List Line) : Prop :=
  ∃ pieces : List String, step = forM pieces put ∧ String.join pieces = textOf indent lines

variable {put indent}

theorem writes_nil : Writes put indent (pure ()) [] :=
  ⟨[], rfl, rfl⟩

variable [LawfulMonad m] {step step' : m Unit} {lines lines' : List Line}

/-- Pieces that make up a line, and the line feed, write that line. -/
theorem writes_line {pieces : List String} {line : Line}
    (h : String.join pieces = line.content indent) :
    Writes put indent (writeLine put pieces) [line] := by
  refine ⟨pieces ++ ["\n"], ?_, ?_⟩
  · simp [writeLine]
  · rw [String.join_append, h, textOf_singleton]
    rfl

/-- One step behind another writes the lines of both. -/
theorem Writes.append (h : Writes put indent step lines) (h' : Writes put indent step' lines') :
    Writes put indent (do step; step') (lines ++ lines') := by
  obtain ⟨pieces, rfl, htext⟩ := h
  obtain ⟨pieces', rfl, htext'⟩ := h'
  refine ⟨pieces ++ pieces', List.forM_append.symm, ?_⟩
  rw [String.join_append, htext, htext', textOf_append]

/-- A step behind a line. -/
theorem writes_cons {pieces : List String} {line : Line}
    (h : String.join pieces = line.content indent) (h' : Writes put indent step lines) :
    Writes put indent (do writeLine put pieces; step) (line :: lines) :=
  (writes_line h).append h'

/-- A loop writes the lines of its elements, one after another. -/
theorem writes_forM {α : Type} {f : α → m Unit} {g : α → List Line} {l : List α}
    (h : ∀ a ∈ l, Writes put indent (f a) (g a)) :
    Writes put indent (forM l f) (l.flatMap g) := by
  induction l with
  | nil => exact writes_nil
  | cons a l ih =>
      have hrest := ih fun b hb => h b (List.mem_cons_of_mem a hb)
      exact (h a List.mem_cons_self).append hrest

/-- A line that is written only on a condition. -/
theorem writes_lineIf {c : Prop} [Decidable c] {pieces : List String} {line : Line}
    (h : String.join pieces = line.content indent) :
    Writes put indent (writeLineIf put c pieces) (if c then [line] else []) := by
  rw [writeLineIf]
  by_cases hc : c
  · rw [if_pos hc, if_pos hc]
    exact writes_line h
  · rw [if_neg hc, if_neg hc]
    exact writes_nil

/-! ## Line by line -/

variable (put)

theorem writes_writeHeader (header : Option String) :
    Writes put indent (writeHeader put header) (headerLines header) := by
  cases header with
  | none => exact writes_nil
  | some header =>
      rw [headerLines, List.map_eq_flatMap]
      refine Writes.append (writes_forM fun line _ => writes_line ?_) (writes_line rfl)
      simp [Line.content, Text.spaces]

/-- A comment has a blank line above it unless it is the first item. -/
theorem separation_comment {i : Nat} {previous : Option Member}
    (h : 0 < i ↔ previous.isSome = true) (text : String) :
    separation previous (.comment text) = if 0 < i then [.blank] else [] := by
  rcases previous with _ | _ | _ <;> simp [separation, h]

/-- A field has a blank line above it only behind a comment. -/
theorem separation_field {afterComment : Bool} {previous : Option Member}
    (h : afterComment = true ↔ ∃ text, previous = some (.comment text)) (d : Declaration) :
    separation previous (.field d) = if afterComment = true then [.blank] else [] := by
  rcases previous with _ | _ | _ <;> simp [separation, h]

/-- What is put before an item depends only on whether there is one before it,
    and whether that one is a comment. -/
theorem writes_writeItems (items : List Layout.Item) :
    ∀ (i : Nat) (afterComment : Bool) (previous : Option Member),
      (0 < i ↔ previous.isSome = true) →
      (afterComment = true ↔ ∃ text, previous = some (.comment text)) →
      Writes put options.indent (writeItems put options i afterComment items)
        (membersLines options.visibility previous (items.map .ofItem)) := by
  induction items with
  | nil => exact fun _ _ _ _ _ => writes_nil
  | cons item rest ih =>
      intro i afterComment previous hfirst hcomment
      cases item with
      | comment line text =>
          have hrest := ih (i + 1) true (some (.comment text)) (by simp) (by simp)
          rw [List.map_cons, membersLines, Member.ofItem, separation_comment hfirst,
            List.append_assoc]
          refine (writes_lineIf ?_).append (writes_cons ?_ hrest)
          all_goals simp [Line.content, pad, String.append_assoc]
      | entry e =>
          have hrest := ih (i + 1) false (some (.field (.ofEntry e))) (by simp) (by simp)
          rw [List.map_cons, membersLines, Member.ofItem, separation_field hcomment,
            List.append_assoc, Member.lines_field, ← ite_not (_ = ""), List.append_assoc]
          have hremark : ", // " = "," ++ " // " := rfl
          refine (writes_lineIf ?_).append ((writes_lineIf ?_).append (writes_cons ?_ hrest))
          all_goals simp [Line.content, pad, Declaration.statement, Declaration.rangeText,
            Declaration.ofEntry, hremark, String.append_assoc]

/-- The structure is written with its members. -/
theorem writes_writeStruct (name : String) (layout : Layout) :
    Writes put options.indent (writeStruct put options name layout)
      ((Program.ofLayout name layout).structLines options.visibility) := by
  have hitems := writes_writeItems put options layout.items 0 false none (by simp) (by simp)
  refine writes_cons ?_ (writes_cons ?_ (hitems.append (writes_line ?_)))
  all_goals simp [Line.content, Text.spaces, Program.ofLayout, String.append_assoc]

/-- The constructor is written with an expression for every entry, in order. -/
theorem writes_writeReadings (name : String) (layout : Layout) :
    Writes put options.indent (writeReadings put options layout.entries)
      (Program.ofLayout name layout).nativeLines := by
  rw [Program.nativeLines, Program.declarations_ofLayout]
  cases layout.entries with
  | nil =>
      refine writes_cons ?_ (writes_line ?_)
      all_goals simp [Line.content, pad]
  | cons e rest =>
      have hfields : Writes put options.indent
          (forM (e :: rest) fun e =>
            writeLine put [pad options 3, identOf e.name, ": ", (Reading.ofEntry e).text, ","])
          (((e :: rest).map Declaration.ofEntry).map fun d =>
            .code 3 (d.ident ++ ": " ++ d.reading.text ++ ",")) := by
        rw [List.map_map, List.map_eq_flatMap]
        refine writes_forM fun e _ => writes_line ?_
        simp [Line.content, pad, Declaration.ofEntry, String.append_assoc]
      refine writes_cons ?_ (hfields.append (writes_line ?_))
      all_goals simp [Line.content, pad]

theorem writes_writeWidthAndNative (name : String) (layout : Layout) :
    Writes put options.indent (writeWidthAndNative put options name layout)
      ((Program.ofLayout name layout).implLines options.visibility) := by
  have hreadings := writes_writeReadings put options name layout
  refine writes_cons ?_ (writes_cons ?_ (writes_cons ?_ (writes_cons ?_ (writes_cons ?_
    (hreadings.append (writes_cons ?_ (writes_line ?_)))))))
  all_goals simp [Line.content, pad, Text.spaces, Program.ofLayout, String.append_assoc]

/-- The assignment of an entry whose bytes have an order. -/
theorem writes_writeConversion {e : Layout.Entry} {a : Assignment}
    (h : Assignment.ofEntry? e = some a) :
    Writes put options.indent (writeConversion put options e) a.lines := by
  have hopen : "::from_le(raw." = "::from_le(" ++ "raw." := rfl
  have hitem : "])," = "]" ++ (")" ++ ",") := rfl
  have hclose : ");" = ")" ++ ";" := rfl
  rw [Assignment.ofEntry?] at h
  split at h
  · by_cases harray : e.isArray = true
    · have hshape : e.shape = .array e.kind e.count := if_pos harray
      rw [hshape] at h
      obtain rfl := Option.some.inj h
      rw [writeConversion, if_pos harray, Assignment.lines, List.map_map, List.map_eq_flatMap]
      refine writes_cons ?_ (Writes.append (writes_forM fun i _ => writes_line ?_) (writes_line ?_))
      all_goals simp only [String.join_cons, String.join_nil, String.append_empty,
        String.append_assoc, Function.comp_apply, Line.content, pad, Conversion.text, Place.text,
        hopen, hitem]
    · have hshape : e.shape = .single e.kind := if_neg harray
      rw [hshape] at h
      obtain rfl := Option.some.inj h
      rw [writeConversion, if_neg harray, Assignment.lines]
      refine writes_line ?_
      simp only [String.join_cons, String.join_nil, String.append_empty, String.append_assoc,
        Line.content, pad, Conversion.text, Place.text, hopen, hclose]
  · cases h

theorem isSome_ofEntry? (e : Layout.Entry) :
    (Assignment.ofEntry? e).isSome = e.hasByteOrder := by
  rw [Assignment.ofEntry?]
  cases horder : e.hasByteOrder with
  | false => rfl
  | true => cases e.shape <;> rfl

/-- Just the entries whose bytes have an order are assigned anew. -/
theorem writes_forM_writeConversion (entries : List Layout.Entry) :
    Writes put options.indent
      (forM (entries.filter Layout.Entry.hasByteOrder) (writeConversion put options))
      ((entries.filterMap Assignment.ofEntry?).flatMap Assignment.lines) := by
  induction entries with
  | nil => exact writes_nil
  | cons e rest ih =>
      have horder := isSome_ofEntry? e
      cases ha : Assignment.ofEntry? e with
      | none =>
          rw [ha] at horder
          rw [List.filter_cons_of_neg (by simp [← horder]), List.filterMap_cons_none ha]
          exact ih
      | some a =>
          rw [ha] at horder
          rw [List.filter_cons_of_pos horder.symm, List.filterMap_cons_some ha]
          exact (writes_writeConversion put options ha).append ih

/-- Nothing is to be converted just if nothing is assigned. -/
theorem filter_eq_nil_iff (entries : List Layout.Entry) :
    entries.filter Layout.Entry.hasByteOrder = []
      ↔ entries.filterMap Assignment.ofEntry? = [] := by
  rw [List.filter_eq_nil_iff, List.filterMap_eq_nil_iff]
  refine forall₂_congr fun e _ => ?_
  rw [← isSome_ofEntry?, Option.not_isSome_iff_eq_none]

/-- The conversion on a big-endian host is written with its assignments. -/
theorem writes_writeConversions (name : String) (layout : Layout) :
    Writes put options.indent
      (writeConversions put options (layout.entries.filter Layout.Entry.hasByteOrder))
      (Program.ofLayout name layout).convertLines := by
  have hall := writes_forM_writeConversion put options layout.entries
  have hnil := filter_eq_nil_iff layout.entries
  rw [Program.convertLines, Program.assignments_ofLayout]
  cases hswapped : layout.entries.filter Layout.Entry.hasByteOrder with
  | nil =>
      rw [hnil.mp hswapped]
      refine writes_line ?_
      simp [Line.content, pad]
  | cons e rest =>
      rw [hswapped] at hall hnil
      obtain ⟨a, others, ha⟩ :=
        List.exists_cons_of_ne_nil fun h => List.cons_ne_nil e rest (hnil.mpr h)
      rw [ha] at hall ⊢
      refine writes_cons ?_ (hall.append (writes_line ?_))
      all_goals simp [Line.content, pad]

theorem writes_writeFrom (name : String) (layout : Layout) :
    Writes put options.indent (writeFrom put options name layout)
      (Program.ofLayout name layout).fromLines := by
  have hconversions := writes_writeConversions put options name layout
  refine writes_cons ?_ (writes_cons ?_ (writes_cons ?_ (writes_cons ?_ (writes_cons ?_
    (writes_cons ?_ (writes_cons ?_ (writes_cons ?_
      (hconversions.append (writes_cons ?_ (writes_line ?_))))))))))
  all_goals simp [Line.content, pad, Text.spaces, Program.ofLayout, String.append_assoc]

/-- **A PROGRAM IS WRITTEN PIECE BY PIECE**: whatever a writer does with a
    piece, emitting is to hand it the pieces of the text. -/
theorem writes_writeLayout (name : String) (layout : Layout) :
    Writes put options.indent (writeLayout put options name layout)
      ((Program.ofLayout name layout).lines options) := by
  have hstruct := writes_writeStruct put options name layout
  have hnative := writes_writeWidthAndNative put options name layout
  have hfrom := writes_writeFrom put options name layout
  have hblank : String.join [] = Line.blank.content options.indent := rfl
  rw [Program.lines]
  simp only [List.append_assoc]
  exact (writes_writeHeader put options.header).append
    (hstruct.append (writes_cons hblank (hnative.append (writes_cons hblank hfrom))))

end Emitter

end PackedRecord.Code
