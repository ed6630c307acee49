import PackedRecord.Proofs.Record.Growth
import PackedRecord.Proofs.Table.Numbering

/-! # Numbers in layouts — what line numbers have no part in

    Entries, comments, findings and errors say on which line they stand.  The
    builder copies these numbers and never looks at them: places, names and
    sizes come out the same under any numbers (`itemsFrom_renumber`), and so do
    the findings.  Generated code has no line numbers at all
    (`ofLayout_renumber`).  Nor does the builder see blank rows. -/

namespace PackedRecord

open Outcome (rename rename_bind)
open Table (Field Row)

/-! ## Other numbers -/

namespace Layout

def Entry.renumber (number : Nat → Nat) (e : Entry) : Entry :=
  { e with line := number e.line }

def Item.renumber (number : Nat → Nat) : Item → Item
  | entry e => entry (e.renumber number)
  | comment line text => comment (number line) text

/-- The same layout of a table whose lines have other numbers. -/
def renumber (number : Nat → Nat) (layout : Layout) : Layout :=
  ⟨layout.items.map (Item.renumber number)⟩

def Finding.renumber (number : Nat → Nat) (f : Finding) : Finding :=
  { f with line := number f.line }

end Layout

/-- The same complaint about another line; all findings move with it. -/
def LayoutError.renumber (number : Nat → Nat) : LayoutError → LayoutError
  | unknownType line name spelling => unknownType (number line) name spelling
  | invalidName line name => invalidName (number line) name
  | nonPositiveCount line name count => nonPositiveCount (number line) name count
  | tooWide line name => tooWide (number line) name
  | duplicateName line name => duplicateName (number line) name
  | offsets findings => offsets (findings.map (Layout.Finding.renumber number))

namespace Layout

variable (number : Nat → Nat)

/-! ## Placing fields -/

/-- A field that is placed keeps its number, and so does its error. -/
theorem entryAt_renumber (start : Nat) (f : Field) :
    entryAt start (f.renumber number)
      = rename (Entry.renumber number) (LayoutError.renumber number) (entryAt start f) := by
  obtain ⟨line, offset, type, name, count, description⟩ := f
  cases type with
  | unknown spelling => rfl
  | known kind =>
      simp only [entryAt, Field.renumber, apply_ite (rename _ _)]
      rfl

/-- The fields before it do not matter either, since names have no numbers. -/
theorem nextEntry_renumber (start : Nat) (taken : List String) (f : Field) :
    nextEntry start taken (f.renumber number)
      = rename (Entry.renumber number) (LayoutError.renumber number)
          (nextEntry start taken f) := by
  rw [nextEntry, nextEntry, entryAt_renumber]
  refine (rename_bind fun e => ?_).symm
  rw [apply_ite (rename _ _), apply_ite (rename _ _)]
  rfl

/-- The rows are placed in the same way. -/
theorem itemsFrom_renumber (rows : List Row) :
    ∀ (start : Nat) (taken : List String),
      itemsFrom start taken (rows.map (Row.renumber number))
        = rename (List.map (Item.renumber number)) (LayoutError.renumber number)
            (itemsFrom start taken rows) := by
  induction rows with
  | nil =>
      intro start taken
      rfl
  | cons row rows ih =>
      intro start taken
      cases row with
      | blank => exact ih start taken
      | comment line text =>
          show itemsFrom start taken (rows.map _) >>= _
            = rename _ _ (itemsFrom start taken rows >>= _)
          rw [ih]
          refine (rename_bind fun items => ?_).symm
          rfl
      | field f =>
          show nextEntry start taken (f.renumber number) >>= _
            = rename _ _ (nextEntry start taken f >>= _)
          rw [nextEntry_renumber]
          refine (rename_bind fun e => ?_).symm
          show _ = itemsFrom e.stop (e.name :: taken) (rows.map _) >>= _
          rw [ih]
          exact rename_bind fun items => rfl

/-! ## Findings -/

/-- Gaps and overlaps do not depend on line numbers. -/
theorem contiguity_renumber (expected : Nat) (previous : Option String) (e : Entry) :
    contiguity expected previous (e.renumber number)
      = (contiguity expected previous e).map (Finding.renumber number) := by
  rw [contiguity, contiguity, apply_ite (List.map _), apply_ite (List.map _)]
  rfl

theorem alignment_renumber (e : Entry) :
    alignment (e.renumber number) = (alignment e).map (Finding.renumber number) := by
  rw [alignment, alignment, apply_ite (List.map _)]
  rfl

/-- Findings have the numbers of their entries. -/
theorem findingsFrom_renumber (entries : List Entry) :
    ∀ (expected : Nat) (previous : Option String),
      findingsFrom expected previous (entries.map (Entry.renumber number))
        = (findingsFrom expected previous entries).map (Finding.renumber number) := by
  induction entries with
  | nil =>
      intro expected previous
      rfl
  | cons e rest ih =>
      intro expected previous
      rw [List.map_cons, findingsFrom, findingsFrom, contiguity_renumber, alignment_renumber, ih,
        List.map_append, List.map_append]
      rfl

theorem entries_renumber (layout : Layout) :
    (layout.renumber number).entries = layout.entries.map (Entry.renumber number) := by
  rw [entries, entries, renumber, List.filterMap_map, List.map_filterMap]
  refine List.filterMap_congr fun item _ => ?_
  cases item <;> rfl

theorem findings_renumber (layout : Layout) :
    (layout.renumber number).findings = layout.findings.map (Finding.renumber number) := by
  rw [findings, entries_renumber, findingsFrom_renumber]
  rfl

theorem disagreements_renumber (layout : Layout) :
    (layout.renumber number).disagreements
      = layout.disagreements.map (Finding.renumber number) := by
  rw [disagreements, disagreements, findings_renumber, List.filter_map]
  rfl

/-- **NUMBERS ARE ONLY HANDED ON** when a layout is built, whatever becomes of
    findings. -/
theorem ofRows_renumber (rows : List Row) (policy : OffsetPolicy) :
    ofRows (rows.map (Row.renumber number)) policy
      = rename (renumber number) (LayoutError.renumber number) (ofRows rows policy) := by
  have hrows := itemsFrom_renumber number rows 0 []
  cases hitems : itemsFrom 0 [] rows with
  | error err =>
      rw [hitems] at hrows
      rw [ofRows_of_error policy hitems, ofRows_of_error policy hrows]
      rfl
  | ok items =>
      rw [hitems] at hrows
      rw [ofRows_of_ok policy hitems, ofRows_of_ok policy hrows]
      have hkept : disagreements ⟨items.map (Item.renumber number)⟩
          = (disagreements ⟨items⟩).map (Finding.renumber number) :=
        disagreements_renumber number ⟨items⟩
      rw [hkept, apply_ite (rename _ _)]
      simp only [ne_eq, List.map_eq_nil_iff]
      rfl

/-! ## Code -/

/-- The width has nothing to do with line numbers. -/
theorem width_renumber (layout : Layout) : (layout.renumber number).width = layout.width := by
  rw [width, width, entries_renumber]
  induction layout.entries with
  | nil => rfl
  | cons e rest ih =>
      rw [List.map_cons, bytesOfEntries_cons, bytesOfEntries_cons, ih]
      rfl

/-- Programs show no line number. -/
theorem ofLayout_renumber (name : String) (layout : Layout) :
    Code.Program.ofLayout name (layout.renumber number) = Code.Program.ofLayout name layout := by
  have hmembers : (layout.items.map (Item.renumber number)).map Code.Member.ofItem
      = layout.items.map Code.Member.ofItem := by
    rw [List.map_map]
    refine List.map_congr_left fun item _ => ?_
    cases item <;> rfl
  rw [Code.Program.ofLayout, width_renumber, Code.Program.ofLayout, renumber, hmembers]

/-! ## Blank rows -/

/-- A blank row among others makes no difference. -/
theorem ofRows_blank (rows rows' : List Row) (policy : OffsetPolicy) :
    ofRows (rows ++ .blank :: rows') policy = ofRows (rows ++ rows') policy := by
  have hitems : itemsFrom 0 [] (rows ++ .blank :: rows') = itemsFrom 0 [] (rows ++ rows') := by
    rw [itemsFrom_append, itemsFrom_append]
    rfl
  rw [ofRows, hitems, ofRows]

end Layout

end PackedRecord
