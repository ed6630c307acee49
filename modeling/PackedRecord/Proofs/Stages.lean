import PackedRecord.Compile
import PackedRecord.Proofs.Outcomes

/-! # Stages — the pipeline without its events

    The stages report events on their way.  What they return does not depend
    on these, and is said here once: a table is read, its rows are placed, and
    the layout becomes findings or code. -/

namespace PackedRecord

open Table (Row)

/-- A table is read, and then its rows are placed. -/
theorem load_eq (source : String) (policy : OffsetPolicy) :
    load source policy
      = (Table.read source).mapError CompileError.table >>= fun rows =>
          (Layout.ofRows rows policy).mapError CompileError.layout := by
  simp only [load, loadTraced, Table.readTraced]
  cases Table.read source with
  | error e => rfl
  | ok rows =>
      simp only [Layout.ofRowsTraced]
      show _ = (Layout.ofRows rows policy).mapError CompileError.layout
      cases Layout.ofRows rows policy <;> rfl

/-- A layout that is loaded is that of the rows of the table. -/
theorem exists_rows_of_load {source : String} {policy : OffsetPolicy} {layout : Layout}
    (h : load source policy = .ok layout) :
    ∃ rows, Table.read source = .ok rows ∧ Layout.ofRows rows policy = .ok layout := by
  rw [load_eq] at h
  obtain ⟨rows, hrows, hlayout⟩ := Outcome.of_bind_ok h
  exact ⟨rows, Outcome.of_mapError_ok hrows, Outcome.of_mapError_ok hlayout⟩

/-- The linter looks at the layout that is built without a check. -/
theorem lint_eq (source : String) :
    lint source = (load source .ignore).map Layout.findings := rfl

theorem compile_eq (name source : String) (policy : OffsetPolicy) (options : Code.Options) :
    compile name source policy options
      = (load source policy).map fun layout =>
          (Code.Program.ofLayout name layout).text options := rfl

/-- A text is the code of the layout that the rows of the table make. -/
theorem compile_eq_ok_iff {name source : String} {policy : OffsetPolicy} {options : Code.Options}
    {text : String} :
    compile name source policy options = .ok text
      ↔ ∃ rows layout, Table.read source = .ok rows ∧ Layout.ofRows rows policy = .ok layout
          ∧ text = (Code.Program.ofLayout name layout).text options := by
  rw [compile_eq]
  constructor
  · intro h
    obtain ⟨layout, hload, rfl⟩ := Outcome.of_map_ok h
    obtain ⟨rows, hrows, hlayout⟩ := exists_rows_of_load hload
    exact ⟨rows, layout, hrows, hlayout, rfl⟩
  · rintro ⟨rows, layout, hrows, hlayout, rfl⟩
    rw [load_eq, hrows]
    show ((Layout.ofRows rows policy).mapError CompileError.layout).map _ = _
    rw [hlayout]
    rfl

end PackedRecord
