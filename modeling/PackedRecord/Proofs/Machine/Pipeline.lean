import PackedRecord.Proofs.Stages
import PackedRecord.Proofs.Machine.Emitting
import PackedRecord.Proofs.Table.Literals

/-! # The pipeline on a machine — from a text to findings or code

    Tables are matched against their grammar, layouts are built, linted and
    emitted in words, and every step that a machine cannot take is a fault.
    The pipeline without words never takes such a step: on every text the
    machine answers what it answers, and on rows that do not come from a text
    as long as they fit. -/

namespace PackedRecord.Machine

open Layout.Words (Progress)
open Table (Row)

def load (source : String) (policy : OffsetPolicy) : Except (Stop CompileError) Progress := do
  let rows ← (Table.Grammar.read source).mapError (Stop.map CompileError.table)
  (build rows policy).mapError (Stop.map CompileError.layout)

def compile (name source : String) (policy : OffsetPolicy) (options : Code.Options) :
    Except (Stop CompileError) String := do
  let p ← load source policy
  let program ← emit name p
  return program.text options

def lint (source : String) : Except (Stop CompileError) (List Report) := do
  let p ← load source .ignore
  reports p

/-- Rows are refused by the machine as they are without words, or they make a
    layout of exact words that can be linted and emitted. -/
def Faultless (name : String) (rows : List Row) (policy : OffsetPolicy) : Prop :=
  match Layout.ofRows rows policy with
  | .error err => build rows policy = .error (.refusal err)
  | .ok layout =>
      ∃ p, build rows policy = .ok p ∧ p.layout = layout ∧ p.Exact
        ∧ (reports p : Except (Stop CompileError) _)
          = .ok (layout.findings.map Report.ofFinding)
        ∧ (emit name p : Except (Stop CompileError) _)
          = .ok (Code.Program.ofLayout name layout)

/-- Rows that fit are built, linted and emitted without a fault. -/
theorem faultless_of_fits (name : String) {rows : List Row} (hfits : ∀ row ∈ rows, row.Fits)
    (policy : OffsetPolicy) : Faultless name rows policy := by
  rw [Faultless]
  rcases build_cases hfits policy with ⟨err, hbuild, hrows⟩ | ⟨p, hbuild, hrows, hexact⟩
  · rw [hrows]
    exact hbuild
  · rw [hrows]
    exact ⟨p, hbuild, rfl, hexact, reports_eq CompileError hexact,
      emit_eq hexact (Layout.packed_of_ofRows hrows) name⟩

/-- A text is refused for the reason for which it always is, or its layout is
    built of exact words. -/
theorem load_cases (source : String) (policy : OffsetPolicy) :
    (∃ err, load source policy = .error (.refusal err)
        ∧ PackedRecord.load source policy = .error err)
      ∨ ∃ p, load source policy = .ok p ∧ PackedRecord.load source policy = .ok p.layout
        ∧ p.Exact ∧ Layout.Packed p.layout := by
  rw [load, PackedRecord.load_eq, Table.grammar_read_eq, ← Table.read_eq_readPlainly]
  cases hread : Table.read source with
  | error err => exact Or.inl ⟨.table err, rfl, rfl⟩
  | ok rows =>
      rcases build_cases (Table.fits_of_read hread) policy with
        ⟨err, hbuild, hrows⟩ | ⟨p, hbuild, hrows, hexact⟩
      · refine Or.inl ⟨.layout err, ?_, ?_⟩
        · show (build rows policy).mapError (Stop.map CompileError.layout) = _
          rw [hbuild]
          rfl
        · show (Layout.ofRows rows policy).mapError CompileError.layout = _
          rw [hrows]
          rfl
      · refine Or.inr ⟨p, ?_, ?_, hexact, Layout.packed_of_ofRows hrows⟩
        · show (build rows policy).mapError (Stop.map CompileError.layout) = _
          rw [hbuild]
          rfl
        · show (Layout.ofRows rows policy).mapError CompileError.layout = _
          rw [hrows]
          rfl

/-- On every text the machine compiles what is compiled without words. -/
theorem compile_eq (name source : String) (policy : OffsetPolicy) (options : Code.Options) :
    compile name source policy options
      = (PackedRecord.compile name source policy options).mapError .refusal := by
  rw [compile, PackedRecord.compile_eq]
  rcases load_cases source policy with ⟨err, hload, hplain⟩ | ⟨p, hload, hplain, hexact, hpacked⟩
  · rw [hload, hplain]
    rfl
  · rw [hload, hplain]
    show emit name p >>= _ = _
    rw [emit_eq hexact hpacked name]
    rfl

/-- On every text the machine finds what is found without words. -/
theorem lint_eq (source : String) :
    lint source
      = ((PackedRecord.lint source).map fun findings =>
          findings.map Report.ofFinding).mapError .refusal := by
  rw [lint, PackedRecord.lint_eq]
  rcases load_cases source .ignore with ⟨err, hload, hplain⟩ | ⟨p, hload, hplain, hexact, -⟩
  · rw [hload, hplain]
    rfl
  · rw [hload, hplain]
    exact reports_eq CompileError hexact

/-- **NOTHING FAULTS**: every text is matched, has no more rows than can be
    counted and has a cell in every row; compiling and linting on a machine
    answer what they answer without words; and so do building, linting and
    emitting rows of any offsets and counts. -/
theorem nothing_faults (name source : String) (policy : OffsetPolicy) (options : Code.Options) :
    (∃ tree, (Table.Grammar.parse Table.Grammar.table source.toList
          : Except (Stop Table.ReadError) _) = .ok tree
        ∧ (Table.Grammar.rowsOf tree).length ≤ source.length + 1
        ∧ ∀ cells ∈ Table.Grammar.rowsOf tree, cells ≠ [])
      ∧ compile name source policy options
        = (PackedRecord.compile name source policy options).mapError .refusal
      ∧ lint source
        = ((PackedRecord.lint source).map fun findings =>
            findings.map Report.ofFinding).mapError .refusal
      ∧ ∀ rows : List Row, (∀ row ∈ rows, row.Fits) → Faultless name rows policy := by
  refine ⟨⟨_, Table.parse_table source.toList, ?_, ?_⟩,
    compile_eq name source policy options, lint_eq source,
    fun rows hfits => faultless_of_fits name hfits policy⟩
  · rw [Table.rowsOf_tree, List.length_map, ← String.length_toList]
    exact Text.length_splitOn_le '\n' source.toList
  · intro cells hcells
    rw [Table.rowsOf_tree] at hcells
    obtain ⟨line, -, rfl⟩ := List.mem_map.mp hcells
    exact Table.plainCells_ne_nil line

/-- A field that ends at the last word, and one that starts inside it. -/
theorem nothing_faults_last_word :
    Layout.ofRows [.field ⟨1, 2 ^ 64 - 2, .known .u8, "a", 1, ""⟩,
          .field ⟨2, 3, .known .u32, "b", 1, ""⟩] .warn
        = .ok ⟨[.entry ⟨1, 2 ^ 64 - 2, 0, .u8, "a", 1, ""⟩, .entry ⟨2, 3, 1, .u32, "b", 1, ""⟩]⟩
      ∧ Faultless "R" [.field ⟨1, 2 ^ 64 - 2, .known .u8, "a", 1, ""⟩,
          .field ⟨2, 3, .known .u32, "b", 1, ""⟩] .warn := by
  refine ⟨by decide, (nothing_faults "R" "" .warn {}).2.2.2 _ ?_⟩
  refine List.forall_mem_cons.mpr ⟨⟨by decide, by decide, by decide⟩, ?_⟩
  exact List.forall_mem_singleton.mpr ⟨by decide, by decide, by decide⟩

end PackedRecord.Machine
