import PackedRecord.Proofs.Layout.Contiguity
import PackedRecord.Proofs.Machine.Linting

/-! # Building on a machine — the running width as a sum that can fault

    The loop on words looks before it adds to the running width.  Here it adds
    first and looks at the sum, so that a sum that is no word would be a fault.
    The width and every length stay below the limit of records, and two numbers
    below it have a sum.  The linter goes over what was built, unless nobody
    asks for it. -/

namespace PackedRecord.Machine

open Layout (widthLimit)
open Layout.Words (Mark Progress Slot limit slotAt)
open Table (Row)

/-! ## The loop -/

def step (p : Progress) : Row → Except (Stop LayoutError) Progress
  | .blank => .ok p
  | .comment line text => .ok { p with marks := p.marks ++ [.comment line text] }
  | .field f => do
      let s ← (slotAt p.width f).mapError .refusal
      if s.name ∈ p.names then .error (.refusal (.duplicateName s.line s.name))
      else
        let width ← sum p.width s.byteLength
        if width ≤ limit then
          .ok { marks := p.marks ++ [.slot s], width, names := s.name :: p.names }
        else .error (.refusal (.tooWide s.line s.name))

def run (rows : List Row) : Except (Stop LayoutError) Progress :=
  rows.foldlM step Layout.Words.start

/-- The slot of a mark that holds one. -/
def slot? : Mark → Option Slot
  | .slot s => some s
  | .comment .. => none

def slotsOf (p : Progress) : List Slot :=
  p.marks.filterMap slot?

def reports {ε : Type} (p : Progress) : Except (Stop ε) (List Report) :=
  reportsFrom 0 none (slotsOf p)

/-- Builds the layout of rows and sees to their offsets. -/
def build (rows : List Row) (policy : OffsetPolicy) : Except (Stop LayoutError) Progress := do
  let p ← run rows
  match policy with
  | .ignore => return p
  | .warn => do
      let _ ← reports p
      return p
  | .strict => do
      let found ← reports p
      let disagreements := (found.map (·.finding)).filter (·.disagrees)
      if disagreements ≠ [] then .error (.refusal (.offsets disagreements)) else return p

/-! ## The running width -/

/-- No slot that is made is longer than the largest record. -/
theorem byteLength_le {position : UInt64} {f : Table.Field} {s : Slot}
    (h : slotAt position f = .ok s) : s.byteLength.toNat ≤ widthLimit := by
  rw [slotAt] at h
  split at h
  · exact absurd h Outcome.error_ne_ok
  split at h
  · exact absurd h Outcome.error_ne_ok
  split at h
  · exact absurd h Outcome.error_ne_ok
  · next count _ =>
      rcases Layout.Words.lengthWord?_cases ‹_› count (UInt64.ofNat f.offset) with
        ⟨hnone, -⟩ | ⟨length, hlength, -, hle, -⟩
      · rw [hnone] at h
        exact absurd h Outcome.error_ne_ok
      · rw [hlength] at h
        obtain rfl := Except.ok.inj h
        exact hle

/-- Two lengths within the limit have a sum, and looking before adding is
    looking at the sum. -/
theorem exists_width {width length : UInt64} (hwidth : width.toNat ≤ widthLimit)
    (hlength : length.toNat ≤ widthLimit) :
    ∃ next, (sum width length : Except (Stop LayoutError) UInt64) = .ok next
      ∧ Layout.Words.widthWord? width length = if next ≤ limit then some next else none := by
  have hlimit : widthLimit = 2 ^ 20 := rfl
  have hsum : width.toNat + length.toNat < 2 ^ 64 := by omega
  refine ⟨width + length, if_pos hsum, ?_⟩
  rw [Layout.Words.widthWord?, Layout.Words.sum?, if_pos hsum]

/-- One turn of the loop: what the loop on words does, and the width stays
    within the limit. -/
theorem step_eq {p : Progress} (hwidth : p.width.toNat ≤ widthLimit) (row : Row) :
    step p row = (Layout.Words.step p row).mapError .refusal
      ∧ ∀ q, Layout.Words.step p row = .ok q → q.width.toNat ≤ widthLimit := by
  cases row with
  | blank =>
      refine ⟨rfl, fun q hq => ?_⟩
      obtain rfl := Except.ok.inj hq
      exact hwidth
  | comment line text =>
      refine ⟨rfl, fun q hq => ?_⟩
      obtain rfl := Except.ok.inj hq
      exact hwidth
  | field f =>
      rw [step, Layout.Words.step]
      cases hslot : slotAt p.width f with
      | error err => exact ⟨rfl, fun q hq => absurd hq Outcome.error_ne_ok⟩
      | ok s =>
          obtain ⟨next, hsum, hword⟩ := exists_width hwidth (byteLength_le hslot)
          show (if s.name ∈ p.names then _ else sum p.width s.byteLength >>= _)
              = (if s.name ∈ p.names then _ else _ : Except _ _).mapError _
            ∧ ∀ q, (if s.name ∈ p.names then _ else _) = _ → _
          by_cases hname : s.name ∈ p.names
          · rw [if_pos hname, if_pos hname]
            exact ⟨rfl, fun q hq => absurd hq Outcome.error_ne_ok⟩
          rw [if_neg hname, if_neg hname, hsum, hword]
          by_cases hfits : next ≤ limit
          · rw [if_pos hfits]
            refine ⟨if_pos hfits, fun q hq => ?_⟩
            obtain rfl := Except.ok.inj hq
            exact UInt64.le_iff_toNat_le.mp hfits
          · rw [if_neg hfits]
            exact ⟨if_neg hfits, fun q hq => absurd hq Outcome.error_ne_ok⟩

/-- On rows that are still below the limit, the loop that adds first answers
    like the one that looks first. -/
theorem foldlM_step_eq (rows : List Row) :
    ∀ {p : Progress}, p.width.toNat ≤ widthLimit →
      rows.foldlM step p = (rows.foldlM Layout.Words.step p).mapError .refusal := by
  induction rows with
  | nil => exact fun _ => rfl
  | cons row rows ih =>
      intro p hwidth
      obtain ⟨hstep, hkeeps⟩ := step_eq hwidth row
      rw [List.foldlM_cons, List.foldlM_cons, hstep]
      cases hq : Layout.Words.step p row with
      | error err => rfl
      | ok q => exact ih (hkeeps q hq)

/-- No list of rows makes the loop fault. -/
theorem run_eq (rows : List Row) : run rows = (Layout.Words.run rows).mapError .refusal :=
  foldlM_step_eq rows (Nat.zero_le _)

/-! ## Layouts -/

theorem entries_layout (p : Progress) : p.layout.entries = (slotsOf p).map Slot.entry := by
  show (p.marks.map Mark.item).filterMap Layout.Item.entry? = (p.marks.filterMap slot?).map _
  rw [List.filterMap_map, List.map_filterMap]
  refine List.filterMap_congr fun mark _ => ?_
  cases mark <;> rfl

theorem exact_of_mem_slotsOf {p : Progress} (h : p.Exact) : ∀ s ∈ slotsOf p, s.Exact := by
  intro s hs
  obtain ⟨mark, hmark, hslot⟩ := List.mem_filterMap.mp hs
  cases mark with
  | comment line text => exact nomatch hslot
  | slot t =>
      obtain rfl := Option.some.inj hslot
      exact h.slots t hmark

/-- What the machine reports of an exact record are the findings of its layout. -/
theorem reports_eq (ε : Type) {p : Progress} (h : p.Exact) :
    (reports p : Except (Stop ε) _) = .ok (p.layout.findings.map Report.ofFinding) := by
  rw [reports, reportsFrom_eq (exact_of_mem_slotsOf h) (fun _ => rfl), Layout.findings,
    entries_layout]
  rfl

/-- Rows are refused for the reason for which they always are, or the layout
    that they make is built of exact words. -/
theorem build_cases {rows : List Row} (hfits : ∀ row ∈ rows, row.Fits) (policy : OffsetPolicy) :
    (∃ err, build rows policy = .error (.refusal err)
        ∧ Layout.ofRows rows policy = .error err)
      ∨ ∃ p, build rows policy = .ok p ∧ Layout.ofRows rows policy = .ok p.layout ∧ p.Exact := by
  have hrun := run_eq rows
  rcases Layout.Words.foldlM_step hfits Layout.Words.start_exact with ⟨err, hwords, hitems⟩
    | ⟨p, items, hwords, hexact, hitems, hmarks⟩
  · rw [show Layout.Words.run rows = .error err from hwords] at hrun
    refine Or.inl ⟨err, ?_, Layout.ofRows_of_error policy hitems⟩
    rw [build, hrun]
    rfl
  · rw [show Layout.Words.run rows = .ok p from hwords] at hrun
    obtain rfl : p.layout.items = items := hmarks
    have hrows := Layout.ofRows_of_ok policy hitems
    rw [← Layout.filter_disagrees] at hrows
    have hreports := reports_eq LayoutError hexact
    have hfindings : (p.layout.findings.map Report.ofFinding).map (·.finding)
        = p.layout.findings := by
      rw [List.map_map]
      exact List.map_id _
    cases policy with
    | ignore =>
        refine Or.inr ⟨p, ?_, hrows, hexact⟩
        rw [build, hrun]
        rfl
    | warn =>
        refine Or.inr ⟨p, ?_, hrows, hexact⟩
        rw [build, hrun]
        show reports p >>= _ = _
        rw [hreports]
        rfl
    | strict =>
        have hbuild : build rows .strict
            = if p.layout.findings.filter (·.disagrees) ≠ [] then
                .error (.refusal (.offsets (p.layout.findings.filter (·.disagrees))))
              else .ok p := by
          rw [build, hrun]
          show reports p >>= _ = _
          rw [hreports]
          show (if ((p.layout.findings.map Report.ofFinding).map (·.finding)).filter _ ≠ [] then _
            else _) = _
          rw [hfindings]
          rfl
        by_cases hnone : p.layout.findings.filter (·.disagrees) ≠ []
        · rw [if_pos hnone] at hbuild
          rw [if_pos ⟨rfl, hnone⟩] at hrows
          exact Or.inl ⟨_, hbuild, hrows⟩
        · rw [if_neg hnone] at hbuild
          rw [if_neg fun h => hnone h.2] at hrows
          exact Or.inr ⟨p, hbuild, hrows, hexact⟩

/-- **A LAYOUT THAT IS BUILT IS BUILT WITHOUT A FAULT**, with nothing wrapped. -/
theorem exists_build_of_ofRows {rows : List Row} {policy : OffsetPolicy} {layout : Layout}
    (h : Layout.ofRows rows policy = .ok layout) (hfits : ∀ row ∈ rows, row.Fits) :
    ∃ p, build rows policy = .ok p ∧ p.layout = layout ∧ p.Exact := by
  rcases build_cases hfits policy with ⟨err, -, hrows⟩ | ⟨p, hbuild, hrows, hexact⟩
  · exact absurd (h.symm.trans hrows) Outcome.ok_ne_error
  · exact ⟨p, hbuild, Except.ok.inj (hrows.symm.trans h), hexact⟩

end PackedRecord.Machine
