import PackedRecord.Proofs.Layout.Packed
import PackedRecord.Proofs.Stages

/-! # Contiguity — declared offsets against packed positions

    A finding compares the offset of an entry with the end that the entry
    before it declares.  A strict check promises something else, that every
    entry stands where it is packed.  The heart is `disagreementsFrom_run`: as
    long as every entry so far is in place, the declared end of the last one
    is the packed start of the next.  So entries in place are passed without a
    finding, and the first entry out of place is the first to be found; a
    table that drifts back into step later cannot take that finding back. -/

namespace PackedRecord

namespace Layout

open Table (Field Row)

/-- A gap or an overlap. -/
def Finding.BreaksContiguity (f : Finding) : Prop :=
  f.cause.rule = "gap" ∨ f.cause.rule = "overlap"

instance (f : Finding) : Decidable f.BreaksContiguity :=
  inferInstanceAs (Decidable (_ ∨ _))

/-- The gaps and overlaps among the findings, in order. -/
def disagreements (layout : Layout) : List Finding :=
  layout.findings.filter fun f => f.BreaksContiguity

/-- The entry stands where its offset says. -/
def Entry.InPlace (e : Entry) : Prop :=
  e.offset = e.start

instance (e : Entry) : Decidable e.InPlace :=
  inferInstanceAs (Decidable (_ = _))

/-- What is found about an entry that is out of place, when every entry
    before it is in place. -/
def Entry.displacement (previous : Option String) (e : Entry) : Finding where
  line := e.line
  cause :=
    if e.start < e.offset then .gap e.name e.offset previous e.start
    else .overlap e.name e.offset previous e.start

/-- The name of the last entry, if there is one. -/
def lastName? (entries : List Entry) : Option String :=
  entries.getLast?.map (·.name)

/-- The check picks the findings about gaps and overlaps, and no others. -/
theorem disagrees_iff (f : Finding) : f.disagrees = true ↔ f.BreaksContiguity := by
  obtain ⟨line, cause⟩ := f
  cases cause <;> simp [Finding.disagrees, Finding.BreaksContiguity, Cause.disagrees, Cause.rule]

/-- What a check mentions are the disagreements of the layout. -/
theorem filter_disagrees (layout : Layout) :
    layout.findings.filter (·.disagrees) = layout.disagreements := by
  refine List.filter_congr fun f _ => ?_
  rw [Bool.eq_iff_iff, disagrees_iff, decide_eq_true_iff]

/-! ## One entry -/

theorem contiguity_of_eq {expected : Nat} (previous : Option String) {e : Entry}
    (h : e.offset = expected) : contiguity expected previous e = [] := by
  rw [contiguity, if_neg (by omega), if_neg (by omega)]

/-- An entry that is expected at its packed position, but declared elsewhere, is
    displaced. -/
theorem contiguity_start {e : Entry} (h : ¬ e.InPlace) (previous : Option String) :
    contiguity e.start previous e = [e.displacement previous] := by
  have hne : e.offset ≠ e.start := h
  rw [contiguity, Entry.displacement]
  by_cases hgap : e.start < e.offset
  · rw [if_pos hgap, if_pos hgap]
  · rw [if_neg hgap, if_neg hgap, if_pos (by omega)]

theorem displacement_breaksContiguity (previous : Option String) (e : Entry) :
    (e.displacement previous).BreaksContiguity := by
  simp only [Finding.BreaksContiguity, Entry.displacement]
  split
  · exact Or.inl rfl
  · exact Or.inr rfl

/-- No misalignment is a gap or an overlap. -/
theorem filter_alignment (e : Entry) :
    (alignment e).filter (fun f => f.BreaksContiguity) = [] := by
  rw [alignment]
  split <;> rfl

/-! ## The chain of entries -/

/-- The gaps and overlaps of a run of entries. -/
def disagreementsFrom (expected : Nat) (previous : Option String) (entries : List Entry) :
    List Finding :=
  (findingsFrom expected previous entries).filter fun f => f.BreaksContiguity

/-- Disagreements are found entry by entry, and each entry hands its declared
    end to the next. -/
theorem disagreementsFrom_cons (expected : Nat) (previous : Option String) (e : Entry)
    (rest : List Entry) :
    disagreementsFrom expected previous (e :: rest)
      = (contiguity expected previous e).filter (fun f => f.BreaksContiguity)
        ++ disagreementsFrom e.declaredEnd (some e.name) rest := by
  rw [disagreementsFrom, findingsFrom, List.filter_append, List.filter_append, filter_alignment,
    List.append_nil]
  rfl

theorem lastName?_cons (d : Entry) (before : List Entry) :
    lastName? (d :: before) = (lastName? before).or (some d.name) := by
  cases before with
  | nil => rfl
  | cons e before => simp [lastName?, List.getLast?_cons]

/-- An entry in place is passed, and expects the next at its packed end. -/
theorem disagreementsFrom_cons_of_inPlace {e : Entry} (h : e.InPlace)
    (previous : Option String) (rest : List Entry) :
    disagreementsFrom e.start previous (e :: rest)
      = disagreementsFrom e.stop (some e.name) rest := by
  have hoffset : e.offset = e.start := h
  have hend : e.declaredEnd = e.stop := congrArg (· + e.size) hoffset
  rw [disagreementsFrom_cons, contiguity_of_eq previous hoffset, hend]
  rfl

/-- Entries in place are passed without a finding, and the next entry is then
    expected where it is packed. -/
theorem disagreementsFrom_run {before : List Entry} (hplace : ∀ d ∈ before, d.InPlace) :
    ∀ {start : Nat} {rest : List Entry} (previous : Option String),
      BackToBack start (before ++ rest) →
      disagreementsFrom start previous (before ++ rest)
        = disagreementsFrom (start + bytesOfEntries before)
            ((lastName? before).or previous) rest := by
  induction before with
  | nil => exact fun _ _ => rfl
  | cons d before ih =>
      intro start rest previous h
      obtain ⟨rfl, hrest⟩ := (backToBack_cons start d _).mp h
      have hd : d.InPlace := hplace d List.mem_cons_self
      have hbefore : ∀ e ∈ before, e.InPlace :=
        fun e he => hplace e (List.mem_cons_of_mem d he)
      have hstop : d.stop = d.start + d.size := rfl
      rw [List.cons_append, disagreementsFrom_cons_of_inPlace hd, ih hbefore _ hrest, lastName?_cons,
        Option.or_assoc, Option.some_or, bytesOfEntries_cons, hstop, Nat.add_assoc]

/-- Among entries back to back, the first one out of place is found first. -/
theorem disagreementsFrom_of_first {before : List Entry} {e : Entry} {after : List Entry}
    (h : BackToBack 0 (before ++ e :: after)) (hplace : ∀ d ∈ before, d.InPlace)
    (he : ¬ e.InPlace) :
    ∃ others, disagreementsFrom 0 none (before ++ e :: after)
      = e.displacement (lastName? before) :: others := by
  have hstart : 0 + bytesOfEntries before = e.start := h.start_eq.symm
  refine ⟨disagreementsFrom e.declaredEnd (some e.name) after, ?_⟩
  rw [disagreementsFrom_run hplace none h, hstart, Option.or_none, disagreementsFrom_cons,
    contiguity_start he, List.filter_singleton, decide_eq_true (displacement_breaksContiguity _ _)]
  rfl

/-- If all entries are in place, there is nothing to disagree about. -/
theorem disagreementsFrom_eq_nil {entries : List Entry} (h : BackToBack 0 entries)
    (hplace : ∀ e ∈ entries, e.InPlace) : disagreementsFrom 0 none entries = [] := by
  have hend : BackToBack 0 (entries ++ []) := by rwa [List.append_nil]
  have hrun := disagreementsFrom_run hplace none hend
  rw [List.append_nil] at hrun
  rw [hrun]
  rfl

/-- Entries that are not all in place have a first one that is not. -/
theorem exists_first_displaced {entries : List Entry} (h : ¬ ∀ e ∈ entries, e.InPlace) :
    ∃ before e after, entries = before ++ e :: after ∧ (∀ d ∈ before, d.InPlace)
      ∧ ¬ e.InPlace := by
  induction entries with
  | nil => exact absurd (fun e he => nomatch he) h
  | cons e rest ih =>
      by_cases he : e.InPlace
      · have hrest : ¬ ∀ d ∈ rest, d.InPlace :=
          fun hall => h (List.forall_mem_cons.mpr ⟨he, hall⟩)
        obtain ⟨before, d, after, rfl, hbefore, hd⟩ := ih hrest
        exact ⟨e :: before, d, after, rfl, List.forall_mem_cons.mpr ⟨he, hbefore⟩, hd⟩
      · exact ⟨[], e, rest, rfl, fun d hd => (nomatch hd), he⟩

/-- Nothing disagrees exactly if every entry is in place. -/
theorem disagreements_eq_nil_iff {layout : Layout} (h : Packed layout) :
    layout.disagreements = [] ↔ ∀ e ∈ layout.entries, e.InPlace := by
  constructor
  · intro hnil
    by_contra hplace
    obtain ⟨before, e, after, hentries, hbefore, he⟩ := exists_first_displaced hplace
    have hcontiguous := h.contiguous
    rw [hentries] at hcontiguous
    obtain ⟨others, hfound⟩ := disagreementsFrom_of_first hcontiguous hbefore he
    rw [← hentries] at hfound
    exact List.cons_ne_nil _ _ (hfound.symm.trans hnil)
  · exact disagreementsFrom_eq_nil h.contiguous

/-! ## The policies -/

/-- The error of a list of demands belongs to one of them. -/
theorem FirstUnmet.mem {demands : List (Prop × LayoutError)} {err : LayoutError}
    (h : FirstUnmet demands err) : err ∈ demands.map (·.2) := by
  induction demands with
  | nil => exact h.elim
  | cons d rest ih =>
      obtain ⟨demand, error⟩ := d
      rcases h with ⟨-, rfl⟩ | ⟨-, h⟩
      · exact List.mem_cons_self
      · exact List.mem_cons_of_mem error (ih h)

/-- Placing rows never blames their offsets. -/
theorem itemsFrom_ne_offsets {rows : List Row} {err : LayoutError} :
    ∀ {start : Nat} {taken : List String}, itemsFrom start taken rows = .error err →
      ∀ findings, err ≠ .offsets findings := by
  induction rows with
  | nil => exact fun h => absurd h Outcome.ok_ne_error
  | cons row rows ih =>
      intro start taken h
      cases row with
      | blank => exact ih h
      | comment line text =>
          rcases Outcome.of_bind_error h with h | ⟨items, -, h⟩
          · exact ih h
          · exact absurd h Outcome.ok_ne_error
      | field f =>
          rcases Outcome.of_bind_error h with h | ⟨e, -, h⟩
          · -- none of the demands on a field is about its offset alone
            intro findings herr
            have hmem := (nextEntry_eq_error_iff.mp h).mem
            rw [herr] at hmem
            simp [demandsAt] at hmem
          · rcases Outcome.of_bind_error h with h | ⟨items, -, h⟩
            · exact ih h
            · exact absurd h Outcome.ok_ne_error

/-- What every policy starts with. -/
theorem ofRows_of_error {rows : List Row} {err : LayoutError} (policy : OffsetPolicy)
    (h : itemsFrom 0 [] rows = .error err) : ofRows rows policy = .error err := by
  show itemsFrom 0 [] rows >>= _ = _
  rw [h]
  rfl

/-- Once the items are placed, only a strict check can still refuse them, with
    what it found. -/
theorem ofRows_of_ok {rows : List Row} {items : List Item} (policy : OffsetPolicy)
    (h : itemsFrom 0 [] rows = .ok items) :
    ofRows rows policy
      = if policy = .strict ∧ disagreements ⟨items⟩ ≠ [] then
          .error (.offsets (disagreements ⟨items⟩))
        else .ok ⟨items⟩ := by
  rw [← filter_disagrees]
  show itemsFrom 0 [] rows >>= _ = _
  rw [h]
  rfl

/-- Without a strict check, a layout is built exactly if its items can be
    placed. -/
theorem ofRows_lax {policy : OffsetPolicy} (hpolicy : policy ≠ .strict) (rows : List Row) :
    ofRows rows policy = (itemsFrom 0 [] rows).map Layout.mk := by
  cases hitems : itemsFrom 0 [] rows with
  | error err => exact ofRows_of_error policy hitems
  | ok items =>
      rw [ofRows_of_ok policy hitems, if_neg fun h => hpolicy h.1]
      rfl

/-- What a strict check makes of the rows of a layout. -/
theorem ofRows_strict {rows : List Row} {layout : Layout}
    (h : ofRows rows .ignore = .ok layout) :
    ofRows rows .strict
      = if layout.disagreements = [] then .ok layout
        else .error (.offsets layout.disagreements) := by
  rw [ofRows_of_ok .strict (itemsFrom_of_ofRows h)]
  by_cases hnil : layout.disagreements = []
  · rw [if_pos hnil, if_neg fun hs => hs.2 hnil]
  · rw [if_neg hnil, if_pos ⟨rfl, hnil⟩]

/-- A strict check, beside the layout that is had without one. -/
structure Checked (rows : List Row) (layout : Layout) : Prop where
  accepted : ofRows rows .strict = .ok layout ↔ ∀ e ∈ layout.entries, e.offset = e.start
  /-- The linter is silent about gaps and overlaps. -/
  silent : ofRows rows .strict = .ok layout ↔ ∀ f ∈ layout.findings, ¬ f.BreaksContiguity
  /-- Otherwise all gaps and overlaps are returned, and the first of them is
      about the first entry out of place. -/
  refused : ofRows rows .strict ≠ .ok layout →
    ofRows rows .strict = .error (.offsets layout.disagreements)
      ∧ ∃ before e after others, layout.entries = before ++ e :: after
          ∧ (∀ d ∈ before, d.offset = d.start) ∧ e.offset ≠ e.start
          ∧ layout.disagreements = e.displacement (lastName? before) :: others

/-- All that a check answers is known from the layout that is built without one. -/
theorem checked_of_ofRows {rows : List Row} {layout : Layout}
    (h : ofRows rows .ignore = .ok layout) : Checked rows layout := by
  have hpacked := packed_of_ofRows h
  have hnil := disagreements_eq_nil_iff hpacked
  have hstrict := ofRows_strict h
  have haccepted : ofRows rows .strict = .ok layout ↔ layout.disagreements = [] := by
    rw [hstrict]
    by_cases hd : layout.disagreements = []
    · rw [if_pos hd]
      exact ⟨fun _ => hd, fun _ => rfl⟩
    · rw [if_neg hd]
      exact ⟨fun hok => (nomatch hok), fun hd' => absurd hd' hd⟩
  refine ⟨haccepted.trans hnil, ?_, ?_⟩
  · rw [haccepted, disagreements, List.filter_eq_nil_iff]
    simp only [decide_eq_true_iff]
  · intro hrefused
    have hd : layout.disagreements ≠ [] := fun hd => hrefused (haccepted.mpr hd)
    rw [if_neg hd] at hstrict
    obtain ⟨before, e, after, hentries, hbefore, he⟩ :=
      exists_first_displaced fun hplace => hd (hnil.mpr hplace)
    have hcontiguous := hpacked.contiguous
    rw [hentries] at hcontiguous
    obtain ⟨others, hfound⟩ := disagreementsFrom_of_first hcontiguous hbefore he
    rw [← hentries] at hfound
    exact ⟨hstrict, before, e, after, others, hentries, hbefore, he, hfound⟩

end Layout

/-! ## Tables -/

/-- What a table is found to be. -/
inductive Verdict
  /-- It makes no layout. -/
  | unusable (e : CompileError)
  | disagreeing (findings : List Layout.Finding)
  | agreeing
  deriving DecidableEq

namespace Verdict

/-- The verdict of the linter. -/
def ofFindings : Except CompileError (List Layout.Finding) → Verdict
  | .error e => unusable e
  | .ok findings =>
      match findings.filter fun f => f.BreaksContiguity with
      | [] => agreeing
      | f :: rest => disagreeing (f :: rest)

/-- The verdict of a strict compilation. -/
def ofCompiled : Except CompileError String → Verdict
  | .error (.layout (.offsets findings)) => disagreeing findings
  | .error e => unusable e
  | .ok _ => agreeing

theorem ofFindings_ok (layout : Layout) :
    ofFindings (.ok layout.findings)
      = if layout.disagreements = [] then agreeing else disagreeing layout.disagreements := by
  show (match layout.disagreements with
    | [] => agreeing
    | f :: rest => disagreeing (f :: rest)) = _
  cases layout.disagreements with
  | nil => rfl
  | cons f rest => exact (if_neg (List.cons_ne_nil f rest)).symm

theorem ofCompiled_layout {err : LayoutError} (h : ∀ findings, err ≠ .offsets findings) :
    ofCompiled (.error (.layout err)) = unusable (.layout err) := by
  cases err with
  | offsets findings => exact absurd rfl (h findings)
  | _ => rfl

/-- Linting a table and compiling it strictly are the same check. -/
theorem lint_eq_strict (source name : String) (options : Code.Options) :
    ofFindings (lint source) = ofCompiled (compile name source .strict options) := by
  rw [lint_eq, compile_eq, load_eq, load_eq]
  cases Table.read source with
  | error e => rfl
  | ok rows =>
      show ofFindings (((Layout.ofRows rows .ignore).mapError CompileError.layout).map _)
        = ofCompiled (((Layout.ofRows rows .strict).mapError CompileError.layout).map _)
      cases hitems : Layout.itemsFrom 0 [] rows with
      | error err =>
          rw [Layout.ofRows_of_error .ignore hitems, Layout.ofRows_of_error .strict hitems]
          exact (ofCompiled_layout (Layout.itemsFrom_ne_offsets hitems)).symm
      | ok items =>
          have hlayout : Layout.ofRows rows .ignore = .ok ⟨items⟩ := by
            rw [Layout.ofRows_lax (by decide), hitems]
            rfl
          rw [hlayout, Layout.ofRows_strict hlayout]
          refine (ofFindings_ok ⟨items⟩).trans ?_
          split <;> rfl

end Verdict

/-- **THE OFFSET CHECKS AGREE**: ignoring offsets and warning about them give
    the same; a strict check refuses what they refuse, for the same reason,
    and otherwise what the linter would call a gap or an overlap.  So a table
    that is linted and one that is compiled strictly come to the same
    verdict. -/
theorem offset_checks_agree (rows : List Table.Row) (source name : String)
    (options : Code.Options) :
    Layout.ofRows rows .warn = Layout.ofRows rows .ignore
      ∧ (∀ err, Layout.ofRows rows .ignore = .error err → Layout.ofRows rows .strict = .error err)
      ∧ (∀ layout, Layout.ofRows rows .ignore = .ok layout → Layout.Checked rows layout)
      ∧ Verdict.ofFindings (lint source)
        = Verdict.ofCompiled (compile name source .strict options) := by
  refine ⟨?_, ?_, fun layout h => Layout.checked_of_ofRows h,
    Verdict.lint_eq_strict source name options⟩
  · rw [Layout.ofRows_lax (by decide), Layout.ofRows_lax (by decide)]
  · intro err h
    cases hitems : Layout.itemsFrom 0 [] rows with
    | error err' => rw [Layout.ofRows_of_error .strict hitems, ← Layout.ofRows_of_error .ignore hitems, h]
    | ok items =>
        rw [Layout.ofRows_lax (by decide), hitems] at h
        exact nomatch h

/-- A count below one, and a table that drifts out of step and back into it. -/
theorem offset_checks_agree_drifting :
    (Layout.ofRows [.field ⟨1, 0, .known .u8, "a", 0, ""⟩] .ignore
        = .error (.nonPositiveCount 1 "a" 0)
      ∧ Layout.ofRows [.field ⟨1, 0, .known .u8, "a", 0, ""⟩] .strict
        = .error (.nonPositiveCount 1 "a" 0))
      ∧ Layout.ofRows
          [.field ⟨1, 0, .known .u8, "a", 1, ""⟩, .field ⟨2, 2, .known .u8, "b", 1, ""⟩,
            .field ⟨3, 2, .known .u8, "c", 1, ""⟩] .ignore
        = .ok ⟨[.entry ⟨1, 0, 0, .u8, "a", 1, ""⟩, .entry ⟨2, 2, 1, .u8, "b", 1, ""⟩,
            .entry ⟨3, 2, 2, .u8, "c", 1, ""⟩]⟩
      ∧ Layout.Checked
          [.field ⟨1, 0, .known .u8, "a", 1, ""⟩, .field ⟨2, 2, .known .u8, "b", 1, ""⟩,
            .field ⟨3, 2, .known .u8, "c", 1, ""⟩]
          ⟨[.entry ⟨1, 0, 0, .u8, "a", 1, ""⟩, .entry ⟨2, 2, 1, .u8, "b", 1, ""⟩,
            .entry ⟨3, 2, 2, .u8, "c", 1, ""⟩]⟩ :=
  have hfault := by decide
  have hdrift := by decide
  ⟨⟨hfault, (offset_checks_agree _ "" "" {}).2.1 _ hfault⟩,
    hdrift, (offset_checks_agree _ "" "" {}).2.2.1 _ hdrift⟩

end PackedRecord
