import PackedRecord.Proofs.Faults
import PackedRecord.Proofs.Layout.Words

/-! # Linting on a machine — findings from words

    The linter goes from slot to slot and reckons in words: the end of a
    declared range is a sum, the bytes of a gap are a difference, an offset is
    aligned if a remainder is zero, and an overlap names the field before.
    Each of these can fault.  On slots that are exact none does, and the
    findings and their texts are those of the entries. -/

namespace PackedRecord.Machine

open Layout (Finding)
open Layout.Words (Slot)

variable {ε : Type}

/-- A finding, with its text. -/
structure Report where
  finding : Finding
  text : String
  deriving DecidableEq

namespace Report

def ofFinding (f : Finding) : Report :=
  ⟨f, f.cause.message⟩

/-- A slot that starts so many bytes after the expected one. -/
def gap (s : Slot) (previous : Option String) (expected missing : UInt64) : Report where
  finding := ⟨s.line, .gap s.name s.offset.toNat previous expected.toNat⟩
  text := "`" ++ s.name ++ "` starts at " ++ toString s.offset.toNat ++ " but "
    ++ (match previous with
        | some p => "`" ++ p ++ "`"
        | none => "the record start")
    ++ " ends at " ++ toString expected.toNat
    ++ " (" ++ toString missing.toNat ++ " unaccounted byte(s))"

/-- A slot that starts inside the one before it. -/
def overlap (s : Slot) (before : String) (expected : UInt64) : Report where
  finding := ⟨s.line, .overlap s.name s.offset.toNat (some before) expected.toNat⟩
  text := "`" ++ s.name ++ "` starts at " ++ toString s.offset.toNat ++ " inside `" ++ before
    ++ "`, which ends at " ++ toString expected.toNat

def misaligned (s : Slot) (width : UInt64) : Report where
  finding := ⟨s.line, .misaligned s.name s.kind s.offset.toNat⟩
  text := "`" ++ s.name ++ "` (" ++ s.kind.name ++ ") at offset " ++ toString s.offset.toNat
    ++ " is not " ++ toString width.toNat ++ "-byte aligned"

end Report

/-! ## The linter -/

def contiguity (expected : UInt64) (previous : Option String) (s : Slot) :
    Except (Stop ε) (List Report) :=
  if expected < s.offset then do
    let missing ← difference s.offset expected
    return [.gap s previous expected missing]
  else if s.offset < expected then do
    let before ← present previous
    return [.overlap s before expected]
  else return []

def alignment (s : Slot) : Except (Stop ε) (List Report) := do
  let width := UInt64.ofNat s.kind.byteWidth
  let beyond ← remainder s.offset width
  return if beyond ≠ 0 then [.misaligned s width] else []

/-- One past the last byte of the declared range. -/
def declaredEnd (s : Slot) : Except (Stop ε) UInt64 :=
  sum s.offset s.byteLength

def reportsFrom (expected : UInt64) (previous : Option String) :
    List Slot → Except (Stop ε) (List Report)
  | [] => return []
  | s :: rest => do
      let apart ← contiguity expected previous s
      let askew ← alignment s
      let others ← reportsFrom (← declaredEnd s) (some s.name) rest
      return apart ++ askew ++ others

/-! ## Without faults -/

/-- Nothing is expected to start after the start of the record unless there is
    a field before it. -/
theorem contiguity_eq {expected : UInt64} {previous : Option String}
    (h : previous = none → expected = 0) (s : Slot) :
    (contiguity expected previous s : Except (Stop ε) _)
      = .ok ((Layout.contiguity expected.toNat previous s.entry).map Report.ofFinding) := by
  have hafter : expected < s.offset ↔ expected.toNat < s.entry.offset := UInt64.lt_iff_toNat_lt
  have hbefore : s.offset < expected ↔ s.entry.offset < expected.toNat := UInt64.lt_iff_toNat_lt
  rw [contiguity, Layout.contiguity]
  by_cases hgap : expected < s.offset
  · obtain ⟨missing, hdifference, hmissing⟩ :=
      exists_difference ε (UInt64.lt_iff_toNat_lt.mp hgap).le
    have htext : Report.gap s previous expected missing
        = .ofFinding ⟨s.line, .gap s.name s.offset.toNat previous expected.toNat⟩ := by
      unfold Report.gap
      rw [hmissing]
      rfl
    rw [if_pos hgap, if_pos (hafter.mp hgap), hdifference]
    exact congrArg (fun r => Except.ok [r]) htext
  rw [if_neg hgap, if_neg fun h => hgap (hafter.mpr h)]
  by_cases hoverlap : s.offset < expected
  · rw [if_pos hoverlap, if_pos (hbefore.mp hoverlap)]
    cases previous with
    | none =>
        -- nothing starts before the first byte
        rw [h rfl] at hoverlap
        exact absurd (UInt64.lt_iff_toNat_lt.mp hoverlap) (Nat.not_lt_zero _)
    | some before => rfl
  · rw [if_neg hoverlap, if_neg fun h => hoverlap (hbefore.mpr h)]
    rfl

theorem byteWidth_ne_zero (kind : Scalar.Kind) : UInt64.ofNat kind.byteWidth ≠ 0 := by
  cases kind <;> decide

/-- The remainder by a width is no fault, since no width is zero. -/
theorem alignment_eq (s : Slot) :
    (alignment s : Except (Stop ε) _)
      = .ok ((Layout.alignment s.entry).map Report.ofFinding) := by
  obtain ⟨beyond, hremainder, hbeyond⟩ :=
    exists_remainder ε s.offset (byteWidth_ne_zero s.kind)
  have hzero : beyond ≠ 0 ↔ s.entry.offset % s.entry.kind.byteWidth ≠ 0 := by
    rw [Ne, ← UInt64.toNat_inj, hbeyond, Layout.Words.toNat_byteWidth]
    rfl
  have htext : Report.misaligned s (UInt64.ofNat s.kind.byteWidth)
      = .ofFinding ⟨s.line, .misaligned s.name s.kind s.offset.toNat⟩ := by
    rw [Report.misaligned, Layout.Words.toNat_byteWidth]
    rfl
  rw [alignment, hremainder, Layout.alignment]
  show Except.ok (if beyond ≠ 0 then [Report.misaligned s _] else []) = _
  by_cases hne : beyond ≠ 0
  · rw [if_pos hne, if_pos (hzero.mp hne), htext]
    rfl
  · rw [if_neg hne, if_neg fun h => hne (hzero.mpr h)]
    rfl

/-- The declared end of an exact slot is no fault. -/
theorem exists_declaredEnd (ε : Type) {s : Slot} (h : s.Exact) :
    ∃ stop, (declaredEnd s : Except (Stop ε) _) = .ok stop
      ∧ stop.toNat = s.entry.declaredEnd := by
  obtain ⟨stop, hsum, hstop⟩ := exists_sum ε h.declared
  refine ⟨stop, hsum, ?_⟩
  rw [hstop, h.length]
  rfl

/-- The induction is over the slots; that something stands before a slot which
    is not expected at zero holds at every one of them. -/
theorem reportsFrom_eq {slots : List Slot} (hexact : ∀ s ∈ slots, s.Exact) :
    ∀ {expected : UInt64} {previous : Option String}, (previous = none → expected = 0) →
      (reportsFrom expected previous slots : Except (Stop ε) _)
        = .ok ((Layout.findingsFrom expected.toNat previous (slots.map Slot.entry)).map
            Report.ofFinding) := by
  induction slots with
  | nil => exact fun _ => rfl
  | cons s rest ih =>
      intro expected previous hprevious
      obtain ⟨hs, hrest⟩ := List.forall_mem_cons.mp hexact
      obtain ⟨stop, hend, hstop⟩ := exists_declaredEnd ε hs
      have hnamed : some s.name = none → stop = 0 := fun h => nomatch h
      rw [reportsFrom, contiguity_eq hprevious, alignment_eq, hend]
      show reportsFrom stop (some s.name) rest >>= _ = _
      rw [ih hrest hnamed, hstop, List.map_cons, Layout.findingsFrom, List.map_append, List.map_append]
      rfl

end PackedRecord.Machine
