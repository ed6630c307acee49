import PackedRecord.Code.Program
import PackedRecord.Proofs.Machine.Building

/-! # Emitting on a machine — programs from words

    Generated code states where declared ranges end, and a number is read from
    the bytes between its packed position and its packed end.  Both ends are
    sums of words that can fault. -/

namespace PackedRecord.Machine

open Code (Declaration Member Program Reading)
open Layout.Words (Mark Progress Slot)

variable {ε : Type}

/-- One past the last byte that the slot takes in the record. -/
def packedEnd (s : Slot) : Except (Stop ε) UInt64 :=
  sum s.position s.byteLength

/-- Arrays and single bytes are read from their position alone. -/
def readingOf (s : Slot) : Except (Stop ε) Reading :=
  if s.entry.isArray ∨ s.kind.byteWidth = 1 then return .ofEntry s.entry
  else do
    let stop ← packedEnd s
    return .word s.kind
      ((List.range' s.position.toNat (stop.toNat - s.position.toNat)).map .literal)

def declarationOf (s : Slot) : Except (Stop ε) Declaration := do
  let stop ← declaredEnd s
  let reading ← readingOf s
  return { Declaration.ofEntry s.entry with declaredEnd := stop.toNat, reading }

def memberOf : Mark → Except (Stop ε) Member
  | .comment _ text => return .comment text
  | .slot s => do return .field (← declarationOf s)

def emit (name : String) (p : Progress) : Except (Stop ε) Program := do
  let members ← p.marks.mapM memberOf
  return { name, width := p.width.toNat, members }

/-! ## Without faults -/

/-- The packed end of an exact slot is no fault. -/
theorem exists_packedEnd (ε : Type) {s : Slot} (h : s.Exact) :
    ∃ stop, (packedEnd s : Except (Stop ε) _) = .ok stop ∧ stop.toNat = s.entry.stop := by
  obtain ⟨stop, hsum, hstop⟩ := exists_sum ε h.packed
  refine ⟨stop, hsum, ?_⟩
  rw [hstop, h.length]
  rfl

/-- The expression for an exact slot is that of its entry. -/
theorem readingOf_eq {s : Slot} (h : s.Exact) (hcount : 1 ≤ s.entry.count) :
    (readingOf s : Except (Stop ε) _) = .ok (.ofEntry s.entry) := by
  by_cases hposition : s.entry.isArray ∨ s.kind.byteWidth = 1
  · exact if_pos hposition
  -- what is left is one number of several bytes
  obtain ⟨harray, hwidth⟩ := not_or.mp hposition
  have hone : s.entry.count = 1 := by
    have hle : ¬ 1 < s.entry.count := fun hlt => harray (decide_eq_true hlt)
    omega
  obtain ⟨stop, hend, hstop⟩ := exists_packedEnd ε h
  have hbytes : stop.toNat - s.position.toNat = s.kind.byteWidth := by
    have hsize : s.entry.stop = s.position.toNat + s.kind.byteWidth * s.entry.count := rfl
    rw [hstop, hsize, hone, Nat.mul_one, Nat.add_sub_cancel_left]
  have hreading : Reading.ofEntry s.entry
      = .word s.kind ((List.range' s.position.toNat s.kind.byteWidth).map .literal) := by
    have hshape : s.entry.shape = .single s.kind := if_neg harray
    rw [Reading.ofEntry, hshape]
    exact if_neg hwidth
  rw [readingOf, if_neg hposition, hend, hreading, ← hbytes]
  rfl

theorem memberOf_eq {mark : Mark} (hexact : ∀ s, mark = .slot s → s.Exact ∧ 1 ≤ s.entry.count) :
    (memberOf mark : Except (Stop ε) _) = .ok (.ofItem mark.item) := by
  cases mark with
  | comment line text => rfl
  | slot s =>
      obtain ⟨hs, hcount⟩ := hexact s rfl
      obtain ⟨stop, hend, hstop⟩ := exists_declaredEnd ε hs
      rw [memberOf, declarationOf, hend]
      show (readingOf s >>= _) >>= _ = _
      rw [readingOf_eq hs hcount]
      show Except.ok (Member.field { Declaration.ofEntry s.entry with
        declaredEnd := stop.toNat, reading := .ofEntry s.entry }) = _
      rw [hstop]
      rfl

/-- Every entry of a built layout has an element, which is what is read. -/
theorem emit_eq {p : Progress} (hexact : p.Exact) (hpacked : Layout.Packed p.layout)
    (name : String) : (emit name p : Except (Stop ε) _) = .ok (Program.ofLayout name p.layout) := by
  have hmembers : (p.marks.mapM memberOf : Except (Stop ε) _)
      = .ok (p.marks.map fun mark => .ofItem mark.item) := by
    refine Outcome.mapM_eq_pure fun mark hmark => memberOf_eq ?_
    rintro s rfl
    refine ⟨hexact.slots s hmark, (hpacked.sound s.entry ?_).count_pos⟩
    rw [entries_layout]
    exact List.mem_map_of_mem (List.mem_filterMap.mpr ⟨.slot s, hmark, rfl⟩)
  rw [emit, hmembers]
  show Except.ok (Program.mk name p.width.toNat _) = _
  rw [hexact.width, Program.ofLayout]
  show _ = Except.ok (Program.mk name p.layout.width ((p.marks.map Mark.item).map Member.ofItem))
  rw [List.map_map]
  rfl

end PackedRecord.Machine
