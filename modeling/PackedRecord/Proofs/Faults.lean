import PackedRecord.Proofs.Outcomes

/-! # Faults — what a machine cannot do

    A run on a machine ends early for one of two reasons.  It refuses its
    input and says why, which is one of its answers; or it gets stuck in a
    step that a machine cannot take, which is a fault.  Runs that have both are
    stated with errors of the type `Stop`, so that saying what such a run
    answers says that it meets no fault. -/

namespace PackedRecord

inductive Fault
  /-- A text that its grammar does not match. -/
  | mismatch
  /-- An index outside a list. -/
  | index
  /-- A sum that is no word. -/
  | overflow
  /-- A difference below zero. -/
  | underflow
  /-- A remainder of a division by zero. -/
  | zeroDivisor
  /-- Something that is not there. -/
  | missing
  deriving DecidableEq

/-- Why a run ends early. -/
inductive Stop (ε : Type)
  | fault (f : Fault)
  | refusal (e : ε)
  deriving DecidableEq

namespace Stop

variable {ε δ : Type}

def map (f : ε → δ) : Stop ε → Stop δ
  | fault why => fault why
  | refusal e => refusal (f e)

end Stop

/-- The item at an index, which has to be there. -/
def itemAt {ε α : Type} (items : List α) (i : Nat) : Except (Stop ε) α :=
  match items[i]? with
  | some a => .ok a
  | none => .error (.fault .index)

/-- What is there, if it has to be. -/
def present {ε α : Type} : Option α → Except (Stop ε) α
  | some a => .ok a
  | none => .error (.fault .missing)

/-! ## Arithmetic on words -/

namespace Machine

variable {ε : Type}

def sum (a b : UInt64) : Except (Stop ε) UInt64 :=
  if a.toNat + b.toNat < 2 ^ 64 then .ok (a + b) else .error (.fault .overflow)

def difference (a b : UInt64) : Except (Stop ε) UInt64 :=
  if b ≤ a then .ok (a - b) else .error (.fault .underflow)

def remainder (a b : UInt64) : Except (Stop ε) UInt64 :=
  if b = 0 then .error (.fault .zeroDivisor) else .ok (a % b)

/-- Words whose sum does not wrap have one. -/
theorem exists_sum (ε : Type) {a b : UInt64} (h : (a + b).toNat = a.toNat + b.toNat) :
    ∃ c, (sum a b : Except (Stop ε) UInt64) = .ok c ∧ c.toNat = a.toNat + b.toNat := by
  have hword : a.toNat + b.toNat < 2 ^ 64 := by
    rw [← h]
    exact UInt64.toNat_lt (a + b)
  exact ⟨a + b, if_pos hword, h⟩

/-- To take away what is there is no fault. -/
theorem exists_difference (ε : Type) {a b : UInt64} (h : b.toNat ≤ a.toNat) :
    ∃ c, (difference a b : Except (Stop ε) UInt64) = .ok c ∧ c.toNat = a.toNat - b.toNat := by
  have hle : b ≤ a := UInt64.le_iff_toNat_le.mpr h
  exact ⟨a - b, if_pos hle, UInt64.toNat_sub_of_le a b hle⟩

/-- To divide by something other than zero is no fault. -/
theorem exists_remainder (ε : Type) (a : UInt64) {b : UInt64} (h : b ≠ 0) :
    ∃ c, (remainder a b : Except (Stop ε) UInt64) = .ok c ∧ c.toNat = a.toNat % b.toNat :=
  ⟨a % b, if_neg h, UInt64.toNat_mod a b⟩

end Machine

end PackedRecord
