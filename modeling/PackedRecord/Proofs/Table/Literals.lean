import PackedRecord.Proofs.Layout.Words
import PackedRecord.Proofs.Table.PlainReading

/-! # Literals — numbers that a table can hold

    A numeral that is read stays below its bound, whatever digits it has.  So
    the offsets of a table are unsigned words and its counts are signed ones,
    and every row that is read fits a machine. -/

namespace PackedRecord

namespace Text

/-- What is read stays below the bound at every digit. -/
theorem readDigits_lt {base bound : Nat} {digits : List Char} :
    ∀ {value n : Nat}, value < bound → readDigits base bound value digits = .ok n →
      n < bound := by
  induction digits with
  | nil =>
      intro value n hvalue h
      obtain rfl := Except.ok.inj h
      exact hvalue
  | cons c rest ih =>
      intro value n _ h
      rw [readDigits] at h
      split at h
      · exact absurd h Outcome.error_ne_ok
      · split at h
        · next hlt => exact ih hlt h
        · exact absurd h Outcome.error_ne_ok

/-- A number is below its bound, behind a plus sign or without one. -/
theorem readNat_lt {base bound n : Nat} {text : List Char} (hbound : 0 < bound)
    (h : readNat base bound text = .ok n) : n < bound := by
  rw [readNat.eq_def] at h
  split at h
  · exact absurd h Outcome.error_ne_ok
  · exact absurd h Outcome.error_ne_ok
  · exact readDigits_lt hbound h
  · exact readDigits_lt hbound h

/-- With a minus sign a number may be as low as the bound is high. -/
theorem readInt_bounds {bound : Nat} {n : Int} {text : List Char} (hbound : 0 < bound)
    (h : readInt bound text = .ok n) : -(bound : Int) ≤ n ∧ n < bound := by
  rw [readInt.eq_def] at h
  split at h
  · exact absurd h Outcome.error_ne_ok
  · -- the least number is one further from zero than the largest
    obtain ⟨m, hm, rfl⟩ := Outcome.of_map_ok h
    obtain ⟨k, hk, hm⟩ := Outcome.of_bind_ok hm
    obtain rfl := Except.ok.inj hm
    have := readDigits_lt (Nat.succ_pos bound) hk
    omega
  · obtain ⟨m, hm, rfl⟩ := Outcome.of_map_ok h
    have := readNat_lt hbound hm
    constructor
    · exact (Int.neg_nonpos_of_nonneg (Int.natCast_nonneg bound)).trans (Int.natCast_nonneg m)
    · exact Int.ofNat_lt.mpr this

end Text

namespace Table

/-- The offset of a field is a word. -/
theorem readOffset_lt {line : Nat} {cell : List Char} {offset : Nat}
    (h : readOffset line cell = .ok offset) : offset < 2 ^ 64 := by
  rw [readOffset] at h
  split at h
  · next n hn =>
      obtain rfl := Except.ok.inj h
      exact Text.readNat_lt (by decide) hn
  · exact absurd h Outcome.error_ne_ok

/-- The count of a field is a signed word; without a literal it is one. -/
theorem readName_bounds {line : Nat} {cell : List Char} {name : String} {count : Int}
    (h : readName line cell = .ok (name, count)) : -2 ^ 63 ≤ count ∧ count < 2 ^ 63 := by
  rw [readName] at h
  split at h
  · obtain ⟨-, rfl⟩ := Prod.mk.inj (Except.ok.inj h)
    decide
  · split at h
    · next n hn =>
        obtain ⟨-, rfl⟩ := Prod.mk.inj (Except.ok.inj h)
        exact Text.readInt_bounds (by decide) hn
    · exact absurd h Outcome.error_ne_ok

/-- A field that is read fits a machine. -/
theorem fits_of_readField {line : Nat} {offset type name : List Char}
    {columns : List (List Char)} {f : Field}
    (h : readField line offset type name columns = .ok f) : (Row.field f).Fits := by
  rw [readField] at h
  obtain ⟨n, hn, h⟩ := Outcome.of_bind_ok h
  obtain ⟨⟨found, count⟩, hcount, h⟩ := Outcome.of_bind_ok h
  obtain rfl := Except.ok.inj h
  exact ⟨readOffset_lt hn, readName_bounds hcount⟩

/-- **EVERY TABLE FITS A MACHINE**, once it is read. -/
theorem fits_of_read {source : String} {rows : List Row} (h : read source = .ok rows) :
    ∀ row ∈ rows, row.Fits := by
  intro row hrow
  rw [read_eq_readPlainly, readPlainly] at h
  obtain ⟨⟨text, line⟩, -, hplain⟩ := Outcome.exists_of_mem_mapM h hrow
  simp only [plainRow] at hplain
  split at hplain
  · obtain rfl := Except.ok.inj hplain
    exact True.intro
  split at hplain
  · obtain ⟨f, hf, rfl⟩ := Outcome.of_map_ok hplain
    exact fits_of_readField hf
  split at hplain
  · obtain rfl := Except.ok.inj hplain
    exact True.intro
  · obtain rfl := Except.ok.inj hplain
    exact True.intro

end Table

end PackedRecord
