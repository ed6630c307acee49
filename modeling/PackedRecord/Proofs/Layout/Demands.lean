import Mathlib
import PackedRecord.Layout.Packing

/-! # Demands on a field — what lets it into a record

    A field joins a record that already has some bytes and some names.  Six
    demands are made of it, in a fixed order, and the first one that is not
    met names the error.  They are stated without the functions that check
    them: names by the characters they consist of, sizes by the unbounded
    product of element width and count.

    `nextEntry_eq_ok_iff` and `nextEntry_eq_error_iff` say that placing a
    field is making these demands: neither answer can be had otherwise. -/

namespace PackedRecord

namespace Table

/-- Bytes of one element, none if nobody knows the type. -/
def TypeRef.byteWidth : TypeRef → Nat
  | .known kind => kind.byteWidth
  | .unknown _ => 0

def TypeRef.spelling : TypeRef → String
  | .known _ => ""
  | .unknown spelling => spelling

/-- The bytes that a field asks for, as an unbounded product. -/
def Field.extent (f : Field) : Int :=
  f.type.byteWidth * f.count

end Table

namespace Layout

open Table (Field)

/-! ## Names -/

/-- The class `[A-Za-z_]`. -/
def NameStart (c : Char) : Prop :=
  ('A' ≤ c ∧ c ≤ 'Z') ∨ ('a' ≤ c ∧ c ≤ 'z') ∨ c = '_'

/-- The class `[A-Za-z0-9_]`. -/
def NameChar (c : Char) : Prop :=
  NameStart c ∨ ('0' ≤ c ∧ c ≤ '9')

/-- Names that match `[A-Za-z_][A-Za-z0-9_]*` and are no reserved word. -/
structure FieldName (name : String) : Prop where
  shape : ∃ c rest, name.toList = c :: rest ∧ NameStart c ∧ ∀ d ∈ rest, NameChar d
  free : name ∉ ["_", "self", "Self", "super", "crate"]

theorem isNameStart_iff (c : Char) : isNameStart c = true ↔ NameStart c := by
  simp [isNameStart, NameStart, Char.isAlpha, Char.isUpper, Char.isLower, Char.le_def, or_assoc]

/-- The check on further characters is the class of them. -/
theorem isNameChar_iff (c : Char) : isNameChar c = true ↔ NameChar c := by
  have hstart := isNameStart_iff c
  simp only [isNameStart, Bool.or_eq_true] at hstart
  simp only [isNameChar, Char.isAlphanum, Bool.or_eq_true, NameChar, ← hstart]
  have hdigit : c.isDigit = true ↔ '0' ≤ c ∧ c ≤ '9' := by
    simp [Char.isDigit, Char.le_def]
  rw [hdigit]
  tauto

/-- The check on names asks for just what a field name is. -/
theorem isIdentifier_iff (name : String) : isIdentifier name = true ↔ FieldName name := by
  unfold isIdentifier
  cases hname : name.toList with
  | nil =>
      constructor
      · intro h
        exact Bool.noConfusion h
      · rintro ⟨⟨c, rest, hshape, -, -⟩, -⟩
        rw [hname] at hshape
        exact nomatch hshape
  | cons c rest =>
      simp only [Bool.and_eq_true, List.all_eq_true, isNameStart_iff, isNameChar_iff,
        Bool.not_eq_true', List.contains_eq_mem, decide_eq_false_iff_not]
      constructor
      · rintro ⟨⟨hc, hrest⟩, hfree⟩
        exact ⟨⟨c, rest, hname, hc, hrest⟩, hfree⟩
      · rintro ⟨⟨c', rest', hshape, hc, hrest⟩, hfree⟩
        obtain ⟨rfl, rfl⟩ := List.cons.inj (hname.symm.trans hshape)
        exact ⟨⟨hc, hrest⟩, hfree⟩

/-! ## The list of demands -/

/-- What has to hold of a field that starts at the byte `start` behind fields
    of the names `taken`, each demand with the error of a field that does not
    meet it. -/
def demandsAt (start : Int) (taken : List String) (f : Field) : List (Prop × LayoutError) :=
  [(∃ kind, f.type = .known kind, .unknownType f.line f.name f.type.spelling),
    (FieldName f.name, .invalidName f.line f.name),
    (1 ≤ f.count, .nonPositiveCount f.line f.name f.count),
    (f.extent ≤ 2 ^ 20 ∧ f.offset + f.extent < 2 ^ 64, .tooWide f.line f.name),
    (f.name ∉ taken, .duplicateName f.line f.name),
    (start + f.extent ≤ 2 ^ 20, .tooWide f.line f.name)]

def AllMet (demands : List (Prop × LayoutError)) : Prop :=
  ∀ d ∈ demands, d.1

/-- The error belongs to the first demand that is not met. -/
def FirstUnmet : List (Prop × LayoutError) → LayoutError → Prop
  | [], _ => False
  | (demand, error) :: rest, err => (¬ demand ∧ error = err) ∨ (demand ∧ FirstUnmet rest err)

theorem allMet_cons (demand : Prop) (error : LayoutError) (rest : List (Prop × LayoutError)) :
    AllMet ((demand, error) :: rest) ↔ demand ∧ AllMet rest :=
  List.forall_mem_cons

/-- Either every demand is met or there is a first one that is not. -/
theorem allMet_or_firstUnmet (demands : List (Prop × LayoutError)) :
    AllMet demands ∨ ∃ err, FirstUnmet demands err := by
  induction demands with
  | nil => exact Or.inl (fun d hd => nomatch hd)
  | cons d rest ih =>
      obtain ⟨demand, error⟩ := d
      by_cases hd : demand
      · rcases ih with hall | ⟨err, hf⟩
        · exact Or.inl ((allMet_cons demand error rest).mpr ⟨hd, hall⟩)
        · exact Or.inr ⟨err, Or.inr ⟨hd, hf⟩⟩
      · exact Or.inr ⟨error, Or.inl ⟨hd, rfl⟩⟩

/-! ## Placing a field makes the demands -/

/-- What a field of a known kind becomes at the byte `start`. -/
def entryOf (start : Nat) (kind : Scalar.Kind) (f : Field) : Entry where
  line := f.line
  offset := f.offset
  start := start
  kind := kind
  name := f.name
  count := f.count.toNat
  description := f.description

/-- A positive count makes the entry as long as the field's extent. -/
theorem entryOf_size (start : Nat) {kind : Scalar.Kind} {f : Field}
    (hkind : f.type = .known kind) (hcount : 1 ≤ f.count) :
    ((entryOf start kind f).size : Int) = f.extent := by
  have htoNat : (f.count.toNat : Int) = f.count := Int.toNat_of_nonneg (by omega)
  show ((kind.byteWidth * f.count.toNat : Nat) : Int) = f.type.byteWidth * f.count
  rw [hkind, Int.natCast_mul, htoNat]
  rfl

private theorem entryAt_known {start : Nat} {kind : Scalar.Kind} {f : Field}
    (hkind : f.type = .known kind) :
    entryAt start f
      = if !isIdentifier f.name then .error (.invalidName f.line f.name)
        else if f.count < 1 then .error (.nonPositiveCount f.line f.name f.count)
        else if widthLimit < (entryOf start kind f).size
            ∨ 2 ^ 64 ≤ (entryOf start kind f).declaredEnd then
          .error (.tooWide f.line f.name)
        else .ok (entryOf start kind f) := by
  simp only [entryAt, hkind]
  rfl

private theorem entryOf_tooWide_iff {start : Nat} {kind : Scalar.Kind} {f : Field}
    (hkind : f.type = .known kind) (hcount : 1 ≤ f.count) :
    (widthLimit < (entryOf start kind f).size ∨ 2 ^ 64 ≤ (entryOf start kind f).declaredEnd)
      ↔ ¬ (f.extent ≤ 2 ^ 20 ∧ f.offset + f.extent < 2 ^ 64) := by
  have hsize := entryOf_size start hkind hcount
  have hend : (entryOf start kind f).declaredEnd
      = f.offset + (entryOf start kind f).size := rfl
  have hlimit : widthLimit = 2 ^ 20 := rfl
  rw [hend, hlimit]
  omega

private theorem entryOf_stop_iff {start : Nat} {kind : Scalar.Kind} {f : Field}
    (hkind : f.type = .known kind) (hcount : 1 ≤ f.count) :
    widthLimit < (entryOf start kind f).stop ↔ ¬ (start + f.extent ≤ 2 ^ 20) := by
  have hsize := entryOf_size start hkind hcount
  have hstop : (entryOf start kind f).stop = start + (entryOf start kind f).size := rfl
  have hlimit : widthLimit = 2 ^ 20 := rfl
  rw [hstop, hlimit]
  omega

/-- A field in order by itself becomes an entry, whatever stands before it. -/
private theorem entryAt_eq_ok {start : Nat} {kind : Scalar.Kind} {f : Field}
    (hkind : f.type = .known kind) (hname : FieldName f.name) (hcount : 1 ≤ f.count)
    (hfits : f.extent ≤ 2 ^ 20 ∧ f.offset + f.extent < 2 ^ 64) :
    entryAt start f = .ok (entryOf start kind f) := by
  rw [entryAt_known hkind, (isIdentifier_iff f.name).mpr hname, Bool.not_true,
    if_neg Bool.false_ne_true, if_neg (by omega),
    if_neg (fun hw => (entryOf_tooWide_iff hkind hcount).mp hw hfits)]

private theorem nextEntry_of_entryAt_ok {start : Nat} {taken : List String} {f : Field}
    {e : Entry} (h : entryAt start f = .ok e) :
    nextEntry start taken f
      = if e.name ∈ taken then .error (.duplicateName e.line e.name)
        else if widthLimit < e.stop then .error (.tooWide e.line e.name)
        else .ok e := by
  show (entryAt start f >>= fun e => _) = _
  rw [h]
  rfl

private theorem nextEntry_of_entryAt_error {start : Nat} {taken : List String} {f : Field}
    {err : LayoutError} (h : entryAt start f = .error err) :
    nextEntry start taken f = .error err := by
  show (entryAt start f >>= fun e => _) = _
  rw [h]
  rfl

/-- A field that meets every demand is placed. -/
theorem nextEntry_of_allMet {start : Nat} {taken : List String} {f : Field}
    (h : AllMet (demandsAt start taken f)) :
    ∃ kind, f.type = .known kind ∧ nextEntry start taken f = .ok (entryOf start kind f) := by
  simp only [demandsAt, allMet_cons] at h
  obtain ⟨⟨kind, hkind⟩, hname, hcount, hfits, hfresh, hroom, -⟩ := h
  refine ⟨kind, hkind, ?_⟩
  have hplace : ¬ (entryOf start kind f).name ∈ taken := hfresh
  rw [nextEntry_of_entryAt_ok (entryAt_eq_ok hkind hname hcount hfits), if_neg hplace,
    if_neg (fun hw => (entryOf_stop_iff hkind hcount).mp hw hroom)]

/-- A field that does not meet a demand is refused for the first such one. -/
theorem nextEntry_of_firstUnmet {start : Nat} {taken : List String} {f : Field}
    {err : LayoutError} (h : FirstUnmet (demandsAt start taken f) err) :
    nextEntry start taken f = .error err := by
  rcases h with ⟨hn, rfl⟩ | ⟨⟨kind, hkind⟩, h⟩
  · -- an unknown type
    cases htype : f.type with
    | known kind => exact absurd ⟨kind, htype⟩ hn
    | unknown spelling =>
        refine nextEntry_of_entryAt_error ?_
        simp only [entryAt, htype]
        rfl
  rcases h with ⟨hn, rfl⟩ | ⟨hname, h⟩
  · -- no field name
    refine nextEntry_of_entryAt_error ?_
    rw [← isIdentifier_iff, Bool.not_eq_true] at hn
    rw [entryAt_known hkind, hn]
    rfl
  have hident : ¬ (!isIdentifier f.name) = true := by
    rw [(isIdentifier_iff f.name).mpr hname]
    exact Bool.false_ne_true
  rcases h with ⟨hn, rfl⟩ | ⟨hcount, h⟩
  · -- no elements
    refine nextEntry_of_entryAt_error ?_
    rw [entryAt_known hkind, if_neg hident, if_pos (by omega)]
  rcases h with ⟨hn, rfl⟩ | ⟨hfits, h⟩
  · -- too many bytes, or a declared end that is no word
    refine nextEntry_of_entryAt_error ?_
    rw [entryAt_known hkind, if_neg hident, if_neg (by omega),
      if_pos ((entryOf_tooWide_iff hkind hcount).mpr hn)]
  -- the field itself is in order, what is left is its place among the others
  rw [nextEntry_of_entryAt_ok (entryAt_eq_ok hkind hname hcount hfits)]
  rcases h with ⟨hn, rfl⟩ | ⟨hfresh, h⟩
  · exact if_pos (not_not.mp hn)
  rcases h with ⟨hn, rfl⟩ | ⟨-, h⟩
  · have hplace : ¬ (entryOf start kind f).name ∈ taken := hfresh
    rw [if_neg hplace, if_pos ((entryOf_stop_iff hkind hcount).mpr hn)]
    rfl
  · exact h.elim

/-- A field becomes an entry exactly if it meets every demand, and the entry
    is the field at its place. -/
theorem nextEntry_eq_ok_iff {start : Nat} {taken : List String} {f : Field} {e : Entry} :
    nextEntry start taken f = .ok e
      ↔ AllMet (demandsAt start taken f)
        ∧ ∃ kind, f.type = .known kind ∧ e = entryOf start kind f := by
  -- a field is placed or refused, so that one answer rules the other out
  constructor
  · intro hok
    rcases allMet_or_firstUnmet (demandsAt start taken f) with hall | ⟨err, hf⟩
    · obtain ⟨kind, hkind, hentry⟩ := nextEntry_of_allMet hall
      exact ⟨hall, kind, hkind, Except.ok.inj (hok.symm.trans hentry)⟩
    · exact nomatch hok.symm.trans (nextEntry_of_firstUnmet hf)
  · rintro ⟨hall, kind, hkind, rfl⟩
    obtain ⟨kind', hkind', hentry⟩ := nextEntry_of_allMet hall
    obtain rfl : kind = kind' := Table.TypeRef.known.inj (hkind.symm.trans hkind')
    exact hentry

/-- A field is refused exactly for the first demand that it does not meet. -/
theorem nextEntry_eq_error_iff {start : Nat} {taken : List String} {f : Field}
    {err : LayoutError} :
    nextEntry start taken f = .error err ↔ FirstUnmet (demandsAt start taken f) err := by
  constructor
  · intro herr
    rcases allMet_or_firstUnmet (demandsAt start taken f) with hall | ⟨err', hf⟩
    · obtain ⟨kind, -, hentry⟩ := nextEntry_of_allMet hall
      exact nomatch herr.symm.trans hentry
    · obtain rfl : err = err' :=
        Except.error.inj (herr.symm.trans (nextEntry_of_firstUnmet hf))
      exact hf
  · exact nextEntry_of_firstUnmet

end Layout

end PackedRecord
