import Mathlib
import PackedRecord.Layout.Packing

/-! # Words — the builder on 64-bit words

    The builder reckons in unbounded numbers.  This file has the same builder
    as a loop over words of 64 bits, which cannot reckon so: it carries the
    items so far, the running width and the names so far, and every product
    and sum is refused where it would wrap.

    `run_layout` says that the two answer alike, on every list of rows whose
    offsets and counts are words at all, and `run_exact` that no word of the
    result has wrapped. -/

namespace PackedRecord

/-- Offsets are unsigned words, counts are signed ones. -/
def Table.Row.Fits : Table.Row → Prop
  | .field f => f.offset < 2 ^ 64 ∧ -2 ^ 63 ≤ f.count ∧ f.count < 2 ^ 63
  | _ => True

namespace Layout.Words

open Table (Field Row)

/-! ## Arithmetic that does not wrap -/

def product? (a b : UInt64) : Option UInt64 :=
  if a.toNat * b.toNat < 2 ^ 64 then some (a * b) else none

/-- The sum of two words, if it is a word. -/
def sum? (a b : UInt64) : Option UInt64 :=
  if a.toNat + b.toNat < 2 ^ 64 then some (a + b) else none

/-- A product that is not refused is the true one. -/
theorem toNat_of_product? {a b c : UInt64} (h : product? a b = some c) :
    c.toNat = a.toNat * b.toNat := by
  unfold product? at h
  split at h
  · next hlt =>
      obtain rfl := Option.some.inj h
      rw [UInt64.toNat_mul, Nat.mod_eq_of_lt hlt]
  · exact nomatch h

/-- A sum that is not refused is the true one. -/
theorem toNat_of_sum? {a b c : UInt64} (h : sum? a b = some c) :
    c.toNat = a.toNat + b.toNat := by
  unfold sum? at h
  split at h
  · next hlt =>
      obtain rfl := Option.some.inj h
      rw [UInt64.toNat_add, Nat.mod_eq_of_lt hlt]
  · exact nomatch h

/-- A sum is refused exactly if it would wrap. -/
theorem sum?_eq_none_iff {a b : UInt64} :
    sum? a b = none ↔ 2 ^ 64 ≤ a.toNat + b.toNat := by
  unfold sum?
  split
  · next hlt => exact ⟨fun h => (nomatch h), fun h => absurd hlt (by omega)⟩
  · next hge => exact ⟨fun _ => by omega, fun _ => rfl⟩

/-- A product is refused exactly if it would wrap. -/
theorem product?_eq_none_iff {a b : UInt64} :
    product? a b = none ↔ 2 ^ 64 ≤ a.toNat * b.toNat := by
  unfold product?
  split
  · next hlt => exact ⟨fun h => (nomatch h), fun h => absurd hlt (by omega)⟩
  · next hge => exact ⟨fun _ => by omega, fun _ => rfl⟩

/-! ## The loop -/

structure Slot where
  line : Nat
  offset : UInt64
  position : UInt64
  kind : Scalar.Kind
  name : String
  arrayLength : UInt64
  byteLength : UInt64
  description : String

inductive Mark
  | slot (s : Slot)
  | comment (line : Nat) (text : String)

/-- What the loop carries from row to row. -/
structure Progress where
  marks : List Mark
  width : UInt64
  names : List String

/-- The length of the largest record, as a word. -/
def limit : UInt64 := (1 : UInt64) <<< 20

/-- A count as an unsigned word, if there is at least one element. -/
def countWord? (count : Int) : Option UInt64 :=
  if 1 ≤ count then some (UInt64.ofNat count.toNat) else none

/-- The bytes of so many elements, if they fit into a record and end at a word
    behind the declared offset. -/
def lengthWord? (kind : Scalar.Kind) (count offset : UInt64) : Option UInt64 :=
  match product? (UInt64.ofNat kind.byteWidth) count with
  | none => none
  | some length =>
      if length ≤ limit ∧ (sum? offset length).isSome then some length else none

/-- The field as a slot at the given byte, unless the field itself is at
    fault. -/
def slotAt (position : UInt64) (f : Field) : Except LayoutError Slot :=
  match f.type with
  | .unknown spelling => .error (.unknownType f.line f.name spelling)
  | .known kind =>
      if !isIdentifier f.name then .error (.invalidName f.line f.name)
      else
        match countWord? f.count with
        | none => .error (.nonPositiveCount f.line f.name f.count)
        | some count =>
            match lengthWord? kind count (UInt64.ofNat f.offset) with
            | none => .error (.tooWide f.line f.name)
            | some length =>
                .ok { line := f.line, offset := UInt64.ofNat f.offset, position, kind,
                      name := f.name, arrayLength := count, byteLength := length,
                      description := f.description }

/-- The running width with so many bytes more, if they fit into a record. -/
def widthWord? (width length : UInt64) : Option UInt64 :=
  match sum? width length with
  | none => none
  | some next => if next ≤ limit then some next else none

def step (p : Progress) : Row → Except LayoutError Progress
  | .blank => .ok p
  | .comment line text => .ok { p with marks := p.marks ++ [.comment line text] }
  | .field f => do
      let s ← slotAt p.width f
      if s.name ∈ p.names then .error (.duplicateName s.line s.name)
      else
        match widthWord? p.width s.byteLength with
        | none => .error (.tooWide s.line s.name)
        | some width =>
            .ok { marks := p.marks ++ [.slot s], width, names := s.name :: p.names }

def start : Progress where
  marks := []
  width := 0
  names := []

def run (rows : List Row) : Except LayoutError Progress :=
  rows.foldlM step start

/-! ## Words as numbers -/

def Slot.entry (s : Slot) : Entry where
  line := s.line
  offset := s.offset.toNat
  start := s.position.toNat
  kind := s.kind
  name := s.name
  count := s.arrayLength.toNat
  description := s.description

def Mark.item : Mark → Item
  | slot s => .entry s.entry
  | comment line text => .comment line text

def Progress.layout (p : Progress) : Layout :=
  ⟨p.marks.map Mark.item⟩

/-- The length of a slot is the exact product, and both ends of its ranges are
    exact sums. -/
structure Slot.Exact (s : Slot) : Prop where
  length : s.byteLength.toNat = s.kind.byteWidth * s.arrayLength.toNat
  declared : (s.offset + s.byteLength).toNat = s.offset.toNat + s.byteLength.toNat
  packed : (s.position + s.byteLength).toNat = s.position.toNat + s.byteLength.toNat

theorem limit_toNat : limit.toNat = widthLimit := rfl

/-! ## One slot -/

theorem toNat_byteWidth (kind : Scalar.Kind) :
    (UInt64.ofNat kind.byteWidth).toNat = kind.byteWidth := by
  cases kind <;> rfl

theorem toNat_ofNat_of_lt {n : Nat} (h : n < 2 ^ 64) : (UInt64.ofNat n).toNat = n := by
  rw [UInt64.toNat_ofNat']
  exact Nat.mod_eq_of_lt h

/-- The sum of two words is exact if it does not wrap. -/
theorem sum?_isSome_iff {a b : UInt64} :
    (sum? a b).isSome ↔ a.toNat + b.toNat < 2 ^ 64 := by
  cases hsum : sum? a b with
  | none =>
      have hwraps := sum?_eq_none_iff.mp hsum
      exact ⟨fun h => Bool.noConfusion h, fun h => absurd hwraps (by omega)⟩
  | some c =>
      have hc := toNat_of_sum? hsum
      have hword := c.toNat_lt
      exact ⟨fun _ => by omega, fun _ => rfl⟩

/-- A length is refused exactly if it does not fit, reckoned without bounds;
    one that is not refused is exact. -/
theorem lengthWord?_cases (kind : Scalar.Kind) (count offset : UInt64) :
    (lengthWord? kind count offset = none
        ∧ (widthLimit < kind.byteWidth * count.toNat
          ∨ 2 ^ 64 ≤ offset.toNat + kind.byteWidth * count.toNat))
      ∨ ∃ length, lengthWord? kind count offset = some length
        ∧ length.toNat = kind.byteWidth * count.toNat ∧ length.toNat ≤ widthLimit
        ∧ offset.toNat + length.toNat < 2 ^ 64 := by
  have hlimit : widthLimit = 2 ^ 20 := rfl
  unfold lengthWord?
  cases hproduct : product? (UInt64.ofNat kind.byteWidth) count with
  | none =>
      -- a product that wraps is longer than any record
      have hwraps := product?_eq_none_iff.mp hproduct
      rw [toNat_byteWidth] at hwraps
      exact Or.inl ⟨rfl, Or.inl (by omega)⟩
  | some length =>
      have hlength := toNat_of_product? hproduct
      rw [toNat_byteWidth] at hlength
      by_cases hfits : length ≤ limit ∧ (sum? offset length).isSome
      · obtain ⟨hle, hsum⟩ := hfits
        refine Or.inr ⟨length, if_pos ⟨hle, hsum⟩, hlength, ?_, sum?_isSome_iff.mp hsum⟩
        rw [UInt64.le_iff_toNat_le, limit_toNat] at hle
        exact hle
      · refine Or.inl ⟨if_neg hfits, ?_⟩
        rw [UInt64.le_iff_toNat_le, limit_toNat, sum?_isSome_iff] at hfits
        omega

/-- A running width is refused exactly if it does not fit, reckoned without
    bounds; one that is not refused is exact. -/
theorem widthWord?_cases (width length : UInt64) :
    (widthWord? width length = none ∧ widthLimit < width.toNat + length.toNat)
      ∨ ∃ next, widthWord? width length = some next
        ∧ next.toNat = width.toNat + length.toNat ∧ next.toNat ≤ widthLimit := by
  have hlimit : widthLimit = 2 ^ 20 := rfl
  unfold widthWord?
  cases hsum : sum? width length with
  | none =>
      -- a sum that wraps is longer than any record
      have hwraps := sum?_eq_none_iff.mp hsum
      exact Or.inl ⟨rfl, by omega⟩
  | some next =>
      have hnext := toNat_of_sum? hsum
      by_cases hle : next ≤ limit
      · refine Or.inr ⟨next, if_pos hle, hnext, ?_⟩
        rw [UInt64.le_iff_toNat_le, limit_toNat] at hle
        exact hle
      · refine Or.inl ⟨if_neg hle, ?_⟩
        rw [UInt64.le_iff_toNat_le, limit_toNat] at hle
        omega

/-- What a slot has to do with the field that it holds: the loop refuses the
    field for the reason for which the builder does, or its slot is the
    builder's entry with an exact length. -/
theorem slotAt_cases {f : Field} (hfits : (Row.field f).Fits) (position : UInt64) :
    (∃ err, slotAt position f = .error err ∧ entryAt position.toNat f = .error err)
      ∨ ∃ s, slotAt position f = .ok s ∧ entryAt position.toNat f = .ok s.entry
        ∧ s.position = position ∧ s.byteLength.toNat = s.entry.size
        ∧ s.offset.toNat + s.byteLength.toNat < 2 ^ 64 ∧ s.byteLength.toNat ≤ widthLimit := by
  obtain ⟨hoffset, -, hcount⟩ := hfits
  have hoff : (UInt64.ofNat f.offset).toNat = f.offset := toNat_ofNat_of_lt hoffset
  unfold slotAt entryAt
  cases f.type with
  | unknown spelling => exact Or.inl ⟨_, rfl, rfl⟩
  | known kind =>
      -- both make the same checks in the same order
      by_cases hname : (!isIdentifier f.name) = true
      · exact Or.inl ⟨_, if_pos hname, if_pos hname⟩
      simp only [if_neg hname]
      by_cases hpos : f.count < 1
      · have hword : countWord? f.count = none := if_neg (by omega)
        exact Or.inl ⟨_, by rw [hword], if_pos hpos⟩
      -- a positive signed word is itself as an unsigned one
      have hword : countWord? f.count = some (UInt64.ofNat f.count.toNat) := if_pos (by omega)
      have hnum : (UInt64.ofNat f.count.toNat).toNat = f.count.toNat :=
        toNat_ofNat_of_lt (by omega)
      simp only [if_neg hpos, hword]
      rcases lengthWord?_cases kind (UInt64.ofNat f.count.toNat) (UInt64.ofNat f.offset) with
        ⟨hnone, hwide⟩ | ⟨length, hsome, hlength, hle, hend⟩
      · rw [hnum, hoff] at hwide
        exact Or.inl ⟨_, by rw [hnone], if_pos hwide⟩
      · refine Or.inr ⟨_, by rw [hsome], ?_, rfl, ?_, hend, hle⟩
        · rw [hnum] at hlength
          rw [hoff] at hend
          refine (if_neg ?_).trans ?_
          · show ¬ (widthLimit < kind.byteWidth * f.count.toNat
              ∨ 2 ^ 64 ≤ f.offset + kind.byteWidth * f.count.toNat)
            omega
          · simp only [Slot.entry, hoff, hnum]
        · exact hlength

/-! ## The loop against the builder -/

/-- What holds of the loop's state after every turn. -/
structure Progress.Exact (p : Progress) : Prop where
  width : p.width.toNat = p.layout.width
  slots : ∀ s, .slot s ∈ p.marks → s.Exact

/-- Where a sum has room it needs no check. -/
theorem sum_exact {a b : UInt64} (h : a.toNat + b.toNat < 2 ^ 64) :
    (a + b).toNat = a.toNat + b.toNat := by
  rw [UInt64.toNat_add, Nat.mod_eq_of_lt h]

/-- A mark more: what the layout so far becomes. -/
theorem layout_width_append (marks : List Mark) (mark : Mark) :
    Layout.width ⟨(marks ++ [mark]).map Mark.item⟩
      = Layout.width ⟨marks.map Mark.item⟩ + Layout.width ⟨[mark.item]⟩ := by
  simp only [Layout.width, Layout.entries, List.map_append, List.filterMap_append,
    bytesOfEntries_append, List.map_cons, List.map_nil]

/-- One turn of the loop, on a field: both refuse it for the same reason, or
    the loop goes on where the builder does. -/
theorem step_field {p : Progress} (hp : p.Exact) {f : Field} (hfits : (Row.field f).Fits) :
    (∃ err, step p (.field f) = .error err ∧ nextEntry p.width.toNat p.names f = .error err)
      ∨ ∃ s width, step p (.field f)
            = .ok { marks := p.marks ++ [.slot s], width, names := s.name :: p.names }
        ∧ nextEntry p.width.toNat p.names f = .ok s.entry
        ∧ width.toNat = s.entry.stop
        ∧ Progress.Exact { marks := p.marks ++ [.slot s], width, names := s.name :: p.names } := by
  rcases slotAt_cases hfits p.width with ⟨err, hslot, hentry⟩
    | ⟨s, hslot, hentry, hposition, hlength, hend, hle⟩
  · refine Or.inl ⟨err, ?_, ?_⟩
    · show slotAt p.width f >>= _ = _
      rw [hslot]
      rfl
    · show entryAt p.width.toNat f >>= _ = _
      rw [hentry]
      rfl
  have hstep : step p (.field f)
      = if s.name ∈ p.names then .error (.duplicateName s.line s.name)
        else
          match widthWord? p.width s.byteLength with
          | none => .error (.tooWide s.line s.name)
          | some width =>
              .ok { marks := p.marks ++ [.slot s], width, names := s.name :: p.names } := by
    show slotAt p.width f >>= _ = _
    rw [hslot]
    rfl
  have hnext : nextEntry p.width.toNat p.names f
      = if s.name ∈ p.names then .error (.duplicateName s.line s.name)
        else if widthLimit < s.entry.stop then .error (.tooWide s.line s.name)
        else .ok s.entry := by
    show entryAt p.width.toNat f >>= _ = _
    rw [hentry]
    rfl
  have hstop : s.entry.stop = p.width.toNat + s.byteLength.toNat := by
    rw [hlength, ← hposition]
    rfl
  -- what is left is the name, and then the running width
  rw [hstep, hnext]
  by_cases hname : s.name ∈ p.names
  · exact Or.inl ⟨_, if_pos hname, if_pos hname⟩
  rw [if_neg hname, if_neg hname]
  rcases widthWord?_cases p.width s.byteLength with ⟨hnone, hwide⟩ | ⟨width, hsome, hwidth, hfit⟩
  · rw [hnone, if_pos (by omega)]
    exact Or.inl ⟨_, rfl, rfl⟩
  · rw [hsome, if_neg (by omega)]
    refine Or.inr ⟨s, width, rfl, rfl, by omega, ?_, ?_⟩
    · show width.toNat = Layout.width ⟨(p.marks ++ [Mark.slot s]).map Mark.item⟩
      rw [layout_width_append, hwidth, hp.width, hlength]
      rfl
    · intro t ht
      rcases List.mem_append.mp ht with ht | ht
      · exact hp.slots t ht
      -- the slot that was added ends inside the record, far below the largest word
      · obtain rfl : t = s := Mark.slot.inj (List.mem_singleton.mp ht)
        have hword := width.toNat_lt
        exact ⟨hlength, sum_exact hend, sum_exact (by rw [hposition]; omega)⟩

/-- The loop from any state that it can be in, against the builder from the
    same width and names. -/
theorem foldlM_step {rows : List Row} (hfits : ∀ row ∈ rows, row.Fits) :
    ∀ {p : Progress}, p.Exact →
      (∃ err, rows.foldlM step p = .error err
          ∧ itemsFrom p.width.toNat p.names rows = .error err)
        ∨ ∃ q items, rows.foldlM step p = .ok q ∧ q.Exact
          ∧ itemsFrom p.width.toNat p.names rows = .ok items
          ∧ q.marks.map Mark.item = p.marks.map Mark.item ++ items := by
  induction rows with
  | nil => exact fun {p} hp => Or.inr ⟨p, [], rfl, hp, rfl, (List.append_nil _).symm⟩
  | cons row rows ih =>
      intro p hp
      have hrest : ∀ r ∈ rows, r.Fits := fun r hr => hfits r (List.mem_cons_of_mem _ hr)
      cases row with
      | blank => exact ih hrest hp
      | comment line text =>
          -- a comment moves neither width nor names
          have hq : Progress.Exact { p with marks := p.marks ++ [.comment line text] } := by
            refine ⟨?_, ?_⟩
            · show p.width.toNat
                = Layout.width ⟨(p.marks ++ [Mark.comment line text]).map Mark.item⟩
              rw [layout_width_append, hp.width]
              rfl
            · intro s hs
              rcases List.mem_append.mp hs with hs | hs
              · exact hp.slots s hs
              · exact nomatch List.mem_singleton.mp hs
          rcases ih hrest hq with ⟨err, hrun, hitems⟩ | ⟨q, items, hrun, hexact, hitems, hmarks⟩
          · refine Or.inl ⟨err, hrun, ?_⟩
            show itemsFrom p.width.toNat p.names rows >>= _ = _
            rw [hitems]
            rfl
          · refine Or.inr ⟨q, .comment line text :: items, hrun, hexact, ?_, ?_⟩
            · show itemsFrom p.width.toNat p.names rows >>= _ = _
              rw [hitems]
              rfl
            · rw [hmarks, List.map_append, List.append_assoc]
              rfl
      | field f =>
          have hf := hfits (.field f) List.mem_cons_self
          rcases step_field hp hf with ⟨err, hstep, hnext⟩ | ⟨s, width, hstep, hnext, hwidth, hq⟩
          · refine Or.inl ⟨err, ?_, ?_⟩
            · rw [List.foldlM_cons, hstep]
              rfl
            · show nextEntry p.width.toNat p.names f >>= _ = _
              rw [hnext]
              rfl
          · have hitemsFrom : itemsFrom p.width.toNat p.names (.field f :: rows)
                = (itemsFrom width.toNat (s.name :: p.names) rows).map (.entry s.entry :: ·) := by
              show nextEntry p.width.toNat p.names f >>= _ = _
              rw [hnext, hwidth]
              rfl
            rw [List.foldlM_cons, hstep, hitemsFrom]
            rcases ih hrest hq with ⟨err, hrun, hitems⟩ | ⟨q, items, hrun, hexact, hitems, hmarks⟩
            · refine Or.inl ⟨err, hrun, ?_⟩
              rw [hitems]
              rfl
            · refine Or.inr ⟨q, .entry s.entry :: items, hrun, hexact, ?_, ?_⟩
              · rw [hitems]
                rfl
              · rw [hmarks, List.map_append, List.append_assoc]
                rfl

theorem start_exact : start.Exact :=
  ⟨rfl, fun _ hs => nomatch hs⟩

/-- The loop on words builds the layout that the unbounded builder builds, and
    refuses what that one refuses, for the same reason. -/
theorem run_layout {rows : List Row} (hfits : ∀ row ∈ rows, row.Fits) :
    (run rows).map Progress.layout = (itemsFrom 0 [] rows).map Layout.mk := by
  rcases foldlM_step hfits start_exact with ⟨err, hrun, hitems⟩
    | ⟨q, items, hrun, -, hitems, hmarks⟩
  · rw [run, hrun, show itemsFrom 0 [] rows = _ from hitems]
    rfl
  · rw [run, hrun, show itemsFrom 0 [] rows = _ from hitems]
    exact congrArg (fun items => Except.ok (Layout.mk items)) hmarks

/-- Nothing that the loop keeps has wrapped. -/
theorem run_exact {rows : List Row} (hfits : ∀ row ∈ rows, row.Fits) {p : Progress}
    (h : run rows = .ok p) : p.Exact := by
  rcases foldlM_step hfits start_exact with ⟨err, hrun, -⟩ | ⟨q, items, hrun, hexact, -, -⟩
  · exact nomatch h.symm.trans hrun
  · obtain rfl : p = q := Except.ok.inj (h.symm.trans hrun)
    exact hexact

end Layout.Words

end PackedRecord
