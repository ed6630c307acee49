import PackedRecord.Proofs.Layout.Reckoning
import PackedRecord.Proofs.Tool.Account

/-! # Declared ranges — overlaps near and far

    An entry is only compared with the entry before it, and with the end that
    this one declares, not with the largest end so far.  That is enough: as
    long as no overlap is found, every entry starts behind all entries before
    it, because declared ends cannot fall without one (`endAfter_le_iff`).  So
    two entries in each other's way, however far apart, are never passed over,
    though the finding may be about others between them. -/

namespace PackedRecord

namespace Layout

/-- The byte is in the declared range. -/
def Entry.Declares (e : Entry) (k : Nat) : Prop :=
  e.offset ≤ k ∧ k < e.declaredEnd

instance (e : Entry) (k : Nat) : Decidable (e.Declares k) :=
  inferInstanceAs (Decidable (_ ∧ _))

/-- The declared range ends where the other one starts, or before. -/
def Entry.Precedes (a b : Entry) : Prop :=
  a.declaredEnd ≤ b.offset

/-- In each other's way: out of order, or with a byte in common. -/
def Entry.Clash (a b : Entry) : Prop :=
  b.offset < a.offset ∨ ∃ k, a.Declares k ∧ b.Declares k

theorem Entry.offset_le_declaredEnd (e : Entry) : e.offset ≤ e.declaredEnd :=
  Nat.le_add_right e.offset e.size

/-- Ranges that are not empty are in order and apart exactly if one precedes
    the other. -/
theorem Entry.not_clash_iff {a b : Entry} (ha : 1 ≤ a.size) (hb : 1 ≤ b.size) :
    ¬ a.Clash b ↔ a.Precedes b := by
  have haend : a.declaredEnd = a.offset + a.size := rfl
  have hbend : b.declaredEnd = b.offset + b.size := rfl
  constructor
  · intro h
    obtain ⟨horder, hapart⟩ := not_or.mp h
    by_contra hprecedes
    have hlt : b.offset < a.declaredEnd := Nat.lt_of_not_le hprecedes
    -- the first byte of `b` is in both ranges
    refine hapart ⟨b.offset, ⟨by omega, hlt⟩, ⟨Nat.le_refl _, by omega⟩⟩
  · intro hprecedes hclash
    have hle : a.declaredEnd ≤ b.offset := hprecedes
    rcases hclash with horder | ⟨k, ⟨-, hka⟩, ⟨hkb, -⟩⟩ <;> omega

/-! ## From neighbours to all entries -/

/-- In a run without overlaps the last declared end is the largest. -/
theorem endAfter_le_iff {entries : List Entry} (h : entries.Pairwise Entry.Precedes) (n : Nat) :
    endAfter 0 entries ≤ n ↔ ∀ e ∈ entries, e.declaredEnd ≤ n := by
  induction entries using List.reverseRecOn with
  | nil => exact iff_of_true (Nat.zero_le n) fun e he => nomatch he
  | append_singleton before last _ =>
      obtain ⟨-, -, hlast⟩ := List.pairwise_append.mp h
      rw [endAfter_append_singleton, List.forall_mem_append, List.forall_mem_singleton]
      constructor
      · intro hn
        refine ⟨fun e he => ?_, hn⟩
        calc e.declaredEnd ≤ last.offset := hlast e he last (List.mem_singleton_self last)
          _ ≤ last.declaredEnd := last.offset_le_declaredEnd
          _ ≤ n := hn
      · exact fun hall => hall.2

/-- An overlap is found exactly if the entry starts before the end that is
    expected. -/
theorem apart_rule_ne_overlap_iff {expected : Nat} {previous : Option String} {e : Entry}
    {apart : List Finding} (h : Apart expected previous e apart) :
    (∀ f ∈ apart, f.cause.rule ≠ "overlap") ↔ expected ≤ e.offset := by
  cases h with
  | flush h => exact iff_of_true (fun f hf => nomatch hf) h.ge
  | gap h =>
      refine iff_of_true ?_ h.le
      rw [List.forall_mem_singleton]
      show "gap" ≠ "overlap"
      decide
  | overlap h =>
      refine iff_of_false ?_ (Nat.not_le.mpr h)
      rw [List.forall_mem_singleton]
      exact fun hrule => hrule rfl

theorem askew_rule_ne_overlap {e : Entry} {askew : List Finding} (h : Askew e askew) :
    ∀ f ∈ askew, f.cause.rule ≠ "overlap" := by
  cases h with
  | aligned h => exact fun f hf => nomatch hf
  | misaligned h =>
      rw [List.forall_mem_singleton]
      show "misaligned" ≠ "overlap"
      decide

/-- The induction is over what was reported.  Behind entries that precede each
    other, one more is reported as an overlap exactly if one of them does not
    precede it. -/
theorem Reported.pairwise_iff {entries : List Entry} {found : List Finding}
    (h : Reported entries found) :
    (∀ f ∈ found, f.cause.rule ≠ "overlap") ↔ entries.Pairwise Entry.Precedes := by
  induction h with
  | none => exact iff_of_true (fun f hf => nomatch hf) List.Pairwise.nil
  | @next before found apart askew e _ hapart haskew ih =>
      rw [List.forall_mem_append, List.forall_mem_append, ih, apart_rule_ne_overlap_iff hapart,
        List.pairwise_append]
      simp only [List.forall_mem_singleton, List.pairwise_singleton, true_and]
      constructor
      · rintro ⟨hbefore, hend, -⟩
        exact ⟨hbefore, (endAfter_le_iff hbefore e.offset).mp hend⟩
      · rintro ⟨hbefore, hall⟩
        exact ⟨hbefore, (endAfter_le_iff hbefore e.offset).mpr hall, askew_rule_ne_overlap haskew⟩

/-- Errors are the overlaps. -/
theorem Finding.severity_eq_error_iff (f : Finding) :
    f.cause.severity = .error ↔ f.cause.rule = "overlap" := by
  obtain ⟨line, cause⟩ := f
  cases cause <;> simp [Cause.severity, Cause.rule]

/-- Two entries in each other's way are reason for an error. -/
theorem exists_error_of_clash {layout : Layout} (h : Packed layout) {a b : Entry}
    (hab : [a, b].Sublist layout.entries) (hclash : a.Clash b) :
    ∃ f ∈ layout.findings, f.cause.severity = .error := by
  by_contra hnone
  have hsilent : ∀ f ∈ layout.findings, f.cause.rule ≠ "overlap" :=
    fun f hf hrule => hnone ⟨f, hf, f.severity_eq_error_iff.mpr hrule⟩
  have hpairwise := (reported_findings layout).pairwise_iff.mp hsilent
  have hprecedes : a.Precedes b := List.pairwise_iff_forall_sublist.mp hpairwise hab
  have ha := (h.sound a (hab.subset (by simp))).size_pos
  have hb := (h.sound b (hab.subset (by simp))).size_pos
  exact (Entry.not_clash_iff ha hb).mpr hprecedes hclash

end Layout

/-- **NO OVERLAP IS MISSED**, in any layout that is built: none is found
    exactly if every declared range ends before all later ones start, which is
    to say that the ranges are in ascending order and no byte is declared
    twice.  Two entries for which this fails, with whatever between them, are
    reason for an error, and any run of the linter on a table with this layout
    ends with the status one. -/
theorem overlaps_complete {rows : List Table.Row} {policy : OffsetPolicy} {layout : Layout}
    (h : Layout.ofRows rows policy = .ok layout) :
    ((∀ f ∈ layout.findings, f.cause.rule ≠ "overlap")
        ↔ layout.entries.Pairwise fun a b => a.declaredEnd ≤ b.offset)
      ∧ ((layout.entries.Pairwise fun a b => a.declaredEnd ≤ b.offset)
        ↔ layout.entries.Pairwise fun a b =>
            a.offset ≤ b.offset ∧ ∀ k, ¬ (a.Declares k ∧ b.Declares k))
      ∧ ∀ a b, [a, b].Sublist layout.entries → a.Clash b →
          (∃ f ∈ layout.findings, f.cause.severity = .error)
            ∧ ∀ arguments flags files d stdin i source, Tool.Lint.Sorts arguments flags files →
                i ∈ Tool.Lint.inputs d stdin files → i.text = .ok source →
                load source .ignore = .ok layout →
                (Tool.Lint.run arguments d stdin).status = 1 := by
  have hpacked := Layout.packed_of_ofRows h
  refine ⟨(Layout.reported_findings layout).pairwise_iff, ?_, ?_⟩
  · have hiff : ∀ a ∈ layout.entries, ∀ b ∈ layout.entries,
        a.declaredEnd ≤ b.offset
          ↔ a.offset ≤ b.offset ∧ ∀ k, ¬ (a.Declares k ∧ b.Declares k) := by
      intro a ha b hb
      refine (Layout.Entry.not_clash_iff (hpacked.sound a ha).size_pos
        (hpacked.sound b hb).size_pos).symm.trans ?_
      rw [Layout.Entry.Clash, not_or, Nat.not_lt, not_exists]
    constructor
    · exact fun hall => hall.imp_of_mem fun ha hb => (hiff _ ha _ hb).mp
    · exact fun hall => hall.imp_of_mem fun ha hb => (hiff _ ha _ hb).mpr
  · intro a b hab hclash
    have herror := Layout.exists_error_of_clash hpacked hab hclash
    refine ⟨herror, ?_⟩
    intro arguments flags files d stdin i source hsorts hi htext hload
    have hlint : lint source = .ok layout.findings := by
      rw [lint_eq, hload]
      rfl
    exact Tool.Lint.status_eq_one hsorts hi htext hlint herror

/-- A small field inside one that stands two lines above it; the gap between
    them is where the next field is looked for. -/
theorem overlaps_complete_inside :
    Layout.ofRows
        [.field ⟨1, 0, .known .u8, "a", 100, ""⟩, .field ⟨2, 200, .known .u8, "b", 1, ""⟩,
          .field ⟨3, 50, .known .u8, "c", 1, ""⟩] .ignore
      = .ok ⟨[.entry ⟨1, 0, 0, .u8, "a", 100, ""⟩, .entry ⟨2, 200, 100, .u8, "b", 1, ""⟩,
          .entry ⟨3, 50, 101, .u8, "c", 1, ""⟩]⟩
      ∧ (⟨1, 0, 0, .u8, "a", 100, ""⟩ : Layout.Entry).Clash ⟨3, 50, 101, .u8, "c", 1, ""⟩
      ∧ (Tool.Lint.run ["-H", "clean", "table"]
            ⟨[(["table"], "0\tu8\ta[100]\t\nc8\tu8\tb\t\n32\tu8\tc\t".toUTF8),
              (["clean"], .empty)], []⟩ .empty).status = 1 := by
  have h : Layout.ofRows
        [.field ⟨1, 0, .known .u8, "a", 100, ""⟩, .field ⟨2, 200, .known .u8, "b", 1, ""⟩,
          .field ⟨3, 50, .known .u8, "c", 1, ""⟩] .ignore
      = .ok ⟨[.entry ⟨1, 0, 0, .u8, "a", 100, ""⟩, .entry ⟨2, 200, 100, .u8, "b", 1, ""⟩,
          .entry ⟨3, 50, 101, .u8, "c", 1, ""⟩]⟩ := by
    decide
  have hclash : (⟨1, 0, 0, .u8, "a", 100, ""⟩ : Layout.Entry).Clash
      ⟨3, 50, 101, .u8, "c", 1, ""⟩ :=
    Or.inr ⟨50, by decide, by decide⟩
  have hsublist : [⟨1, 0, 0, .u8, "a", 100, ""⟩, ⟨3, 50, 101, .u8, "c", 1, ""⟩].Sublist
      (Layout.mk [.entry ⟨1, 0, 0, .u8, "a", 100, ""⟩, .entry ⟨2, 200, 100, .u8, "b", 1, ""⟩,
        .entry ⟨3, 50, 101, .u8, "c", 1, ""⟩]).entries := by
    decide
  have hload : load "0\tu8\ta[100]\t\nc8\tu8\tb\t\n32\tu8\tc\t" .ignore
      = .ok ⟨[.entry ⟨1, 0, 0, .u8, "a", 100, ""⟩, .entry ⟨2, 200, 100, .u8, "b", 1, ""⟩,
          .entry ⟨3, 50, 101, .u8, "c", 1, ""⟩]⟩ := by
    decide +kernel
  have hsorts : Tool.Lint.Sorts ["-H", "clean", "table"] ["-H"] ["clean", "table"] :=
    .switch (by decide) (.file (by decide) (.file (by decide) .done))
  have htext : Tool.Directory.readText
        ⟨[(["table"], "0\tu8\ta[100]\t\nc8\tu8\tb\t\n32\tu8\tc\t".toUTF8),
          (["clean"], .empty)], []⟩ "table"
      = .ok "0\tu8\ta[100]\t\nc8\tu8\tb\t\n32\tu8\tc\t" := by
    decide +kernel
  exact ⟨h, hclash,
    ((overlaps_complete h).2.2 _ _ hsublist hclash).2 _ _ _ _ _ ⟨"table", _⟩ _ hsorts
      (List.mem_cons_of_mem _ List.mem_cons_self) htext hload⟩

end PackedRecord
