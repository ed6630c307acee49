import PackedRecord.Proofs.Layout.Contiguity

/-! # Reckoning — findings entry by entry, and what they add up to

    `Reported` says what is found about a list of entries without carrying
    anything along: behind what was found about the entries so far stands what
    is found about the next one, which is compared with the end that the last
    of them declares.  Whatever was found there, the next comparison starts
    from the end of this entry, so that the differences telescope.  What is
    left of them is the distance between the declared end of the record and
    its packed end. -/

namespace PackedRecord.Layout

/-- Where a run of entries ends by its last declaration; where it was expected
    to start if there is none. -/
def endAfter (expected : Nat) (entries : List Entry) : Nat :=
  (entries.getLast?.map Entry.declaredEnd).getD expected

theorem endAfter_cons (expected : Nat) (e : Entry) (rest : List Entry) :
    endAfter expected (e :: rest) = endAfter e.declaredEnd rest := by
  cases rest with
  | nil => rfl
  | cons d rest => simp [endAfter, List.getLast?_cons]

/-- The last entry alone says where the declared bytes end. -/
theorem endAfter_append_singleton (expected : Nat) (before : List Entry) (e : Entry) :
    endAfter expected (before ++ [e]) = e.declaredEnd := by
  simp [endAfter]

theorem endAfter_of_getLast? {entries : List Entry} {last : Entry}
    (h : entries.getLast? = some last) (expected : Nat) :
    endAfter expected entries = last.declaredEnd := by
  rw [endAfter, h]
  rfl

/-- Behind the findings about a run of entries stand those about the entries
    after it, expected where the run ends. -/
theorem findingsFrom_append (before rest : List Entry) :
    ∀ (expected : Nat) (previous : Option String),
      findingsFrom expected previous (before ++ rest)
        = findingsFrom expected previous before
          ++ findingsFrom (endAfter expected before) ((lastName? before).or previous) rest := by
  induction before with
  | nil => exact fun _ _ => rfl
  | cons d before ih =>
      intro expected previous
      rw [List.cons_append, findingsFrom, findingsFrom, ih, endAfter_cons, lastName?_cons,
        Option.or_assoc, Option.some_or]
      exact (List.append_assoc _ _ _).symm

/-! ## One entry -/

/-- What is found about where an entry starts, behind an entry of the name
    `previous` that ends at the byte `expected`. -/
inductive Apart (expected : Nat) (previous : Option String) (e : Entry) : List Finding → Prop
  | flush : e.offset = expected → Apart expected previous e []
  | gap : expected < e.offset →
      Apart expected previous e [⟨e.line, .gap e.name e.offset previous expected⟩]
  | overlap : e.offset < expected →
      Apart expected previous e [⟨e.line, .overlap e.name e.offset previous expected⟩]

/-- What is found about how an entry is aligned. -/
inductive Askew (e : Entry) : List Finding → Prop
  | aligned : e.kind.byteWidth ∣ e.offset → Askew e []
  | misaligned : ¬ e.kind.byteWidth ∣ e.offset →
      Askew e [⟨e.line, .misaligned e.name e.kind e.offset⟩]

/-- Comparing a start with the end before it finds what `Apart` says. -/
theorem apart_contiguity (expected : Nat) (previous : Option String) (e : Entry) :
    Apart expected previous e (contiguity expected previous e) := by
  rcases Nat.lt_trichotomy expected e.offset with hgap | hflush | hoverlap
  · rw [contiguity, if_pos hgap]
    exact Apart.gap hgap
  · rw [contiguity_of_eq previous hflush.symm]
    exact Apart.flush hflush.symm
  · rw [contiguity, if_neg (Nat.lt_asymm hoverlap), if_pos hoverlap]
    exact Apart.overlap hoverlap

/-- Dividing an offset by the width of a scalar finds what `Askew` says. -/
theorem askew_alignment (e : Entry) : Askew e (alignment e) := by
  by_cases h : e.offset % e.kind.byteWidth = 0
  · rw [alignment, if_neg (not_not.mpr h)]
    exact Askew.aligned (Nat.dvd_of_mod_eq_zero h)
  · rw [alignment, if_pos h]
    exact Askew.misaligned fun hdvd => h (Nat.mod_eq_zero_of_dvd hdvd)

/-! ## All entries -/

/-- Entries and what is found about them: at most one gap or overlap for each
    of them, and then a misalignment if there is one. -/
inductive Reported : List Entry → List Finding → Prop
  | none : Reported [] []
  | next {before : List Entry} {found apart askew : List Finding} {e : Entry} :
      Reported before found →
      Apart (endAfter 0 before) (lastName? before) e apart →
      Askew e askew →
      Reported (before ++ [e]) (found ++ (apart ++ askew))

/-- The induction is from the end, as the relation grows there; the linter
    starts at the front, which `findingsFrom_append` makes up for. -/
theorem reported_findings (layout : Layout) : Reported layout.entries layout.findings := by
  show Reported layout.entries (findingsFrom 0 none layout.entries)
  induction layout.entries using List.reverseRecOn with
  | nil => exact Reported.none
  | append_singleton before e ih =>
      rw [findingsFrom_append, Option.or_none]
      have hlast : findingsFrom (endAfter 0 before) (lastName? before) [e]
          = contiguity (endAfter 0 before) (lastName? before) e ++ alignment e :=
        List.append_nil _
      rw [hlast]
      exact Reported.next ih (apart_contiguity _ _ e) (askew_alignment e)

/-! ## Bytes missed and bytes used twice -/

/-- The bytes between the expected start and a later one. -/
def Finding.gapBytes (f : Finding) : Int :=
  match f.cause with
  | .gap _ offset _ expected => offset - expected
  | _ => 0

/-- The bytes between an earlier start and the expected one. -/
def Finding.overlapBytes (f : Finding) : Int :=
  match f.cause with
  | .overlap _ offset _ expected => expected - offset
  | _ => 0

/-- The bytes of all gaps less the bytes of all overlaps. -/
def balance (findings : List Finding) : Int :=
  (findings.map Finding.gapBytes).sum - (findings.map Finding.overlapBytes).sum

theorem balance_append (found found' : List Finding) :
    balance (found ++ found') = balance found + balance found' := by
  simp only [balance, List.map_append, List.sum_append]
  omega

/-- What is found about the start of an entry is how far it is from where it was
    expected. -/
theorem balance_apart {expected : Nat} {previous : Option String} {e : Entry}
    {apart : List Finding} (h : Apart expected previous e apart) :
    balance apart = (e.offset : Int) - expected := by
  cases h with
  | flush h => simp [balance, h]
  | gap h => simp [balance, Finding.gapBytes, Finding.overlapBytes]
  | overlap h => simp [balance, Finding.gapBytes, Finding.overlapBytes]

/-- To be misaligned neither leaves out bytes nor takes any twice. -/
theorem balance_askew {e : Entry} {askew : List Finding} (h : Askew e askew) :
    balance askew = 0 := by
  cases h with
  | aligned h => rfl
  | misaligned h => rfl

/-- Every entry moves the declared end by what is found about it and by its
    own bytes. -/
theorem Reported.balance_eq {entries : List Entry} {found : List Finding}
    (h : Reported entries found) :
    balance found = (endAfter 0 entries : Int) - bytesOfEntries entries := by
  induction h with
  | none => rfl
  | @next before found apart askew e _ hapart haskew ih =>
      have hend : (e.declaredEnd : Int) = e.offset + e.size := Int.natCast_add _ _
      have hbytes : bytesOfEntries (before ++ [e]) = bytesOfEntries before + e.size := by
        rw [bytesOfEntries_append]
        rfl
      rw [balance_append, balance_append, ih, balance_apart hapart, balance_askew haskew,
        endAfter_append_singleton, hend, hbytes]
      omega

/-- Without a gap or an overlap there is nothing to balance. -/
theorem balance_eq_zero {found : List Finding} (h : ∀ f ∈ found, ¬ f.BreaksContiguity) :
    balance found = 0 := by
  induction found with
  | nil => rfl
  | cons f rest ih =>
      obtain ⟨hf, hrest⟩ := List.forall_mem_cons.mp h
      have hone : balance [f] = 0 := by
        obtain ⟨line, cause⟩ := f
        cases cause with
        | gap => exact absurd (Or.inl rfl) hf
        | overlap => exact absurd (Or.inr rfl) hf
        | misaligned => rfl
      show balance ([f] ++ rest) = 0
      rw [balance_append, hone, ih hrest, Int.add_zero]

/-- **GAPS AND OVERLAPS BALANCE**, in every layout that has an entry.  What is
    found is found entry by entry, each compared with the declared end before
    it; the gaps less the overlaps are the declared end of the last entry less
    the width of the record.  So an end that is not the width is never passed
    over in silence. -/
theorem findings_balance {layout : Layout} {last : Entry}
    (h : layout.entries.getLast? = some last) :
    Reported layout.entries layout.findings
      ∧ (layout.findings.map Finding.gapBytes).sum
          - (layout.findings.map Finding.overlapBytes).sum
        = (last.declaredEnd : Int) - layout.width
      ∧ (last.declaredEnd ≠ layout.width → ∃ f ∈ layout.findings, f.BreaksContiguity) := by
  have hreported := reported_findings layout
  have hbalance : balance layout.findings = (last.declaredEnd : Int) - layout.width := by
    rw [hreported.balance_eq, endAfter_of_getLast? h]
    rfl
  refine ⟨hreported, hbalance, fun hne => ?_⟩
  by_contra hnone
  have hsilent : ∀ f ∈ layout.findings, ¬ f.BreaksContiguity :=
    fun f hf hbreaks => hnone ⟨f, hf, hbreaks⟩
  rw [balance_eq_zero hsilent] at hbalance
  omega

/-- A gap of seven bytes, an overlap of six behind it that is misaligned, and
    an array that closes up: one byte too many is declared. -/
theorem findings_balance_zigzag :
    (Layout.mk [.entry ⟨1, 0, 0, .u8, "a", 1, ""⟩, .entry ⟨2, 8, 1, .u32, "b", 1, ""⟩,
        .entry ⟨3, 6, 5, .u32, "c", 1, ""⟩, .entry ⟨4, 10, 9, .u16, "d", 3, ""⟩]).entries.getLast?
      = some ⟨4, 10, 9, .u16, "d", 3, ""⟩
      ∧ (([⟨2, .gap "b" 8 (some "a") 1⟩, ⟨3, .overlap "c" 6 (some "b") 12⟩,
            ⟨3, .misaligned "c" .u32 6⟩] : List Finding).map Finding.gapBytes).sum
          - (([⟨2, .gap "b" 8 (some "a") 1⟩, ⟨3, .overlap "c" 6 (some "b") 12⟩,
            ⟨3, .misaligned "c" .u32 6⟩] : List Finding).map Finding.overlapBytes).sum
        = ((16 : Nat) : Int) - (15 : Nat) :=
  have hlast := by decide
  ⟨hlast, (findings_balance hlast).2.1⟩

end PackedRecord.Layout
