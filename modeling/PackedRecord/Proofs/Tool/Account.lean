import PackedRecord.Proofs.Tool.Tally

/-! # Accounts — what a run of the linter amounts to

    A run that goes through its tables with a running tally leaves behind one
    block for each table, totals over all of them, and a status.  None of this
    is said in terms of the tally here, but of what is found about each table
    by itself.  That is why the order of the files matters to the order of the
    blocks and to nothing else. -/

namespace PackedRecord.Tool.Lint

open Layout (Finding)

/-! ## What a run amounts to -/

theorem isError_or_isWarning (f : Finding) : isError f = true ∨ isWarning f = true := by
  rw [isError, isWarning]
  cases f.cause.severity
  · exact Or.inl rfl
  · exact Or.inr rfl

/-- The last line of the error stream, which is only there if something was
    found. -/
def totals (tables : List Input) : String :=
  if foundIn tables = [] then ""
  else
    "lint: " ++ toString ((foundIn tables).countP isError) ++ " error(s), "
      ++ toString ((foundIn tables).countP isWarning) ++ " warning(s)\n"

/-- The totals are counts over all tables. -/
theorem summary_eq_totals (tables : List Input) :
    summary ((foundIn tables).countP isError) ((foundIn tables).countP isWarning)
      = totals tables := by
  rw [summary, totals]
  cases hfound : foundIn tables with
  | nil => rfl
  | cons f rest =>
      -- whatever the first finding is, one of the two counts has it
      have hcount : 0 < (f :: rest).countP isError ∨ 0 < (f :: rest).countP isWarning := by
        rcases isError_or_isWarning f with hf | hf
        · exact Or.inl (List.countP_pos_iff.mpr ⟨f, List.mem_cons_self, hf⟩)
        · exact Or.inr (List.countP_pos_iff.mpr ⟨f, List.mem_cons_self, hf⟩)
      rw [if_pos hcount, if_neg (List.cons_ne_nil f rest)]

theorem findingText_ne_empty (human : Bool) (path : String) (f : Finding) :
    findingText human path f ≠ "" := by
  rw [findingText]
  split <;> simp [String.append_eq_empty_iff]

/-- Texts amount to nothing only if all of them are empty. -/
theorem join_eq_empty_iff {texts : List String} :
    String.join texts = "" ↔ ∀ text ∈ texts, text = "" := by
  induction texts with
  | nil => simp
  | cons text rest ih => rw [String.join_cons, String.append_eq_empty_iff, ih, List.forall_mem_cons]

/-- Nothing is printed exactly if nothing is found. -/
theorem join_blocks_eq_empty_iff (human : Bool) (tables : List Input) :
    String.join (tables.map (Input.block human)) = "" ↔ foundIn tables = [] := by
  have hblock : ∀ i : Input, i.block human = "" ↔ i.found = [] := by
    intro i
    rw [Input.block, join_eq_empty_iff, List.forall_mem_map, List.eq_nil_iff_forall_not_mem]
    exact forall₂_congr fun f _ => iff_false_intro (findingText_ne_empty human i.name f)
  rw [join_eq_empty_iff, List.forall_mem_map, foundIn, List.flatMap_eq_nil_iff]
  exact forall₂_congr fun i _ => hblock i

/-- What a run leaves behind, table by table. -/
structure Account (choice : Choice) (tables : List Input) (d : Directory) (o : Outcome) : Prop where
  /-- A block for each table, in order; one that failed has none. -/
  stdout : o.stdout = String.join (tables.map (Input.block choice.human))
  /-- The totals are counted over all tables. -/
  stderr : o.stderr = String.join (tables.map (Input.notes choice.verbose)) ++ totals tables
  printed : totals tables ≠ "" ↔ o.stdout ≠ ""
  status : o.status
    = if (∃ i ∈ tables, i.Failed) ∨ (∃ f ∈ foundIn tables, f.cause.severity = .error) then 1 else 0
  directory : o.directory = d

/-- There are no totals exactly if nothing was found. -/
theorem totals_eq_empty_iff (tables : List Input) : totals tables = "" ↔ foundIn tables = [] := by
  rw [totals]
  split
  · next h => exact iff_of_true rfl h
  · next h => exact iff_of_false (by simp [String.append_eq_empty_iff]) h

/-- What the tally comes to in the end, said of the tables by themselves. -/
theorem account_outcome (choice : Choice) (tables : List Input) (d : Directory) :
    Account choice tables d ((tables.foldl (Tally.take choice) {}).outcome d) := by
  rw [Tally.foldl_take]
  have hstdout : ("" ++ String.join (tables.map (Input.block choice.human)) : String)
      = String.join (tables.map (Input.block choice.human)) := String.empty_append
  have herrors : 0 < (foundIn tables).countP isError
      ↔ ∃ f ∈ foundIn tables, f.cause.severity = .error := by
    simp only [List.countP_pos_iff, isError, decide_eq_true_iff]
  refine ⟨hstdout, ?_, ?_, ?_, rfl⟩
  · show ("" ++ _ : String) ++ summary (0 + _) (0 + _) = _
    rw [String.empty_append, Nat.zero_add, Nat.zero_add, summary_eq_totals]
  · show _ ↔ ("" ++ _ : String) ≠ ""
    rw [hstdout, Ne, Ne, totals_eq_empty_iff, join_blocks_eq_empty_iff]
  · show (if (false || decide _) || decide (0 < 0 + _) then 1 else 0) = _
    simp only [Bool.false_or, Nat.zero_add, Bool.or_eq_true, decide_eq_true_iff, herrors]

/-- A table of which something is found that is an error ends the run with the
    status one. -/
theorem status_eq_one {arguments flags files : List String} (h : Sorts arguments flags files)
    {d : Directory} {stdin : ByteArray} {i : Input} (hi : i ∈ inputs d stdin files)
    {source : String} (htext : i.text = .ok source) {findings : List Layout.Finding}
    (hlint : lint source = .ok findings) (herror : ∃ f ∈ findings, f.cause.severity = .error) :
    (run arguments d stdin).status = 1 := by
  have hstdin : files = [] → ∃ source, decodeText stdin = .ok source := by
    rintro rfl
    obtain rfl := List.mem_singleton.mp hi
    exact ⟨source, htext⟩
  have hfindings : i.findings = .ok findings := by
    rw [Input.findings, htext]
    exact congrArg (Except.mapError CompileError.message) hlint
  have hfound : i.found = findings := by rw [Input.found, hfindings]
  obtain ⟨f, hf, hseverity⟩ := herror
  have hmem : f ∈ foundIn (inputs d stdin files) :=
    List.mem_flatMap.mpr ⟨i, hi, hfound ▸ hf⟩
  rw [run_eq_tally h d hstdin, (account_outcome _ _ d).status,
    if_pos (Or.inr ⟨f, hmem, hseverity⟩)]

/-! ## The order of the files -/

/-- Files in another order are the same inputs in another order. -/
theorem inputs_perm (d : Directory) (stdin : ByteArray) {files files' : List String}
    (h : files'.Perm files) : (inputs d stdin files').Perm (inputs d stdin files) := by
  cases files with
  | nil =>
      rw [h.eq_nil]
  | cons file files =>
      cases files' with
      | nil => exact absurd h.symm.eq_nil (List.cons_ne_nil file files)
      | cons file' files' => exact h.map fun path => (⟨path, d.readText path⟩ : Input)

theorem foundIn_perm {tables tables' : List Input} (h : tables'.Perm tables) :
    (foundIn tables').Perm (foundIn tables) :=
  h.flatMap fun _ _ => List.Perm.refl _

/-- Totals do not depend on the order of the tables. -/
theorem totals_perm {tables tables' : List Input} (h : tables'.Perm tables) :
    totals tables' = totals tables := by
  have hfound := foundIn_perm h
  have hnil : foundIn tables' = [] ↔ foundIn tables = [] :=
    ⟨fun hnil => (hnil ▸ hfound).symm.eq_nil, fun hnil => (hnil ▸ hfound).eq_nil⟩
  rw [totals, totals, hfound.countP_eq, hfound.countP_eq]
  simp only [hnil]

/-- **EVERY TABLE IS LINTED**, whatever becomes of the others.  Switches are
    taken out of the arguments wherever they stand; the rest are the files.
    The run is the loop over the tables with its running totals, and amounts to
    what is found about each table by itself.  So another order of the files
    gives the same blocks in that order, the same totals and the same
    status. -/
theorem lints_every_table (arguments : List String) (d : Directory) (stdin : ByteArray)
    (hstdin : (∀ a ∈ arguments, a ∈ switches) → ∃ source, decodeText stdin = .ok source) :
    ∃ flags files, Sorts arguments flags files
      ∧ run arguments d stdin
        = ((inputs d stdin files).foldl (Tally.take (.of flags files)) {}).outcome d
      ∧ Account (.of flags files) (inputs d stdin files) d (run arguments d stdin)
      ∧ ∀ arguments' flags' files', Sorts arguments' flags' files' → files'.Perm files →
          (ForPeople flags' ↔ ForPeople flags) →
          ((inputs d stdin files').map (Input.block (ForPeople flags))).Perm
              ((inputs d stdin files).map (Input.block (ForPeople flags)))
            ∧ (run arguments' d stdin).stdout
              = String.join ((inputs d stdin files').map (Input.block (ForPeople flags)))
            ∧ (run arguments' d stdin).stderr
              = String.join ((inputs d stdin files').map (Input.notes (Verbose flags')))
                ++ totals (inputs d stdin files)
            ∧ (run arguments' d stdin).status = (run arguments d stdin).status := by
  obtain ⟨flags, files, hsorts⟩ := exists_sorts arguments
  have hread : files = [] → ∃ source, decodeText stdin = .ok source :=
    fun hfiles => hstdin (Sorts.mem_switches (hfiles ▸ hsorts))
  have hrun := run_eq_tally hsorts d hread
  have haccount := account_outcome (.of flags files) (inputs d stdin files) d
  rw [← hrun] at haccount
  refine ⟨flags, files, hsorts, hrun, haccount, ?_⟩
  intro arguments' flags' files' hsorts' hperm hhuman
  have hread' : files' = [] → ∃ source, decodeText stdin = .ok source :=
    fun hfiles' => hread (hfiles' ▸ hperm).symm.eq_nil
  have haccount' := account_outcome (.of flags' files') (inputs d stdin files') d
  rw [← run_eq_tally hsorts' d hread'] at haccount'
  have hinputs := inputs_perm d stdin hperm
  have hpeople : (Choice.of flags' files').human = decide (ForPeople flags) :=
    decide_eq_decide.mpr hhuman
  refine ⟨hinputs.map _, ?_, ?_, ?_⟩
  · rw [haccount'.stdout, hpeople]
  · rw [haccount'.stderr, totals_perm hinputs]
    rfl
  · rw [haccount'.status, haccount.status]
    simp only [hinputs.mem_iff, (foundIn_perm hinputs).mem_iff]

/-- A table with a finding, one that is no text, and one that is listed twice
    and missing; the switch stands among them. -/
theorem lints_every_table_mixed :
    ((∀ a ∈ ["odd", "-H", "none", "bad", "none"], a ∈ switches) →
        ∃ source, decodeText .empty = .ok source)
      ∧ foundIn (inputs ⟨[(["odd"], "1\tu8\ta".toUTF8), (["bad"], ⟨#[255]⟩)], []⟩ .empty
          ["odd", "none", "bad", "none"])
        = [⟨1, .gap "a" 1 none 0⟩]
      ∧ (run ["odd", "-H", "none", "bad", "none"]
          ⟨[(["odd"], "1\tu8\ta".toUTF8), (["bad"], ⟨#[255]⟩)], []⟩ .empty).status = 1
      ∧ (run ["--human", "none", "none", "-H", "bad", "odd"]
          ⟨[(["odd"], "1\tu8\ta".toUTF8), (["bad"], ⟨#[255]⟩)], []⟩ .empty).status = 1 := by
  have hstdin : (∀ a ∈ ["odd", "-H", "none", "bad", "none"], a ∈ switches) →
      ∃ source, decodeText .empty = .ok source :=
    fun h => absurd (h "odd" List.mem_cons_self) (by decide)
  have hfound : foundIn (inputs ⟨[(["odd"], "1\tu8\ta".toUTF8), (["bad"], ⟨#[255]⟩)], []⟩ .empty
      ["odd", "none", "bad", "none"]) = [⟨1, .gap "a" 1 none 0⟩] := by
    decide +kernel
  have hfailed : ∃ i ∈ inputs ⟨[(["odd"], "1\tu8\ta".toUTF8), (["bad"], ⟨#[255]⟩)], []⟩ .empty
      ["odd", "none", "bad", "none"], i.Failed := by
    decide +kernel
  obtain ⟨flags, files, hsorts, -, haccount, hperm⟩ :=
    lints_every_table ["odd", "-H", "none", "bad", "none"]
      ⟨[(["odd"], "1\tu8\ta".toUTF8), (["bad"], ⟨#[255]⟩)], []⟩ .empty hstdin
  obtain rfl : files = ["odd", "none", "bad", "none"] := hsorts.paths_eq.symm.trans (by decide)
  have hstatus := haccount.status.trans (if_pos (Or.inl hfailed))
  have hsorts' : Sorts ["--human", "none", "none", "-H", "bad", "odd"] ["--human", "-H"]
      ["none", "none", "bad", "odd"] :=
    .switch (by decide) (.file (by decide) (.file (by decide) (.switch (by decide)
      (.file (by decide) (.file (by decide) .done)))))
  have hhuman : ForPeople ["--human", "-H"] ↔ ForPeople flags :=
    iff_of_true (by decide) (Or.inr ((hsorts.mem_iff (by decide)).mp (by decide)))
  exact ⟨hstdin, hfound, hstatus,
    (hperm _ _ _ hsorts' (by decide) hhuman).2.2.2.trans hstatus⟩

/-- A finding as it is printed, for programs and for people. -/
example :
    (run ["odd"] ⟨[(["odd"], "1\tu8\ta".toUTF8)], []⟩ .empty).stdout
      = "odd:1: warning: `a` starts at 1 but the record start ends at 0 "
        ++ "(1 unaccounted byte(s)) [gap]\n"
    ∧ (run ["odd", "-H"] ⟨[(["odd"], "1\tu8\ta".toUTF8)], []⟩ .empty).stdout
      = "  odd line 1: `a` starts at 1 but the record start ends at 0 (1 unaccounted byte(s))\n"
        ++ "    rule: gap (warning)\n" := by
  decide +kernel

end PackedRecord.Tool.Lint
