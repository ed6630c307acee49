import PackedRecord.Proofs.Table.Literals
import PackedRecord.Proofs.Text.Digits
import PackedRecord.Proofs.Tool.Written
import PackedRecord.Tool.Generate

/-! # Choices — what the flags of the generator select

    Every command line that the generator reads selects one choice
    (`selects_ofGiven`), and every choice that makes sense is selected by some
    command line (`possible_iff_exists_selects`): values go through as they
    are, the three ways of checking offsets and the two visibilities are told
    apart by switches, and an indentation is a decimal that was read before
    anything else was done. -/

namespace PackedRecord.Tool.Generate

/-- The choice that values of the parameters select. -/
structure Selects (value? : String → Option String) (choice : Choice) : Prop where
  name : value? "<NAME>" = some choice.name
  path : value? "<FILE>" = some choice.path
  output : choice.output = value? "--output <PATH>"
  strict : choice.policy = .strict ↔ (value? "--strict-offsets").isSome = true
  ignore : choice.policy = .ignore ↔ (value? "--no-offset-check").isSome = true
  visibility : choice.options.visibility
    = if (value? "--pub").isSome then .exported else .crateWide
  indent : readIndent ((value? "--indent <INDENT>").getD "2") = .ok choice.options.indent
  header : choice.options.header = value? "--header <TEXT>"
  verbose : choice.verbose = (value? "--verbose").isSome

/-- A choice that a command line can make. -/
structure Choice.Possible (choice : Choice) : Prop where
  path : choice.path ≠ ""
  output : choice.output ≠ some ""
  visibility : choice.options.visibility ≠ .hidden
  indent : choice.options.indent < Text.bound64

/-! ## The parameters of the command -/

/-- Everything that the generator can be told. -/
theorem params_command : command.params =
    [pathParam "--output <PATH>", switchParam "--strict-offsets", switchParam "--no-offset-check",
      switchParam "--pub", indentParam, textParam "--header <TEXT>", switchParam "--verbose",
      textParam "<NAME>", pathParam "<FILE>"] := rfl

/-- No two options of the generator have one name, and no two settings one
    label. -/
theorem wellFormed_command : command.WellFormed where
  options := by decide
  names := by decide
  labels := by
    rw [params_command]
    decide

/-- An indentation is accepted exactly if it can be read. -/
theorem refusal?_indentParam {text : String} :
    indentParam.refusal? text = none ↔ ∃ n, readIndent text = .ok n := by
  simp only [indentParam]
  cases readIndent text <;> simp

/-- Accepted values are not refused by the parameters of the command. -/
theorem refusal?_of_accepts {value? : String → Option String} (h : command.Accepts value?) :
    ∀ param ∈ command.params, ∀ value, value? param.label = some value →
      param.refusal? value = none :=
  fun _ hparam _ => h.refusal? wellFormed_command.labels hparam

/-! ## From values to choices -/

theorem policy_eq_strict_iff (g : Given) :
    (Choice.ofGiven g).policy = .strict ↔ g.has "--strict-offsets" = true := by
  rw [Choice.ofGiven]
  split_ifs <;> simp [*]

/-- With both switches the stricter one would decide. -/
theorem policy_eq_ignore_iff (g : Given) : (Choice.ofGiven g).policy = .ignore
    ↔ ¬ g.has "--strict-offsets" = true ∧ g.has "--no-offset-check" = true := by
  rw [Choice.ofGiven]
  split_ifs <;> simp [*]

/-- The choice that accepted settings make is the one that they select. -/
theorem selects_ofGiven {g : Given} (h : command.Accepts g.value?) :
    Selects g.value? (.ofGiven g) where
  name := by
    obtain ⟨name, hname⟩ := h.positionals (textParam "<NAME>") (by simp [command])
    have hvalue : g.value? "<NAME>" = some name := hname
    rw [hvalue, Choice.ofGiven, hvalue]
    rfl
  path := by
    obtain ⟨path, hpath⟩ := h.positionals (pathParam "<FILE>") (by simp [command])
    have hvalue : g.value? "<FILE>" = some path := hpath
    rw [hvalue, Choice.ofGiven, hvalue]
    rfl
  output := rfl
  strict := policy_eq_strict_iff g
  ignore := by
    have hexclusive := h.exclusive "--strict-offsets" "--no-offset-check" (by simp [command])
    exact (policy_eq_ignore_iff g).trans
      (and_iff_right_of_imp fun hignore hstrict => hexclusive ⟨hstrict, hignore⟩)
  visibility := rfl
  indent := by
    rw [Choice.ofGiven]
    cases htext : g.value? "--indent <INDENT>" with
    | none => rfl
    | some text =>
        obtain ⟨n, hn⟩ := refusal?_indentParam.mp
          (refusal?_of_accepts h indentParam (by simp [params_command]) text htext)
        rw [Option.map_some, Option.getD_some, hn]
  header := rfl
  verbose := rfl

/-- Values select no two choices. -/
theorem Selects.unique {value? : String → Option String} {choice choice' : Choice}
    (h : Selects value? choice) (h' : Selects value? choice') : choice = choice' := by
  have hstrict := h.strict.trans h'.strict.symm
  have hignore := h.ignore.trans h'.ignore.symm
  obtain ⟨name, path, output, policy, ⟨visibility, indent, header⟩, verbose⟩ := choice
  obtain ⟨name', path', output', policy', ⟨visibility', indent', header'⟩, verbose'⟩ := choice'
  obtain rfl : name = name' := Option.some.inj (h.name.symm.trans h'.name)
  obtain rfl : path = path' := Option.some.inj (h.path.symm.trans h'.path)
  obtain rfl : output = output' := h.output.trans h'.output.symm
  obtain rfl : visibility = visibility' := h.visibility.trans h'.visibility.symm
  obtain rfl : indent = indent' := Except.ok.inj (h.indent.symm.trans h'.indent)
  obtain rfl : header = header' := h.header.trans h'.header.symm
  obtain rfl : verbose = verbose' := h.verbose.trans h'.verbose.symm
  obtain rfl : policy = policy' := by
    cases policy <;> cases policy' <;> simp_all
  rfl

/-- What is selected by values that are accepted makes sense. -/
theorem Selects.possible {value? : String → Option String} {choice : Choice}
    (hselects : Selects value? choice) (h : command.Accepts value?) : choice.Possible where
  path := refusal?_pathParam.mp
    (refusal?_of_accepts h (pathParam "<FILE>") (by simp [params_command]) _ hselects.path)
  output := by
    intro hempty
    have hrefusal := refusal?_of_accepts h (pathParam "--output <PATH>") (by simp [params_command])
      "" (hselects.output.symm.trans hempty)
    exact refusal?_pathParam.mp hrefusal rfl
  visibility := by
    rw [hselects.visibility]
    split <;> decide
  indent := Text.readNat_lt (by decide) hselects.indent

/-! ## From choices to values -/

namespace Choice

/-- The values that make a choice. -/
def value? (choice : Choice) : String → Option String
  | "<NAME>" => some choice.name
  | "<FILE>" => some choice.path
  | "--output <PATH>" => choice.output
  | "--strict-offsets" => switched (choice.policy = .strict)
  | "--no-offset-check" => switched (choice.policy = .ignore)
  | "--pub" => switched (choice.options.visibility = .exported)
  | "--indent <INDENT>" => some (toString choice.options.indent)
  | "--header <TEXT>" => choice.options.header
  | "--verbose" => switched choice.verbose
  | _ => none

theorem readIndent_toString {n : Nat} (h : n < Text.bound64) : readIndent (toString n) = .ok n := by
  rw [readIndent, Nat.toString_eq_ofList_toDigits, String.toList_ofList]
  exact Text.readNat_toDigits (by decide) (by decide) h

/-- The values of a choice select it. -/
theorem selects_value? {choice : Choice} (h : choice.Possible) : Selects choice.value? choice where
  name := rfl
  path := rfl
  output := rfl
  strict := by
    show _ ↔ (switched _).isSome = true
    rw [isSome_switched, decide_eq_true_iff]
  ignore := by
    show _ ↔ (switched _).isSome = true
    rw [isSome_switched, decide_eq_true_iff]
  visibility := by
    show _ = if (switched _).isSome then _ else _
    rw [isSome_switched]
    have hhidden := h.visibility
    cases hvisibility : choice.options.visibility with
    | hidden => exact absurd hvisibility hhidden
    | crateWide => rfl
    | exported => rfl
  indent := readIndent_toString h.indent
  header := rfl
  verbose := (isSome_switched choice.verbose).symm

/-- The values of a choice that makes sense are accepted. -/
theorem accepts_value? {choice : Choice} (h : choice.Possible) : command.Accepts choice.value? where
  values := by
    intro label value hvalue
    rw [params_command]
    unfold value? at hvalue
    split at hvalue
    · exact ⟨textParam "<NAME>", by simp, rfl, rfl⟩
    · obtain rfl := Option.some.inj hvalue
      exact ⟨pathParam "<FILE>", by simp, rfl, refusal?_pathParam.mpr h.path⟩
    · have hne : value ≠ "" := fun hempty => h.output (hempty ▸ hvalue)
      exact ⟨pathParam "--output <PATH>", by simp, rfl, refusal?_pathParam.mpr hne⟩
    · exact ⟨switchParam "--strict-offsets", by simp, rfl, refusal?_switched hvalue⟩
    · exact ⟨switchParam "--no-offset-check", by simp, rfl, refusal?_switched hvalue⟩
    · exact ⟨switchParam "--pub", by simp, rfl, refusal?_switched hvalue⟩
    · obtain rfl := Option.some.inj hvalue
      exact ⟨indentParam, by simp, rfl, refusal?_indentParam.mpr ⟨_, readIndent_toString h.indent⟩⟩
    · exact ⟨textParam "--header <TEXT>", by simp, rfl, rfl⟩
    · exact ⟨switchParam "--verbose", by simp, rfl, refusal?_switched hvalue⟩
    · exact nomatch hvalue
  positionals := by
    intro param hparam
    rcases List.mem_cons.mp hparam with rfl | hparam
    · exact ⟨choice.name, rfl⟩
    · rw [List.mem_singleton.mp hparam]
      exact ⟨choice.path, rfl⟩
  exclusive := by
    intro label other hpair
    obtain ⟨rfl, rfl⟩ := Prod.mk.inj (List.mem_singleton.mp hpair)
    show ¬ ((switched _).isSome = true ∧ (switched _).isSome = true)
    rw [isSome_switched, isSome_switched, decide_eq_true_iff, decide_eq_true_iff]
    rintro ⟨hstrict, hignore⟩
    exact nomatch hstrict.symm.trans hignore

end Choice

/-- **CHOICES ARE WHAT CAN BE SELECTED.** -/
theorem possible_iff_exists_selects (choice : Choice) :
    choice.Possible ↔ ∃ arguments g, command.read arguments = .ok g ∧ Selects g.value? choice := by
  constructor
  · intro h
    obtain ⟨arguments, g, hread, hvalue⟩ :=
      (accepts_iff_exists_read wellFormed_command _).mp (Choice.accepts_value? h)
    exact ⟨arguments, g, hread, hvalue ▸ Choice.selects_value? h⟩
  · rintro ⟨arguments, g, hread, hselects⟩
    exact hselects.possible (accepts_of_read hread)

end PackedRecord.Tool.Generate
