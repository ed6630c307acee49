import PackedRecord.Proofs.Tool.Settings
import PackedRecord.Tool.Outcome

/-! # Written command lines — values that can be had

    A command line that gives every option by its long name, with the value
    attached, and the positional arguments behind a double dash, is read as
    the values that it was written for (`exists_read_written`).  Nothing that
    stands in a value or in an argument can change that: a value goes on to the
    end of its argument, and behind the double dash nothing is an option. -/

namespace PackedRecord.Tool

/-- The option as it is written, if its parameter has a value. -/
def CommandOption.written? (o : CommandOption) (value? : String → Option String) : Option String :=
  match o.role with
  | .switch label => (value? label).map fun _ => "--" ++ o.long
  | .value param => (value? param.label).map fun value => "--" ++ o.long ++ "=" ++ value
  | .version _ => none
  | .help _ => none

/-- What a parameter settles, if it has a value. -/
def Param.setting? (value? : String → Option String) (param : Param) : Option (String × String) :=
  (value? param.label).map fun value => (param.label, value)

namespace Command

/-- A command line that gives the values. -/
def written (c : Command) (value? : String → Option String) : List String :=
  c.options.filterMap (·.written? value?) ++ "--" :: c.positionals.filterMap (value? ·.label)

/-- What it settles. -/
def settings (c : Command) (value? : String → Option String) : List (String × String) :=
  c.params.filterMap (·.setting? value?)

/-- Options are told apart by their names, and settings by their labels. -/
structure WellFormed (c : Command) : Prop where
  options : (c.options.map (·.long)).Nodup
  names : ∀ o ∈ c.options, o.long ≠ "" ∧ '=' ∉ o.long.toList
  labels : (c.params.map (·.label)).Nodup

end Command

variable {c : Command} {p : Progress} {value? : String → Option String}

theorem Param.setting?_of_none {param : Param} (h : value? param.label = none) :
    param.setting? value? = none :=
  congrArg (Option.map _) h

theorem Param.setting?_of_some {param : Param} {value : String}
    (h : value? param.label = some value) : param.setting? value? = some (param.label, value) :=
  congrArg (Option.map _) h

namespace Progress

/-- Where nothing is pending there is nothing to settle. -/
theorem settle_of_pending (h : p.pending = none) : p.settle = .ok p := by
  rw [settle, h]

/-- A value is recorded if its label is fresh and it is not refused. -/
theorem record_of_fresh {param : Param} {value : String}
    (hfresh : p.settled.lookup param.label = none) (hrefusal : param.refusal? value = none) :
    p.record param value = .ok (p.settling param.label value) := by
  rw [record, hfresh, hrefusal]
  rfl

end Progress

/-! ## Options -/

/-- Two dashes and something behind them are an option under its long name. -/
theorem readArgument_long {argument : String} {text : List Char} (hliteral : p.literal = false)
    (hargument : argument.toList = '-' :: '-' :: text) (hne : text ≠ []) :
    readArgument c p argument = readLong c p text := by
  obtain ⟨letter, rest, rfl⟩ := List.exists_cons_of_ne_nil hne
  rw [readArgument, hliteral, hargument]
  rfl

theorem readLong_bare {name : String} (hname : '=' ∉ name.toList) {o : CommandOption}
    {label : String} (hfind : c.options.find? (·.long = name) = some o)
    (hrole : o.role = .switch label) : readLong c p name.toList = p.turnOn label := by
  have hall : ∀ x ∈ name.toList, decide (x ≠ '=') = true :=
    fun x hx => decide_eq_true fun h => hname (h ▸ hx)
  have htake : name.toList.takeWhile (· ≠ '=') = name.toList := List.takeWhile_eq_self_iff.mpr hall
  have hdrop : name.toList.dropWhile (· ≠ '=') = [] := List.dropWhile_eq_nil_iff.mpr hall
  rw [readLong, htake, hdrop, String.ofList_toList, hfind]
  simp only [hrole]
  rfl

/-- The value of an option goes on to the end of the argument, whatever stands
    in it. -/
theorem readLong_attached {name value : String} (hname : '=' ∉ name.toList) {o : CommandOption}
    {param : Param} (hfind : c.options.find? (·.long = name) = some o)
    (hrole : o.role = .value param) :
    readLong c p (name.toList ++ '=' :: value.toList) = p.take param (some value) := by
  have hall : ∀ x ∈ name.toList, decide (x ≠ '=') = true :=
    fun x hx => decide_eq_true fun h => hname (h ▸ hx)
  have htake : (name.toList ++ '=' :: value.toList).takeWhile (· ≠ '=') = name.toList := by
    rw [List.takeWhile_append_of_pos hall, List.takeWhile_cons_of_neg (by decide), List.append_nil]
  have hdrop : (name.toList ++ '=' :: value.toList).dropWhile (· ≠ '=') = '=' :: value.toList := by
    rw [List.dropWhile_append_of_pos hall, List.dropWhile_cons_of_neg (by decide)]
  rw [readLong, htake, hdrop, String.ofList_toList, hfind]
  simp only [hrole, List.tail?_cons, Option.map_some, String.ofList_toList]

/-- The option of a name is found by its name. -/
theorem find?_long_eq_some {options : List CommandOption} (h : (options.map (·.long)).Nodup)
    {o : CommandOption} (ho : o ∈ options) : options.find? (·.long = o.long) = some o := by
  have hsome : (options.find? (·.long = o.long)).isSome = true :=
    List.find?_isSome.mpr ⟨o, ho, decide_eq_true rfl⟩
  obtain ⟨found, hfound⟩ := Option.isSome_iff_exists.mp hsome
  have hlong : found.long = o.long := by simpa using List.find?_some hfound
  rw [hfound, List.inj_on_of_nodup_map h (List.mem_of_find?_eq_some hfound) ho hlong]

/-- Labels that are all different are not set before their turn. -/
theorem lookup_eq_none_of_nodup {settled rest : List (String × String)} {label value : String}
    (h : ((settled ++ (label, value) :: rest).map Prod.fst).Nodup) :
    settled.lookup label = none := by
  rw [List.lookup_eq_none_iff]
  intro other hother
  rw [List.map_append, List.nodup_append] at h
  exact bne_iff_ne.mpr (h.2.2 _ (List.mem_map_of_mem hother) _ List.mem_cons_self).symm

/-- A switch that is written is turned on. -/
theorem readArgument_switch (hc : c.WellFormed) {o : CommandOption} {label : String}
    (ho : o ∈ c.options) (hrole : o.role = .switch label) (hpending : p.pending = none)
    (hliteral : p.literal = false) (hfresh : p.settled.lookup label = none) :
    readArgument c p ("--" ++ o.long) = .ok (p.settling label "") := by
  obtain ⟨hne, hequal⟩ := hc.names o ho
  have hargument : ("--" ++ o.long).toList = '-' :: '-' :: o.long.toList := by
    rw [String.toList_append]
    rfl
  have hletters : o.long.toList ≠ [] := fun h => hne (String.toList_eq_nil_iff.mp h)
  rw [readArgument_long hliteral hargument hletters,
    readLong_bare hequal (find?_long_eq_some hc.options ho) hrole, Progress.turnOn,
    Progress.settle_of_pending hpending]
  exact Progress.record_of_fresh hfresh rfl

/-- An option that is written with its value settles it. -/
theorem readArgument_value (hc : c.WellFormed) {o : CommandOption} {param : Param} {value : String}
    (ho : o ∈ c.options) (hrole : o.role = .value param) (hrefusal : param.refusal? value = none)
    (hpending : p.pending = none) (hliteral : p.literal = false)
    (hfresh : p.settled.lookup param.label = none) :
    readArgument c p ("--" ++ o.long ++ "=" ++ value) = .ok (p.settling param.label value) := by
  obtain ⟨-, hequal⟩ := hc.names o ho
  have hargument : ("--" ++ o.long ++ "=" ++ value).toList
      = '-' :: '-' :: (o.long.toList ++ '=' :: value.toList) := by
    simp [String.toList_append]
  have hletters : o.long.toList ++ '=' :: value.toList ≠ [] := by simp
  rw [readArgument_long hliteral hargument hletters,
    readLong_attached hequal (find?_long_eq_some hc.options ho) hrole, Progress.take,
    Progress.settle_of_pending hpending]
  exact Progress.record_of_fresh hfresh hrefusal

/-- A written option is read as what it settles; one that is not written
    settles nothing. -/
theorem read_option (hc : c.WellFormed) (h : c.Accepts value?) {o : CommandOption}
    (ho : o ∈ c.options) :
    (o.written? value? = none ∧ o.role.param?.bind (·.setting? value?) = none)
      ∨ ∃ argument label value, o.written? value? = some argument
          ∧ o.role.param?.bind (·.setting? value?) = some (label, value)
          ∧ ∀ p : Progress, p.pending = none → p.literal = false → p.settled.lookup label = none →
              readArgument c p argument = .ok (p.settling label value) := by
  have hrefusal : ∀ {param value}, o.role.param? = some param → value? param.label = some value →
      param.refusal? value = none :=
    fun hrole => h.refusal? hc.labels (Command.mem_params_of_option ho hrole)
  rw [CommandOption.written?]
  cases hrole : o.role with
  | switch label =>
      cases hvalue : value? label with
      | none => exact Or.inl ⟨congrArg (Option.map _) hvalue, congrArg (Option.map _) hvalue⟩
      | some value =>
          -- a switch has no other value than the one it is given
          have hempty : value = "" := by
            have := hrefusal (congrArg Role.param? hrole) hvalue
            simpa [switchParam] using this
          refine Or.inr ⟨_, label, "", congrArg (Option.map _) hvalue,
            hempty ▸ congrArg (Option.map _) hvalue, ?_⟩
          exact fun p => readArgument_switch hc ho hrole
  | value param =>
      cases hvalue : value? param.label with
      | none => exact Or.inl ⟨congrArg (Option.map _) hvalue, congrArg (Option.map _) hvalue⟩
      | some value =>
          refine Or.inr ⟨_, param.label, value, congrArg (Option.map _) hvalue,
            congrArg (Option.map _) hvalue, ?_⟩
          exact fun p =>
            readArgument_value hc ho hrole (hrefusal (congrArg Role.param? hrole) hvalue)
  | version label => exact Or.inl ⟨rfl, rfl⟩
  | help label => exact Or.inl ⟨rfl, rfl⟩

/-- What the options of a list settle. -/
def optionSettings (options : List CommandOption) (value? : String → Option String) :
    List (String × String) :=
  options.filterMap fun o => o.role.param?.bind (·.setting? value?)

/-- Options that are written are settled in their order. -/
theorem foldlM_options (hc : c.WellFormed) (h : c.Accepts value?) {options : List CommandOption} :
    (∀ o ∈ options, o ∈ c.options) → ∀ {p : Progress}, p.pending = none → p.literal = false →
      ((p.settled ++ optionSettings options value?).map Prod.fst).Nodup →
      (options.filterMap (·.written? value?)).foldlM (readArgument c) p
        = .ok { p with settled := p.settled ++ optionSettings options value? } := by
  induction options with
  | nil =>
      intro _ p _ _ _
      show _ = Except.ok { p with settled := p.settled ++ [] }
      rw [List.append_nil]
      rfl
  | cons o rest ih =>
      intro hall p hpending hliteral hdistinct
      have hrest : ∀ o ∈ rest, o ∈ c.options := fun o h => hall o (List.mem_cons_of_mem _ h)
      rcases read_option hc h (hall o List.mem_cons_self) with
        ⟨hnone, hsetting⟩ | ⟨argument, label, value, hsome, hsetting, hread⟩
      · have hskip : optionSettings (o :: rest) value? = optionSettings rest value? :=
          List.filterMap_cons_none hsetting
        rw [List.filterMap_cons_none (f := fun o : CommandOption => o.written? value?) hnone, hskip]
        exact ih hrest hpending hliteral (hskip ▸ hdistinct)
      · have hmore : optionSettings (o :: rest) value?
            = (label, value) :: optionSettings rest value? :=
          List.filterMap_cons_some hsetting
        rw [hmore] at hdistinct
        have hsettled : (p.settling label value).settled ++ optionSettings rest value?
            = p.settled ++ (label, value) :: optionSettings rest value? :=
          List.append_assoc _ _ _
        rw [List.filterMap_cons_some (f := fun o : CommandOption => o.written? value?) hsome, hmore,
          List.foldlM_cons,
          hread p hpending hliteral (lookup_eq_none_of_nodup hdistinct)]
        show List.foldlM (readArgument c) (p.settling label value) _ = _
        rw [ih (p := p.settling label value) hrest hpending hliteral (hsettled ▸ hdistinct), hsettled]
        rfl

/-! ## Positional arguments -/

/-- Behind a double dash, everything is a positional argument. -/
theorem readPlain_of_literal {argument : String} (h : p.literal = true) :
    readPlain p argument = p.position argument := by
  rw [readPlain, h]
  split
  · contradiction
  · rfl

/-- Behind a double dash the arguments are taken one by one; the last of them
    is still pending at the end. -/
theorem foldlM_positionals {params : List Param} :
    (∀ param ∈ params, ∃ value, value? param.label = some value ∧ param.refusal? value = none) →
      ∀ {p q : Progress}, p.literal = true → p.expected = params → p.settle = .ok q →
      q.literal = true →
      ((q.settled ++ params.filterMap (·.setting? value?)).map Prod.fst).Nodup →
      ∃ p' q', (params.filterMap (value? ·.label)).foldlM (readArgument c) p = .ok p'
        ∧ p'.expected = [] ∧ p'.settle = .ok q'
        ∧ q'.settled = q.settled ++ params.filterMap (·.setting? value?) := by
  induction params with
  | nil =>
      intro _ p q _ hexpected hsettle _ _
      exact ⟨p, q, rfl, hexpected, hsettle, (List.append_nil _).symm⟩
  | cons param rest ih =>
      intro hall p q hliteral hexpected hsettle hqliteral hdistinct
      have hrest : ∀ param ∈ rest, ∃ value, value? param.label = some value
          ∧ param.refusal? value = none :=
        fun param h => hall param (List.mem_cons_of_mem _ h)
      obtain ⟨value, hvalue, hrefusal⟩ := hall param List.mem_cons_self
      rw [List.filterMap_cons_some (Param.setting?_of_some hvalue)] at hdistinct ⊢
      rw [List.filterMap_cons_some (f := fun param : Param => value? param.label) hvalue,
        List.foldlM_cons]
      have hread : readArgument c p value
          = .ok { q with pending := some (param, some value), expected := rest } := by
        rw [readArgument, if_pos hliteral, readPlain_of_literal hliteral, Progress.position,
          hexpected]
        simp only [hsettle]
        rfl
      have hsettle' : Progress.settle { q with pending := some (param, some value), expected := rest }
          = .ok (Progress.settling { q with pending := none, expected := rest } param.label value) :=
        Progress.record_of_fresh (lookup_eq_none_of_nodup hdistinct) hrefusal
      have hsettled : (q.settled ++ [(param.label, value)]) ++ rest.filterMap (·.setting? value?)
          = q.settled ++ (param.label, value) :: rest.filterMap (·.setting? value?) :=
        List.append_assoc _ _ _
      rw [hread]
      obtain ⟨p', q', hrun, hnone, hlast, hgiven⟩ :=
        ih hrest (p := { q with pending := some (param, some value), expected := rest })
          hqliteral rfl hsettle' hqliteral (hsettled ▸ hdistinct)
      exact ⟨p', q', hrun, hnone, hlast, hgiven.trans hsettled⟩

/-! ## Command lines -/

/-- Under labels of their own, parameters have the values that they settle. -/
theorem lookup_settings {params : List Param} (h : (params.map (·.label)).Nodup) (label : String) :
    (params.filterMap (·.setting? value?)).lookup label
      = if label ∈ params.map (·.label) then value? label else none := by
  induction params with
  | nil => rfl
  | cons param rest ih =>
      rw [List.map_cons] at h ⊢
      obtain ⟨hfresh, hrest⟩ := List.nodup_cons.mp h
      have hlookup := ih hrest
      cases hvalue : value? param.label with
      | none =>
          rw [List.filterMap_cons_none (Param.setting?_of_none hvalue), hlookup]
          by_cases hlabel : label = param.label
          · rw [hlabel, if_neg hfresh, if_pos List.mem_cons_self, hvalue]
          · exact if_congr (by simp [hlabel]) rfl rfl
      | some value =>
          rw [List.filterMap_cons_some (Param.setting?_of_some hvalue)]
          by_cases hlabel : label = param.label
          · rw [hlabel, List.lookup_cons_self, if_pos List.mem_cons_self, hvalue]
          · rw [List.lookup_cons, beq_eq_false_iff_ne.mpr hlabel]
            exact hlookup.trans (if_congr (by simp [hlabel]) rfl rfl)

/-- Settings are labelled in the order of their parameters. -/
theorem labels_settings (params : List Param) :
    ((params.filterMap (·.setting? value?)).map Prod.fst).Sublist (params.map (·.label)) := by
  induction params with
  | nil => exact List.Sublist.slnil
  | cons param rest ih =>
      cases hvalue : value? param.label with
      | none =>
          rw [List.filterMap_cons_none (Param.setting?_of_none hvalue)]
          exact ih.cons _
      | some value =>
          rw [List.filterMap_cons_some (Param.setting?_of_some hvalue)]
          exact ih.cons_cons _

/-- What a command line settles: first its options, then its positional
    arguments. -/
theorem settings_eq (c : Command) (value? : String → Option String) :
    c.settings value?
      = optionSettings c.options value? ++ c.positionals.filterMap (·.setting? value?) := by
  rw [Command.settings, Command.params, List.filterMap_append, List.filterMap_filterMap]
  rfl

/-- **WRITTEN VALUES ARE READ**: the command line that gives accepted values is
    read as these values. -/
theorem exists_read_written (hc : c.WellFormed) (h : c.Accepts value?) :
    ∃ g, c.read (c.written value?) = .ok g ∧ g.value? = value? := by
  have hvalue : (⟨c.settings value?⟩ : Given).value? = value? := by
    funext label
    rw [Given.value?, Command.settings, lookup_settings hc.labels]
    split
    · rfl
    · next hunknown =>
        -- what is no label of a parameter has no value
        cases hlabel : value? label with
        | none => rfl
        | some value =>
            obtain ⟨param, hparam, rfl, -⟩ := h.values label value hlabel
            exact absurd (List.mem_map_of_mem hparam) hunknown
  have hdistinct : ((c.settings value?).map Prod.fst).Nodup :=
    (labels_settings c.params).nodup hc.labels
  rw [settings_eq] at hdistinct
  have hoptions := foldlM_options hc h (fun _ ho => ho) (p := { expected := c.positionals })
    rfl rfl (by rw [List.map_append] at hdistinct; exact hdistinct.of_append_left)
  have hpositionals : ∀ param ∈ c.positionals, ∃ value, value? param.label = some value
      ∧ param.refusal? value = none := by
    intro param hparam
    obtain ⟨value, hvalue⟩ := h.positionals param hparam
    exact ⟨value, hvalue, h.refusal? hc.labels (List.mem_append_right _ hparam) hvalue⟩
  obtain ⟨p', q', hrun, hnone, hlast, hgiven⟩ := foldlM_positionals (c := c) hpositionals
    (p := { settled := optionSettings c.options value?, expected := c.positionals, literal := true })
    rfl rfl rfl rfl hdistinct
  have hread : (c.written value?).foldlM (readArgument c) { expected := c.positionals } = .ok p' := by
    rw [Command.written, List.foldlM_append, hoptions]
    exact hrun
  have hsettled : q'.settled = c.settings value? := hgiven.trans (settings_eq c value?).symm
  have hconflict : (⟨c.settings value?⟩ : Given).conflict? c.exclusive = none := by
    rw [Given.conflict?_eq_none_iff]
    intro label other hpair
    rw [Given.has, Given.has, hvalue]
    exact h.exclusive label other hpair
  refine ⟨⟨c.settings value?⟩, ?_, hvalue⟩
  rw [Command.read, hread]
  show (p'.settle >>= _) = _
  rw [hlast]
  simp only [bind, Except.bind, hsettled, hconflict, if_pos hnone]

/-- **ACCEPTED IS WHAT CAN BE READ.** -/
theorem accepts_iff_exists_read (hc : c.WellFormed) (value? : String → Option String) :
    c.Accepts value? ↔ ∃ arguments g, c.read arguments = .ok g ∧ g.value? = value? := by
  constructor
  · exact fun h => ⟨c.written value?, exists_read_written hc h⟩
  · rintro ⟨arguments, g, hread, rfl⟩
    exact accepts_of_read hread

/-! ## Switches and paths -/

/-- The value of a switch. -/
def switched (on : Bool) : Option String :=
  if on then some "" else none

@[simp]
theorem isSome_switched (on : Bool) : (switched on).isSome = on := by
  cases on <;> rfl

theorem refusal?_switched {on : Bool} {label value : String} (h : switched on = some value) :
    (switchParam label).refusal? value = none := by
  cases on with
  | false => exact nomatch h
  | true =>
      obtain rfl := Option.some.inj h
      rfl

/-- Every path is accepted that is not empty. -/
theorem refusal?_pathParam {label value : String} :
    (pathParam label).refusal? value = none ↔ value ≠ "" := by
  show (if value = "" then some Refusal.empty else none) = none ↔ _
  split <;> simp_all

end PackedRecord.Tool
