import PackedRecord.Proofs.Outcomes
import PackedRecord.Tool.CommandLine

/-! # Settings — what an accepted command line has settled

    `Moves` says once what reading an argument can do: settle what is pending,
    give an option its value at once, wait for a value, take an argument.  Every
    argument is read by such moves (`run_of_readArgument`), so that what a move
    keeps holds of every command line that is read: no parameter has a value
    that it refuses, and no positional argument is missing. -/

namespace PackedRecord.Tool

/-- A switch as a parameter, whose value says nothing. -/
def switchParam (label : String) : Param :=
  ⟨label, fun value => if value = "" then none else some (.invalid "")⟩

/-- What a role can settle. -/
def Role.param? : Role → Option Param
  | .switch label => some (switchParam label)
  | .value param => some param
  | .version _ => none
  | .help _ => none

/-- Everything that a command line can settle. -/
def Command.params (c : Command) : List Param :=
  c.options.filterMap (·.role.param?) ++ c.positionals

theorem Command.mem_params_of_option {c : Command} {o : CommandOption} {param : Param}
    (ho : o ∈ c.options) (hrole : o.role.param? = some param) : param ∈ c.params :=
  List.mem_append_left _ (List.mem_filterMap.mpr ⟨o, ho, hrole⟩)

namespace Progress

/-- With one more setting. -/
def settling (p : Progress) (label value : String) : Progress :=
  { p with settled := p.settled ++ [(label, value)] }

/-- What reading a command line does, move by move. -/
inductive Moves (c : Command) : Progress → Progress → Prop
  | settle {p : Progress} {param : Param} {value : String} :
      p.pending = some (param, some value) → param.refusal? value = none →
      Moves c p ({ p with pending := none }.settling param.label value)
  /-- A switch, or an option with its value attached. -/
  | give {p : Progress} {param : Param} {value : String} :
      p.pending = none → param ∈ c.params → param.refusal? value = none →
      Moves c p (p.settling param.label value)
  /-- An option whose value is the next argument. -/
  | await {p : Progress} {param : Param} :
      p.pending = none → param ∈ c.params → Moves c p { p with pending := some (param, none) }
  | answer {p : Progress} {param : Param} (argument : String) :
      p.pending = some (param, none) →
      Moves c p { p with pending := some (param, some argument) }
  | position {p : Progress} {param : Param} {rest : List Param} (argument : String) :
      p.pending = none → p.expected = param :: rest →
      Moves c p { p with pending := some (param, some argument), expected := rest }
  /-- Behind a double dash. -/
  | literal (p : Progress) : Moves c p { p with literal := true }

/-- Any number of moves. -/
def Run (c : Command) : Progress → Progress → Prop :=
  Relation.ReflTransGen (Moves c)

variable {c : Command} {p p' : Progress}

/-! ## Steps are moves -/

/-- A value that is recorded was not refused, and is settled last. -/
theorem record_eq_ok {param : Param} {value : String} (h : p.record param value = .ok p') :
    param.refusal? value = none ∧ p' = p.settling param.label value := by
  rw [record] at h
  split at h
  · exact nomatch h
  · cases hrefusal : param.refusal? value with
    | none =>
        rw [hrefusal] at h
        exact ⟨rfl, (Except.ok.inj h).symm⟩
    | some refusal =>
        rw [hrefusal] at h
        cases refusal <;> exact nomatch h

/-- Settling leaves nothing pending. -/
theorem settle_eq_ok (c : Command) (h : p.settle = .ok p') :
    Run c p p' ∧ p'.pending = none ∧ p'.expected = p.expected := by
  rw [settle] at h
  split at h
  · next hpending =>
      obtain rfl := Except.ok.inj h
      exact ⟨Relation.ReflTransGen.refl, hpending, rfl⟩
  · exact nomatch h
  · next param value hpending =>
      obtain ⟨hrefusal, rfl⟩ := record_eq_ok h
      exact ⟨Relation.ReflTransGen.single (Moves.settle hpending hrefusal), rfl, rfl⟩

theorem run_of_turnOn {o : CommandOption} {label : String} (ho : o ∈ c.options)
    (hrole : o.role = .switch label) (h : p.turnOn label = .ok p') : Run c p p' := by
  obtain ⟨q, hq, h⟩ := Outcome.of_bind_ok h
  obtain ⟨hrun, hpending, -⟩ := settle_eq_ok c hq
  obtain ⟨-, rfl⟩ := record_eq_ok h
  have hparam : switchParam label ∈ c.params :=
    Command.mem_params_of_option ho (by rw [hrole]; rfl)
  have hmove : Moves c q (q.settling (switchParam label).label "") :=
    Moves.give hpending hparam rfl
  exact hrun.tail hmove

theorem run_of_take {o : CommandOption} {param : Param} {attached : Option String}
    (ho : o ∈ c.options) (hrole : o.role = .value param) (h : p.take param attached = .ok p') :
    Run c p p' := by
  obtain ⟨q, hq, h⟩ := Outcome.of_bind_ok h
  obtain ⟨hrun, hpending, -⟩ := settle_eq_ok c hq
  have hparam : param ∈ c.params :=
    Command.mem_params_of_option ho (by rw [hrole]; rfl)
  cases attached with
  | none =>
      obtain rfl := Except.ok.inj h
      exact hrun.tail (Moves.await hpending hparam)
  | some value =>
      obtain ⟨hrefusal, rfl⟩ := record_eq_ok h
      exact hrun.tail (Moves.give hpending hparam hrefusal)

theorem run_of_position {argument : String} (c : Command) (h : p.position argument = .ok p') :
    Run c p p' := by
  rw [position] at h
  split at h
  · exact nomatch h
  · next param rest hexpected =>
      obtain ⟨q, hq, h⟩ := Outcome.of_bind_ok h
      obtain ⟨hrun, hpending, hsame⟩ := settle_eq_ok c hq
      obtain rfl := Except.ok.inj h
      exact hrun.tail (Moves.position argument hpending (hsame.trans hexpected))

end Progress

open Progress (Run Moves)

variable {c : Command} {p p' : Progress}

/-- Reading that stops has no progress to go on from. -/
theorem stopAt_ne_ok {stop : Stop} : stopAt p stop ≠ .ok p' := by
  intro h
  obtain ⟨q, -, h⟩ := Outcome.of_bind_ok h
  exact nomatch h

theorem run_of_readLong {text : List Char} (h : readLong c p text = .ok p') : Run c p p' := by
  rw [readLong] at h
  split at h
  · exact nomatch h
  · next o ho =>
      have hmem := List.mem_of_find?_eq_some ho
      split at h
      · next param hrole => exact Progress.run_of_take hmem hrole h
      · next label hrole _ => exact Progress.run_of_turnOn hmem hrole h
      · exact absurd h stopAt_ne_ok
      · exact absurd h stopAt_ne_ok
      · exact nomatch h
      · exact nomatch h
      · exact nomatch h

/-- Options under their short names are read by moves, one letter after another. -/
theorem run_of_readShort {letters : List Char} :
    ∀ {p : Progress}, readShort c p letters = .ok p' → Run c p p' := by
  induction letters with
  | nil =>
      intro p h
      obtain rfl := Except.ok.inj h
      exact Relation.ReflTransGen.refl
  | cons letter rest ih =>
      intro p h
      rw [readShort] at h
      split at h
      · exact nomatch h
      · next o ho =>
          have hmem := List.mem_of_find?_eq_some ho
          split at h
          · next param hrole => exact Progress.run_of_take hmem hrole h
          · next label hrole =>
              obtain ⟨q, hq, h⟩ := Outcome.of_bind_ok h
              exact (Progress.run_of_turnOn hmem hrole hq).trans (ih h)
          · exact absurd h stopAt_ne_ok
          · exact absurd h stopAt_ne_ok

theorem run_of_readPlain {argument : String} (c : Command) (h : readPlain p argument = .ok p') :
    Run c p p' := by
  rw [readPlain] at h
  split at h
  · next param hpending _ =>
      obtain rfl := Except.ok.inj h
      exact Relation.ReflTransGen.single (Moves.answer argument hpending)
  · exact Progress.run_of_position c h

/-- **EVERY ARGUMENT IS READ BY MOVES**, whatever it looks like. -/
theorem run_of_readArgument {argument : String} (h : readArgument c p argument = .ok p') :
    Run c p p' := by
  rw [readArgument] at h
  split at h
  · exact run_of_readPlain c h
  · split at h
    · obtain rfl := Except.ok.inj h
      exact Relation.ReflTransGen.single (Moves.literal p)
    · exact run_of_readLong h
    · exact run_of_readPlain c h
    · exact run_of_readShort h
    · exact run_of_readPlain c h

theorem run_of_foldlM {arguments : List String} :
    ∀ {p : Progress}, arguments.foldlM (readArgument c) p = .ok p' → Run c p p' := by
  induction arguments with
  | nil =>
      intro p h
      obtain rfl := Except.ok.inj h
      exact Relation.ReflTransGen.refl
  | cons argument rest ih =>
      intro p h
      rw [List.foldlM_cons] at h
      obtain ⟨q, hq, h⟩ := Outcome.of_bind_ok h
      exact (run_of_readArgument hq).trans (ih h)

/-! ## What moves keep -/

namespace Progress

/-- Nothing refused is settled, and every positional argument is settled,
    pending or still expected. -/
structure Sound (c : Command) (p : Progress) : Prop where
  settled : ∀ label value, (label, value) ∈ p.settled →
    ∃ param ∈ c.params, param.label = label ∧ param.refusal? value = none
  pending : ∀ param value?, p.pending = some (param, value?) → param ∈ c.params
  expected : ∀ param ∈ p.expected, param ∈ c.positionals
  positional : ∀ param ∈ c.positionals, param ∈ p.expected
    ∨ (∃ value?, p.pending = some (param, value?)) ∨ ∃ value, (param.label, value) ∈ p.settled

/-- Before the first argument every positional one is still expected. -/
theorem sound_start (c : Command) : Sound c { expected := c.positionals } where
  settled := fun _ _ h => nomatch h
  pending := fun _ _ h => nomatch h
  expected := fun _ h => h
  positional := fun _ h => Or.inl h

/-- A setting more, of a parameter that accepts it. -/
theorem Sound.settling_settled {param : Param} {value : String} (h : p.Sound c)
    (hparam : param ∈ c.params) (hrefusal : param.refusal? value = none) :
    ∀ label value', (label, value') ∈ (p.settling param.label value).settled →
      ∃ param ∈ c.params, param.label = label ∧ param.refusal? value' = none := by
  intro label value' hmem
  rcases List.mem_append.mp hmem with hmem | hmem
  · exact h.settled label value' hmem
  · obtain ⟨rfl, rfl⟩ := Prod.mk.inj (List.mem_singleton.mp hmem)
    exact ⟨param, hparam, rfl, hrefusal⟩

/-- A move settles only what is not refused, and loses no positional argument. -/
theorem Moves.sound (h : Moves c p p') (hp : p.Sound c) : p'.Sound c := by
  cases h with
  | @settle param value hpending hrefusal =>
      refine ⟨hp.settling_settled (hp.pending _ _ hpending) hrefusal, fun _ _ h => (nomatch h),
        hp.expected, ?_⟩
      intro other hother
      rcases hp.positional other hother with h | ⟨value?, h⟩ | ⟨v, h⟩
      · exact Or.inl h
      · -- what was pending is settled now
        obtain ⟨rfl, -⟩ := Prod.mk.inj (Option.some.inj (hpending.symm.trans h))
        exact Or.inr (Or.inr ⟨value, List.mem_append_right _ (List.mem_singleton_self _)⟩)
      · exact Or.inr (Or.inr ⟨v, List.mem_append_left _ h⟩)
  | give hpending hparam hrefusal =>
      refine ⟨hp.settling_settled hparam hrefusal, hp.pending, hp.expected, ?_⟩
      intro other hother
      rcases hp.positional other hother with h | h | ⟨v, h⟩
      · exact Or.inl h
      · exact Or.inr (Or.inl h)
      · exact Or.inr (Or.inr ⟨v, List.mem_append_left _ h⟩)
  | await hpending hparam =>
      refine ⟨hp.settled, ?_, hp.expected, ?_⟩
      · intro param value? h
        obtain ⟨rfl, -⟩ := Prod.mk.inj (Option.some.inj h)
        exact hparam
      · intro other hother
        rcases hp.positional other hother with h | ⟨value?, h⟩ | h
        · exact Or.inl h
        · exact nomatch hpending.symm.trans h
        · exact Or.inr (Or.inr h)
  | @answer param argument hpending =>
      refine ⟨hp.settled, ?_, hp.expected, ?_⟩
      · intro param' value? h
        obtain ⟨rfl, -⟩ := Prod.mk.inj (Option.some.inj h)
        exact hp.pending _ _ hpending
      · intro other hother
        rcases hp.positional other hother with h | ⟨value?, h⟩ | h
        · exact Or.inl h
        · obtain ⟨rfl, -⟩ := Prod.mk.inj (Option.some.inj (hpending.symm.trans h))
          exact Or.inr (Or.inl ⟨_, rfl⟩)
        · exact Or.inr (Or.inr h)
  | @position param rest argument hpending hexpected =>
      have hparam : param ∈ c.positionals :=
        hp.expected param (hexpected ▸ List.mem_cons_self)
      refine ⟨hp.settled, ?_, fun other h => hp.expected other (hexpected ▸ List.mem_cons_of_mem _ h),
        ?_⟩
      · intro param' value? h
        obtain ⟨rfl, -⟩ := Prod.mk.inj (Option.some.inj h)
        exact List.mem_append_right _ hparam
      · intro other hother
        rcases hp.positional other hother with h | ⟨value?, h⟩ | h
        · rcases List.mem_cons.mp (hexpected ▸ h) with rfl | h
          · exact Or.inr (Or.inl ⟨_, rfl⟩)
          · exact Or.inl h
        · exact nomatch hpending.symm.trans h
        · exact Or.inr (Or.inr h)
  | literal => exact ⟨hp.settled, hp.pending, hp.expected, hp.positional⟩

/-- What a move keeps, any number of moves keep. -/
theorem Run.sound (h : Run c p p') (hp : p.Sound c) : p'.Sound c := by
  induction h with
  | refl => exact hp
  | tail _ hmove ih => exact hmove.sound ih

end Progress

/-! ## Accepted command lines -/

namespace Given

theorem value?_eq_some {g : Given} {label value : String} (h : g.value? label = some value) :
    (label, value) ∈ g.settings := by
  obtain ⟨before, after, hsettings, -⟩ := List.lookup_eq_some_iff.mp h
  rw [hsettings]
  exact List.mem_append_right _ List.mem_cons_self

/-- A label is given exactly if there is a setting of it. -/
theorem has_iff (g : Given) (label : String) :
    g.has label = true ↔ ∃ value, (label, value) ∈ g.settings := by
  rw [has, value?, List.lookup_isSome_iff]
  constructor
  · rintro ⟨⟨name, value⟩, hmem, hname⟩
    obtain rfl := eq_of_beq hname
    exact ⟨value, hmem⟩
  · rintro ⟨value, hmem⟩
    exact ⟨(label, value), hmem, beq_self_eq_true label⟩

/-- What excludes a label stands beside it in a pair. -/
theorem mem_rivals {exclusive : List (String × String)} {label other : String} :
    other ∈ rivals exclusive label → (label, other) ∈ exclusive ∨ (other, label) ∈ exclusive := by
  intro h
  obtain ⟨⟨a, b⟩, hpair, hother⟩ := List.mem_filterMap.mp h
  simp only at hother
  split at hother
  · next ha =>
      obtain rfl := Option.some.inj hother
      exact Or.inl (ha ▸ hpair)
  · split at hother
    · next hb =>
        obtain rfl := Option.some.inj hother
        exact Or.inr (hb ▸ hpair)
    · exact nomatch hother

/-- Without a conflict no two labels of a pair are both set, and the other way
    round. -/
theorem conflict?_eq_none_iff {g : Given} {exclusive : List (String × String)} :
    g.conflict? exclusive = none
      ↔ ∀ label other, (label, other) ∈ exclusive → ¬ (g.has label = true ∧ g.has other = true) := by
  constructor
  · rintro h label other hpair ⟨hlabel, hother⟩
    obtain ⟨value, hmem⟩ := (g.has_iff label).mp hlabel
    have hrival : other ∈ rivals exclusive label :=
      List.mem_filterMap.mpr ⟨(label, other), hpair, if_pos rfl⟩
    have hnone := List.findSome?_eq_none_iff.mp h (label, value) hmem
    have hfind := List.find?_eq_none.mp (Option.map_eq_none_iff.mp hnone) other hrival
    exact hfind hother
  · intro h
    refine List.findSome?_eq_none_iff.mpr fun ⟨label, value⟩ hmem => ?_
    have hlabel : g.has label = true := (g.has_iff label).mpr ⟨value, hmem⟩
    refine Option.map_eq_none_iff.mpr (List.find?_eq_none.mpr fun other hrival hother => ?_)
    rcases mem_rivals hrival with hpair | hpair
    · exact h label other hpair ⟨hlabel, hother⟩
    · exact h other label hpair ⟨hother, hlabel⟩

end Given

namespace Command

/-- Values under which a command can be run: each of a parameter that does not
    refuse it, none missing, and no two that exclude each other. -/
structure Accepts (c : Command) (value? : String → Option String) : Prop where
  values : ∀ label value, value? label = some value →
    ∃ param ∈ c.params, param.label = label ∧ param.refusal? value = none
  positionals : ∀ param ∈ c.positionals, ∃ value, value? param.label = some value
  exclusive : ∀ label other, (label, other) ∈ c.exclusive →
    ¬ ((value? label).isSome = true ∧ (value? other).isSome = true)

/-- Under a label of its own, a parameter has no value that it refuses. -/
theorem Accepts.refusal? {value? : String → Option String} (h : c.Accepts value?)
    (hdistinct : (c.params.map (·.label)).Nodup) {param : Param} (hparam : param ∈ c.params)
    {value : String} (hvalue : value? param.label = some value) : param.refusal? value = none := by
  obtain ⟨other, hother, hlabel, hrefusal⟩ := h.values _ _ hvalue
  rwa [← List.inj_on_of_nodup_map hdistinct hother hparam hlabel]

end Command

/-- **NOTHING ELSE IS READ**: the values of a command line that is read are
    accepted. -/
theorem accepts_of_read {arguments : List String} {g : Given} (h : c.read arguments = .ok g) :
    c.Accepts g.value? := by
  obtain ⟨p, hp, h⟩ := Outcome.of_bind_ok h
  obtain ⟨q, hq, h⟩ := Outcome.of_bind_ok h
  obtain ⟨hrun, hpending, hexpected⟩ := Progress.settle_eq_ok c hq
  have hsound : q.Sound c :=
    Progress.Run.sound ((run_of_foldlM hp).trans hrun) (Progress.sound_start c)
  simp only at h
  split at h
  · exact nomatch h
  · next hconflict =>
      split at h
      · next hnone =>
          obtain rfl := Except.ok.inj h
          refine ⟨fun label value hvalue => hsound.settled label value (Given.value?_eq_some hvalue),
            fun param hparam => ?_, Given.conflict?_eq_none_iff.mp hconflict⟩
          rcases hsound.positional param hparam with hmem | ⟨value?, hwaiting⟩ | hsettled
          · rw [hexpected, hnone] at hmem
            exact nomatch hmem
          · exact nomatch hpending.symm.trans hwaiting
          · exact Option.isSome_iff_exists.mp ((Given.has_iff ⟨q.settled⟩ _).mpr hsettled)
      · exact nomatch h

end PackedRecord.Tool
