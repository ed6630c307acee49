import PackedRecord.Proofs.Text.Numerals
import PackedRecord.Proofs.Tool.Written
import PackedRecord.Tool.Show

/-! # Starts — what the flags of the dumper select

    The start of a record is written in decimal or, behind a mark, in
    hexadecimal (`readStart_eq_ok_iff`), and every number of 64 bits can be
    written either way.  Every command line that the dumper reads selects one
    choice (`selects_ofGiven`), and every choice that makes sense is selected
    under every spelling of its start (`exists_selects`). -/

namespace PackedRecord.Tool.Show

open Text (IsNumber)

/-! ## Where the record starts -/

/-- A number of 64 bits: decimal, or hexadecimal behind a mark. -/
def StartLiteral (text : String) (n : Nat) : Prop :=
  n < 2 ^ 64 ∧ (IsNumber 10 text.toList n
    ∨ ∃ mark digits, (mark = "0x" ∨ mark = "0X") ∧ text.toList = mark.toList ++ digits
        ∧ IsNumber 16 digits n)

/-- The decimal spelling of a number, and the hexadecimal ones. -/
def spellings (n : Nat) : List String :=
  [toString n, "0x" ++ Text.hex n, "0X" ++ Text.hex n]

/-- A marked text is hexadecimal, since no decimal number begins with a mark. -/
theorem startLiteral_marked_iff {text mark : String} {digits : List Char} {n : Nat}
    (hmark : mark = "0x" ∨ mark = "0X") (htext : text.toList = mark.toList ++ digits) :
    StartLiteral text n ↔ n < 2 ^ 64 ∧ IsNumber 16 digits n := by
  refine and_congr_right fun _ => ?_
  rw [htext]
  constructor
  · rintro (hdecimal | ⟨mark', digits', hmark', heq, hn⟩)
    · rcases hmark with rfl | rfl
      · exact absurd hdecimal (Text.not_isNumber_marked (by decide) (Or.inl rfl) digits n)
      · exact absurd hdecimal (Text.not_isNumber_marked (by decide) (Or.inr rfl) digits n)
    · rcases hmark with rfl | rfl <;> rcases hmark' with rfl | rfl <;> simp_all
  · intro hn
    exact Or.inr ⟨mark, digits, hmark, rfl, hn⟩

/-- Without a mark, a start is a decimal. -/
theorem startLiteral_plain_iff {text : String} {n : Nat}
    (hlower : ∀ digits, text.toList ≠ '0' :: 'x' :: digits)
    (hupper : ∀ digits, text.toList ≠ '0' :: 'X' :: digits) :
    StartLiteral text n ↔ n < 2 ^ 64 ∧ IsNumber 10 text.toList n := by
  refine and_congr_right fun _ => ⟨?_, Or.inl⟩
  rintro (hdecimal | ⟨mark, digits, rfl | rfl, heq, -⟩)
  · exact hdecimal
  · exact absurd heq (hlower digits)
  · exact absurd heq (hupper digits)

/-- **STARTS ARE READ** exactly if they are literals. -/
theorem readStart_eq_ok_iff {text : String} {n : Nat} :
    readStart text = .ok n ↔ StartLiteral text n := by
  have hbound : (2 ^ 64 : Nat) = Text.bound64 := rfl
  rw [readStart]
  split
  · next digits htext =>
      rw [startLiteral_marked_iff (Or.inl rfl) htext, hbound,
        Text.readNat_eq_ok_iff (by decide) (by decide)]
  · next digits htext =>
      rw [startLiteral_marked_iff (Or.inr rfl) htext, hbound,
        Text.readNat_eq_ok_iff (by decide) (by decide)]
  · next hlower hupper =>
      rw [startLiteral_plain_iff hlower hupper, hbound,
        Text.readNat_eq_ok_iff (by decide) (by decide)]

theorem isNumber_toDigits {base n : Nat} (hbase : 1 < base) (hsixteen : base ≤ 16) :
    IsNumber base (Nat.toDigits base n) n :=
  ((Text.readNat_eq_ok_iff hsixteen (Nat.succ_pos n) _).mp
    (Text.readNat_toDigits hbase hsixteen (Nat.lt_succ_self n))).2

/-- Every spelling of a number is read as the number. -/
theorem startLiteral_of_mem_spellings {n : Nat} (h : n < 2 ^ 64) :
    ∀ text ∈ spellings n, StartLiteral text n := by
  have hhex : ∀ mark, mark = "0x" ∨ mark = "0X" → StartLiteral (mark ++ Text.hex n) n := by
    intro mark hmark
    have htext : (mark ++ Text.hex n).toList = mark.toList ++ Nat.toDigits 16 n := by
      rw [String.toList_append, Text.hex, String.toList_ofList]
    exact (startLiteral_marked_iff hmark htext).mpr ⟨h, isNumber_toDigits (by decide) (by decide)⟩
  simp only [spellings, List.forall_mem_cons, List.not_mem_nil, false_implies, implies_true,
    and_true]
  refine ⟨⟨h, Or.inl ?_⟩, hhex _ (Or.inl rfl), hhex _ (Or.inr rfl)⟩
  rw [Nat.toString_eq_ofList_toDigits, String.toList_ofList]
  exact isNumber_toDigits (by decide) (by decide)

/-! ## Choices -/

/-- The choice that values of the parameters select. -/
structure Selects (value? : String → Option String) (choice : Choice) : Prop where
  table : value? "<TABLE>" = some choice.table
  binary : value? "<BINARY>" = some choice.binary
  start : readStart ((value? "--offset <OFFSET>").getD "0") = .ok choice.start
  order : choice.order = if (value? "--big-endian").isSome then .big else .little
  verbose : choice.verbose = (value? "--verbose").isSome

/-- A choice that a command line can make. -/
structure Choice.Possible (choice : Choice) : Prop where
  table : choice.table ≠ ""
  binary : choice.binary ≠ ""
  start : choice.start < 2 ^ 64

/-- Everything that the dumper can be told. -/
theorem params_command : command.params =
    [startParam, switchParam "--big-endian", switchParam "--verbose", pathParam "<TABLE>",
      pathParam "<BINARY>"] := rfl

theorem wellFormed_command : command.WellFormed where
  options := by decide
  names := by decide
  labels := by
    rw [params_command]
    decide

/-- A start is accepted exactly if it can be read. -/
theorem refusal?_startParam {text : String} :
    startParam.refusal? text = none ↔ ∃ n, readStart text = .ok n := by
  simp only [startParam]
  cases readStart text <;> simp

/-- The choice that accepted settings make is the one that they select. -/
theorem selects_ofGiven {g : Given} (h : command.Accepts g.value?) :
    Selects g.value? (.ofGiven g) where
  table := by
    obtain ⟨path, hpath⟩ := h.positionals (pathParam "<TABLE>") (by simp [command])
    have hvalue : g.value? "<TABLE>" = some path := hpath
    rw [hvalue, Choice.ofGiven, hvalue]
    rfl
  binary := by
    obtain ⟨path, hpath⟩ := h.positionals (pathParam "<BINARY>") (by simp [command])
    have hvalue : g.value? "<BINARY>" = some path := hpath
    rw [hvalue, Choice.ofGiven, hvalue]
    rfl
  start := by
    rw [Choice.ofGiven]
    cases htext : g.value? "--offset <OFFSET>" with
    | none => rfl
    | some text =>
        have haccepted : startParam.refusal? text = none :=
          h.refusal? wellFormed_command.labels (by simp [params_command]) htext
        obtain ⟨n, hn⟩ := refusal?_startParam.mp haccepted
        rw [Option.map_some, Option.getD_some, hn]
  order := rfl
  verbose := rfl

/-- Values select no two choices. -/
theorem Selects.unique {value? : String → Option String} {choice choice' : Choice}
    (h : Selects value? choice) (h' : Selects value? choice') : choice = choice' := by
  obtain ⟨table, binary, start, order, verbose⟩ := choice
  obtain ⟨table', binary', start', order', verbose'⟩ := choice'
  obtain rfl : table = table' := Option.some.inj (h.table.symm.trans h'.table)
  obtain rfl : binary = binary' := Option.some.inj (h.binary.symm.trans h'.binary)
  obtain rfl : start = start' := Except.ok.inj (h.start.symm.trans h'.start)
  obtain rfl : order = order' := h.order.trans h'.order.symm
  obtain rfl : verbose = verbose' := h.verbose.trans h'.verbose.symm
  rfl

/-- The values that make a choice, with the start as it is to be written. -/
def Choice.value? (choice : Choice) (start : String) : String → Option String
  | "<TABLE>" => some choice.table
  | "<BINARY>" => some choice.binary
  | "--offset <OFFSET>" => some start
  | "--big-endian" => switched (choice.order = .big)
  | "--verbose" => switched choice.verbose
  | _ => none

section

variable {choice : Choice} {start : String}

/-- The values of a choice select it, under every spelling of its start. -/
theorem selects_value? (h : readStart start = .ok choice.start) :
    Selects (choice.value? start) choice where
  table := rfl
  binary := rfl
  start := h
  order := by
    show _ = if (switched _).isSome then _ else _
    rw [isSome_switched]
    cases choice.order <;> rfl
  verbose := (isSome_switched choice.verbose).symm

/-- The values of a choice that makes sense are accepted, under every spelling
    of its start. -/
theorem accepts_value? (hpossible : choice.Possible) (h : readStart start = .ok choice.start) :
    command.Accepts (choice.value? start) where
  values := by
    intro label value hvalue
    rw [params_command]
    unfold Choice.value? at hvalue
    split at hvalue
    · obtain rfl := Option.some.inj hvalue
      exact ⟨pathParam "<TABLE>", by simp, rfl, refusal?_pathParam.mpr hpossible.table⟩
    · obtain rfl := Option.some.inj hvalue
      exact ⟨pathParam "<BINARY>", by simp, rfl, refusal?_pathParam.mpr hpossible.binary⟩
    · obtain rfl := Option.some.inj hvalue
      exact ⟨startParam, by simp, rfl, refusal?_startParam.mpr ⟨_, h⟩⟩
    · exact ⟨switchParam "--big-endian", by simp, rfl, refusal?_switched hvalue⟩
    · exact ⟨switchParam "--verbose", by simp, rfl, refusal?_switched hvalue⟩
    · exact nomatch hvalue
  positionals := by
    intro param hparam
    rcases List.mem_cons.mp hparam with rfl | hparam
    · exact ⟨choice.table, rfl⟩
    · rw [List.mem_singleton.mp hparam]
      exact ⟨choice.binary, rfl⟩
  exclusive := by
    intro label other hpair
    exact nomatch hpair

/-- A choice can be made under every spelling of its start. -/
theorem exists_selects (hpossible : choice.Possible) (h : StartLiteral start choice.start) :
    ∃ arguments g, command.read arguments = .ok g
      ∧ g.value? "--offset <OFFSET>" = some start ∧ Selects g.value? choice := by
  have hstart := readStart_eq_ok_iff.mpr h
  obtain ⟨arguments, g, hread, hvalue⟩ :=
    (accepts_iff_exists_read wellFormed_command _).mp (accepts_value? hpossible hstart)
  exact ⟨arguments, g, hread, by rw [hvalue]; rfl, hvalue ▸ selects_value? hstart⟩

end

end PackedRecord.Tool.Show
