import PackedRecord.Proofs.Stages
import PackedRecord.Proofs.Tool.Choices
import PackedRecord.Proofs.Tool.Files

/-! # Generating — all or nothing

    A run of the generator reads one table, compiles it, and only then hands
    something over: the whole program, to standard output or to a file.  If
    any of this fails, nothing was printed and no file is different from what
    it was.  A file that is written may be the table itself, under the same
    path or another one: the table was read to its end before. -/

namespace PackedRecord.Tool.Generate

open Directory (parts Writable)

/-- The table of a choice has this text. -/
def Choice.Reads (choice : Choice) (d : Directory) (stdin : ByteArray) (source : String) : Prop :=
  if choice.path = "-" then stdin = source.toUTF8 else d.read choice.path = .ok source.toUTF8

instance (choice : Choice) (d : Directory) (stdin : ByteArray) (source : String) :
    Decidable (choice.Reads d stdin source) :=
  inferInstanceAs (Decidable (if choice.path = "-" then stdin = source.toUTF8
    else d.read choice.path = .ok source.toUTF8))

/-- The program text of a table under the options of a choice. -/
def Choice.compiled (choice : Choice) (source : String) : Except CompileError String :=
  compile choice.name source choice.policy choice.options

/-! ## Outcomes -/

/-- The run failed and left nothing behind. -/
structure Nothing (d : Directory) (o : Outcome) : Prop where
  status : o.status = 1
  stdout : o.stdout = ""
  directory : o.directory = d

/-- The run printed the code. -/
structure Printed (d : Directory) (code : String) (o : Outcome) : Prop where
  status : o.status = 0
  stdout : o.stdout = code
  directory : o.directory = d

/-- The run wrote the code to the file that a path denotes.  Every path to its
    place finds the code there; under all other paths there is what was there
    before. -/
structure Written (d : Directory) (path : String) (place : List String) (code : String)
    (o : Outcome) : Prop where
  status : o.status = 0
  stdout : o.stdout = ""
  file : o.directory.read path = .ok code.toUTF8
  same : ∀ other, d.follow other (parts other) = .ok place →
    o.directory.read other = .ok code.toUTF8
  others : ∀ other found, d.follow other (parts other) ≠ .ok place →
    (o.directory.read other = .ok found ↔ d.read other = .ok found)
  folders : ∀ p, o.directory.isFolder p = d.isFolder p

/-- What a run leaves behind, for everything that may happen on its way. -/
structure AllOrNothing (choice : Choice) (d : Directory) (stdin : ByteArray) (o : Outcome) :
    Prop where
  unread : (∀ source, ¬ choice.Reads d stdin source) → Nothing d o
  refused : ∀ source e, choice.Reads d stdin source → choice.compiled source = .error e →
    Nothing d o
  printed : ∀ source code, choice.Reads d stdin source → choice.compiled source = .ok code →
    choice.output = none → Printed d code o
  written : ∀ source code path place, choice.Reads d stdin source →
    choice.compiled source = .ok code → choice.output = some path → d.Writable path place →
    Written d path place code o
  unwritable : ∀ path, choice.output = some path → (∀ place, ¬ d.Writable path place) →
    Nothing d o

variable {choice : Choice} {d : Directory} {stdin : ByteArray}

/-! ## The steps of a run -/

/-- The table that is read is the one that the choice names, if it is text. -/
theorem readTable_eq_ok_iff {source : String} :
    readTable d stdin choice.path = .ok source ↔ choice.Reads d stdin source := by
  rw [readTable, Choice.Reads]
  split
  · exact Outcome.mapError_eq_ok_iff.trans decodeText_eq_ok_iff
  · exact Outcome.mapError_eq_ok_iff.trans Directory.readText_eq_ok_iff

/-- One step after another, each behind the success of those before it. -/
theorem result_compileTable :
    (compileTable choice d stdin).result
      = readTable d stdin choice.path >>= fun source =>
          (choice.compiled source).mapError (.ofCompile choice.path) >>= deliver d choice.output := by
  rw [compileTable]
  cases readTable d stdin choice.path with
  | error failure => rfl
  | ok source => rfl

/-- What is handed over is the code of the table, and nothing else. -/
theorem result_eq_ok_iff {handed : String × Directory} :
    (compileTable choice d stdin).result = .ok handed
      ↔ ∃ source code, choice.Reads d stdin source ∧ choice.compiled source = .ok code
          ∧ deliver d choice.output code = .ok handed := by
  rw [result_compileTable]
  constructor
  · intro h
    obtain ⟨source, hsource, h⟩ := Outcome.of_bind_ok h
    obtain ⟨code, hcode, h⟩ := Outcome.of_bind_ok h
    exact ⟨source, code, readTable_eq_ok_iff.mp hsource, Outcome.of_mapError_ok hcode, h⟩
  · rintro ⟨source, code, hreads, hcode, hdeliver⟩
    rw [readTable_eq_ok_iff.mpr hreads]
    show (choice.compiled source).mapError _ >>= _ = _
    rw [hcode]
    exact hdeliver

/-- Code is delivered to a file exactly if the file can be written. -/
theorem deliver_file_eq_ok_iff {path code : String} {handed : String × Directory} :
    deliver d (some path) code = .ok handed
      ↔ ∃ place, d.Writable path place ∧ handed = ("", d.put place code.toUTF8) := by
  rw [deliver]
  constructor
  · intro h
    split at h
    · next after hafter =>
        obtain ⟨place, hplace, rfl⟩ := Directory.writeText_eq_ok_iff.mp hafter
        exact ⟨place, hplace, (Except.ok.inj h).symm⟩
    · exact nomatch h
  · rintro ⟨place, hplace, rfl⟩
    rw [Directory.writeText_eq_ok_iff.mpr ⟨place, hplace, rfl⟩]

/-- A run that has nothing to hand over leaves nothing behind. -/
theorem nothing_of_result (h : ∀ handed, (compileTable choice d stdin).result ≠ .ok handed) :
    Nothing d (runChoice choice d stdin) := by
  cases hresult : (compileTable choice d stdin).result with
  | error failure =>
      rw [runChoice, hresult]
      exact ⟨rfl, rfl, rfl⟩
  | ok handed => exact absurd hresult (h handed)

/-! ## Runs -/

/-- A table has no two texts. -/
theorem Choice.Reads.unique {source source' : String} (h : choice.Reads d stdin source)
    (h' : choice.Reads d stdin source') : source = source' :=
  Except.ok.inj ((readTable_eq_ok_iff.mpr h).symm.trans (readTable_eq_ok_iff.mpr h'))

/-- Code that compiles is printed unless a file is asked for. -/
theorem printed_runChoice {source code : String} (hreads : choice.Reads d stdin source)
    (hcode : choice.compiled source = .ok code) (houtput : choice.output = none) :
    Printed d code (runChoice choice d stdin) := by
  have hresult : (compileTable choice d stdin).result = .ok (code, d) :=
    result_eq_ok_iff.mpr ⟨source, code, hreads, hcode, by rw [houtput]; rfl⟩
  rw [runChoice, hresult]
  exact ⟨rfl, rfl, rfl⟩

/-- Code that compiles is written to the file that is asked for, if it can be. -/
theorem written_runChoice {source code path : String} {place : List String}
    (hreads : choice.Reads d stdin source) (hcode : choice.compiled source = .ok code)
    (houtput : choice.output = some path) (hplace : d.Writable path place) :
    Written d path place code (runChoice choice d stdin) := by
  have hdeliver : deliver d choice.output code = .ok ("", d.put place code.toUTF8) := by
    rw [houtput]
    exact deliver_file_eq_ok_iff.mpr ⟨place, hplace, rfl⟩
  have hresult : (compileTable choice d stdin).result = .ok ("", d.put place code.toUTF8) :=
    result_eq_ok_iff.mpr ⟨source, code, hreads, hcode, hdeliver⟩
  have hread := Directory.read_put hplace code.toUTF8
  rw [runChoice, hresult]
  exact {
    status := rfl
    stdout := rfl
    file := (hread path _).mpr (by rw [if_pos hplace.1])
    same := fun other hother => (hread other _).mpr (by rw [if_pos hother])
    others := fun other found hother => by
      have := hread other found
      rwa [if_neg hother] at this
    folders := fun p => by
      obtain ⟨-, parent, name, rfl, hparent⟩ := Directory.exists_parent_of_follow hplace.1 hplace.2
      exact Directory.isFolder_put hparent _ p }

/-- Whatever is chosen, a run hands over everything or nothing. -/
theorem allOrNothing_runChoice (choice : Choice) (d : Directory) (stdin : ByteArray) :
    AllOrNothing choice d stdin (runChoice choice d stdin) where
  unread := by
    intro hunread
    refine nothing_of_result fun handed hresult => ?_
    obtain ⟨source, -, hreads, -⟩ := result_eq_ok_iff.mp hresult
    exact hunread source hreads
  refused := by
    intro source e hreads hrefused
    refine nothing_of_result fun handed hresult => ?_
    obtain ⟨source', code, hreads', hcode, -⟩ := result_eq_ok_iff.mp hresult
    rw [← hreads.unique hreads', hrefused] at hcode
    exact nomatch hcode
  printed := fun _ _ => printed_runChoice
  written := fun _ _ _ _ => written_runChoice
  unwritable := by
    intro path houtput hunwritable
    refine nothing_of_result fun handed hresult => ?_
    obtain ⟨source, code, -, -, hdeliver⟩ := result_eq_ok_iff.mp hresult
    rw [houtput] at hdeliver
    obtain ⟨place, hplace, -⟩ := deliver_file_eq_ok_iff.mp hdeliver
    exact hunwritable place hplace

/-- **ALL OR NOTHING**: a command line that is read selects a choice, and the
    run either hands over the code of the whole table under this choice, to
    where it was asked to, or fails and leaves everything as it was.  Every
    choice can be selected. -/
theorem generates_all_or_nothing :
    (∀ arguments given d stdin, command.read arguments = .ok given →
      ∃ choice, Selects given.value? choice ∧ AllOrNothing choice d stdin (run arguments d stdin))
    ∧ ∀ choice : Choice, choice.Possible →
        ∃ arguments given, command.read arguments = .ok given ∧ Selects given.value? choice := by
  constructor
  · intro arguments given d stdin hread
    refine ⟨.ofGiven given, selects_ofGiven (accepts_of_read hread), ?_⟩
    rw [run, hread]
    exact allOrNothing_runChoice _ d stdin
  · exact fun choice hpossible => (possible_iff_exists_selects choice).mp hpossible

/-- A directory with one table. -/
def oneTable : Directory where
  files := [(["t"], "0\tu8\ta\n".toUTF8)]

/-- The code of a table takes the place of the table. -/
theorem generates_all_or_nothing_in_place :
    ∃ given code,
      command.read ["R", "t", "--output=./t", "--pub", "--strict-offsets"] = .ok given
      ∧ compile "R" "0\tu8\ta\n" .strict { visibility := .exported } = .ok code
      ∧ Written oneTable "./t" ["t"] code
          (run ["R", "t", "--output=./t", "--pub", "--strict-offsets"] oneTable .empty)
      ∧ (run ["R", "t", "--output=./t", "--pub", "--strict-offsets"] oneTable
          .empty).directory.read "t" = .ok code.toUTF8 := by
  have hread : command.read ["R", "t", "--output=./t", "--pub", "--strict-offsets"]
      = .ok ⟨[("<NAME>", "R"), ("<FILE>", "t"), ("--output <PATH>", "./t"), ("--pub", ""),
          ("--strict-offsets", "")]⟩ := by
    decide +kernel
  obtain ⟨choice, hselects, h⟩ := generates_all_or_nothing.1 _ _ oneTable .empty hread
  obtain rfl := hselects.unique (selects_ofGiven (accepts_of_read hread))
  have hcompiles : (compile "R" "0\tu8\ta\n" .strict { visibility := .exported }).isOk = true := by
    decide +kernel
  cases hcode : compile "R" "0\tu8\ta\n" .strict { visibility := .exported } with
  | error e =>
      rw [hcode] at hcompiles
      exact nomatch hcompiles
  | ok code =>
      have hplace : oneTable.Writable "./t" ["t"] := by
        constructor <;> decide +kernel
      have hwritten := h.written "0\tu8\ta\n" code "./t" ["t"] (by decide +kernel) hcode rfl hplace
      exact ⟨_, code, hread, rfl, hwritten, hwritten.same "t" (by decide +kernel)⟩

/-- The header, the indentation and the checks follow the command line: the code
    stands under the one, is indented by the other, and without checks nothing
    is said about the gap before the field. -/
example :
    (run ["--header", "Made.", "--no-offset-check", "--indent=4", "R", "t"]
        ⟨[(["t"], "1\tu8\ta".toUTF8)], []⟩ .empty).stderr = ""
    ∧ (run ["--header", "Made.", "--no-offset-check", "--indent=4", "R", "t"]
        ⟨[(["t"], "1\tu8\ta".toUTF8)], []⟩ .empty).stdout
      = "// Made.\n\n#[derive(Debug, Clone, Copy, PartialEq, Eq)]\npub(crate) struct R \x7b\n"
        ++ "    pub(crate) a: u8, // 1 - 2\n\x7d\n\nimpl R \x7b\n"
        ++ "    pub(crate) const WIDTH: usize = 1;\n\n"
        ++ "    /// Reads every field at its packed position in native byte order.\n"
        ++ "    fn from_native(block: &[u8; Self::WIDTH]) -> Self \x7b\n        Self \x7b\n"
        ++ "            a: block[0],\n        \x7d\n    \x7d\n\x7d\n\n"
        ++ "impl From<&[u8; R::WIDTH]> for R \x7b\n    #[cfg(target_endian = \"little\")]\n"
        ++ "    fn from(block: &[u8; Self::WIDTH]) -> Self \x7b\n"
        ++ "        Self::from_native(block)\n    \x7d\n\n    #[cfg(target_endian = \"big\")]\n"
        ++ "    fn from(block: &[u8; Self::WIDTH]) -> Self \x7b\n"
        ++ "        Self::from_native(block)\n    \x7d\n\x7d\n"
    ∧ (run ["R", "t"] ⟨[(["t"], "1\tu8\ta".toUTF8)], []⟩ .empty).stderr
      = "[WARN ] line 1: `a` starts at 1 but the record start ends at 0 "
        ++ "(1 unaccounted byte(s))\n" := by
  decide +kernel

end PackedRecord.Tool.Generate
