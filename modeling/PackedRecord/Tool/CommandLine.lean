import PackedRecord.Text.Terminal

/-! # Command lines — options, switches and positional arguments

    Arguments are read from the left.  An option that takes a value waits for
    the next argument, unless that one begins with a dash; a value that was
    given this way, and every positional argument, is settled only when the
    next option acts or the next positional argument begins, or at the end.
    Settling asks in this order: is there a value, is it the first one, is it
    acceptable?  An argument that nobody expects is reported at once, whatever
    is still unsettled. -/

namespace PackedRecord.Tool

/-- Why a value is not acceptable. -/
inductive Refusal
  | empty
  | invalid (reason : String)
  deriving DecidableEq, Repr

/-- Something that a command line can give a value to. -/
structure Param where
  label : String
  refusal? : String → Option Refusal

/-- What an option does. -/
inductive Role
  /-- It is given or not. -/
  | switch (label : String)
  | value (param : Param)
  | version (label : String)
  | help (label : String)

/-- An option, by its names. -/
structure CommandOption where
  long : String
  short : Option Char := none
  role : Role

/-- What a command accepts. -/
structure Command where
  name : String
  version : String
  options : List CommandOption
  /-- All of them are required. -/
  positionals : List Param
  /-- Pairs of switches that exclude each other, by label. -/
  exclusive : List (String × String) := []

/-- What is wrong with a command line. -/
inductive UsageError
  | unexpectedArgument (argument : String)
  | unexpectedValue (value label : String)
  | repeated (label : String)
  | missingValue (label : String)
  | invalidValue (value label reason : String)
  | conflict (label other : String)
  | missingArguments (labels : List String)
  deriving DecidableEq, Repr

namespace UsageError

/-- What somebody typed, between quotes and without control sequences. -/
def typed (text : String) : String :=
  "'" ++ Text.Terminal.shown text ++ "'"

/-- The error as text; only the list of missing arguments takes more than one
    line of its own. -/
def message : UsageError → String
  | unexpectedArgument argument => "unexpected argument " ++ typed argument ++ " found"
  | unexpectedValue value label =>
      "unexpected value " ++ typed value ++ " for '" ++ label ++ "' found; no more were expected"
  | repeated label => "the argument '" ++ label ++ "' cannot be used multiple times"
  | missingValue label => "a value is required for '" ++ label ++ "' but none was supplied"
  | invalidValue value label reason =>
      "invalid value " ++ typed value ++ " for '" ++ label ++ "': " ++ reason
  | conflict label other => "the argument '" ++ label ++ "' cannot be used with '" ++ other ++ "'"
  | missingArguments labels =>
      "the following required arguments were not provided:"
        ++ String.join (labels.map fun label => "\n  " ++ label)

end UsageError

/-- Why reading a command line ends early. -/
inductive Stop
  | usage (e : UsageError)
  | version
  | help
  deriving DecidableEq, Repr

/-- How far a command line was read. -/
structure Progress where
  /-- What is settled, in order: labels and values; switches have none. -/
  settled : List (String × String) := []
  /-- What is not settled yet, with its value once there is one. -/
  pending : Option (Param × Option String) := none
  /-- The positional arguments that may still come. -/
  expected : List Param
  /-- After a double dash, options are no longer recognised. -/
  literal : Bool := false

namespace Progress

def record (p : Progress) (param : Param) (value : String) : Except Stop Progress :=
  if (p.settled.lookup param.label).isSome then .error (.usage (.repeated param.label))
  else
    match param.refusal? value with
    | some .empty => .error (.usage (.missingValue param.label))
    | some (.invalid reason) => .error (.usage (.invalidValue value param.label reason))
    | none => .ok { p with settled := p.settled ++ [(param.label, value)] }

def settle (p : Progress) : Except Stop Progress :=
  match p.pending with
  | none => .ok p
  | some (param, none) => .error (.usage (.missingValue param.label))
  | some (param, some value) => { p with pending := none }.record param value

def turnOn (p : Progress) (label : String) : Except Stop Progress := do
  (← p.settle).record ⟨label, fun _ => none⟩ ""

/-- An option that takes a value, which may be attached to it. -/
def take (p : Progress) (param : Param) (attached : Option String) : Except Stop Progress := do
  let p ← p.settle
  match attached with
  | some value => p.record param value
  | none => return { p with pending := some (param, none) }

def position (p : Progress) (argument : String) : Except Stop Progress :=
  match p.expected with
  | [] => .error (.usage (.unexpectedArgument argument))
  | param :: rest => do
      let p ← p.settle
      return { p with pending := some (param, some argument), expected := rest }

end Progress

/-- Ends the reading once everything before is settled. -/
def stopAt (p : Progress) (stop : Stop) : Except Stop Progress := do
  let _ ← p.settle
  .error stop

/-- An option under its long name, `--name` or `--name=value`. -/
def readLong (c : Command) (p : Progress) (text : List Char) : Except Stop Progress :=
  let name := String.ofList (text.takeWhile (· ≠ '='))
  let attached := (text.dropWhile (· ≠ '=')).tail?.map String.ofList
  match c.options.find? (·.long = name) with
  | none => .error (.usage (.unexpectedArgument ("--" ++ name)))
  | some option =>
      match option.role, attached with
      | .value param, _ => p.take param attached
      | .switch label, none => p.turnOn label
      | .version _, none => stopAt p .version
      | .help _, none => stopAt p .help
      | .switch label, some value => .error (.usage (.unexpectedValue value label))
      | .version label, some value => .error (.usage (.unexpectedValue value label))
      | .help label, some value => .error (.usage (.unexpectedValue value label))

/-- The value behind a short option, less the sign that may stand before it. -/
def attachedValue : List Char → Option String
  | [] => none
  | '=' :: value => some (String.ofList value)
  | value => some (String.ofList value)

/-- Options under their short names, several behind one dash; one that takes
    a value takes the rest. -/
def readShort (c : Command) (p : Progress) : List Char → Except Stop Progress
  | [] => .ok p
  | letter :: rest =>
      match c.options.find? (·.short = some letter) with
      | none => .error (.usage (.unexpectedArgument (String.ofList ['-', letter])))
      | some option =>
          match option.role with
          | .value param => p.take param (attachedValue rest)
          | .switch label => do readShort c (← p.turnOn label) rest
          | .version _ => stopAt p .version
          | .help _ => stopAt p .help

def readPlain (p : Progress) (argument : String) : Except Stop Progress :=
  match p.pending, p.literal with
  | some (param, none), false => .ok { p with pending := some (param, some argument) }
  | _, _ => p.position argument

def readArgument (c : Command) (p : Progress) (argument : String) : Except Stop Progress :=
  if p.literal then readPlain p argument
  else
    match argument.toList with
    | ['-', '-'] => .ok { p with literal := true }
    | '-' :: '-' :: text => readLong c p text
    | ['-'] => readPlain p argument
    | '-' :: letters => readShort c p letters
    | _ => readPlain p argument

/-- What a command line gives, by label and in order. -/
structure Given where
  settings : List (String × String)
  deriving DecidableEq, Repr

namespace Given

def value? (g : Given) (label : String) : Option String :=
  g.settings.lookup label

def has (g : Given) (label : String) : Bool :=
  (g.value? label).isSome

/-- What excludes a label, according to a list of pairs. -/
def rivals (exclusive : List (String × String)) (label : String) : List String :=
  exclusive.filterMap fun (a, b) =>
    if a = label then some b else if b = label then some a else none

/-- The first setting that another one excludes, and that other one. -/
def conflict? (g : Given) (exclusive : List (String × String)) : Option (String × String) :=
  g.settings.findSome? fun (label, _) =>
    ((rivals exclusive label).find? g.has).map fun other => (label, other)

end Given

namespace Command

/-- The settings of a command line, or why there are none. -/
def read (c : Command) (arguments : List String) : Except Stop Given := do
  let p ← arguments.foldlM (readArgument c) { expected := c.positionals }
  let given : Given := ⟨(← p.settle).settled⟩
  match given.conflict? c.exclusive with
  | some (label, other) => .error (.usage (.conflict label other))
  | none =>
      if p.expected = [] then .ok given
      else .error (.usage (.missingArguments (p.expected.map (·.label))))

end Command

end PackedRecord.Tool
