import PackedRecord.Layout.Entry

/-! # Findings — where declared offsets disagree

    Going through the entries in order, a field should start where the field
    before it was declared to end, the first one at byte zero.  A later start
    is a gap, an earlier one an overlap.  Apart from that, a declared offset
    should be a multiple of the element width. -/

namespace PackedRecord.Layout

/-- What is odd about a declared offset. -/
inductive Cause
  /-- Starts after the expected byte. -/
  | gap (name : String) (offset : Nat) (previous : Option String) (expected : Nat)
  /-- Starts before the expected byte. -/
  | overlap (name : String) (offset : Nat) (previous : Option String) (expected : Nat)
  /-- Starts at no multiple of its element width. -/
  | misaligned (name : String) (kind : Scalar.Kind) (offset : Nat)
  deriving DecidableEq, Repr

/-- How grave a finding is. -/
inductive Severity
  | error
  | warning
  deriving DecidableEq, Repr

namespace Severity

def text : Severity → String
  | error => "error"
  | warning => "warning"

end Severity

namespace Cause

def rule : Cause → String
  | gap .. => "gap"
  | overlap .. => "overlap"
  | misaligned .. => "misaligned"

/-- Overlaps lose data, the rest is only odd. -/
def severity : Cause → Severity
  | overlap .. => .error
  | _ => .warning

/-- Gaps and overlaps mean that declared offsets and packed positions part. -/
def disagrees : Cause → Bool
  | misaligned .. => false
  | _ => true

def message : Cause → String
  | gap name offset previous expected =>
      "`" ++ name ++ "` starts at " ++ toString offset ++ " but "
        ++ (match previous with
            | some p => "`" ++ p ++ "`"
            | none => "the record start")
        ++ " ends at " ++ toString expected
        ++ " (" ++ toString (offset - expected) ++ " unaccounted byte(s))"
  | overlap name offset previous expected =>
      "`" ++ name ++ "` starts at " ++ toString offset ++ " inside `" ++ previous.getD ""
        ++ "`, which ends at " ++ toString expected
  | misaligned name kind offset =>
      "`" ++ name ++ "` (" ++ kind.name ++ ") at offset " ++ toString offset ++ " is not "
        ++ toString kind.byteWidth ++ "-byte aligned"

end Cause

/-- A cause and the table line that it is about. -/
structure Finding where
  line : Nat
  cause : Cause
  deriving DecidableEq, Repr

namespace Finding

def disagrees (f : Finding) : Bool :=
  f.cause.disagrees

def message (f : Finding) : String :=
  "line " ++ toString f.line ++ ": " ++ f.cause.message

end Finding

/-! ## Looking at entries -/

def contiguity (expected : Nat) (previous : Option String) (e : Entry) : List Finding :=
  if expected < e.offset then [⟨e.line, .gap e.name e.offset previous expected⟩]
  else if e.offset < expected then [⟨e.line, .overlap e.name e.offset previous expected⟩]
  else []

def alignment (e : Entry) : List Finding :=
  if e.offset % e.kind.byteWidth ≠ 0 then [⟨e.line, .misaligned e.name e.kind e.offset⟩] else []

/-- The findings about a run of entries, of which the first should start at
    `expected`, the end of the entry named `previous`. -/
def findingsFrom (expected : Nat) (previous : Option String) : List Entry → List Finding
  | [] => []
  | e :: rest =>
      contiguity expected previous e ++ alignment e
        ++ findingsFrom e.declaredEnd (some e.name) rest

end PackedRecord.Layout
