import PackedRecord.Layout.Finding

/-! # Events — what a run reports besides its result -/

namespace PackedRecord

/-- Something that a run reports on its way. -/
inductive Event
  | tableRead (lines fields comments : Nat)
  | finding (f : Layout.Finding)
  | laidOut (fields comments bytes : Nat)
  deriving DecidableEq, Repr

/-- How much an event matters. -/
inductive Event.Level
  | debug
  | warning
  deriving DecidableEq, Repr

namespace Event

/-- Findings are warnings, the rest is of interest to who looks for a fault. -/
def level : Event → Level
  | finding _ => .warning
  | _ => .debug

def message : Event → String
  | tableRead lines fields comments =>
      "parsed " ++ toString lines ++ " line(s): " ++ toString fields ++ " field(s), "
        ++ toString comments ++ " comment(s)"
  | finding f => f.message
  | laidOut fields comments bytes =>
      "layout: " ++ toString fields ++ " field(s), " ++ toString comments ++ " comment(s), "
        ++ toString bytes ++ " byte(s)"

end Event

/-- A result, and the events on the way to it. -/
structure Traced (α : Type) where
  events : List Event
  result : α

end PackedRecord
