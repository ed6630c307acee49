/-! # Bounded sinks — writing until there is no room

    A sink takes a fixed number of bytes.  A piece of text that does not fit
    is taken as far as it does and fails, and nothing is written after a
    failure. -/

namespace PackedRecord.Code

/-- What takes at most `limit` bytes. -/
structure Sink where
  limit : Nat
  taken : ByteArray

namespace Sink

def empty (limit : Nat) : Sink := ⟨limit, .empty⟩

/-- Writes one piece; true if all of it was taken. -/
def write (sink : Sink) (piece : String) : Sink × Bool :=
  let bytes := piece.toUTF8
  if sink.taken.size + bytes.size ≤ sink.limit then
    (⟨sink.limit, sink.taken ++ bytes⟩, true)
  else
    (⟨sink.limit, sink.taken ++ bytes.extract 0 (sink.limit - sink.taken.size)⟩, false)

/-- Writes pieces up to the first that fails; true if none does. -/
def writeAll (sink : Sink) : List String → Sink × Bool
  | [] => (sink, true)
  | piece :: rest =>
      match sink.write piece with
      | (next, true) => next.writeAll rest
      | (next, false) => (next, false)

end Sink

/-- Bytes as text; a character cut short at the end shows as a replacement
    character. -/
def Sink.text (sink : Sink) : String :=
  match String.fromUTF8? sink.taken with
  | some text => text
  | none =>
      match (List.range' 1 3).findSome? fun k =>
          String.fromUTF8? (sink.taken.extract 0 (sink.taken.size - k)) with
      | some text => text ++ "\uFFFD"
      | none => "\uFFFD"

end PackedRecord.Code
