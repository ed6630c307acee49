/-! # File errors — why a file's text cannot be had -/

namespace PackedRecord

/-- What goes wrong with a path or with what is in a file. -/
inductive FileError
  | notFound
  | notDirectory
  | isDirectory
  | nameTooLong
  /-- The bytes are no UTF-8 text. -/
  | notText
  deriving DecidableEq, Repr

namespace FileError

/-- The error in words, with the number that the system gives it. -/
def message : FileError → String
  | notFound => "No such file or directory (os error 2)"
  | notDirectory => "Not a directory (os error 20)"
  | isDirectory => "Is a directory (os error 21)"
  | nameTooLong => "File name too long (os error 36)"
  | notText => "stream did not contain valid UTF-8"

end FileError

def decodeText (bytes : ByteArray) : Except FileError String :=
  match String.fromUTF8? bytes with
  | some text => .ok text
  | none => .error .notText

end PackedRecord
