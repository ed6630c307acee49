/-! # Splitting text — pieces between separators, and lines

    A text is a list of characters.  `splitWhere` cuts it at every character
    of a class and keeps all pieces, the empty ones too, so that there is
    always one piece more than there are separators; `splitAt` cuts at one
    character.  `lines` reads a text as lines that end in a line feed. -/

namespace PackedRecord.Text

/-- The pieces between the characters that satisfy `p`, in order. -/
def splitWhere (p : Char → Bool) (text : List Char) : List (List Char) :=
  text.foldr (fun c pieces => if p c then [] :: pieces else pieces.modifyHead (c :: ·)) [[]]

/-- The pieces between the occurrences of one character. -/
def splitAt (separator : Char) (text : List Char) : List (List Char) :=
  splitWhere (· == separator) text

@[simp] theorem splitWhere_nil (p : Char → Bool) : splitWhere p [] = [[]] := rfl

theorem splitWhere_cons (p : Char → Bool) (c : Char) (text : List Char) :
    splitWhere p (c :: text)
      = if p c then [] :: splitWhere p text
        else (splitWhere p text).modifyHead (c :: ·) := rfl

/-- A text without separators is one piece, and so is the empty one. -/
theorem splitWhere_ne_nil (p : Char → Bool) (text : List Char) :
    splitWhere p text ≠ [] := by
  cases text with
  | nil => simp
  | cons c rest =>
      rw [splitWhere_cons]
      split
      · simp
      · simpa using splitWhere_ne_nil p rest

/-- The pieces that are not empty, joined by single spaces. -/
def spaced (pieces : List (List Char)) : List Char :=
  [' '].intercalate (pieces.filter (· ≠ []))

/-! ## Lines -/

/-- A line without the carriage return that stands before its line feed. -/
def dropReturn (line : List Char) : List Char :=
  if line.getLast? = some '\r' then line.dropLast else line

/-- Pieces between line feeds read as lines: every piece but the last was
    ended by a line feed, and an empty last piece is no line. -/
def closeLines : List (List Char) → List (List Char)
  | [] => []
  | [last] => if last = [] then [] else [last]
  | line :: rest => dropReturn line :: closeLines rest

/-- The lines of a text.  A carriage return belongs to the line end only if a
    line feed follows it. -/
def lines (text : List Char) : List (List Char) :=
  closeLines (splitAt '\n' text)

end PackedRecord.Text
