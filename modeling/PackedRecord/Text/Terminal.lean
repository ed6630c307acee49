/-! # Terminal control — characters that are obeyed, not shown

    A terminal obeys control characters and the sequences that the escape
    character begins; everything else it shows.  White space is shown
    although it is control: where it stands inside a short sequence or a
    control sequence, it is shown with everything behind it that can be, and
    the sequence goes on at the next character that cannot. -/

namespace PackedRecord.Text.Terminal

/-! ## Characters -/

/-- The character that begins a sequence, wherever it stands. -/
def escapeChar : Char := '\x1b'

/-- The characters that end a sequence, wherever they stand. -/
def isCancel (c : Char) : Bool :=
  c == '\x18' || c == '\x1a'

/-- Control characters that are white space. -/
def isBlankControl (c : Char) : Bool :=
  c == '\t' || c == '\n' || c == '\x0c' || c == '\r'

def isWide (c : Char) : Bool :=
  0x80 ≤ c.toNat

/-- Characters that are shown where no sequence is. -/
def isShown (c : Char) : Bool :=
  isWide c || (' ' ≤ c && c ≤ '~') || isBlankControl c

/-- Characters between the beginning of a sequence and its end. -/
def isIntermediate (c : Char) : Bool :=
  ' ' ≤ c && c ≤ '/'

def isShortEnd (c : Char) : Bool :=
  '0' ≤ c && c ≤ '~'

def isFinal (c : Char) : Bool :=
  '@' ≤ c && c ≤ '~'

/-- Characters one of whose bytes is the string terminator. -/
def holdsTerminator (c : Char) : Bool :=
  (String.utf8EncodeChar c).contains 0x9C

/-! ## Sequences -/

/-- Where a text stands with respect to sequences. -/
inductive Place
  | outside
  | escape
  /-- Behind intermediate characters of a short sequence. -/
  | short
  /-- In a control sequence, behind `[`. -/
  | control
  /-- In a system command, behind `]`; only the bell ends it. -/
  | command
  /-- In a string, which only its terminator ends. -/
  | string
  /-- In the head of a device string, behind `P`. -/
  | device
  /-- Behind parameters in the head of a device string. -/
  | deviceParam
  /-- Behind intermediate characters in the head of a device string. -/
  | deviceShort
  deriving DecidableEq, Repr

namespace Place

/-- The place behind the character after the escape character. -/
def ofIntroducer (c : Char) : Place :=
  if isIntermediate c then short
  else if c = '[' then control
  else if c = ']' then command
  else if c = 'P' then device
  else if c = 'X' ∨ c = '^' ∨ c = '_' then string
  else if isShortEnd c then outside
  else escape

/-- The place behind a character that is neither the escape character nor
    ends every sequence. -/
def after : Place → Char → Place
  | outside, _ => outside
  | escape, c => ofIntroducer c
  | short, c => if isShortEnd c then outside else short
  | control, c => if isFinal c then outside else control
  | command, c => if c = '\x07' then outside else command
  | string, c => if holdsTerminator c then outside else string
  | device, c =>
      if isIntermediate c then deviceShort
      else if isFinal c then string
      else if isShortEnd c then deviceParam
      else device
  | deviceParam, c =>
      if isIntermediate c then deviceShort
      else if '<' ≤ c ∧ c ≤ '~' then string
      else deviceParam
  | deviceShort, c => if isShortEnd c then string else deviceShort

/-- White space shows in sequences that are not strings. -/
def showsBlanks : Place → Bool
  | escape => true
  | short => true
  | control => true
  | _ => false

end Place

/-! ## Texts -/

/-- The place that a text has reached, and whether the last character was
    shown. -/
structure State where
  place : Place := .outside
  showing : Bool := true
  deriving DecidableEq, Repr

/-- The state behind a character.  A character outside ASCII that is shown
    ends the sequence in which white space stands. -/
def State.next (s : State) (c : Char) : State :=
  if (s.showing || s.place = .outside) && isShown c then
    { place := if isWide c then .outside else s.place, showing := true }
  else if c = escapeChar then { place := .escape, showing := false }
  else if isCancel c then { place := .outside, showing := false }
  else if s.place.showsBlanks && isBlankControl c then { s with showing := true }
  else { place := s.place.after c, showing := false }

/-- The characters of a text that are shown, from a state on. -/
def shownFrom (s : State) : List Char → List Char
  | [] => []
  | c :: rest =>
      let t := s.next c
      if t.showing then c :: shownFrom t rest else shownFrom t rest

/-- What a terminal shows of a text. -/
def shown (text : String) : String :=
  String.ofList (shownFrom {} text.toList)

end PackedRecord.Text.Terminal
